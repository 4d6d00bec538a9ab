import Mathlib.Data.List.GetD
import Mathlib.Tactic

/-!
# Compressed sparse rows

The targets of a list of edges, grouped by source in one array: the edges of each source are
counted, the sums of the counts are the offsets of the groups, and each edge is written at the next
free place of its group. The group of a source then holds the targets of its edges in their order.
-/

/-- `offsets[s] .. offsets[s + 1]` is the range of `s` in `targets`. -/
structure Csr where
  offsets : List ℕ
  targets : List ℕ

namespace Csr

open List

def counts (n : ℕ) (edges : List (ℕ × ℕ)) : List ℕ :=
  edges.foldl (fun counts edge => counts.modify edge.1 (· + 1)) (List.replicate n 0)

/-- The offsets of the groups, and the end of the last one. -/
def prefixSums (counts : List ℕ) : List ℕ := counts.scanl (· + ·) 0

/-- The loop variables of the fill: the targets and how many edges each group has. -/
def fill (offsets : List ℕ) (state : List ℕ × List ℕ) (edge : ℕ × ℕ) : List ℕ × List ℕ :=
  (state.1.set (offsets.getD edge.1 0 + state.2.getD edge.1 0) edge.2,
    state.2.modify edge.1 (· + 1))

def build (n : ℕ) (edges : List (ℕ × ℕ)) : Csr :=
  let offsets := prefixSums (counts n edges)
  ⟨offsets, (edges.foldl (fill offsets)
    (List.replicate edges.length 0, List.replicate n 0)).1⟩

def neighbors (csr : Csr) (node : ℕ) : List ℕ :=
  let start := csr.offsets.getD node 0
  (csr.targets.drop start).take (csr.offsets.getD (node + 1) 0 - start)

/-! ### Counts and offsets -/

section Build

variable {n s : ℕ} {edges : List (ℕ × ℕ)}

/-- The targets of the edges of a source. -/
def group (edges : List (ℕ × ℕ)) (s : ℕ) : List ℕ := (edges.filter fun e => e.1 = s).map Prod.snd

lemma group_append_singleton (edges : List (ℕ × ℕ)) (e : ℕ × ℕ) (s : ℕ) :
    group (edges ++ [e]) s = if e.1 = s then group edges s ++ [e.2] else group edges s := by
  unfold group
  split
  · next h => simp [h]
  · next h => simp [h]

lemma getD_modify (l : List ℕ) (i j : ℕ) (hi : i < l.length) :
    (l.modify i (· + 1)).getD j 0 = if i = j then l.getD j 0 + 1 else l.getD j 0 := by
  simp only [getD_eq_getElem?_getD, List.getElem?_modify]
  by_cases h : i = j
  · subst h
    simp [hi]
  · simp [h]

lemma counts_spec (h : ∀ e ∈ edges, e.1 < n) :
    (counts n edges).length = n ∧ ∀ s, (counts n edges).getD s 0 = (group edges s).length := by
  induction edges using List.reverseRecOn with
  | nil =>
    refine ⟨by simp [counts], fun s => ?_⟩
    simp [counts, group]
  | append_singleton edges e ih =>
    obtain ⟨hlength, hcounts⟩ := ih fun e' he' => h e' (mem_append_left _ he')
    have he : e.1 < n := h e (mem_append_right _ (mem_singleton_self e))
    have hstep : counts n (edges ++ [e]) = (counts n edges).modify e.1 (· + 1) := by
      simp [counts]
    refine ⟨by rw [hstep, length_modify, hlength], fun s => ?_⟩
    rw [hstep, getD_modify _ _ _ (hlength.symm ▸ he), hcounts, group_append_singleton]
    split
    · simp
    · rfl

/-- Where the group of a source starts. -/
def offset (edges : List (ℕ × ℕ)) (s : ℕ) : ℕ := ∑ r ∈ Finset.range s, (group edges r).length

lemma offset_succ (edges : List (ℕ × ℕ)) (s : ℕ) :
    offset edges (s + 1) = offset edges s + (group edges s).length :=
  Finset.sum_range_succ _ s

lemma offset_mono (edges : List (ℕ × ℕ)) {r s : ℕ} (h : r ≤ s) : offset edges r ≤ offset edges s :=
  Finset.sum_le_sum_of_subset (Finset.range_mono h)

/-- The last group ends where the edges end. -/
lemma offset_eq_length (h : ∀ e ∈ edges, e.1 < n) : offset edges n = edges.length := by
  induction edges using List.reverseRecOn with
  | nil => simp [offset, group]
  | append_singleton edges e ih =>
    have he : e.1 < n := h e (mem_append_right _ (mem_singleton_self e))
    have hsplit : ∀ r, (group (edges ++ [e]) r).length =
        (group edges r).length + if e.1 = r then 1 else 0 := by
      intro r
      rw [group_append_singleton]
      split
      · simp
      · rfl
    have hold := ih fun e' he' => h e' (mem_append_left _ he')
    simp only [offset, hsplit, Finset.sum_add_distrib] at hold ⊢
    rw [hold, Finset.sum_ite_eq, if_pos (Finset.mem_range.mpr he), length_append,
      length_singleton]

lemma getD_scanl (l : List ℕ) (a : ℕ) {s : ℕ} (hs : s ≤ l.length) :
    (l.scanl (· + ·) a).getD s 0 = a + ∑ r ∈ Finset.range s, l.getD r 0 := by
  induction l generalizing a s with
  | nil =>
    obtain rfl := Nat.le_zero.mp hs
    simp
  | cons c l ih =>
    cases s with
    | zero => simp
    | succ s =>
      rw [scanl_cons, getD_cons_succ, ih (a + c) (Nat.le_of_succ_le_succ hs),
        Finset.sum_range_succ']
      simp only [getD_cons_succ, getD_cons_zero]
      omega

lemma getD_prefixSums (h : ∀ e ∈ edges, e.1 < n) (hs : s ≤ n) :
    (prefixSums (counts n edges)).getD s 0 = offset edges s := by
  obtain ⟨hlength, hcounts⟩ := counts_spec h
  rw [prefixSums, getD_scanl _ _ (hlength.symm ▸ hs), Nat.zero_add, offset]
  exact Finset.sum_congr rfl fun r _ => hcounts r

/-! ### Filling the groups -/

/-- What the edges done so far have filled. -/
structure Filled (n : ℕ) (edges done : List (ℕ × ℕ)) (state : List ℕ × List ℕ) : Prop where
  targets_length : state.1.length = edges.length
  cursors_length : state.2.length = n
  cursors : ∀ s, state.2.getD s 0 = (group done s).length
  targets : ∀ s j v, (group done s)[j]? = some v → state.1[offset edges s + j]? = some v

variable {done rest : List (ℕ × ℕ)} {e : ℕ × ℕ} {state : List ℕ × List ℕ}

/-- The next place of a group lies in the group. -/
lemma length_group_lt (h : edges = done ++ e :: rest) :
    (group done e.1).length < (group edges e.1).length := by
  subst h
  simp [group]

lemma length_group_le (h : edges = done ++ rest) (s : ℕ) :
    (group done s).length ≤ (group edges s).length := by
  subst h
  simp [group]

variable (hedges : ∀ e ∈ edges, e.1 < n)

include hedges in
/-- The next edge goes to the next free place of its vertex. -/
lemma Filled.fill (hsplit : edges = done ++ e :: rest) (hf : Filled n edges done state) :
    Filled n edges (done ++ [e]) (fill (prefixSums (counts n edges)) state e) := by
  have he : e.1 < n := hedges e (by simp [hsplit])
  have hpos : (prefixSums (counts n edges)).getD e.1 0 + state.2.getD e.1 0 =
      offset edges e.1 + (group done e.1).length := by
    rw [getD_prefixSums hedges he.le, hf.cursors]
  have hlt := length_group_lt hsplit
  have hend : offset edges e.1 + (group done e.1).length < edges.length := by
    have hsucc := offset_succ edges e.1
    have hle : offset edges (e.1 + 1) ≤ offset edges n := offset_mono edges he
    have htotal := offset_eq_length hedges
    omega
  refine ⟨?_, ?_, fun s => ?_, fun s j v hv => ?_⟩
  · simp [Csr.fill, hf.targets_length]
  · simp [Csr.fill, hf.cursors_length]
  · show (state.2.modify e.1 (· + 1)).getD s 0 = _
    rw [getD_modify _ _ _ (hf.cursors_length.symm ▸ he), hf.cursors, group_append_singleton]
    split
    · simp
    · rfl
  · show (state.1.set _ e.2)[offset edges s + j]? = some v
    rw [hpos]
    by_cases hlast : s = e.1 ∧ j = (group done e.1).length
    · obtain ⟨rfl, rfl⟩ := hlast
      rw [group_append_singleton, if_pos rfl, List.getElem?_concat_length] at hv
      rw [List.getElem?_set_self (hf.targets_length.symm ▸ hend), hv]
    · -- any other filled place lies elsewhere: earlier in the group or in another one
      have hold : (group done s)[j]? = some v := by
        rw [group_append_singleton] at hv
        split at hv
        · next hs =>
          have hj : j ≠ (group done s).length := fun hj => hlast ⟨hs.symm, hs ▸ hj⟩
          rcases Nat.lt_or_gt_of_ne hj with hj | hj
          · rwa [List.getElem?_append_left hj] at hv
          · rw [List.getElem?_eq_none (by simp; omega)] at hv
            cases hv
        · exact hv
      have hj : j < (group done s).length := (List.getElem?_eq_some_iff.mp hold).1
      have hne : offset edges e.1 + (group done e.1).length ≠ offset edges s + j := by
        rcases Nat.lt_trichotomy s e.1 with hs | rfl | hs
        · have hle : offset edges (s + 1) ≤ offset edges e.1 := offset_mono edges hs
          have hsucc := offset_succ edges s
          have hgroup := length_group_le hsplit s
          omega
        · omega
        · have hle : offset edges (e.1 + 1) ≤ offset edges s := offset_mono edges hs
          have hsucc := offset_succ edges e.1
          omega
      rw [List.getElem?_set_ne hne, hf.targets s j v hold]

include hedges in
lemma filled_foldl (hsplit : edges = done ++ rest) (hf : Filled n edges done state) :
    Filled n edges edges (rest.foldl (fill (prefixSums (counts n edges))) state) := by
  induction rest generalizing done state with
  | nil =>
    rw [append_nil] at hsplit
    exact hsplit ▸ hf
  | cons e rest ih =>
    have hnext : edges = (done ++ [e]) ++ rest := by simp [hsplit]
    exact ih hnext (hf.fill hedges hsplit)

include hedges in
/-- The neighbours of a source are the targets of its edges, in their order. -/
theorem neighbors_build (hs : s < n) : (build n edges).neighbors s = group edges s := by
  have hf : Filled n edges edges (edges.foldl (fill (prefixSums (counts n edges)))
      (List.replicate edges.length 0, List.replicate n 0)) := by
    refine filled_foldl hedges (nil_append edges).symm
      ⟨by simp, by simp, fun s => ?_, fun s j v hv => ?_⟩
    · simp [group]
    · simp [group] at hv
  have hsize : (build n edges).offsets.getD (s + 1) 0 - (build n edges).offsets.getD s 0 =
      (group edges s).length := by
    show (prefixSums (counts n edges)).getD (s + 1) 0 - (prefixSums (counts n edges)).getD s 0 = _
    rw [getD_prefixSums hedges hs, getD_prefixSums hedges hs.le, offset_succ]
    omega
  have hstart : (build n edges).offsets.getD s 0 = offset edges s :=
    getD_prefixSums hedges hs.le
  show (((build n edges).targets.drop _).take _) = _
  rw [hsize, hstart]
  refine ext_getElem? fun j => ?_
  by_cases hj : j < (group edges s).length
  · rw [List.getElem?_take_of_lt hj, List.getElem?_drop, List.getElem?_eq_getElem hj]
    exact hf.targets s j _ (List.getElem?_eq_getElem hj)
  · rw [List.getElem?_eq_none (by simp; omega), List.getElem?_eq_none (by omega)]

end Build

end Csr
