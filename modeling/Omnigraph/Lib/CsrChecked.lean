import Omnigraph.Lib.Csr

/-!
# Compressed sparse rows on a machine

The same arrays built with numbers of 32 bits: an index outside an array and a sum that overflows
have no result. Fewer than `2 ^ 32` edges between nodes that exist meet neither.
-/

/-- A fold whose steps all succeed. -/
lemma List.foldlM_eq_some_foldl {α β : Type*} {f : β → α → Option β} {g : β → α → β} {l : List α}
    {b : β} (h : ∀ done a rest, l = done ++ a :: rest →
      f (done.foldl g b) a = some (g (done.foldl g b) a)) :
    l.foldlM f b = some (l.foldl g b) := by
  induction l generalizing b with
  | nil => rfl
  | cons a l ih =>
    have hhead := h [] a l rfl
    rw [List.foldl_nil] at hhead
    rw [List.foldlM_cons, hhead]
    refine ih fun done a' rest hl => ?_
    exact h (a :: done) a' rest (by rw [hl, List.cons_append])

namespace Csr

def add32 (a b : ℕ) : Option ℕ := if a + b < 2 ^ 32 then some (a + b) else none

lemma add32_of_lt {a b : ℕ} (h : a + b < 2 ^ 32) : add32 a b = some (a + b) := if_pos h

/-! ### Building -/

def countChecked (counts : List ℕ) (edge : ℕ × ℕ) : Option (List ℕ) := do
  let count ← counts[edge.1]?
  let count ← add32 count 1
  return counts.set edge.1 count

def countsChecked (n : ℕ) (edges : List (ℕ × ℕ)) : Option (List ℕ) :=
  edges.foldlM countChecked (List.replicate n 0)

def pushOffset (offsets : List ℕ) (count : ℕ) : Option (List ℕ) := do
  let last ← offsets.getLast?
  let next ← add32 last count
  return offsets ++ [next]

def prefixSumsChecked (counts : List ℕ) : Option (List ℕ) := counts.foldlM pushOffset [0]

def fillChecked (offsets : List ℕ) (state : List ℕ × List ℕ) (edge : ℕ × ℕ) :
    Option (List ℕ × List ℕ) := do
  let start ← offsets[edge.1]?
  let cursor ← state.2[edge.1]?
  let pos ← add32 start cursor
  let _ ← state.1[pos]?
  let next ← add32 cursor 1
  return (state.1.set pos edge.2, state.2.set edge.1 next)

def buildChecked (n : ℕ) (edges : List (ℕ × ℕ)) : Option Csr := do
  let counts ← countsChecked n edges
  let offsets ← prefixSumsChecked counts
  let filled ← edges.foldlM (fillChecked offsets)
    (List.replicate edges.length 0, List.replicate n 0)
  return ⟨offsets, filled.1⟩

/-- The slice of the targets of a node. -/
def neighborsChecked (csr : Csr) (node : ℕ) : Option (List ℕ) := do
  let start ← csr.offsets[node]?
  let stop ← csr.offsets[node + 1]?
  if start ≤ stop ∧ stop ≤ csr.targets.length then
    some ((csr.targets.drop start).take (stop - start))
  else none

def hasNeighborsChecked (csr : Csr) (node : ℕ) : Option Bool := do
  let stop ← csr.offsets[node + 1]?
  let start ← csr.offsets[node]?
  return stop > start

/-! ### Nothing overflows -/

section Build

variable {n s : ℕ} {edges : List (ℕ × ℕ)}

variable {c i : ℕ} {l : List ℕ} {done rest : List (ℕ × ℕ)} {e : ℕ × ℕ}

lemma set_eq_modify (h : l[i]? = some c) : l.set i (c + 1) = l.modify i (· + 1) := by
  refine List.ext_getElem? fun j => ?_
  rw [List.getElem?_set, List.getElem?_modify]
  split_ifs with hij hlt
  · subst hij
    simp [h]
  · subst hij
    rw [List.getElem?_eq_none (by omega)] at h
    cases h
  · simp

lemma getElem?_of_getD (hi : i < l.length) (h : l.getD i 0 = c) : l[i]? = some c := by
  rw [List.getD_eq_getElem?_getD, List.getElem?_eq_getElem hi, Option.getD_some] at h
  rw [List.getElem?_eq_getElem hi, h]

lemma length_group_lt_length (h : edges = done ++ e :: rest) :
    (group done e.1).length < edges.length := by
  have hgroup := length_group_lt h
  have hle : (group edges e.1).length ≤ edges.length := by
    rw [group, List.length_map]
    exact List.length_filter_le _ _
  omega

variable (hedges : ∀ e ∈ edges, e.1 < n)

include hedges in
lemma countsChecked_eq (hlength : edges.length < 2 ^ 32) :
    countsChecked n edges = some (counts n edges) := by
  refine List.foldlM_eq_some_foldl fun done e rest hsplit => ?_
  have hdone : ∀ e' ∈ done, e'.1 < n := fun e' he' =>
    hedges e' (hsplit ▸ List.mem_append_left _ he')
  have he : e.1 < n := hedges e (by simp [hsplit])
  obtain ⟨hsize, hcounts⟩ := counts_spec hdone
  have hcount := getElem?_of_getD (hsize.symm ▸ he) (hcounts e.1)
  have hsum : add32 (group done e.1).length 1 = some ((group done e.1).length + 1) :=
    add32_of_lt (lt_of_le_of_lt (length_group_lt_length hsplit) hlength)
  show countChecked (counts n done) e = some ((counts n done).modify e.1 (· + 1))
  rw [countChecked, hcount, Option.bind_eq_bind, Option.bind_some, hsum,
    Option.bind_some, set_eq_modify hcount]
  rfl

lemma pushOffset_eq {offsets : List ℕ} {last count : ℕ} (hlast : offsets.getLast? = some last)
    (h : last + count < 2 ^ 32) : pushOffset offsets count = some (offsets ++ [last + count]) := by
  rw [pushOffset, hlast, Option.bind_eq_bind, Option.bind_some, add32_of_lt h]
  rfl

lemma prefixSumsChecked_eq {counts : List ℕ} (h : counts.foldl (· + ·) 0 < 2 ^ 32) :
    prefixSumsChecked counts = some (prefixSums counts) := by
  induction counts using List.reverseRecOn with
  | nil => rfl
  | append_singleton counts c ih =>
    rw [List.foldl_append] at h
    have hlast : (prefixSums counts).getLast? = some (counts.foldl (· + ·) 0) :=
      List.getLast?_scanl
    have hbefore := ih (lt_of_le_of_lt (Nat.le_add_right _ c) h)
    have hconcat : prefixSums (counts ++ [c]) =
        prefixSums counts ++ [counts.foldl (· + ·) 0 + c] := by
      simp [prefixSums, List.scanl_append]
    rw [prefixSumsChecked] at hbefore ⊢
    rw [List.foldlM_append, hbefore, Option.bind_eq_bind, Option.bind_some, List.foldlM_cons,
      pushOffset_eq hlast h, hconcat]
    rfl

include hedges in
/-- The last offset is the number of edges. -/
lemma foldl_counts : (counts n edges).foldl (· + ·) 0 = edges.length := by
  have hsize := (counts_spec hedges).1
  have hlast : (prefixSums (counts n edges)).getLast? = some ((counts n edges).foldl (· + ·) 0) :=
    List.getLast?_scanl
  have hend := getD_prefixSums hedges le_rfl
  rw [offset_eq_length hedges] at hend
  have hlength : (prefixSums (counts n edges)).length = n + 1 := by
    rw [prefixSums, List.length_scanl, hsize]
  rw [List.getLast?_eq_getElem?, hlength, Nat.add_sub_cancel,
    getElem?_of_getD (by omega) hend] at hlast
  exact (Option.some.inj hlast).symm

include hedges in
lemma getElem?_prefixSums (hs : s ≤ n) :
    (prefixSums (counts n edges))[s]? = some (offset edges s) := by
  refine getElem?_of_getD ?_ (getD_prefixSums hedges hs)
  rw [prefixSums, List.length_scanl, (counts_spec hedges).1]
  omega

include hedges in
/-- What is filled after some of the edges. -/
lemma filled_of_append (hsplit : edges = done ++ rest) :
    Filled n edges done (done.foldl (fill (prefixSums (counts n edges)))
      (List.replicate edges.length 0, List.replicate n 0)) := by
  induction done using List.reverseRecOn generalizing rest with
  | nil =>
    refine ⟨by simp, by simp, fun s => ?_, fun s j v hv => by simp [group] at hv⟩
    simp [group]
  | append_singleton done e ih =>
    rw [List.append_assoc, List.singleton_append] at hsplit
    rw [List.foldl_append]
    exact (ih hsplit).fill hedges hsplit

include hedges in
/-- The next edge is written inside the arrays. -/
lemma fillChecked_eq (hlength : edges.length < 2 ^ 32) {state : List ℕ × List ℕ}
    (hsplit : edges = done ++ e :: rest) (hf : Filled n edges done state) :
    fillChecked (prefixSums (counts n edges)) state e =
      some (fill (prefixSums (counts n edges)) state e) := by
  have he : e.1 < n := hedges e (by simp [hsplit])
  have hgroup := length_group_lt hsplit
  have hend : offset edges e.1 + (group done e.1).length < edges.length := by
    have hsucc := offset_succ edges e.1
    have hle : offset edges (e.1 + 1) ≤ offset edges n := offset_mono edges he
    have htotal := offset_eq_length hedges
    omega
  have hstart := getElem?_prefixSums hedges he.le
  have hcursor := getElem?_of_getD (hf.cursors_length.symm ▸ he) (hf.cursors e.1)
  have hpos := add32_of_lt (hend.trans hlength)
  have hnext : add32 (group done e.1).length 1 = some ((group done e.1).length + 1) :=
    add32_of_lt (lt_of_le_of_lt (length_group_lt_length hsplit) hlength)
  have htarget := List.getElem?_eq_getElem (l := state.1) (hf.targets_length.symm ▸ hend)
  have hfill : fill (prefixSums (counts n edges)) state e =
      (state.1.set (offset edges e.1 + (group done e.1).length) e.2,
        state.2.modify e.1 (· + 1)) := by
    rw [fill, getD_prefixSums hedges he.le, hf.cursors]
  rw [hfill, ← set_eq_modify hcursor]
  simp only [fillChecked, hstart, hcursor, hpos, htarget, hnext, Option.bind_eq_bind,
    Option.bind_some, Option.pure_def]

include hedges in
/-- The checked arrays are the arrays. -/
theorem buildChecked_eq (hlength : edges.length < 2 ^ 32) :
    buildChecked n edges = some (build n edges) := by
  have hcounts := countsChecked_eq hedges hlength
  have hsums := prefixSumsChecked_eq ((foldl_counts hedges).symm ▸ hlength)
  have hfilled := List.foldlM_eq_some_foldl (f := fillChecked (prefixSums (counts n edges)))
    (g := fill (prefixSums (counts n edges))) (l := edges)
    (b := (List.replicate edges.length 0, List.replicate n 0))
    fun done e rest hsplit => fillChecked_eq hedges hlength hsplit (filled_of_append hedges hsplit)
  simp only [buildChecked, hcounts, hsums, hfilled, Option.bind_eq_bind, Option.bind_some,
    Option.pure_def]
  rfl

include hedges in
lemma length_targets : (build n edges).targets.length = edges.length :=
  (filled_of_append hedges (List.append_nil edges).symm).targets_length

include hedges in
/-- A node has the targets of its edges as neighbours. -/
theorem neighborsChecked_eq (hs : s < n) :
    (build n edges).neighborsChecked s = some (group edges s) := by
  have hstart : (build n edges).offsets[s]? = some (offset edges s) :=
    getElem?_prefixSums hedges hs.le
  have hstop : (build n edges).offsets[s + 1]? = some (offset edges (s + 1)) :=
    getElem?_prefixSums hedges hs
  have hle : offset edges s ≤ offset edges (s + 1) ∧
      offset edges (s + 1) ≤ (build n edges).targets.length := by
    rw [length_targets hedges, ← offset_eq_length hedges]
    exact ⟨offset_mono edges (Nat.le_succ s), offset_mono edges hs⟩
  have hneighbors := neighbors_build hedges hs
  rw [neighbors, List.getD_eq_getElem?_getD, List.getD_eq_getElem?_getD, hstart, hstop]
    at hneighbors
  rw [neighborsChecked, hstart, hstop]
  simp only [Option.bind_eq_bind, Option.bind_some, if_pos hle]
  exact congrArg some hneighbors

include hedges in
theorem hasNeighborsChecked_eq (hs : s < n) :
    (build n edges).hasNeighborsChecked s = some (decide (group edges s ≠ [])) := by
  have hstart : (build n edges).offsets[s]? = some (offset edges s) :=
    getElem?_prefixSums hedges hs.le
  have hstop : (build n edges).offsets[s + 1]? = some (offset edges (s + 1)) :=
    getElem?_prefixSums hedges hs
  have hsome : offset edges (s + 1) > offset edges s ↔ group edges s ≠ [] := by
    rw [offset_succ, ← List.length_pos_iff]
    omega
  simp only [hasNeighborsChecked, hstart, hstop, Option.bind_eq_bind, Option.bind_some,
    Option.pure_def, decide_eq_decide.mpr hsome]

end Build

end Csr
