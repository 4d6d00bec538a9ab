import Mathlib.Data.List.MinMax
import Mathlib.Algebra.Order.BigOperators.Group.List
import Mathlib.Algebra.Order.Ring.Nat

/-!
# Merge joins of sorted streams

Several streams, each strictly ascending by key, are walked together: each step takes the smallest
key at the heads and removes it from the streams that hold it there. The walk visits every key of
every stream once, in ascending order, with the row each stream holds for it.
-/

namespace MergeJoin

open List

variable {κ R : Type*} [LinearOrder κ] (key : R → κ)

/-- Strictly ascending by key. -/
def Ascending (l : List R) : Prop := l.Pairwise fun r r' => key r < key r'

/-- The row with a given key. -/
def lookup (k : κ) (l : List R) : Option R := l.find? fun r => key r = k

/-- The smallest key at the heads of the streams. -/
def nextKey (ls : List (List R)) : Option κ := (ls.filterMap fun l => l.head?.map key).min?

/-- The head of a stream, if it has the given key. -/
def headAt (k : κ) (l : List R) : Option R := l.head?.filter fun r => key r = k

/-- The stream after its head with the given key. -/
def dropAt (k : κ) (l : List R) : List R :=
  if (headAt key k l).isSome then l.tail else l

/-- The visits of a walk of at most `fuel` steps. -/
def join : ℕ → List (List R) → List (κ × List (Option R))
  | 0, _ => []
  | fuel + 1, ls =>
    match nextKey key ls with
    | none => []
    | some k => (k, ls.map (headAt key k)) :: join fuel (ls.map (dropAt key k))

/-- The number of rows still to visit. -/
def size (ls : List (List R)) : ℕ := (ls.map List.length).sum

variable {key}

/-! ### One stream -/

lemma lookup_eq_some_iff {l : List R} (hl : Ascending key l) {k : κ} {r : R} :
    lookup key k l = some r ↔ r ∈ l ∧ key r = k := by
  induction l with
  | nil => simp [lookup]
  | cons a l ih =>
    obtain ⟨hhead, htail⟩ := pairwise_cons.mp hl
    by_cases ha : key a = k
    · simp only [lookup, List.find?_cons, ha, decide_true, Option.some.injEq, mem_cons]
      constructor
      · rintro rfl
        exact ⟨.inl rfl, ha⟩
      · rintro ⟨rfl | hr, hk⟩
        · rfl
        · exact absurd (hhead r hr) (by simp [ha, hk])
    · have := ih htail
      simp only [lookup] at this
      simp only [lookup, List.find?_cons, ha, decide_false, this, mem_cons]
      constructor
      · rintro ⟨hr, hk⟩
        exact ⟨.inr hr, hk⟩
      · rintro ⟨rfl | hr, hk⟩
        · exact absurd hk ha
        · exact ⟨hr, hk⟩

lemma lookup_eq_none_iff {l : List R} {k : κ} :
    lookup key k l = none ↔ ∀ r ∈ l, key r ≠ k := by
  simp [lookup]

lemma lookup_isSome_iff {l : List R} {k : κ} :
    (lookup key k l).isSome ↔ k ∈ l.map key := by
  simp [lookup]

/-- Ascending lists of the same rows are equal. -/
lemma Ascending.ext {l l' : List R} (hl : Ascending key l) (hl' : Ascending key l')
    (h : ∀ r, r ∈ l ↔ r ∈ l') : l = l' := by
  have hnodup : ∀ {l : List R}, Ascending key l → l.Nodup := fun hl =>
    List.Pairwise.imp (fun hlt heq => hlt.ne (congrArg key heq)) hl
  refine List.Perm.eq_of_pairwise (fun r r' _ _ hlt hlt' => ?_) hl hl'
    ((perm_ext_iff_of_nodup (hnodup hl) (hnodup hl')).mpr h)
  exact absurd hlt' hlt.asymm

section Step

variable {k : κ} {l : List R}

/-- When no key of the stream is below `k`, the row for `k` can only be its head. -/
lemma headAt_eq_lookup (hl : Ascending key l) (hk : ∀ r ∈ l, k ≤ key r) :
    headAt key k l = lookup key k l := by
  cases l with
  | nil => rfl
  | cons a l =>
    by_cases ha : key a = k
    · simp [headAt, lookup, ha]
    · have hlt : k < key a := lt_of_le_of_ne (hk a mem_cons_self) (Ne.symm ha)
      have hnone : lookup key k (a :: l) = none := by
        rw [lookup_eq_none_iff]
        intro r hr
        rcases mem_cons.mp hr with rfl | hr
        · exact ha
        · exact ((hlt.trans ((pairwise_cons.mp hl).1 r hr)).ne')
      rw [hnone]
      simp [headAt, ha]

lemma dropAt_sublist : (dropAt key k l).Sublist l := by
  unfold dropAt
  split_ifs
  · exact tail_sublist l
  · exact List.Sublist.refl l

lemma ascending_dropAt (hl : Ascending key l) : Ascending key (dropAt key k l) :=
  List.Pairwise.sublist dropAt_sublist hl

lemma lt_of_mem_dropAt (hl : Ascending key l) (hk : ∀ r ∈ l, k ≤ key r) {r : R}
    (hr : r ∈ dropAt key k l) : k < key r := by
  cases l with
  | nil => simp [dropAt] at hr
  | cons a l =>
    obtain ⟨hhead, -⟩ := pairwise_cons.mp hl
    by_cases ha : key a = k
    · rw [dropAt, if_pos (by simp [headAt, ha])] at hr
      exact ha ▸ hhead r hr
    · have hlt : k < key a := lt_of_le_of_ne (hk a mem_cons_self) (Ne.symm ha)
      rcases mem_cons.mp (dropAt_sublist.subset hr) with rfl | hr
      · exact hlt
      · exact hlt.trans (hhead r hr)

lemma lookup_dropAt_of_ne {k' : κ} (hne : k' ≠ k) :
    lookup key k' (dropAt key k l) = lookup key k' l := by
  cases l with
  | nil => simp [dropAt]
  | cons a l =>
    by_cases ha : key a = k
    · have : key a ≠ k' := fun h => hne (h.symm.trans ha)
      rw [dropAt, if_pos (by simp [headAt, ha])]
      simp [lookup, this]
    · rw [dropAt, if_neg (by simp [headAt, ha])]

lemma length_dropAt_le : (dropAt key k l).length ≤ l.length := dropAt_sublist.length_le

lemma length_dropAt_lt {a : R} {rest : List R} (ha : key a = k) :
    (dropAt key k (a :: rest)).length < (a :: rest).length := by
  rw [dropAt, if_pos (by simp [headAt, ha])]
  simp

end Step

/-! ### All streams -/

section Walk

variable {ls : List (List R)} {k : κ}

lemma nextKey_eq_none (h : nextKey key ls = none) : ∀ l ∈ ls, l = [] := by
  intro l hl
  simp only [nextKey, List.min?_eq_none_iff, filterMap_eq_nil_iff, Option.map_eq_none_iff,
    List.head?_eq_none_iff] at h
  exact h l hl

lemma nextKey_mem (h : nextKey key ls = some k) : ∃ a rest, a :: rest ∈ ls ∧ key a = k := by
  have hmem := (List.min?_eq_some_iff.mp h).1
  simp only [mem_filterMap, Option.map_eq_some_iff] at hmem
  obtain ⟨l, hl, a, ha, hk⟩ := hmem
  obtain ⟨rest, rfl⟩ := List.head?_eq_some_iff.mp ha
  exact ⟨a, rest, hl, hk⟩

lemma nextKey_le (hls : ∀ l ∈ ls, Ascending key l) (h : nextKey key ls = some k) {l : List R}
    (hl : l ∈ ls) : ∀ r ∈ l, k ≤ key r := by
  cases l with
  | nil => simp
  | cons a l =>
    have ha : k ≤ key a := by
      apply (List.min?_eq_some_iff.mp h).2
      exact mem_filterMap.mpr ⟨_, hl, by simp⟩
    intro r hr
    rcases mem_cons.mp hr with rfl | hr
    · exact ha
    · exact ha.trans ((pairwise_cons.mp (hls _ hl)).1 r hr).le

lemma size_dropAt_lt (h : nextKey key ls = some k) : size (ls.map (dropAt key k)) < size ls := by
  obtain ⟨a, rest, hmem, ha⟩ := nextKey_mem h
  simp only [size, List.map_map]
  apply sum_lt_sum
  · intro l _
    exact length_dropAt_le
  · exact ⟨_, hmem, length_dropAt_lt ha⟩

/-- Every key that some stream holds is visited, with all rows of the streams for it. -/
theorem mem_join_iff {fuel : ℕ} (hfuel : size ls < fuel) (hls : ∀ l ∈ ls, Ascending key l)
    (rows : List (Option R)) :
    (k, rows) ∈ join key fuel ls ↔
      (∃ l ∈ ls, k ∈ l.map key) ∧ rows = ls.map (lookup key k) := by
  induction fuel generalizing ls with
  | zero => omega
  | succ fuel ih =>
    rw [join]
    cases hnext : nextKey key ls with
    | none =>
      have hnil := nextKey_eq_none hnext
      simp only [not_mem_nil, false_iff, not_and]
      rintro ⟨l, hl, hk⟩
      simp [hnil l hl] at hk
    | some m =>
      have hm : ∀ l ∈ ls, ∀ r ∈ l, m ≤ key r := fun l hl => nextKey_le hls hnext hl
      have hhead : ls.map (headAt key m) = ls.map (lookup key m) :=
        map_congr_left fun l hl => headAt_eq_lookup (hls l hl) (hm l hl)
      have hrest := @ih (ls.map (dropAt key m))
        (by have := size_dropAt_lt hnext; omega)
        (by simpa using fun l hl => ascending_dropAt (hls l hl))
      rw [mem_cons, Prod.mk.injEq, hrest, hhead]
      simp only [List.mem_map, exists_exists_and_eq_and, List.map_map]
      by_cases hkm : k = m
      · -- the smallest key is visited now and is gone from every stream afterwards
        subst hkm
        obtain ⟨a, rest, hmem, ha⟩ := nextKey_mem hnext
        have hgone : ¬ ∃ l ∈ ls, ∃ r ∈ dropAt key k l, key r = k := by
          rintro ⟨l, hl, r, hr, hk⟩
          exact absurd (lt_of_mem_dropAt (hls l hl) (hm l hl) hr) (by simp [hk])
        simp only [true_and, hgone, false_and, or_false]
        exact ⟨fun h => ⟨⟨_, hmem, a, mem_cons_self, ha⟩, h⟩, fun h => h.2⟩
      · have hlook : ls.map (lookup key k ∘ dropAt key m) = ls.map (lookup key k) :=
          map_congr_left fun l _ => lookup_dropAt_of_ne hkm
        have hkeys : (∃ l ∈ ls, ∃ r ∈ dropAt key m l, key r = k) ↔
            ∃ l ∈ ls, ∃ r ∈ l, key r = k := by
          refine exists_congr fun l => and_congr_right fun _ => ?_
          rw [← List.mem_map, ← List.mem_map, ← lookup_isSome_iff, ← lookup_isSome_iff,
            lookup_dropAt_of_ne hkm]
        simp only [hkm, false_and, false_or, hlook, hkeys]

lemma exists_mem_of_mem_join {fuel : ℕ} {rows : List (Option R)}
    (h : (k, rows) ∈ join key fuel ls) : ∃ l ∈ ls, ∃ r ∈ l, key r = k := by
  induction fuel generalizing ls with
  | zero => simp [join] at h
  | succ fuel ih =>
    rw [join] at h
    cases hnext : nextKey key ls with
    | none => simp [hnext] at h
    | some m =>
      simp only [hnext, mem_cons, Prod.mk.injEq] at h
      rcases h with ⟨rfl, -⟩ | h
      · obtain ⟨a, rest, hmem, ha⟩ := nextKey_mem hnext
        exact ⟨_, hmem, a, mem_cons_self, ha⟩
      · obtain ⟨l, hl, r, hr, hk⟩ := ih h
        obtain ⟨l, hl', rfl⟩ := List.mem_map.mp hl
        exact ⟨l, hl', r, dropAt_sublist.subset hr, hk⟩

/-- The visited keys ascend. -/
theorem join_ascending (fuel : ℕ) (hls : ∀ l ∈ ls, Ascending key l) :
    (join key fuel ls).Pairwise fun v v' => v.1 < v'.1 := by
  induction fuel generalizing ls with
  | zero => exact .nil
  | succ fuel ih =>
    rw [join]
    cases hnext : nextKey key ls with
    | none => exact .nil
    | some m =>
      have hm : ∀ l ∈ ls, ∀ r ∈ l, m ≤ key r := fun l hl => nextKey_le hls hnext hl
      have hdrop : ∀ l ∈ ls.map (dropAt key m), Ascending key l := by
        simpa using fun l hl => ascending_dropAt (hls l hl)
      refine pairwise_cons.mpr ⟨?_, ih hdrop⟩
      rintro ⟨k, rows⟩ hmem
      obtain ⟨l, hl, r, hr, rfl⟩ := exists_mem_of_mem_join hmem
      obtain ⟨l, hl', rfl⟩ := List.mem_map.mp hl
      exact lt_of_mem_dropAt (hls l hl') (hm l hl') hr

end Walk

end MergeJoin
