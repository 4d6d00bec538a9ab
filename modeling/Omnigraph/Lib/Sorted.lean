import Mathlib.Data.String.Basic
import Mathlib.Tactic

/-!
# Sorting by a key

Stable sorting by a key, the removal of repeated neighbours, and the canonical form of a list made
of both. Two permutations of one list have one canonical form if the key tells their members apart.
-/

namespace Sorted

open List

variable {α κ : Type*} [LinearOrder κ]

/-- Stable sort by `key`. -/
def sortOn (key : α → κ) (l : List α) : List α := l.insertionSort (fun a b => key a ≤ key b)

/-- `a` and what follows it, without the elements that are the same as the last one kept. -/
def dedupFrom (same : α → α → Bool) (a : α) : List α → List α
  | [] => [a]
  | b :: l => if same b a then dedupFrom same a l else a :: dedupFrom same b l

/-- Of neighbours that are the same only the first stays. -/
def dedupBy (same : α → α → Bool) : List α → List α
  | [] => []
  | a :: l => dedupFrom same a l

/-- Sorted, without repetitions. -/
def canonical [DecidableEq α] (key : α → κ) (l : List α) : List α :=
  dedupBy (fun a b => a = b) (sortOn key l)

/-- The keys increase along the list. -/
def Increasing (key : α → κ) (l : List α) : Prop := l.IsChain (fun a b => key a < key b)

instance (key : α → κ) (l : List α) : Decidable (Increasing key l) :=
  inferInstanceAs (Decidable (l.IsChain _))

/-! ### Sorting -/

variable {a : α} {l l' : List α}

section SortOn

variable (key : α → κ)

lemma sortOn_perm (l : List α) : (sortOn key l).Perm l := perm_insertionSort _ l

@[simp] lemma mem_sortOn : a ∈ sortOn key l ↔ a ∈ l :=
  (sortOn_perm key l).mem_iff

@[simp] lemma length_sortOn (l : List α) : (sortOn key l).length = l.length :=
  (sortOn_perm key l).length_eq

lemma sortOn_pairwise (l : List α) : (sortOn key l).Pairwise (fun a b => key a ≤ key b) := by
  have : IsTrans α (fun a b => key a ≤ key b) := ⟨fun _ _ _ => le_trans⟩
  have : Std.Total (fun a b : α => key a ≤ key b) := ⟨fun a b => le_total (key a) (key b)⟩
  exact pairwise_insertionSort _ l

variable {key}

/-- A list in order is left as it is. -/
lemma sortOn_eq_self (h : l.Pairwise (fun a b => key a ≤ key b)) : sortOn key l = l :=
  h.insertionSort_eq

/-- Sorting does not depend on the order if the key tells the members apart. -/
lemma sortOn_eq_of_perm (hperm : l.Perm l') (hinj : ∀ a ∈ l, ∀ b ∈ l, key a = key b → a = b) :
    sortOn key l = sortOn key l' := by
  apply List.Perm.eq_of_pairwise ?_ (sortOn_pairwise key l) (sortOn_pairwise key l')
    (((sortOn_perm key l).trans hperm).trans (sortOn_perm key l').symm)
  intro a b ha hb hab hba
  exact hinj a ((mem_sortOn key).mp ha) b (hperm.mem_iff.mpr ((mem_sortOn key).mp hb))
    (le_antisymm hab hba)

lemma increasing_iff_pairwise : Increasing key l ↔ l.Pairwise (fun a b => key a < key b) := by
  have : IsTrans α (fun a b => key a < key b) := ⟨fun _ _ _ => lt_trans⟩
  exact isChain_iff_pairwise

lemma Increasing.nodup_map (h : Increasing key l) : (l.map key).Nodup := by
  rw [List.Nodup, pairwise_map]
  exact (increasing_iff_pairwise.mp h).imp fun h => ne_of_lt h

lemma Increasing.eq_of_key_eq (h : Increasing key l) : ∀ a ∈ l, ∀ b ∈ l, key a = key b → a = b :=
  fun _ ha _ hb hab => inj_on_of_nodup_map h.nodup_map ha hb hab

/-- Sorted and with different keys is increasing. -/
lemma sortOn_increasing (h : (l.map key).Nodup) : Increasing key (sortOn key l) := by
  have hnodup : ((sortOn key l).map key).Nodup :=
    ((sortOn_perm key l).map key).nodup_iff.mpr h
  rw [List.Nodup, pairwise_map] at hnodup
  rw [increasing_iff_pairwise]
  exact ((sortOn_pairwise key l).and hnodup).imp fun h => lt_of_le_of_ne h.1 h.2

/-- In order and without neighbours of one key is increasing. -/
lemma increasing_of_isChain_ne (hle : l.Pairwise fun a b => key a ≤ key b)
    (h : l.IsChain fun a b => key a ≠ key b) : Increasing key l := by
  induction l with
  | nil => exact isChain_nil
  | cons a l ih =>
    cases l with
    | nil => exact isChain_singleton a
    | cons b l =>
      rw [isChain_cons_cons] at h
      rw [pairwise_cons] at hle
      exact isChain_cons_cons.mpr ⟨lt_of_le_of_ne (hle.1 b (by simp)) h.1, ih hle.2 h.2⟩

/-- An increasing list is the sorted form of each of its permutations. -/
lemma Increasing.sortOn_eq (h : Increasing key l) (hperm : l'.Perm l) : sortOn key l' = l := by
  rw [← sortOn_eq_of_perm hperm.symm h.eq_of_key_eq]
  exact sortOn_eq_self ((increasing_iff_pairwise.mp h).imp le_of_lt)

variable {β : Type*}

lemma Increasing.map {f : β → α} {l : List β} :
    Increasing key (l.map f) ↔ Increasing (fun b => key (f b)) l :=
  isChain_map f

/-- Whether the keys increase depends on the keys only. -/
lemma Increasing.of_map_eq {key' : β → κ} {l' : List β} (h : Increasing key l)
    (hmap : l.map key = l'.map key') : Increasing key' l' := by
  have hkeys : (l.map key).IsChain (· < ·) := (isChain_map key).mpr h
  rw [hmap] at hkeys
  exact (isChain_map key').mp hkeys

end SortOn

/-! ### Removing repetitions -/

section Dedup

variable {same : α → α → Bool}

variable {b : α}

lemma dedupFrom_subset (h : b ∈ dedupFrom same a l) : b ∈ a :: l := by
  induction l generalizing a with
  | nil => exact h
  | cons c l ih =>
    rw [dedupFrom] at h
    split_ifs at h
    · rcases mem_cons.mp (ih h) with rfl | hb
      · simp
      · simp [hb]
    · rcases mem_cons.mp h with rfl | hb
      · simp
      · exact mem_cons_of_mem _ (ih hb)

lemma dedupBy_subset (h : b ∈ dedupBy same l) : b ∈ l := by
  cases l with
  | nil => exact h
  | cons a l => exact dedupFrom_subset h

/-- What is dropped is the same as something that stays. -/
lemma exists_mem_dedupFrom (hrefl : ∀ a, same a a = true) (h : b ∈ a :: l) :
    ∃ c ∈ dedupFrom same a l, same b c = true := by
  induction l generalizing a with
  | nil =>
    refine ⟨a, by simp [dedupFrom], ?_⟩
    rw [mem_singleton.mp h]
    exact hrefl a
  | cons c l ih =>
    rw [dedupFrom]
    split_ifs with hc
    · rcases mem_cons.mp h with rfl | h
      · exact ih (by simp)
      rcases mem_cons.mp h with rfl | h
      · -- `c` is the same as `a`, and `a` is kept
        have hkept : ∀ l : List α, a ∈ dedupFrom same a l := by
          intro l
          induction l with
          | nil => simp [dedupFrom]
          | cons d l ihl =>
            rw [dedupFrom]
            split_ifs
            · exact ihl
            · simp
        exact ⟨a, hkept l, hc⟩
      · exact ih (by simp [h])
    · rcases mem_cons.mp h with rfl | h
      · exact ⟨b, by simp, hrefl b⟩
      · obtain ⟨d, hd, hs⟩ := ih h
        exact ⟨d, by simp [hd], hs⟩

lemma exists_mem_dedupBy (hrefl : ∀ a, same a a = true) {b : α} {l : List α} (h : b ∈ l) :
    ∃ c ∈ dedupBy same l, same b c = true := by
  cases l with
  | nil => cases h
  | cons a l => exact exists_mem_dedupFrom hrefl h

/-- Sorted, and without neighbours that are the same, is increasing. -/
lemma dedupFrom_increasing {key : α → κ}
    (hsame : ∀ b ∈ a :: l, ∀ c ∈ a :: l, key b = key c → same b c = true)
    (h : (a :: l).Pairwise (fun a b => key a ≤ key b)) : Increasing key (dedupFrom same a l) := by
  induction l generalizing a with
  | nil => exact isChain_singleton a
  | cons b l ih =>
    rw [pairwise_cons, pairwise_cons] at h
    obtain ⟨hab, hbl, hl⟩ := h
    rw [dedupFrom]
    split_ifs with hs
    · apply ih
      · intro c hc d hd
        exact hsame c (by rcases mem_cons.mp hc with rfl | hc <;> simp [*])
          d (by rcases mem_cons.mp hd with rfl | hd <;> simp [*])
      · rw [pairwise_cons]
        exact ⟨fun c hc => hab c (by simp [hc]), hl⟩
    · rw [increasing_iff_pairwise, pairwise_cons]
      have hrest := ih (fun c hc d hd => hsame c (by simp [hc]) d (by simp [hd]))
        (pairwise_cons.mpr ⟨hbl, hl⟩)
      refine ⟨fun c hc => ?_, increasing_iff_pairwise.mp hrest⟩
      have hlt : key a < key b := by
        apply lt_of_le_of_ne (hab b (by simp))
        intro hkey
        exact hs (hsame b (by simp) a (by simp) hkey.symm)
      rcases mem_cons.mp (dedupFrom_subset hc) with rfl | hc
      · exact hlt
      · exact lt_of_lt_of_le hlt (hbl c hc)

lemma dedupBy_increasing {key : α → κ} (hsame : ∀ a ∈ l, ∀ b ∈ l, key a = key b → same a b = true)
    (h : l.Pairwise (fun a b => key a ≤ key b)) : Increasing key (dedupBy same l) := by
  cases l with
  | nil => exact isChain_nil
  | cons a l => exact dedupFrom_increasing hsame h

/-- An increasing list has nothing to remove. -/
lemma dedupBy_eq_self (h : l.IsChain (fun a b => same b a = false)) : dedupBy same l = l := by
  have hrun : ∀ (a : α) (l : List α), (a :: l).IsChain (fun a b => same b a = false) →
      dedupFrom same a l = a :: l := by
    intro a l
    induction l generalizing a with
    | nil => intro _; rfl
    | cons b l ih =>
      intro h
      rw [isChain_cons_cons] at h
      rw [dedupFrom, h.1, ih b h.2]
      rfl
  cases l with
  | nil => rfl
  | cons a l => exact hrun a l h

end Dedup

/-! ### Canonical forms -/

section Canonical

variable [DecidableEq α] {key : α → κ}

lemma canonical_eq_of_perm (hperm : l.Perm l') (hinj : ∀ a ∈ l, ∀ b ∈ l, key a = key b → a = b) :
    canonical key l = canonical key l' := by
  rw [canonical, canonical, sortOn_eq_of_perm hperm hinj]

@[simp] lemma mem_canonical : a ∈ canonical key l ↔ a ∈ l := by
  constructor
  · exact fun h => (mem_sortOn key).mp (dedupBy_subset h)
  · intro h
    obtain ⟨c, hc, hs⟩ := @exists_mem_dedupBy α (fun a b => decide (a = b)) (by simp) a _
      ((mem_sortOn key).mpr h)
    rw [of_decide_eq_true hs]
    exact hc

lemma canonical_increasing (hinj : Function.Injective key) (l : List α) :
    Increasing key (canonical key l) := by
  apply dedupBy_increasing ?_ (sortOn_pairwise key l)
  intro a _ b _ h
  exact decide_eq_true (hinj h)

/-- An increasing list is its own canonical form. -/
lemma Increasing.canonical_eq (h : Increasing key l) (hperm : l'.Perm l) :
    canonical key l' = l := by
  rw [canonical, h.sortOn_eq hperm]
  apply dedupBy_eq_self
  refine List.IsChain.imp ?_ h
  intro a b hab
  rw [decide_eq_false_iff_not]
  rintro rfl
  exact lt_irrefl _ hab

/-- Increasing lists with the same members are equal. -/
lemma Increasing.ext {l l' : List α} (h : Increasing key l) (h' : Increasing key l')
    (hmem : ∀ a, a ∈ l ↔ a ∈ l') : l = l' := by
  have hperm : l.Perm l' := (perm_ext_iff_of_nodup (List.Nodup.of_map key h.nodup_map)
    (List.Nodup.of_map key h'.nodup_map)).mpr hmem
  rw [← h.canonical_eq (List.Perm.refl l), ← h'.canonical_eq hperm]

end Canonical

end Sorted
