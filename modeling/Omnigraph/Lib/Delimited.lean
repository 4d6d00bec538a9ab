import Mathlib.Data.List.TakeWhile

/-!
# Delimited lists

The parts of a list before and after the first occurrence of a delimiter, and a list without the
padding at its ends.
-/

namespace Delimited

open List

variable {α : Type*} [DecidableEq α]

/-- The parts before and after the first `x`. -/
def splitFirst (x : α) : List α → Option (List α × List α)
  | [] => none
  | a :: l =>
    if a = x then some ([], l)
    else (splitFirst x l).map fun parts => (a :: parts.1, parts.2)

variable {before l : List α} {x : α}

lemma splitFirst_eq_some_iff {after : List α} :
    splitFirst x l = some (before, after) ↔ l = before ++ x :: after ∧ x ∉ before := by
  induction l generalizing before with
  | nil => simp [splitFirst]
  | cons a l ih =>
    rw [splitFirst]
    split_ifs with ha
    · subst ha
      constructor
      · rintro ⟨rfl, rfl⟩
        simp
      · rintro ⟨h, hnot⟩
        cases before with
        | nil =>
          cases h
          rfl
        | cons b before =>
          cases h
          simp at hnot
    · constructor
      · intro h
        obtain ⟨⟨before', after'⟩, hsplit, hpair⟩ := Option.map_eq_some_iff.mp h
        cases hpair
        obtain ⟨rfl, hnot⟩ := ih.mp hsplit
        exact ⟨rfl, by simp [hnot, Ne.symm ha]⟩
      · rintro ⟨h, hnot⟩
        cases before with
        | nil =>
          cases h
          exact absurd rfl ha
        | cons b before =>
          cases h
          rw [mem_cons, not_or] at hnot
          rw [ih.mpr ⟨rfl, hnot.2⟩]
          rfl

lemma splitFirst_eq_none_iff : splitFirst x l = none ↔ x ∉ l := by
  induction l with
  | nil => simp [splitFirst]
  | cons a l ih =>
    rw [splitFirst]
    split_ifs with ha
    · simp [ha]
    · simp [ih, Ne.symm ha]

/-! ### Pieces -/

/-- The pieces of a list, each with the delimiter that ends it. -/
def pieces (x : α) : List α → List (List α)
  | [] => []
  | a :: l =>
    if a = x then [a] :: pieces x l
    else
      match pieces x l with
      | [] => [[a]]
      | piece :: rest => (a :: piece) :: rest

lemma pieces_append_cons (h : x ∉ before) (after : List α) :
    pieces x (before ++ x :: after) = (before ++ [x]) :: pieces x after := by
  induction before with
  | nil => simp [pieces]
  | cons a before ih =>
    rw [mem_cons, not_or] at h
    rw [cons_append, pieces, if_neg (Ne.symm h.1), ih h.2]
    rfl

lemma pieces_of_not_mem (h : x ∉ l) (hne : l ≠ []) : pieces x l = [l] := by
  induction l with
  | nil => exact absurd rfl hne
  | cons a l ih =>
    rw [mem_cons, not_or] at h
    rw [pieces, if_neg (Ne.symm h.1)]
    cases l with
    | nil => rfl
    | cons b l => rw [ih h.2 (cons_ne_nil b l)]

/-- The pieces put together are the list. -/
lemma flatten_pieces (x : α) (l : List α) : (pieces x l).flatten = l := by
  induction l with
  | nil => rfl
  | cons a l ih =>
    rw [pieces]
    split_ifs with ha
    · rw [flatten_cons, ih]
      rfl
    · cases hpieces : pieces x l with
      | nil =>
        rw [hpieces] at ih
        simpa using ih
      | cons piece rest =>
        rw [hpieces] at ih
        simpa using ih

/-- The pieces after the first are the pieces of what they make up. -/
lemma pieces_flatten_tail (x : α) (l : List α) :
    pieces x (pieces x l).tail.flatten = (pieces x l).tail := by
  cases hsplit : splitFirst x l with
  | some parts =>
    obtain ⟨rfl, hbefore⟩ := splitFirst_eq_some_iff.mp hsplit
    rw [pieces_append_cons hbefore, tail_cons, flatten_pieces]
  | none =>
    have hnot := splitFirst_eq_none_iff.mp hsplit
    by_cases hl : l = []
    · subst hl
      rfl
    · rw [pieces_of_not_mem hnot hl]
      rfl

/-! ### Padding -/

section Trim

variable {α : Type*} (p : α → Bool)

/-- The list without padding at its ends. -/
def trim (l : List α) : List α := ((l.dropWhile p).reverse.dropWhile p).reverse

lemma dropWhile_append_padding {left l : List α} (hleft : ∀ a ∈ left, p a = true)
    (hl : ∀ a ∈ l.head?, p a = false) : (left ++ l).dropWhile p = l := by
  induction left with
  | nil =>
    cases l with
    | nil => rfl
    | cons a l => simp [hl a rfl]
  | cons a left ih =>
    rw [List.cons_append, List.dropWhile_cons_of_pos (hleft a List.mem_cons_self)]
    exact ih fun b hb => hleft b (List.mem_cons_of_mem _ hb)

/-- Padding around a list that has none of its own is trimmed. -/
lemma trim_append {left l right : List α} (hleft : ∀ a ∈ left, p a = true)
    (hright : ∀ a ∈ right, p a = true) (hhead : ∀ a ∈ l.head?, p a = false)
    (hlast : ∀ a ∈ l.getLast?, p a = false) (hne : l ≠ []) :
    trim p (left ++ l ++ right) = l := by
  have hhead' : ∀ a ∈ (l ++ right).head?, p a = false := by
    obtain ⟨a, l, rfl⟩ := exists_cons_of_ne_nil hne
    exact hhead
  rw [trim, append_assoc, dropWhile_append_padding p hleft hhead', reverse_append,
    dropWhile_append_padding p (by simpa using hright) (by simpa using hlast),
    reverse_reverse]

/-- A list is its trimmed part between padding. -/
lemma exists_trim (l : List α) : ∃ left right, l = left ++ trim p l ++ right ∧
    (∀ a ∈ left, p a = true) ∧ ∀ a ∈ right, p a = true := by
  refine ⟨l.takeWhile p, ((l.dropWhile p).reverse.takeWhile p).reverse, ?_,
    fun a ha => mem_takeWhile_imp ha, fun a ha => ?_⟩
  · rw [trim, append_assoc, ← reverse_append, takeWhile_append_dropWhile,
      reverse_reverse, takeWhile_append_dropWhile]
  · exact mem_takeWhile_imp (mem_reverse.mp ha)

end Trim

end Delimited
