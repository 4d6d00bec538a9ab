import Mathlib.Data.List.Basic

/-!
# Literals with doubled quotes

A literal stands between two quotes, and every quote within it is doubled. A list of literals is
read back from the text it is written as.
-/

namespace Doubled

open List Option

variable {α : Type*} [DecidableEq α] (q : α)

/-- The inside of a literal. -/
def escape (s : List α) : List α := s.flatMap fun c => if c = q then [q, c] else [c]

/-- A literal with its quotes. -/
def literal (s : List α) : List α := q :: (escape q s ++ [q])

/-- The inside of a literal after its first quote, and what follows the literal. -/
def readInside : List α → Option (List α × List α)
  | [] => none
  | [c] => if c = q then some ([], []) else none
  | c :: d :: l =>
    if c = q then
      if d = q then (readInside l).map fun read => (q :: read.1, read.2)
      else some ([], d :: l)
    else (readInside (d :: l)).map fun read => (c :: read.1, read.2)

lemma readInside_quote {l : List α} (h : l.head? ≠ some q) :
    readInside q (q :: l) = some ([], l) := by
  cases l with
  | nil => rw [readInside, if_pos rfl]
  | cons d l =>
    have hd : d ≠ q := fun hd => h (congrArg some hd)
    rw [readInside, if_pos rfl, if_neg hd]

/-- A literal is read up to the quote that is not doubled. -/
lemma readInside_escape (s : List α) {rest : List α} (h : rest.head? ≠ some q) :
    readInside q (escape q s ++ q :: rest) = some (s, rest) := by
  induction s with
  | nil => exact readInside_quote q h
  | cons c s ih =>
    by_cases hc : c = q
    · subst hc
      rw [escape, flatMap_cons, if_pos rfl, ← escape]
      show readInside c (c :: c :: (escape c s ++ c :: rest)) = _
      rw [readInside, if_pos rfl, if_pos rfl, ih]
      rfl
    · have hcons : escape q (c :: s) ++ q :: rest = c :: (escape q s ++ q :: rest) := by
        rw [escape, flatMap_cons, if_neg hc, ← escape]
        rfl
      obtain ⟨d, l, hdl⟩ := exists_cons_of_ne_nil
        (append_ne_nil_of_right_ne_nil (escape q s) (cons_ne_nil q rest))
      rw [hcons, hdl, readInside, if_neg hc, ← hdl, ih]
      rfl

/-! ### Lists of literals -/

variable (sep close : α) (blank : α)

/-- Literals, each but the last followed by a separator and a blank; the last is followed by the
closing bracket and nothing else. -/
def readList : ℕ → List α → Option (List (List α))
  | 0, _ => none
  | _, [] => none
  | n + 1, c :: text =>
    if c = q then do
      let (inside, rest) ← readInside q text
      if rest = [close] then some [inside]
      else if rest.take 2 = [sep, blank] then (readList n (rest.drop 2)).map (inside :: ·)
      else none
    else none

lemma length_le_intercalate (items : List (List α)) :
    items.length ≤ ([sep, blank].intercalate (items.map (literal q))).length := by
  induction items with
  | nil => exact Nat.zero_le _
  | cons item items ih =>
    cases items with
    | nil => simp [literal]
    | cons next items =>
      rw [map_cons, map_cons, intercalate_cons_cons, ← map_cons,
        length_append, length_append]
      have hlength : (item :: next :: items).length = (next :: items).length + 1 := rfl
      have : 0 < (literal q item).length := Nat.succ_pos _
      omega

/-- A list of quoted literals is read back. -/
lemma readList_intercalate (hclose : close ≠ q) (hsep : sep ≠ q) {items : List (List α)}
    (hne : items ≠ []) {n : ℕ} (hn : items.length ≤ n) :
    readList q sep close blank n ([sep, blank].intercalate (items.map (literal q)) ++ [close]) =
      some items := by
  induction items generalizing n with
  | nil => exact absurd rfl hne
  | cons item items ih =>
    obtain ⟨n, rfl⟩ := Nat.exists_eq_succ_of_ne_zero (by
      rw [length_cons] at hn
      omega : n ≠ 0)
    cases items with
    | nil =>
      have hrest : ([close] : List α).head? ≠ some q := by simpa using hclose
      have hread := readInside_escape q item hrest
      simp only [map_cons, map_nil, intercalate_singleton, literal, cons_append,
        append_assoc, nil_append, readList, if_true, hread, bind_eq_bind,
        bind_some]
    | cons next items =>
      have htext : [sep, blank].intercalate ((item :: next :: items).map (literal q)) ++ [close] =
          q :: (escape q item ++ q :: sep :: blank ::
            ([sep, blank].intercalate ((next :: items).map (literal q)) ++ [close])) := by
        simp [List.intercalate, literal]
      have hrest : ∀ l : List α, (sep :: blank :: l).head? ≠ some q := by simpa using hsep
      have hread := readInside_escape q item (hrest
        ([sep, blank].intercalate ((next :: items).map (literal q)) ++ [close]))
      have hlast : ∀ l : List α, sep :: blank :: l ≠ [close] := by simp
      have hmore := ih (cons_ne_nil next items) (Nat.le_of_succ_le_succ hn)
      rw [htext, readList, if_pos rfl, hread]
      simp only [bind_eq_bind, bind_some, if_neg (hlast _), take_succ_cons,
        take_zero, if_true, drop_succ_cons, drop_zero, hmore, map_some]

end Doubled
