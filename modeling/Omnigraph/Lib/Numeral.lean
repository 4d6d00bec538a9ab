import Mathlib.Tactic.Linarith
import Omnigraph.Lib.Digits

/-!
# Reading integers

An integer is read off a text with an optional sign and at least one decimal digit; zeros on the
left do not matter. A minus sign is part of a numeral of a signed type only, and a value outside of
the type is refused.
-/

namespace Numeral

/-- The sign of a text, as whether it is negative, and what follows it. -/
def splitSign (signed : Bool) : List Char → Bool × List Char
  | '+' :: digits => (false, digits)
  | '-' :: digits => if signed then (true, digits) else (false, '-' :: digits)
  | digits => (false, digits)

/-- The integer that a text is read as in a type with the values from `lo` to `hi`. -/
def parse (signed : Bool) (lo hi : ℤ) (text : String) : Option ℤ :=
  let (negative, digits) := splitSign signed text.toList
  if digits = [] ∨ ¬ digits.all Char.isDigit then none
  else
    let magnitude := (Digits.value 10 digits : ℤ)
    let value := if negative then -magnitude else magnitude
    if lo ≤ value ∧ value ≤ hi then some value else none

/-- A text is decimal digits with an optional sign. -/
inductive Spells (signed : Bool) : List Char → ℤ → Prop
  | plain {digits : List Char} (hne : digits ≠ []) (hdigits : ∀ c ∈ digits, c.isDigit = true) :
    Spells signed digits (Digits.value 10 digits)
  | plus {digits : List Char} (hne : digits ≠ []) (hdigits : ∀ c ∈ digits, c.isDigit = true) :
    Spells signed ('+' :: digits) (Digits.value 10 digits)
  | minus {digits : List Char} (hsigned : signed = true) (hne : digits ≠ [])
    (hdigits : ∀ c ∈ digits, c.isDigit = true) :
    Spells signed ('-' :: digits) (-Digits.value 10 digits)

variable {signed : Bool} {v : ℤ}

/-- The digits of a text without a sign. -/
lemma splitSign_of_isDigit {digits : List Char} (hdigits : ∀ c ∈ digits, c.isDigit = true) :
    splitSign signed digits = (false, digits) := by
  unfold splitSign
  split
  · exact absurd (hdigits '+' List.mem_cons_self) (by decide)
  · exact absurd (hdigits '-' List.mem_cons_self) (by decide)
  · rfl

lemma spells_iff {text : List Char} :
    Spells signed text v ↔ (splitSign signed text).2 ≠ [] ∧
      (∀ c ∈ (splitSign signed text).2, c.isDigit = true) ∧
      v = if (splitSign signed text).1 then -(Digits.value 10 (splitSign signed text).2 : ℤ)
        else Digits.value 10 (splitSign signed text).2 := by
  constructor
  · intro h
    cases h with
    | plain hne hdigits =>
      rw [splitSign_of_isDigit hdigits]
      exact ⟨hne, hdigits, rfl⟩
    | plus hne hdigits => exact ⟨hne, hdigits, rfl⟩
    | minus hsigned hne hdigits =>
      subst hsigned
      exact ⟨hne, hdigits, rfl⟩
  · rintro ⟨hne, hdigits, rfl⟩
    revert hne hdigits
    unfold splitSign
    split
    · exact .plus
    · cases signed with
      | true => exact .minus rfl
      | false => exact .plain
    · exact .plain

/-- A text is read as the integer it spells, if the type has it. -/
theorem parse_eq_some_iff {lo hi : ℤ} {text : String} :
    parse signed lo hi text = some v ↔ Spells signed text.toList v ∧ lo ≤ v ∧ v ≤ hi := by
  rw [spells_iff]
  unfold parse
  generalize splitSign signed text.toList = split
  obtain ⟨negative, digits⟩ := split
  dsimp only
  by_cases hdigits : digits = [] ∨ ¬ digits.all Char.isDigit
  · rw [if_pos hdigits]
    refine ⟨fun h => (by cases h), fun ⟨⟨hne, hall, _⟩, _⟩ => ?_⟩
    rcases hdigits with hnil | hnot
    · exact absurd hnil hne
    · exact absurd (List.all_eq_true.mpr hall) hnot
  · rw [if_neg hdigits, Option.ite_none_right_eq_some, Option.some.injEq]
    rw [not_or, not_not, List.all_eq_true] at hdigits
    constructor
    · rintro ⟨hrange, rfl⟩
      exact ⟨⟨hdigits.1, hdigits.2, rfl⟩, hrange⟩
    · rintro ⟨⟨-, -, rfl⟩, hrange⟩
      exact ⟨hrange, rfl⟩

end Numeral
