import Mathlib.Algebra.Group.Nat.Defs
import Mathlib.Order.Lattice
import Mathlib.Order.Nat

/-!
# Arithmetic of 64 bits

Numbers that fit a machine word: checked operations have no result where they overflow, saturating
ones stop at the greatest number.
-/

namespace Word

/-- The greatest number of 64 bits. -/
def maxValue : ℕ := 2 ^ 64 - 1

/-- A result that fits 64 bits; what does not fit is none. -/
def fits (n : ℕ) : Option ℕ := if n < 2 ^ 64 then some n else none

def checkedAdd (a b : ℕ) : Option ℕ := fits (a + b)

def checkedSub (a b : ℕ) : Option ℕ := if b ≤ a then some (a - b) else none

/-- An addition that stops at the greatest number. -/
def saturatingAdd (a b : ℕ) : ℕ := min (a + b) maxValue

lemma fits_eq_some_iff {n m : ℕ} : fits n = some m ↔ n < 2 ^ 64 ∧ n = m := by
  unfold fits
  split_ifs with h
  · rw [Option.some.injEq, and_iff_right h]
  · simp only [h, false_and]

lemma checkedAdd_eq_some_iff {a b c : ℕ} : checkedAdd a b = some c ↔ a + b < 2 ^ 64 ∧ a + b = c :=
  fits_eq_some_iff

lemma saturatingAdd_of_lt {a b : ℕ} (h : a + b < 2 ^ 64) : saturatingAdd a b = a + b :=
  min_eq_left (Nat.le_sub_one_of_lt h)

end Word
