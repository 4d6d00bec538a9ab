import Mathlib.Data.Int.Log
import Mathlib.Data.Rat.Floor
import Mathlib.Tactic.Positivity

/-!
# Operations on doubles

An operation on doubles gives the double nearest to the exact result; of two at one distance, the
one with an even fraction. The numbers here are far from the smallest and the greatest double, so
that a result is off by `1 / 2 ^ 53` of its size at most.
-/

namespace Double

/-- The nearest integer; of two at one distance, the even one. -/
def nearestInt (m : ℚ) : ℤ :=
  if 2 * Int.fract m < 1 ∨ (2 * Int.fract m = 1 ∧ ⌊m⌋ % 2 = 0) then ⌊m⌋ else ⌊m⌋ + 1

/-- The distance between the doubles at a positive number. -/
def lastPlace (q : ℚ) : ℚ := 2 ^ (Int.log 2 q - 52)

/-- The double nearest to a number that is not negative. -/
def nearest (q : ℚ) : ℚ := nearestInt (q / lastPlace q) * lastPlace q

lemma abs_nearestInt_sub_le (m : ℚ) : |(nearestInt m : ℚ) - m| ≤ 1 / 2 := by
  have hsplit : (⌊m⌋ : ℚ) + Int.fract m = m := Int.floor_add_fract m
  have hnonneg := Int.fract_nonneg m
  have hlt := Int.fract_lt_one m
  unfold nearestInt
  rw [abs_le]
  split_ifs with h
  · have hle : 2 * Int.fract m ≤ 1 := h.elim le_of_lt fun h => h.1.le
    constructor <;> linarith
  · have hge : 1 ≤ 2 * Int.fract m := not_lt.mp fun hlt => h (.inl hlt)
    push_cast
    constructor <;> linarith

lemma nearestInt_intCast (n : ℤ) : nearestInt (n : ℚ) = n := by
  rw [nearestInt, if_pos (.inl (by simp)), Int.floor_intCast]

lemma lastPlace_pos (q : ℚ) : 0 < lastPlace q := zpow_pos two_pos _

lemma lastPlace_le {q : ℚ} (hq : 0 < q) : lastPlace q ≤ q / 2 ^ 52 := by
  have hlog : (2 : ℚ) ^ Int.log 2 q ≤ q := by
    exact_mod_cast Int.zpow_log_le_self (by norm_num) hq
  rw [lastPlace, zpow_sub₀ two_ne_zero]
  gcongr
  norm_num

/-- The error of an operation. -/
lemma abs_nearest_sub_le {q : ℚ} (hq : 0 < q) : |nearest q - q| ≤ q / 2 ^ 53 := by
  have hpos := lastPlace_pos q
  have hle := lastPlace_le hq
  have herror := abs_nearestInt_sub_le (q / lastPlace q)
  have hscaled : nearest q - q =
      ((nearestInt (q / lastPlace q) : ℚ) - q / lastPlace q) * lastPlace q := by
    rw [nearest, sub_mul, div_mul_cancel₀ _ hpos.ne']
  calc |nearest q - q|
      = |(nearestInt (q / lastPlace q) : ℚ) - q / lastPlace q| * lastPlace q := by
        rw [hscaled, abs_mul, abs_of_pos hpos]
    _ ≤ 1 / 2 * (q / 2 ^ 52) := by gcongr
    _ = q / 2 ^ 53 := by ring

/-- A natural number of 53 bits is a double. -/
lemma nearest_natCast {n : ℕ} (h : n < 2 ^ 53) : nearest n = n := by
  rcases Nat.eq_zero_or_pos n with rfl | hn
  · simp [nearest, nearestInt]
  have hlog : Int.log 2 (n : ℚ) = Nat.log 2 n := Int.log_natCast 2 n
  have hbits : Nat.log 2 n ≤ 52 := Nat.lt_succ_iff.mp (Nat.log_lt_of_lt_pow hn.ne' h)
  have hunits : (n : ℚ) / lastPlace n = ((n * 2 ^ (52 - Nat.log 2 n) : ℕ) : ℤ) := by
    have hplace : lastPlace (n : ℚ) = (2 ^ (52 - Nat.log 2 n) : ℚ)⁻¹ := by
      rw [lastPlace, hlog, ← zpow_natCast, ← zpow_neg]
      congr 1
      omega
    rw [hplace, div_inv_eq_mul]
    push_cast
    ring
  rw [nearest, hunits, nearestInt_intCast, ← hunits, div_mul_cancel₀ _ (lastPlace_pos _).ne']

/-- Numbers that are not close stay in their order. -/
lemma nearest_lt_nearest {x y : ℚ} (hx : 0 < x) (h : x + x / 2 ^ 50 ≤ y) :
    nearest x < nearest y := by
  have hy : 0 < y := lt_of_lt_of_le (by positivity) h
  have hup := (abs_le.mp (abs_nearest_sub_le hx)).2
  have hdown := (abs_le.mp (abs_nearest_sub_le hy)).1
  norm_num at h hup hdown
  linarith

end Double
