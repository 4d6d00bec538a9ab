import Mathlib.Data.Nat.Log
import Mathlib.Data.Rat.Floor
import Mathlib.Tactic.Positivity

/-!
# Doubles

A double is 64 bits: a sign, 11 bits of exponent and 52 bits of fraction. A natural number becomes
the nearest double; of two doubles at one distance, the one with an even fraction.
-/

namespace Double

def exponent (bits : UInt64) : ℕ := bits.toNat / 2 ^ 52 % 2 ^ 11

def fraction (bits : UInt64) : ℕ := bits.toNat % 2 ^ 52

def isNegative (bits : UInt64) : Bool := decide (2 ^ 63 ≤ bits.toNat)

/-- The smallest double is `2 ^ (-scale)`. -/
def scale : ℕ := 1074

/-- The size of a double as a multiple of the smallest one. -/
def magnitude (bits : UInt64) : ℕ :=
  if exponent bits = 0 then fraction bits else (2 ^ 52 + fraction bits) * 2 ^ (exponent bits - 1)

/-- The number a double stands for, unless it is infinite or not a number. -/
def value (bits : UInt64) : Option ℚ :=
  if exponent bits = 2047 then none
  else some ((if isNegative bits then -1 else 1) * (magnitude bits / 2 ^ scale))

/-- The double of the other sign. -/
def neg (bits : UInt64) : UInt64 :=
  if isNegative bits then UInt64.ofNat (bits.toNat - 2 ^ 63) else UInt64.ofNat (bits.toNat + 2 ^ 63)

/-! ### Natural numbers -/

/-- The number rounded to 53 bits, in units of `2 ^ shift`: half of a unit goes to the even one. -/
def roundedUnits (n shift : ℕ) : ℕ :=
  let q := n / 2 ^ shift
  let r := n % 2 ^ shift
  if 2 ^ shift < 2 * r ∨ (2 ^ shift = 2 * r ∧ q % 2 = 1) then q + 1 else q

/-- The nearest double of a natural number; the numbers of 64 bits are far below the greatest. -/
def ofNat (n : ℕ) : UInt64 :=
  if n = 0 then 0
  else if n.log2 ≤ 52 then
    UInt64.ofNat ((n.log2 + 1023) * 2 ^ 52 + (n * 2 ^ (52 - n.log2) - 2 ^ 52))
  else
    let shift := n.log2 - 52
    UInt64.ofNat ((n.log2 + 1023) * 2 ^ 52 + (roundedUnits n shift - 2 ^ 52))

/-- What a natural number is rounded to. -/
def rounded (n : ℕ) : ℕ :=
  if n.log2 ≤ 52 then n else roundedUnits n (n.log2 - 52) * 2 ^ (n.log2 - 52)

variable {e m n : ℕ}

/-- A double in parts: a carry of the fraction raises the exponent. -/
lemma magnitude_pack (he : 0 < e) (he' : e + 1 < 2047) (hm : 2 ^ 52 ≤ m) (hm' : m ≤ 2 ^ 53) :
    exponent (UInt64.ofNat (e * 2 ^ 52 + (m - 2 ^ 52))) ≠ 2047 ∧
      isNegative (UInt64.ofNat (e * 2 ^ 52 + (m - 2 ^ 52))) = false ∧
      magnitude (UInt64.ofNat (e * 2 ^ 52 + (m - 2 ^ 52))) = m * 2 ^ (e - 1) := by
  have hlt : e * 2 ^ 52 + (m - 2 ^ 52) < 2 ^ 63 := by omega
  have hbits : (UInt64.ofNat (e * 2 ^ 52 + (m - 2 ^ 52))).toNat = e * 2 ^ 52 + (m - 2 ^ 52) := by
    rw [UInt64.toNat_ofNat']
    exact Nat.mod_eq_of_lt (by omega)
  have hnegative : isNegative (UInt64.ofNat (e * 2 ^ 52 + (m - 2 ^ 52))) = false := by
    rw [isNegative, hbits]
    simpa using hlt
  rcases Nat.lt_or_eq_of_le hm' with hlt' | rfl
  · have hexp : exponent (UInt64.ofNat (e * 2 ^ 52 + (m - 2 ^ 52))) = e := by
      rw [exponent, hbits]
      omega
    have hfrac : fraction (UInt64.ofNat (e * 2 ^ 52 + (m - 2 ^ 52))) = m - 2 ^ 52 := by
      rw [fraction, hbits]
      omega
    refine ⟨by omega, hnegative, ?_⟩
    rw [magnitude, hexp, hfrac, if_neg (by omega), Nat.add_sub_cancel' hm]
  · have hexp : exponent (UInt64.ofNat (e * 2 ^ 52 + (2 ^ 53 - 2 ^ 52))) = e + 1 := by
      rw [exponent, hbits]
      omega
    have hfrac : fraction (UInt64.ofNat (e * 2 ^ 52 + (2 ^ 53 - 2 ^ 52))) = 0 := by
      rw [fraction, hbits]
      omega
    refine ⟨by omega, hnegative, ?_⟩
    rw [magnitude, hexp, hfrac, if_neg (by omega)]
    obtain ⟨e, rfl⟩ := Nat.exists_eq_succ_of_ne_zero he.ne'
    rw [Nat.add_sub_cancel, Nat.succ_sub_one, Nat.succ_eq_add_one, pow_succ]
    ring

lemma value_pack (he : 0 < e) (he' : e + 1 < 2047) (hm : 2 ^ 52 ≤ m) (hm' : m ≤ 2 ^ 53) :
    value (UInt64.ofNat (e * 2 ^ 52 + (m - 2 ^ 52))) =
      some (((m * 2 ^ (e - 1) : ℕ) : ℚ) / 2 ^ scale) := by
  obtain ⟨hexp, hnegative, hmagnitude⟩ := magnitude_pack he he' hm hm'
  rw [value, if_neg hexp, hnegative, hmagnitude]
  simp

lemma two_pow_log2 (h : n ≠ 0) : 2 ^ n.log2 ≤ n ∧ n < 2 ^ (n.log2 + 1) :=
  ⟨Nat.log2_self_le h, Nat.lt_log2_self⟩

/-- Rounding keeps 53 bits. -/
lemma roundedUnits_bounds {n shift : ℕ} (h : n ≠ 0) (hshift : n.log2 = 52 + shift) :
    2 ^ 52 ≤ roundedUnits n shift ∧ roundedUnits n shift ≤ 2 ^ 53 := by
  obtain ⟨hle, hlt⟩ := two_pow_log2 h
  have hq : 2 ^ 52 ≤ n / 2 ^ shift := by
    rw [Nat.le_div_iff_mul_le (by positivity), ← pow_add, ← hshift]
    exact hle
  have hq' : n / 2 ^ shift < 2 ^ 53 := by
    rw [Nat.div_lt_iff_lt_mul (by positivity), ← pow_add]
    have : n.log2 + 1 = 53 + shift := by omega
    rwa [← this]
  unfold roundedUnits
  dsimp only
  split_ifs <;> omega

/-- The double of a natural number stands for what the number is rounded to. -/
theorem value_ofNat (h : n.log2 < 1022) : value (ofNat n) = some (rounded n : ℚ) := by
  by_cases hzero : n = 0
  · subst hzero
    decide +kernel
  obtain ⟨hle, hlt⟩ := two_pow_log2 hzero
  rw [ofNat, if_neg hzero, rounded]
  split_ifs with hsmall
  · have hsplit : 2 ^ n.log2 * 2 ^ (52 - n.log2) = 2 ^ 52 := by
      rw [← pow_add]
      congr 1
      omega
    have hm : 2 ^ 52 ≤ n * 2 ^ (52 - n.log2) := by
      rw [← hsplit]
      exact Nat.mul_le_mul_right _ hle
    have hm' : n * 2 ^ (52 - n.log2) ≤ 2 ^ 53 := by
      have : (2 : ℕ) ^ 53 = 2 ^ (n.log2 + 1) * 2 ^ (52 - n.log2) := by
        rw [← pow_add]
        congr 1
        omega
      rw [this]
      exact Nat.mul_le_mul_right _ hlt.le
    rw [value_pack (by omega) (by omega) hm hm']
    have hexp : (52 - n.log2) + (n.log2 + 1023 - 1) = scale := by
      rw [scale]
      omega
    congr 1
    rw [mul_assoc, ← pow_add, hexp]
    push_cast
    field_simp
  · obtain ⟨hm, hm'⟩ := @roundedUnits_bounds n (n.log2 - 52) hzero (by omega)
    rw [value_pack (by omega) (by omega) hm hm']
    have hexp : n.log2 + 1023 - 1 = (n.log2 - 52) + scale := by
      rw [scale]
      omega
    congr 1
    rw [hexp, pow_add, ← mul_assoc]
    push_cast
    field_simp

/-- Rounding keeps the highest bit. -/
lemma two_pow_log2_le_rounded (h : n ≠ 0) : 2 ^ n.log2 ≤ rounded n := by
  unfold rounded
  split_ifs with hsmall
  · exact (two_pow_log2 h).1
  · have hsplit : 2 ^ n.log2 = 2 ^ 52 * 2 ^ (n.log2 - 52) := by
      rw [← pow_add]
      congr 1
      omega
    rw [hsplit]
    exact Nat.mul_le_mul_right _ (roundedUnits_bounds h (by omega)).1

lemma log2_eq_of_bounds {k : ℕ} (hle : 2 ^ k ≤ n) (hlt : n < 2 ^ (k + 1)) : n.log2 = k := by
  have hne : n ≠ 0 := by
    have : 0 < 2 ^ k := by positivity
    omega
  exact (Nat.log2_eq_iff hne).mpr ⟨hle, hlt⟩

/-- Of the numbers with a highest bit 63 the multiples of 2048 are kept. -/
lemma rounded_eq_self_iff (hle : 2 ^ 63 ≤ n) (hlt : n < 2 ^ 64) : rounded n = n ↔ 2048 ∣ n := by
  have hlog : n.log2 = 63 := log2_eq_of_bounds hle hlt
  rw [rounded, hlog, if_neg (by decide)]
  unfold roundedUnits
  dsimp only
  norm_num
  split_ifs <;> omega

/-! ### Signs -/

lemma toNat_neg (bits : UInt64) :
    (2 ^ 63 ≤ bits.toNat ∧ (neg bits).toNat = bits.toNat - 2 ^ 63) ∨
      (bits.toNat < 2 ^ 63 ∧ (neg bits).toNat = bits.toNat + 2 ^ 63) := by
  have hlt : bits.toNat < 2 ^ 64 := bits.toNat_lt
  unfold neg
  by_cases h : 2 ^ 63 ≤ bits.toNat
  · rw [if_pos (by simpa [isNegative] using h), UInt64.toNat_ofNat', Nat.mod_eq_of_lt (by omega)]
    exact .inl ⟨h, rfl⟩
  · rw [if_neg (by simpa [isNegative] using h), UInt64.toNat_ofNat', Nat.mod_eq_of_lt (by omega)]
    exact .inr ⟨by omega, rfl⟩

/-- The other sign is the other number. -/
lemma value_neg (bits : UInt64) : value (neg bits) = (value bits).map fun q => -q := by
  have hlt : bits.toNat < 2 ^ 64 := bits.toNat_lt
  have hbits := toNat_neg bits
  have hnegative : isNegative (neg bits) = !isNegative bits := by
    rw [isNegative, isNegative, ← decide_not, decide_eq_decide]
    omega
  have hexp : exponent (neg bits) = exponent bits := by
    unfold exponent
    omega
  have hfrac : fraction (neg bits) = fraction bits := by
    unfold fraction
    omega
  have hmagnitude : magnitude (neg bits) = magnitude bits := by
    rw [magnitude, magnitude, hexp, hfrac]
  rw [value, value, hexp, hnegative, hmagnitude]
  by_cases hinf : exponent bits = 2047
  · rw [if_pos hinf, if_pos hinf]
    rfl
  · rw [if_neg hinf, if_neg hinf]
    cases isNegative bits <;> simp

/-! ### Order -/

def isNaN (bits : UInt64) : Bool := exponent bits = 2047 && fraction bits ≠ 0

/-- The sign and the size in one number; an infinity is greater than every other double. -/
def signed (bits : UInt64) : ℤ := if isNegative bits then -magnitude bits else magnitude bits

/-- The order of doubles, which leaves out what is not a number. -/
def lt (a b : UInt64) : Bool := !isNaN a && !isNaN b && decide (signed a < signed b)

variable {bits : UInt64}

lemma isNaN_of_value {q : ℚ} (h : value bits = some q) : isNaN bits = false := by
  have hexp : exponent bits ≠ 2047 := fun hexp => by
    rw [value, if_pos hexp] at h
    cases h
  simp [isNaN, hexp]

lemma value_eq_signed {q : ℚ} (h : value bits = some q) : q = signed bits / 2 ^ scale := by
  have hexp : exponent bits ≠ 2047 := fun hexp => by
    rw [value, if_pos hexp] at h
    cases h
  rw [value, if_neg hexp] at h
  rw [signed, ← Option.some.inj h]
  split_ifs <;> push_cast <;> ring

lemma lt_iff_of_value {a b : UInt64} {p q : ℚ} (ha : value a = some p) (hb : value b = some q) :
    lt a b = true ↔ p < q := by
  rw [lt, isNaN_of_value ha, isNaN_of_value hb, value_eq_signed ha, value_eq_signed hb,
    div_lt_div_iff_of_pos_right (by positivity)]
  simp

/-! ### Integers -/

/-- The nearest double of an integer. -/
def ofInt (z : ℤ) : UInt64 := if z < 0 then neg (ofNat z.natAbs) else ofNat z.natAbs

/-- What an integer is rounded to. -/
def roundedInt (z : ℤ) : ℤ := if z < 0 then -rounded z.natAbs else rounded z.natAbs

lemma value_ofInt {z : ℤ} (h : z.natAbs.log2 < 1022) :
    value (ofInt z) = some (roundedInt z : ℚ) := by
  unfold ofInt roundedInt
  split_ifs
  · rw [value_neg, value_ofNat h]
    simp
  · rw [value_ofNat h]
    simp

lemma roundedUnits_mono {a b shift : ℕ} (h : a ≤ b) :
    roundedUnits a shift ≤ roundedUnits b shift := by
  have hdiv : a / 2 ^ shift ≤ b / 2 ^ shift := Nat.div_le_div_right h
  have ha := Nat.div_add_mod a (2 ^ shift)
  have hb := Nat.div_add_mod b (2 ^ shift)
  unfold roundedUnits
  dsimp only
  rcases Nat.lt_or_eq_of_le hdiv with hlt | heq
  · split_ifs <;> omega
  · rw [heq] at ha ⊢
    split_ifs <;> omega

/-- Rounding goes no higher than the next power of two. -/
lemma rounded_le_two_pow (h : n ≠ 0) : rounded n ≤ 2 ^ (n.log2 + 1) := by
  unfold rounded
  split_ifs with hsmall
  · exact (two_pow_log2 h).2.le
  · have hsplit : 2 ^ (n.log2 + 1) = 2 ^ 53 * 2 ^ (n.log2 - 52) := by
      rw [← pow_add]
      congr 1
      omega
    rw [hsplit]
    exact Nat.mul_le_mul_right _ (roundedUnits_bounds h (by omega)).2

/-- Rounding keeps the order. -/
theorem rounded_mono {a b : ℕ} (h : a ≤ b) : rounded a ≤ rounded b := by
  by_cases ha : a = 0
  · subst ha
    exact (Nat.zero_le _)
  have hb : b ≠ 0 := by omega
  have hlog : a.log2 ≤ b.log2 := by
    by_contra hlt
    rw [not_le] at hlt
    have hpow : (2 : ℕ) ^ (b.log2 + 1) ≤ 2 ^ a.log2 := Nat.pow_le_pow_right (by omega) hlt
    have := (two_pow_log2 ha).1
    have := (two_pow_log2 hb).2
    omega
  rcases Nat.lt_or_eq_of_le hlog with hlt | heq
  · calc rounded a ≤ 2 ^ (a.log2 + 1) := rounded_le_two_pow ha
      _ ≤ 2 ^ b.log2 := Nat.pow_le_pow_right (by omega) hlt
      _ ≤ rounded b := two_pow_log2_le_rounded hb
  · unfold rounded
    rw [heq]
    split_ifs
    · exact h
    · exact Nat.mul_le_mul_right _ (roundedUnits_mono h)

variable {a b : ℤ} {q s : ℕ}

lemma roundedInt_mono (h : a ≤ b) : roundedInt a ≤ roundedInt b := by
  unfold roundedInt
  split_ifs with ha hb
  · have := rounded_mono (show b.natAbs ≤ a.natAbs by omega)
    omega
  · omega
  · omega
  · have := rounded_mono (show a.natAbs ≤ b.natAbs by omega)
    omega

/-! ### Numbers told apart -/

/-- A number between two doubles `q * 2 ^ s` and `(q + 1) * 2 ^ s` becomes one of them. -/
lemma rounded_between {r : ℕ} (hq : 2 ^ 52 ≤ q) (hq' : q < 2 ^ 53) (hr : r < 2 ^ s) :
    rounded (q * 2 ^ s + r) =
      (if 2 ^ s < 2 * r ∨ (2 ^ s = 2 * r ∧ q % 2 = 1) then q + 1 else q) * 2 ^ s := by
  have hlog : (q * 2 ^ s + r).log2 = 52 + s := by
    refine log2_eq_of_bounds ?_ ?_
    · rw [pow_add]
      exact (Nat.mul_le_mul_right _ hq).trans (Nat.le_add_right _ r)
    · have hsplit : (2 : ℕ) ^ (52 + s + 1) = 2 ^ 53 * 2 ^ s := by
        rw [← pow_add]
        congr 1
        omega
      have hle : (q + 1) * 2 ^ s ≤ 2 ^ 53 * 2 ^ s := Nat.mul_le_mul_right _ hq'
      rw [Nat.succ_mul] at hle
      omega
  have hdiv : (q * 2 ^ s + r) / 2 ^ s = q := by
    rw [Nat.add_comm, Nat.add_mul_div_right _ _ (by positivity), Nat.div_eq_of_lt hr, Nat.zero_add]
  have hmod : (q * 2 ^ s + r) % 2 ^ s = r := by
    rw [Nat.add_comm, Nat.add_mul_mod_self_right, Nat.mod_eq_of_lt hr]
  rw [rounded, hlog]
  by_cases hsmall : 52 + s ≤ 52
  · obtain rfl : s = 0 := by omega
    rw [if_pos hsmall, if_neg (by omega)]
    omega
  · rw [if_neg hsmall, roundedUnits, Nat.add_sub_cancel_left, hdiv, hmod]

/-- A double is not rounded. -/
lemma rounded_mul_two_pow (hq : 2 ^ 52 ≤ q) (hq' : q ≤ 2 ^ 53) :
    rounded (q * 2 ^ s) = q * 2 ^ s := by
  have hkeep : ∀ q s : ℕ, 2 ^ 52 ≤ q → q < 2 ^ 53 → rounded (q * 2 ^ s) = q * 2 ^ s := by
    intro q s hq hq'
    have hpos : 0 < 2 ^ s := by positivity
    have := rounded_between hq hq' hpos
    rwa [if_neg (by omega), Nat.add_zero] at this
  rcases Nat.lt_or_eq_of_le hq' with hlt | rfl
  · exact hkeep q s hq hlt
  · have hsplit : 2 ^ 53 * 2 ^ s = 2 ^ 52 * 2 ^ (s + 1) := by
      rw [← pow_add, ← pow_add]
      congr 1
      omega
    rw [hsplit]
    exact hkeep _ _ le_rfl (by norm_num)

lemma rounded_of_le (h : n ≤ 2 ^ 53) : rounded n = n := by
  rcases Nat.lt_or_eq_of_le h with hlt | rfl
  · by_cases hzero : n = 0
    · subst hzero
      rfl
    · have := (Nat.log2_lt hzero).mpr hlt
      exact if_pos (by omega)
  · exact rounded_mul_two_pow (s := 0) (by norm_num) le_rfl

/-- The middle of two adjacent doubles lies between the numbers; it belongs to the even one. -/
def Midpoint (x y q s : ℕ) : Prop :=
  if q % 2 = 0 then 2 * x ≤ (2 * q + 1) * 2 ^ s ∧ (2 * q + 1) * 2 ^ s < 2 * y
  else 2 * x < (2 * q + 1) * 2 ^ s ∧ (2 * q + 1) * 2 ^ s ≤ 2 * y

/-- Two numbers, the smaller one first, that doubles keep apart: the smaller one has at most 53
bits, or a midpoint of two doubles lies between them. -/
def Apart (x y : ℕ) : Prop :=
  x < 2 ^ 53 ∨ ∃ q s, 2 ^ 52 ≤ q ∧ q < 2 ^ 53 ∧ Midpoint x y q s

variable {x y : ℕ}

lemma Midpoint.bounds (h : Midpoint x y q s) :
    2 * x ≤ (2 * q + 1) * 2 ^ s ∧ (2 * q + 1) * 2 ^ s ≤ 2 * y := by
  unfold Midpoint at h
  split_ifs at h <;> omega

/-- Numbers on both sides of a midpoint become different doubles. -/
lemma rounded_lt_of_midpoint (hq : 2 ^ 52 ≤ q) (hq' : q < 2 ^ 53) (h : Midpoint x y q s) :
    rounded x < rounded y := by
  have hpos : 0 < 2 ^ s := by positivity
  have hmiddle : (2 * q + 1) * 2 ^ s = 2 * (q * 2 ^ s) + 2 ^ s := by ring
  have hnext : (q + 1) * 2 ^ s = q * 2 ^ s + 2 ^ s := by ring
  obtain ⟨hx, hy⟩ := h.bounds
  have hlow : rounded x ≤ q * 2 ^ s := by
    rcases Nat.le_total x (q * 2 ^ s) with hle | hle
    · exact (rounded_mono hle).trans (rounded_mul_two_pow hq hq'.le).le
    · obtain ⟨r, rfl⟩ := Nat.exists_eq_add_of_le hle
      rw [rounded_between hq hq' (by omega), if_neg]
      unfold Midpoint at h
      split_ifs at h <;> omega
  have hhigh : (q + 1) * 2 ^ s ≤ rounded y := by
    rcases Nat.le_total ((q + 1) * 2 ^ s) y with hle | hle
    · rw [← rounded_mul_two_pow (q := q + 1) (s := s) (by omega) hq']
      exact rounded_mono hle
    · rcases Nat.lt_or_eq_of_le hle with hlt | rfl
      · obtain ⟨r, rfl⟩ := Nat.exists_eq_add_of_le (show q * 2 ^ s ≤ y by omega)
        rw [rounded_between hq hq' (by omega), if_pos]
        unfold Midpoint at h
        split_ifs at h <;> omega
      · exact (rounded_mul_two_pow (by omega) hq').ge
  omega

/-- A number before the middle of two doubles becomes the lower one. -/
lemma rounded_eq_of_not_midpoint (hq : 2 ^ 52 ≤ q) (hq' : q < 2 ^ 53)
    (hx : if q % 2 = 0 then 2 * x ≤ (2 * q + 1) * 2 ^ s else 2 * x < (2 * q + 1) * 2 ^ s)
    (hy : q * 2 ^ s ≤ y) (h : ¬ Midpoint x y q s) : rounded y = q * 2 ^ s := by
  have hpos : 0 < 2 ^ s := by positivity
  have hmiddle : (2 * q + 1) * 2 ^ s = 2 * (q * 2 ^ s) + 2 ^ s := by ring
  obtain ⟨r, rfl⟩ := Nat.exists_eq_add_of_le hy
  unfold Midpoint at h
  split_ifs at hx h with heven
  · rw [rounded_between hq hq' (by omega), if_neg (by omega)]
  · rw [rounded_between hq hq' (by omega), if_neg (by omega)]

/-- Numbers that become different doubles are kept apart. -/
lemma apart_of_rounded_ne (hxy : x < y) (h : rounded x ≠ rounded y) : Apart x y := by
  by_cases hsmall : x < 2 ^ 53
  · exact .inl hsmall
  obtain ⟨hle, hlt⟩ := two_pow_log2 (n := x) (by omega)
  obtain ⟨s, hs⟩ := Nat.exists_eq_add_of_le (show 52 ≤ x.log2 by
    by_contra hlog
    have : (2 : ℕ) ^ (x.log2 + 1) ≤ 2 ^ 53 := Nat.pow_le_pow_right (by omega) (by omega)
    omega)
  have hpos : 0 < 2 ^ s := by positivity
  have hq : 2 ^ 52 ≤ x / 2 ^ s := by
    rw [Nat.le_div_iff_mul_le hpos, ← pow_add, ← hs]
    exact hle
  have hq' : x / 2 ^ s < 2 ^ 53 := by
    rw [Nat.div_lt_iff_lt_mul hpos, ← pow_add]
    have : x.log2 + 1 = 53 + s := by omega
    rwa [← this]
  obtain ⟨q, r, hqx, hr, rfl⟩ : ∃ q r, q = x / 2 ^ s ∧ r < 2 ^ s ∧ x = q * 2 ^ s + r :=
    ⟨_, x % 2 ^ s, rfl, Nat.mod_lt _ hpos, (Nat.div_add_mod' x (2 ^ s)).symm⟩
  rw [← hqx] at hq hq'
  have hmiddle : (2 * q + 1) * 2 ^ s = 2 * (q * 2 ^ s) + 2 ^ s := by ring
  have hx := rounded_between hq hq' hr
  right
  by_cases hup : 2 ^ s < 2 * r ∨ (2 ^ s = 2 * r ∧ q % 2 = 1)
  · -- the next midpoint is the one above the double that both numbers are below or at
    rw [if_pos hup] at hx
    obtain ⟨q', s', hq1, hq1', hsame, hle'⟩ : ∃ q' s', 2 ^ 52 ≤ q' ∧ q' < 2 ^ 53 ∧
        q' * 2 ^ s' = (q + 1) * 2 ^ s ∧ 0 < 2 ^ s' := by
      rcases Nat.lt_or_eq_of_le (Nat.succ_le_of_lt hq') with hlt' | heq
      · exact ⟨q + 1, s, by omega, hlt', rfl, hpos⟩
      · refine ⟨2 ^ 52, s + 1, le_rfl, by norm_num, ?_, by positivity⟩
        rw [show q + 1 = 2 ^ 53 from heq, ← pow_add, ← pow_add]
        congr 1
        omega
    have hnext : (q + 1) * 2 ^ s = q * 2 ^ s + 2 ^ s := by ring
    have hmiddle' : (2 * q' + 1) * 2 ^ s' = 2 * (q' * 2 ^ s') + 2 ^ s' := by ring
    refine ⟨q', s', hq1, hq1', ?_⟩
    by_contra hmid
    refine h ?_
    rw [hx]
    rcases Nat.lt_or_ge y (q' * 2 ^ s') with hbelow | habove
    · obtain ⟨r', rfl⟩ := Nat.exists_eq_add_of_le (show q * 2 ^ s ≤ y by omega)
      rw [rounded_between hq hq' (by omega), if_pos (by omega)]
    · rw [rounded_eq_of_not_midpoint hq1 hq1' (by split_ifs <;> omega) habove hmid, hsame]
  · rw [if_neg hup] at hx
    refine ⟨q, s, hq, hq', ?_⟩
    by_contra hmid
    refine h ?_
    rw [hx, rounded_eq_of_not_midpoint hq hq' (by split_ifs <;> omega) (by omega) hmid]

/-- Two numbers become different doubles exactly where doubles keep them apart. -/
theorem rounded_ne_iff (hxy : x < y) : rounded x ≠ rounded y ↔ Apart x y := by
  refine ⟨apart_of_rounded_ne hxy, ?_⟩
  rintro (hsmall | ⟨q, s, hq, hq', hmid⟩)
  · have hstep : rounded (x + 1) ≤ rounded y := rounded_mono hxy
    rw [rounded_of_le (Nat.succ_le_of_lt hsmall)] at hstep
    rw [rounded_of_le hsmall.le]
    omega
  · exact (rounded_lt_of_midpoint hq hq' hmid).ne

/-- Two integers, the smaller one first, that doubles keep apart. -/
def ApartInt (a b : ℤ) : Prop :=
  a < 0 ∧ 0 ≤ b ∨ 0 ≤ a ∧ Apart a.natAbs b.natAbs ∨ b < 0 ∧ Apart b.natAbs a.natAbs

theorem roundedInt_ne_iff (h : a < b) : roundedInt a ≠ roundedInt b ↔ ApartInt a b := by
  unfold roundedInt ApartInt
  rcases Int.lt_or_le a 0 with ha | ha
  · rcases Int.lt_or_le b 0 with hb | hb
    · have hiff := rounded_ne_iff (show b.natAbs < a.natAbs by omega)
      rw [if_pos ha, if_pos hb, ← hiff]
      omega
    · -- a negative number stays negative
      have hne : a.natAbs ≠ 0 := by omega
      have hpos : 0 < rounded a.natAbs :=
        lt_of_lt_of_le (by positivity) (two_pow_log2_le_rounded hne)
      rw [if_pos ha, if_neg (by omega)]
      exact ⟨fun _ => .inl ⟨ha, hb⟩, fun _ => by omega⟩
  · have hb : 0 ≤ b := by omega
    have hiff := rounded_ne_iff (show a.natAbs < b.natAbs by omega)
    rw [if_neg (by omega), if_neg (by omega), ← hiff]
    omega

end Double
