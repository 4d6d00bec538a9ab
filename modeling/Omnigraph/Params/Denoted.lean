import Omnigraph.Lib.Result
import Omnigraph.Params.Input

/-!
# What a JSON value denotes

A number or a numeral denotes an integer, whatever the mode; a declared parameter is read as that
integer, or it is refused. The modes differ only in what they admit.
-/

namespace Omnigraph.Params

open Option Compiler SerdeJson JsonNumber Double

/-! ### Integers -/

/-- The integer a double stands for, if it is one. -/
def floatInteger (bits : UInt64) : Option ℤ :=
  (Double.value bits).bind fun q => if q.den = 1 then some q.num else none

/-- The integer a number or a numeral denotes. -/
def denotedInteger : JsonValue → Option ℤ
  | .number (.posInt n _) => some n
  | .number (.negInt i _) => some i
  | .number (.float bits) => floatInteger bits
  | .string s => Decimal.signed s
  | _ => none

/-- The form of an integer that a mode admits. The standard mode takes no floats, the JavaScript
mode no number that a double may have been rounded to, and unsigned numerals have no minus sign. -/
def admitsInteger (mode : JsonParamMode) (isSigned : Bool) (value : JsonValue) : Bool :=
  match value with
  | .number n =>
    match mode with
    | .standard => n.asInteger.isSome
    | .javaScript => (denotedInteger value).all isJsSafeIntegerI64
  | .string s => isSigned || !Decimal.isNegative s
  | _ => true

variable {i : ℤ} {n : ℕ} {number : JsonNumber} {mode : JsonParamMode} {value : JsonValue}

lemma floatInteger_eq_some_iff {bits : UInt64} :
    floatInteger bits = some i ↔ Double.value bits = some (i : ℚ) := by
  unfold floatInteger
  cases Double.value bits with
  | none => simp
  | some q =>
    simp only [bind_some, Option.some.injEq]
    constructor
    · intro h
      split_ifs at h with hden
      rw [← Option.some.inj h, Rat.den_eq_one_iff _ |>.mp hden]
    · rintro rfl
      simp

lemma isJsSafeIntegerI64_iff :
    isJsSafeIntegerI64 i = true ↔ i.natAbs ≤ 9007199254740991 := decide_eq_true_iff

variable {shown : Shown} {key : String}

/-- Of the integers that doubles stand for, those that are safe are cast as they are. -/
lemma floatToI64_safe_iff {bits : UInt64} {i : ℤ} :
    (floatToI64 shown key bits = .ok i ∧ isJsSafeIntegerI64 i = true) ↔
      (floatInteger bits = some i ∧ isJsSafeIntegerI64 i = true) := by
  unfold floatToI64 floatInteger
  rw [isJsSafeIntegerI64_iff]
  cases Double.value bits with
  | none => simp [refuse]
  | some q =>
    by_cases hden : q.den = 1
    · have hq : (q.num : ℚ) = q := Rat.den_eq_one_iff _ |>.mp hden
      have hlo : q < -2 ^ 63 ↔ q.num < -2 ^ 63 := by
        rw [← hq]
        exact_mod_cast Iff.rfl
      have hhi : 2 ^ 63 < q ↔ 2 ^ 63 < q.num := by
        rw [← hq]
        exact_mod_cast Iff.rfl
      simp only [hden, bind_some, ne_eq, not_true_eq_false, if_false, if_true,
        Option.some.injEq]
      split_ifs with hrange
      · rw [hlo, hhi] at hrange
        simp only [refuse, reduceCtorEq, false_and, false_iff]
        omega
      · rw [hlo, hhi] at hrange
        simp only [Except.ok.injEq, saturate]
        omega
    · simp [hden, refuse]

lemma floatToU64_safe_iff {bits : UInt64} {n : ℕ} :
    (floatToU64 shown key bits = .ok n ∧ n ≤ jsMaxSafeInteger) ↔
      (floatInteger bits = some (n : ℤ) ∧ n ≤ jsMaxSafeInteger) := by
  unfold floatToU64 floatInteger jsMaxSafeInteger
  cases Double.value bits with
  | none => simp [refuse]
  | some q =>
    by_cases hden : q.den = 1
    · have hq : (q.num : ℚ) = q := Rat.den_eq_one_iff _ |>.mp hden
      have hlo : q < 0 ↔ q.num < 0 := by
        rw [← hq]
        exact_mod_cast Iff.rfl
      have hhi : 2 ^ 64 < q ↔ 2 ^ 64 < q.num := by
        rw [← hq]
        exact_mod_cast Iff.rfl
      simp only [hden, bind_some, ne_eq, not_true_eq_false, false_or, if_true,
        Option.some.injEq]
      split_ifs with hneg hrange
      · rw [hlo] at hneg
        simp only [refuse, reduceCtorEq, false_and, false_iff]
        omega
      · rw [hhi] at hrange
        simp only [refuse, reduceCtorEq, false_and, false_iff]
        omega
      · rw [hlo] at hneg
        rw [hhi] at hrange
        simp only [Except.ok.injEq, saturate]
        omega
    · simp [hden, refuse]

/-! ### Numbers -/

/-- A number above the signed range stays above it when it is rounded. -/
lemma floatInteger_ofNat (hle : 2 ^ 63 ≤ n) (hlt : n < 2 ^ 64) :
    ∃ m : ℕ, floatInteger (ofNat n) = some (m : ℤ) ∧ 2 ^ 63 ≤ m := by
  have hlog : n.log2 = 63 := log2_eq_of_bounds hle hlt
  refine ⟨rounded n, ?_, ?_⟩
  · rw [floatInteger_eq_some_iff, value_ofNat (by omega)]
    simp
  · have := two_pow_log2_le_rounded (n := n) (by omega)
    rwa [hlog] at this

/-- A negative number stays negative when it is rounded. -/
lemma floatInteger_neg_ofNat (hpos : n ≠ 0) (hlt : n ≤ 2 ^ 63) :
    ∃ i : ℤ, floatInteger (neg (ofNat n)) = some i ∧ i < 0 := by
  have hlog : n.log2 < 64 := (Nat.log2_lt hpos).mpr (by omega)
  refine ⟨-(rounded n : ℤ), ?_, ?_⟩
  · rw [floatInteger_eq_some_iff, value_neg, value_ofNat (by omega)]
    simp
  · have := two_pow_log2_le_rounded hpos
    have hone : 1 ≤ 2 ^ n.log2 := Nat.one_le_two_pow
    omega

/-- In the JavaScript mode a number is read as the integer it denotes, if that is safe. -/
lemma numberToI64_safe_iff :
    (numberToI64 shown key number = .ok i ∧ isJsSafeIntegerI64 i = true) ↔
      (denotedInteger (.number number) = some i ∧ isJsSafeIntegerI64 i = true) := by
  cases number with
  | posInt n hn =>
    by_cases hsmall : n < 2 ^ 63
    · simp only [numberToI64, asI64, denotedInteger, hsmall, if_true, Except.ok.injEq,
        Option.some.injEq]
    · obtain ⟨m, hm, hle⟩ := floatInteger_ofNat (by omega) hn
      have hfloat := @floatToI64_safe_iff shown key (ofNat n) i
      simp only [numberToI64, asI64, hsmall, if_false, asF64, denotedInteger]
      rw [hfloat, hm, isJsSafeIntegerI64_iff]
      simp only [Option.some.injEq]
      omega
  | negInt j hj => simp [numberToI64, asI64, denotedInteger]
  | float bits => exact floatToI64_safe_iff

lemma numberToU64_safe_iff :
    (numberToU64 shown key number = .ok n ∧ n ≤ jsMaxSafeInteger) ↔
      (denotedInteger (.number number) = some (n : ℤ) ∧ n ≤ jsMaxSafeInteger) := by
  cases number with
  | posInt m hm => simp [numberToU64, asU64, denotedInteger]
  | negInt j hj =>
    obtain ⟨i, hi, hneg⟩ := floatInteger_neg_ofNat (n := j.natAbs) (by omega) (by omega)
    have hfloat := @floatToU64_safe_iff shown key (neg (ofNat j.natAbs)) n
    simp only [numberToU64, asU64, asF64, denotedInteger]
    rw [hfloat, hi]
    simp only [Option.some.injEq]
    omega
  | float bits => exact floatToU64_safe_iff

/-! ### Integer parameters -/

/-- A value that is read and checked. -/
lemma check_ok_iff {α : Type} {x : Read α} {c : α → Bool} {text : α → String} {a : α} :
    (x >>= fun parsed => if !c parsed then refuse key (text parsed) else .ok parsed) = .ok a ↔
      x = .ok a ∧ c a = true := by
  rw [Except.bind_eq_ok_iff]
  constructor
  · rintro ⟨b, hb, h⟩
    cases hc : c b with
    | true =>
      rw [hc] at h
      cases h
      exact ⟨hb, hc⟩
    | false =>
      rw [hc] at h
      cases h
  · rintro ⟨ha, hc⟩
    exact ⟨a, ha, by rw [hc]; rfl⟩

/-- A signed integer is read if and only if the value denotes it and its form is admitted. -/
theorem parseI64Param_ok_iff :
    parseI64Param shown key value mode = .ok i ↔
      denotedInteger value = some i ∧ (-2 ^ 63 ≤ i ∧ i < 2 ^ 63) ∧
        admitsInteger mode true value = true := by
  cases value with
  | number number =>
    cases mode with
    | standard =>
      cases number with
      | posInt n hn =>
        by_cases hsmall : n < 2 ^ 63
        · simp only [parseI64Param, asI64, hsmall, if_true, denotedInteger,
            admitsInteger, asInteger, Except.ok.injEq, Option.some.injEq,
            isSome_some, and_true]
          omega
        · simp only [parseI64Param, asI64, hsmall, if_false, denotedInteger, refuse,
            reduceCtorEq, Option.some.injEq, false_iff]
          omega
      | negInt j hj =>
        simp only [parseI64Param, asI64, denotedInteger, admitsInteger,
          asInteger, Except.ok.injEq, Option.some.injEq, isSome_some, and_true]
        omega
      | float bits =>
        simp [parseI64Param, asI64, refuse, admitsInteger, asInteger]
    | javaScript =>
      have hread : parseI64Param shown key (.number number) .javaScript = .ok i ↔
          numberToI64 shown key number = .ok i ∧ isJsSafeIntegerI64 i = true := check_ok_iff
      rw [hread, numberToI64_safe_iff, admitsInteger]
      constructor
      · rintro ⟨hi, hsafe⟩
        have := isJsSafeIntegerI64_iff.mp hsafe
        exact ⟨hi, by omega, by rw [hi]; exact hsafe⟩
      · rintro ⟨hi, -, hsafe⟩
        rw [hi] at hsafe
        exact ⟨hi, hsafe⟩
  | string s =>
    have hread : parseI64Param shown key (.string s) mode = .ok i ↔ parseI64 s = some i := by
      cases mode <;> cases hs : parseI64 s <;> simp [parseI64Param, hs, refuse]
    rw [hread]
    simp [parseI64, filter_eq_some_iff, denotedInteger, admitsInteger]
  | _ => cases mode <;> simp [parseI64Param, refuse, denotedInteger]

/-- An unsigned integer is read if and only if the value denotes it and its form is admitted. -/
theorem parseU64Param_ok_iff :
    parseU64Param shown key value mode = .ok n ↔
      denotedInteger value = some (n : ℤ) ∧ n < 2 ^ 64 ∧
        admitsInteger mode false value = true := by
  cases value with
  | number number =>
    cases mode with
    | standard =>
      cases number with
      | posInt m hm =>
        simp only [parseU64Param, asU64, denotedInteger, admitsInteger,
          asInteger, Except.ok.injEq, Option.some.injEq, isSome_some, and_true]
        omega
      | negInt j hj =>
        simp only [parseU64Param, asU64, denotedInteger, refuse, reduceCtorEq,
          Option.some.injEq, false_iff]
        omega
      | float bits =>
        simp [parseU64Param, asU64, refuse, admitsInteger, asInteger]
    | javaScript =>
      have hread : parseU64Param shown key (.number number) .javaScript = .ok n ↔
          numberToU64 shown key number = .ok n ∧ n ≤ jsMaxSafeInteger := by
        have hcheck := @check_ok_iff key _ (numberToU64 shown key number)
          (fun m => decide (m ≤ jsMaxSafeInteger))
          (fun m => s!"integer {m} exceeds JS safe integer range; " ++
            "pass a decimal string for exact values") n
        rw [decide_eq_true_iff] at hcheck
        rw [← hcheck, parseU64Param]
        simp
      rw [hread, numberToU64_safe_iff, admitsInteger]
      constructor
      · rintro ⟨hn, hsafe⟩
        have hlt : n < 2 ^ 64 := lt_of_le_of_lt hsafe (by decide)
        exact ⟨hn, hlt, by rw [hn]; exact isJsSafeIntegerI64_iff.mpr hsafe⟩
      · rintro ⟨hn, -, hsafe⟩
        rw [hn] at hsafe
        exact ⟨hn, isJsSafeIntegerI64_iff.mp hsafe⟩
  | string s =>
    have hread : parseU64Param shown key (.string s) mode = .ok n ↔ parseU64 s = some n := by
      cases mode <;> cases hs : parseU64 s <;> simp [parseU64Param, hs, refuse]
    rw [hread]
    simp only [parseU64, filter_eq_some_iff, Decimal.unsigned_eq_some_iff, denotedInteger,
      admitsInteger, Bool.false_or, Bool.not_eq_true', decide_eq_true_eq]
    tauto
  | _ => cases mode <;> simp [parseU64Param, refuse, denotedInteger]

end Omnigraph.Params
