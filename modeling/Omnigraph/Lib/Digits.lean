import Mathlib.Algebra.Group.Nat.Defs
import Mathlib.Data.List.Basic

/-!
# Numerals

A number written in a base of at most sixteen, padded on the left with zeros to a width, is read
back by Horner's rule, so the padded numeral determines the number whatever the width. The same
holds of decimal numerals as they are printed.
-/

namespace Digits

open List

/-- The value of a lower-case digit. -/
def digitValue (c : Char) : ℕ :=
  if c.toNat < 'a'.toNat then c.toNat - '0'.toNat else c.toNat - 'a'.toNat + 10

/-- Horner's rule on a list of digits. -/
def value (b : ℕ) (l : List Char) : ℕ :=
  l.foldl (fun n c => n * b + digitValue c) 0

/-- `n` in base `b`, with zeros on the left up to `width` digits. -/
def padded (b width n : ℕ) : String :=
  String.ofList (List.leftpad width '0' (Nat.toDigits b n))

lemma digitValue_digitChar {d : ℕ} (h : d < 16) : digitValue d.digitChar = d := by
  have : ∀ d : Fin 16, digitValue d.val.digitChar = d.val := by decide
  exact this ⟨d, h⟩

lemma value_append_singleton (b : ℕ) (l : List Char) (c : Char) :
    value b (l ++ [c]) = value b l * b + digitValue c := by
  simp [value]

variable {b n width : ℕ} {c : Char}

lemma value_toDigits (h1 : 1 < b) (h16 : b ≤ 16) (n : ℕ) : value b (Nat.toDigits b n) = n := by
  induction n using Nat.strongRecOn with
  | ind n ih =>
    by_cases hn : n < b
    · rw [Nat.toDigits_of_lt_base hn]
      simp [value, digitValue_digitChar (by omega : n < 16)]
    · have hmod : n % b < b := Nat.mod_lt _ (by omega)
      rw [Nat.toDigits_of_base_le h1 (by omega), value_append_singleton,
        ih (n / b) (Nat.div_lt_self (by omega) h1), digitValue_digitChar (by omega)]
      exact Nat.div_add_mod' n b

lemma value_leftpad (b width : ℕ) (l : List Char) :
    value b (List.leftpad width '0' l) = value b l := by
  have hzero : ∀ k, (List.replicate k '0').foldl (fun n c => n * b + digitValue c) 0 = 0 := by
    intro k
    induction k with
    | zero => rfl
    | succ k ih => simpa [replicate_succ, digitValue] using ih
  simp [value, List.leftpad, hzero]

lemma mem_toDigits (h1 : 1 < b) (hc : c ∈ Nat.toDigits b n) : ∃ d < b, c = d.digitChar := by
  induction n using Nat.strongRecOn with
  | ind n ih =>
    by_cases hn : n < b
    · rw [Nat.toDigits_of_lt_base hn, mem_singleton] at hc
      exact ⟨n, hn, hc⟩
    · rw [Nat.toDigits_of_base_le h1 (by omega), mem_append, mem_singleton] at hc
      rcases hc with hc | hc
      · exact ih (n / b) (Nat.div_lt_self (by omega) h1) hc
      · exact ⟨n % b, Nat.mod_lt _ (by omega), hc⟩

/-- A padded numeral is made of digits. -/
lemma mem_padded (h1 : 1 < b) (hc : c ∈ (padded b width n).toList) : ∃ d < b, c = d.digitChar := by
  simp only [padded, String.toList_ofList, List.leftpad, mem_append,
    mem_replicate] at hc
  rcases hc with ⟨-, rfl⟩ | hc
  · exact ⟨0, by omega, rfl⟩
  · exact mem_toDigits h1 hc

/-- The padded numeral determines the number. -/
theorem padded_injective (h1 : 1 < b) (h16 : b ≤ 16) (width : ℕ) :
    Function.Injective (padded b width) := by
  intro m n h
  have hl := congrArg (fun s : String => value b s.toList) h
  simpa only [padded, String.toList_ofList, value_leftpad, value_toDigits h1 h16] using hl

/-! ### Printed numbers -/

lemma toList_toString (n : ℕ) : (toString n).toList = Nat.toDigits 10 n := by
  rw [Nat.toString_eq_repr, Nat.repr_eq_ofList_toDigits, String.toList_ofList]

lemma toString_injective : Function.Injective (toString : ℕ → String) := by
  intro m n h
  have hl := congrArg (fun s : String => value 10 s.toList) h
  simpa only [toList_toString, value_toDigits (show 1 < 10 by decide) (show 10 ≤ 16 by decide)]
    using hl

lemma isDigit_of_mem_toString (h : c ∈ (toString n).toList) : c.isDigit = true := by
  rw [toList_toString] at h
  obtain ⟨d, hd, rfl⟩ := mem_toDigits (by decide) h
  have : ∀ d : Fin 10, d.val.digitChar.isDigit = true := by decide
  exact this ⟨d, hd⟩

lemma toList_toString_int (z : ℤ) : (toString z).toList =
    if z < 0 then '-' :: (toString z.natAbs).toList else (toString z.natAbs).toList := by
  rw [Int.toString_eq_repr, Int.repr_eq_if]
  have habs : ∀ n : ℕ, n.repr = toString n := fun _ => rfl
  by_cases h : z < 0
  · rw [if_pos h, if_neg (by omega), String.toList_append, habs,
      show (-z).toNat = z.natAbs by omega]
    rfl
  · rw [if_neg h, if_pos (by omega), habs, show z.toNat = z.natAbs by omega]

lemma isDigit_of_mem_toString_int {z : ℤ} (h : c ∈ (toString z).toList) :
    c.isDigit = true ∨ c = '-' := by
  rw [toList_toString_int] at h
  split_ifs at h
  · rcases mem_cons.mp h with rfl | h
    · exact .inr rfl
    · exact .inl (isDigit_of_mem_toString h)
  · exact .inl (isDigit_of_mem_toString h)

lemma toString_int_injective : Function.Injective (toString : ℤ → String) := by
  intro y z h
  have hl := congrArg String.toList h
  rw [toList_toString_int, toList_toString_int] at hl
  have hminus : ∀ (n : ℕ) (l : List Char), (toString n).toList ≠ '-' :: l := by
    intro n l hc
    have := isDigit_of_mem_toString (n := n) (c := '-') (by rw [hc]; simp)
    revert this
    decide
  have habs : ∀ m n : ℕ, (toString m).toList = (toString n).toList → m = n := fun m n hmn =>
    toString_injective (String.toList_inj.mp hmn)
  split_ifs at hl with hy hz hz
  · have := habs _ _ (List.cons.inj hl).2
    omega
  · exact absurd hl.symm (hminus _ _)
  · exact absurd hl (hminus _ _)
  · have := habs _ _ hl
    omega

end Digits
