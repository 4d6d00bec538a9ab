import Omnigraph.Lib.Digits

/-!
# Reading decimal numerals

A numeral is a sign and digits. An unsigned reader knows the plus sign only. A printed number is
read back.
-/

namespace Decimal

/-- The number of some digits, if there is one and they all are. -/
def digits (l : List Char) : Option ℕ :=
  if l ≠ [] ∧ l.all Char.isDigit = true then some (Digits.value 10 l) else none

/-- The number a numeral without a minus sign denotes. -/
def unsigned (s : String) : Option ℕ :=
  if s.toList.head? = some '+' then digits s.toList.tail else digits s.toList

def isNegative (s : String) : Bool := s.toList.head? = some '-'

/-- The integer a numeral denotes. -/
def signed (s : String) : Option ℤ :=
  if isNegative s then (digits s.toList.tail).map fun n : ℕ => -(n : ℤ)
  else (unsigned s).map Int.ofNat

variable {s : String} {n : ℕ}

lemma unsigned_of_isNegative (h : isNegative s = true) : unsigned s = none := by
  obtain ⟨l, hl⟩ := List.head?_eq_some_iff.mp (of_decide_eq_true h)
  simp [unsigned, hl, digits]

/-- The unsigned reader refuses a minus sign and otherwise agrees with the signed one. -/
lemma unsigned_eq_some_iff :
    unsigned s = some n ↔ signed s = some (n : ℤ) ∧ isNegative s = false := by
  cases h : isNegative s with
  | true => simp [unsigned_of_isNegative h]
  | false =>
    rw [signed, h, if_neg (by simp), Option.map_eq_some_iff]
    constructor
    · exact fun hn => ⟨⟨n, hn, rfl⟩, rfl⟩
    · rintro ⟨⟨m, hm, hmn⟩, -⟩
      rw [hm, Int.ofNat.inj hmn]

/-! ### Printed numbers -/

lemma digits_toString (n : ℕ) : digits (toString n).toList = some n := by
  have hne : (toString n).toList ≠ [] := by
    rw [Digits.toList_toString]
    exact Nat.toDigits_ne_nil
  have hall : (toString n).toList.all Char.isDigit = true :=
    List.all_eq_true.mpr fun c hc => Digits.isDigit_of_mem_toString hc
  rw [digits, if_pos ⟨hne, hall⟩, Digits.toList_toString,
    Digits.value_toDigits (by decide) (by decide)]

/-- A printed number starts with a digit. -/
lemma head_toString_ne {c : Char} (hc : c.isDigit = false) :
    (toString n).toList.head? ≠ some c := by
  intro h
  have := Digits.isDigit_of_mem_toString (List.mem_of_mem_head? h)
  simp [hc] at this

lemma unsigned_toString (n : ℕ) : unsigned (toString n) = some n := by
  rw [unsigned, if_neg (head_toString_ne (by decide)), digits_toString]

lemma isNegative_toString (n : ℕ) : isNegative (toString n) = false :=
  decide_eq_false (head_toString_ne (by decide))

lemma signed_toString (i : ℤ) : signed (toString i) = some i := by
  by_cases hi : i < 0
  · have hlist : (toString i).toList = '-' :: (toString i.natAbs).toList := by
      rw [Digits.toList_toString_int, if_pos hi]
    have hnegative : isNegative (toString i) = true := by
      rw [isNegative, hlist]
      rfl
    rw [signed, if_pos hnegative, hlist, List.tail_cons, digits_toString, Option.map_some]
    congr 1
    omega
  · have hstring : toString i = toString i.natAbs := by
      apply String.toList_inj.mp
      rw [Digits.toList_toString_int, if_neg hi]
    rw [signed, hstring, isNegative_toString, unsigned_toString]
    simp only [Bool.false_eq_true, if_false, Option.map_some, Int.ofNat_eq_natCast]
    congr 1
    omega

end Decimal
