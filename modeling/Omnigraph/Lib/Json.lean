import Mathlib.Data.List.TakeWhile
import Omnigraph.Lib.Digits

/-!
# Flat JSON objects

The JSON texts of objects whose members are strings, integers or null, written without blanks.
What is printed is read back. Reading is bounded by the length of the text.
-/

namespace Json

open List

inductive Value
  | null
  | int (n : ℤ)
  | str (s : String)

/-- The members of an object, in the order they are written. -/
abbrev Members := List (String × Value)

/-! ### Printing -/

def escape : List Char → List Char
  | [] => []
  | c :: cs => if c = '"' ∨ c = '\\' then '\\' :: c :: escape cs else c :: escape cs

def printString (s : String) : List Char := '"' :: (escape s.toList ++ ['"'])

def printInt (n : ℤ) : List Char :=
  if n < 0 then '-' :: Nat.toDigits 10 n.natAbs else Nat.toDigits 10 n.natAbs

def printValue : Value → List Char
  | .null => ['n', 'u', 'l', 'l']
  | .int n => printInt n
  | .str s => printString s

def printMember (m : String × Value) : List Char := printString m.1 ++ ':' :: printValue m.2

/-- The members and the closing brace. -/
def printMembers : Members → List Char
  | [] => ['}']
  | [m] => printMember m ++ ['}']
  | m :: ms => printMember m ++ ',' :: printMembers ms

def printObject (ms : Members) : String := String.ofList ('{' :: printMembers ms)

/-! ### Reading -/

/-- The rest of a string whose opening quote is read. -/
def readQuoted : List Char → Option (List Char × List Char)
  | [] => none
  | c :: cs =>
    if c = '"' then some ([], cs)
    else if c = '\\' then
      match cs with
      | [] => none
      | d :: ds => (readQuoted ds).map fun p => (d :: p.1, p.2)
    else (readQuoted cs).map fun p => (c :: p.1, p.2)

def readNat (cs : List Char) : Option (ℕ × List Char) :=
  let digits := cs.takeWhile Char.isDigit
  if digits = [] then none else some (Digits.value 10 digits, cs.dropWhile Char.isDigit)

def readValue : List Char → Option (Value × List Char)
  | [] => none
  | c :: cs =>
    if c = '"' then (readQuoted cs).map fun p => (.str (String.ofList p.1), p.2)
    else if c = 'n' then
      if ['u', 'l', 'l'].isPrefixOf cs then some (.null, cs.drop 3) else none
    else if c = '-' then (readNat cs).map fun p => (.int (-(p.1 : ℤ)), p.2)
    else (readNat (c :: cs)).map fun p => (.int p.1, p.2)

/-- A key, a colon and a value. -/
def readMember : List Char → Option ((String × Value) × List Char)
  | [] => none
  | c :: cs =>
    if c ≠ '"' then none
    else (readQuoted cs).bind fun key =>
      match key.2 with
      | [] => none
      | d :: ds =>
        if d ≠ ':' then none
        else (readValue ds).map fun value => ((String.ofList key.1, value.1), value.2)

def readMembers : ℕ → List Char → Option Members
  | 0, _ => none
  | fuel + 1, cs =>
    (readMember cs).bind fun m =>
      match m.2 with
      | [] => none
      | d :: ds =>
        if d = ',' then (readMembers fuel ds).map fun ms => m.1 :: ms
        else if d = '}' ∧ ds = [] then some [m.1]
        else none

def readObject (text : String) : Option Members :=
  match text.toList with
  | [] => none
  | c :: cs =>
    if c ≠ '{' then none
    else if cs = ['}'] then some []
    else readMembers cs.length cs

/-! ### What is printed is read back -/

lemma readQuoted_escape (s rest : List Char) :
    readQuoted (escape s ++ '"' :: rest) = some (s, rest) := by
  induction s with
  | nil =>
    rw [readQuoted.eq_def]
    simp [escape]
  | cons c s ih =>
    rw [escape, readQuoted.eq_def]
    split_ifs with h
    · simp [ih]
    · rw [not_or] at h
      simp [h.1, h.2, ih]

lemma isDigit_of_mem_toDigits {n : ℕ} {c : Char} (h : c ∈ Nat.toDigits 10 n) :
    c.isDigit = true := by
  obtain ⟨d, hd, rfl⟩ := Digits.mem_toDigits (by decide) h
  have : ∀ d : Fin 10, d.val.digitChar.isDigit = true := by decide
  exact this ⟨d, hd⟩

/-- The next character cannot belong to a number. -/
def Delimited (rest : List Char) : Prop := ∀ c ∈ rest.head?, c.isDigit = false

variable {rest : List Char}

lemma readNat_toDigits (n : ℕ) (h : Delimited rest) :
    readNat (Nat.toDigits 10 n ++ rest) = some (n, rest) := by
  have hdigits : ∀ c ∈ Nat.toDigits 10 n, c.isDigit = true := fun c => isDigit_of_mem_toDigits
  have hrest : rest.takeWhile Char.isDigit = [] ∧ rest.dropWhile Char.isDigit = rest := by
    cases rest with
    | nil => exact ⟨rfl, rfl⟩
    | cons c rest =>
      have hc := h c rfl
      simp [hc]
  have hne : Nat.toDigits 10 n ≠ [] := Nat.toDigits_ne_nil
  unfold readNat
  rw [takeWhile_append_of_pos hdigits, dropWhile_append_of_pos hdigits, hrest.1, hrest.2,
    append_nil]
  simp [hne, Digits.value_toDigits (by decide : 1 < 10) (by decide)]

lemma readValue_printValue (v : Value) (h : Delimited rest) :
    readValue (printValue v ++ rest) = some (v, rest) := by
  cases v with
  | null => simp [printValue, readValue]
  | str s => simp [printValue, printString, readValue, readQuoted_escape]
  | int n =>
    simp only [printValue, printInt]
    split_ifs with hneg
    · have : -(n.natAbs : ℤ) = n := by omega
      show (readNat (Nat.toDigits 10 n.natAbs ++ rest)).map
        (fun p => (Value.int (-(p.1 : ℤ)), p.2)) = some (.int n, rest)
      rw [readNat_toDigits _ h, Option.map_some, this]
    · obtain ⟨c, cs, hcs⟩ := exists_cons_of_ne_nil (Nat.toDigits_ne_nil (n := n.natAbs))
      have hdigit : c.isDigit = true := isDigit_of_mem_toDigits (by rw [hcs]; simp)
      have hchars : c ≠ '"' ∧ c ≠ 'n' ∧ c ≠ '-' := by
        refine ⟨?_, ?_, ?_⟩ <;> rintro rfl <;> exact absurd hdigit (by decide)
      have hread := readNat_toDigits n.natAbs h
      have habs : (n.natAbs : ℤ) = n := by omega
      rw [hcs, cons_append] at hread ⊢
      simp [readValue, hchars, hread, habs]

lemma readMember_printMember (m : String × Value) (h : Delimited rest) :
    readMember (printMember m ++ rest) = some (m, rest) := by
  simp [printMember, printString, readMember, readQuoted_escape, readValue_printValue m.2 h]

lemma readMembers_printMembers {ms : Members} (hne : ms ≠ []) {fuel : ℕ}
    (hfuel : ms.length ≤ fuel) : readMembers fuel (printMembers ms) = some ms := by
  have hcomma : ∀ rest, Delimited (',' :: rest) := fun rest c hc => by
    cases hc
    decide
  have hbrace : Delimited ['}'] := fun c hc => by
    cases hc
    decide
  induction ms generalizing fuel with
  | nil => exact absurd rfl hne
  | cons m ms ih =>
    obtain ⟨fuel, rfl⟩ : ∃ k, fuel = k + 1 := ⟨fuel - 1, by simp at hfuel; omega⟩
    cases ms with
    | nil => simp [printMembers, readMembers, readMember_printMember m hbrace]
    | cons m' ms =>
      have hrest := @ih (by simp) fuel (by simpa using hfuel)
      rw [printMembers]
      · simp only [readMembers, readMember_printMember m (hcomma _), Option.bind_some, if_true,
          hrest, Option.map_some]
      · simp

lemma length_le_length_printMembers (ms : Members) : ms.length ≤ (printMembers ms).length := by
  induction ms with
  | nil => simp
  | cons m ms ih =>
    cases ms with
    | nil =>
      simp only [printMembers, printMember, length_append, length_cons]
      omega
    | cons m' ms =>
      rw [printMembers]
      · simp only [length_cons, length_append] at ih ⊢
        omega
      · simp

theorem readObject_printObject (ms : Members) : readObject (printObject ms) = some ms := by
  cases ms with
  | nil => simp [printObject, printMembers, readObject]
  | cons m ms =>
    have hne : printMembers (m :: ms) ≠ ['}'] := by
      intro heq
      cases ms with
      | nil => simp [printMembers, printMember, printString] at heq
      | cons m' ms =>
        rw [printMembers] at heq
        · simp [printMember, printString] at heq
        · simp
    have hread := @readMembers_printMembers (m :: ms) (by simp) _
      (length_le_length_printMembers (m :: ms))
    simp [readObject, printObject, hne, hread]

end Json
