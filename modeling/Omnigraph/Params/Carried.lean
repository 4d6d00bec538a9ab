import Omnigraph.Params.Declared

/-!
# Undeclared parameters and the map

An undeclared parameter is what the JSON value is. The JavaScript mode keeps its integers; the
standard mode makes a float of a number above the signed range, which keeps it only if the number is
a multiple of 2048.
-/

namespace Omnigraph.Params

open Except Compiler SerdeJson JsonNumber

/-! ### Integers that are kept -/

def keepsInteger (i : ℤ) : Literal → Bool
  | .integer j => i = j
  | .float bits => Double.value bits = some (i : ℚ)
  | _ => false

mutual

/-- A literal keeps the integers of a value: none of them is rounded. -/
def keepsIntegers (value : JsonValue) (literal : Literal) : Bool :=
  match value with
  | .number n => n.asInteger.all fun i => keepsInteger i literal
  | .array values =>
    match literal with
    | .list literals => keepsItems values literals
    | _ => false
  | _ => true

def keepsItems (values : List JsonValue) (literals : List Literal) : Bool :=
  match values, literals with
  | [], [] => true
  | value :: values, literal :: literals =>
    keepsIntegers value literal && keepsItems values literals
  | _, _ => false

end

/-- A double keeps a number above the signed range. -/
def doubleKeeps : JsonNumber → Bool
  | .posInt n _ => n < 2 ^ 63 ∨ 2048 ∣ n
  | _ => true

mutual

/-- Doubles keep every number of a value above the signed range. -/
def doublesKeep : JsonValue → Bool
  | .number n => doubleKeeps n
  | .array values => doublesKeepItems values
  | _ => true

def doublesKeepItems : List JsonValue → Bool
  | [] => true
  | value :: values => doublesKeep value && doublesKeepItems values

end

mutual

/-- A value without objects. -/
def isPlain : JsonValue → Bool
  | .object _ => false
  | .array values => arePlain values
  | _ => true

def arePlain : List JsonValue → Bool
  | [] => true
  | value :: values => isPlain value && arePlain values

end

variable {shown : Shown} {mode : JsonParamMode} {key : String}

/-! ### Undeclared parameters -/

lemma numberLiteral_standard (key : String) (n : JsonNumber) :
    ∃ literal, numberLiteral .standard key n = .ok literal ∧
      keepsIntegers (.number n) literal = doublesKeep (.number n) := by
  cases n with
  | posInt n hn =>
    by_cases hsmall : n < 2 ^ 63
    · refine ⟨.integer n, by simp only [numberLiteral, asI64, hsmall, if_true], ?_⟩
      have hkeeps : doubleKeeps (.posInt n hn) = true := decide_eq_true (.inl hsmall)
      rw [doublesKeep, hkeeps]
      simp [keepsIntegers, asInteger, keepsInteger]
    · refine ⟨.float (Double.ofNat n), ?_, ?_⟩
      · simp only [numberLiteral, asI64, hsmall, if_false, asF64]
      · have hlog : n.log2 = 63 := Double.log2_eq_of_bounds (by omega) hn
        have hrounded := Double.rounded_eq_self_iff (n := n) (by omega) hn
        simp only [keepsIntegers, asInteger, Option.all_some, keepsInteger, doublesKeep,
          doubleKeeps, hsmall, false_or, decide_eq_decide]
        rw [Double.value_ofNat (by omega), ← hrounded, Option.some.injEq]
        exact_mod_cast Iff.rfl
  | negInt i hi =>
    refine ⟨.integer i, rfl, ?_⟩
    simp [keepsIntegers, asInteger, keepsInteger, doublesKeep, doubleKeeps]
  | float bits =>
    refine ⟨.float bits, rfl, ?_⟩
    simp [keepsIntegers, asInteger, doublesKeep, doubleKeeps]

mutual

/-- In the standard mode a value without objects is accepted, and its integers are kept if and only
if doubles keep those above the signed range. -/
lemma inferred_standard : ∀ value : JsonValue, isPlain value = true →
    ∃ literal, jsonValueToLiteralInferred .standard key value = .ok literal ∧
      keepsIntegers value literal = doublesKeep value
  | .string s, _ => ⟨.string s, by rw [jsonValueToLiteralInferred], rfl⟩
  | .bool b, _ => ⟨.bool b, by rw [jsonValueToLiteralInferred], rfl⟩
  | .null, _ => ⟨.null, by rw [jsonValueToLiteralInferred], rfl⟩
  | .number n, _ => by
    rw [jsonValueToLiteralInferred]
    exact numberLiteral_standard key n
  | .array values, h => by
    rw [isPlain] at h
    obtain ⟨literals, hliterals, hkeeps⟩ := inferredItems_standard values h
    refine ⟨.list literals, ?_, ?_⟩
    · rw [jsonValueToLiteralInferred, hliterals]
      rfl
    · rw [keepsIntegers, doublesKeep, hkeeps]
  | .object _, h => by simp [isPlain] at h

lemma inferredItems_standard : ∀ values : List JsonValue, arePlain values = true →
    ∃ literals, inferredItems .standard key values = .ok literals ∧
      keepsItems values literals = doublesKeepItems values
  | [], _ => ⟨[], by rw [inferredItems], rfl⟩
  | value :: values, h => by
    rw [arePlain, Bool.and_eq_true] at h
    obtain ⟨literal, hliteral, hkeeps⟩ := inferred_standard value h.1
    obtain ⟨literals, hliterals, hkeepsRest⟩ := inferredItems_standard values h.2
    refine ⟨literal :: literals, ?_, ?_⟩
    · rw [inferredItems, hliteral, hliterals]
      rfl
    · rw [keepsItems, doublesKeepItems, hkeeps, hkeepsRest]

end

mutual

/-- A value that is accepted has no objects in it. -/
lemma isPlain_of_inferred {literal : Literal} : ∀ value : JsonValue,
    jsonValueToLiteralInferred mode key value = .ok literal → isPlain value = true
  | .array values, h => by
    rw [jsonValueToLiteralInferred] at h
    obtain ⟨literals, hliterals, -⟩ := map_eq_ok h
    rw [isPlain]
    exact arePlain_of_inferred values hliterals
  | .object _, h => by cases mode <;> simp [jsonValueToLiteralInferred, refuse] at h
  | .string _, _ => rfl
  | .bool _, _ => rfl
  | .null, _ => rfl
  | .number _, _ => rfl

lemma arePlain_of_inferred {literals : List Literal} : ∀ values : List JsonValue,
    inferredItems mode key values = .ok literals → arePlain values = true
  | [], _ => rfl
  | value :: values, h => by
    rw [inferredItems] at h
    obtain ⟨literal, hliteral, h⟩ := bind_eq_ok_iff.mp h
    obtain ⟨rest, hrest, -⟩ := bind_eq_ok_iff.mp h
    rw [arePlain, isPlain_of_inferred value hliteral, arePlain_of_inferred values hrest]
    rfl

end

lemma numberLiteral_javaScript {n : JsonNumber} {literal : Literal}
    (h : numberLiteral .javaScript key n = .ok literal) :
    keepsIntegers (.number n) literal = true ∧ numberLiteral .standard key n = .ok literal := by
  cases n with
  | posInt n hn =>
    by_cases hsmall : n < 2 ^ 63
    · simp only [numberLiteral, asI64, hsmall, if_true] at h ⊢
      split_ifs at h with hsafe
      · cases h
        simp [keepsIntegers, asInteger, keepsInteger]
      · cases h
    · have hbig : jsMaxSafeInteger < n := by
        unfold jsMaxSafeInteger
        omega
      simp only [numberLiteral, asI64, hsmall, if_false, asU64, hbig,
        if_true] at h
      cases h
  | negInt i hi =>
    simp only [numberLiteral, asI64] at h ⊢
    split_ifs at h with hsafe
    · cases h
      simp [keepsIntegers, asInteger, keepsInteger]
    · cases h
  | float bits =>
    cases h
    exact ⟨rfl, rfl⟩

mutual

/-- What the JavaScript mode accepts keeps its integers, and the standard mode reads it alike. -/
lemma inferred_javaScript : ∀ (value : JsonValue) (literal : Literal),
    jsonValueToLiteralInferred .javaScript key value = .ok literal →
      keepsIntegers value literal = true ∧
        jsonValueToLiteralInferred .standard key value = .ok literal
  | .number n, literal, h => by
    rw [jsonValueToLiteralInferred] at h ⊢
    exact numberLiteral_javaScript h
  | .array values, literal, h => by
    rw [jsonValueToLiteralInferred] at h ⊢
    obtain ⟨literals, hliterals, rfl⟩ := map_eq_ok h
    obtain ⟨hkeeps, hstandard⟩ := inferredItems_javaScript values literals hliterals
    rw [hstandard, keepsIntegers]
    exact ⟨hkeeps, rfl⟩
  | .object _, literal, h => by simp [jsonValueToLiteralInferred, refuse] at h
  | .string _, literal, h => by
    rw [jsonValueToLiteralInferred] at h ⊢
    exact ⟨rfl, h⟩
  | .bool _, literal, h => by
    rw [jsonValueToLiteralInferred] at h ⊢
    exact ⟨rfl, h⟩
  | .null, literal, h => by
    rw [jsonValueToLiteralInferred] at h ⊢
    exact ⟨rfl, h⟩

lemma inferredItems_javaScript : ∀ (values : List JsonValue) (literals : List Literal),
    inferredItems .javaScript key values = .ok literals →
      keepsItems values literals = true ∧
        inferredItems .standard key values = .ok literals
  | [], literals, h => by
    rw [inferredItems] at h ⊢
    cases h
    exact ⟨rfl, rfl⟩
  | value :: values, literals, h => by
    rw [inferredItems] at h ⊢
    obtain ⟨literal, hliteral, h⟩ := bind_eq_ok_iff.mp h
    obtain ⟨rest, hrest, h⟩ := bind_eq_ok_iff.mp h
    cases h
    obtain ⟨hkeeps, hstandard⟩ := inferred_javaScript value literal hliteral
    obtain ⟨hkeepsRest, hstandardRest⟩ := inferredItems_javaScript values rest hrest
    rw [hstandard, hstandardRest, keepsItems, hkeeps, hkeepsRest]
    exact ⟨rfl, rfl⟩

end

end Omnigraph.Params
