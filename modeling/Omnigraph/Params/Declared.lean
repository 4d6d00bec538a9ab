import Omnigraph.Params.Denoted

/-!
# Declared parameters

A declared parameter is read as the literal its value denotes for the type, if the mode admits the
form of the value, and is refused otherwise. So the modes agree wherever both accept.
-/

namespace Omnigraph.Params

open Option Except Compiler SerdeJson ParamKind

/-- The signedness and the range of an integer type. -/
def ParamKind.range : ParamKind → Option (Bool × ℤ × ℤ)
  | i32 => some (true, -2 ^ 31, 2 ^ 31)
  | i64 => some (true, -2 ^ 63, 2 ^ 63)
  | u32 => some (false, 0, 2 ^ 32)
  | u64 => some (false, 0, 2 ^ 63)
  | _ => none

def denotedElement (item : JsonValue) : Option Literal := item.asF64.map .float

/-- The literal a value denotes as a vector. -/
def denotedVector (dim : Option ℕ) (value : JsonValue) : Option Literal := do
  let items ← value.asArray
  if dim = some items.length then (items.mapM denotedElement).map .list else none

/-- The literal a value denotes for a type that is not a list. -/
def denotedScalar (kind : ParamKind) (value : JsonValue) : Option Literal :=
  match kind.range with
  | some (_, lo, hi) => ((denotedInteger value).filter fun i => lo ≤ i ∧ i < hi).map .integer
  | none =>
    match kind with
    | .float => value.asF64.map .float
    | .bool => value.asBool.map .bool
    | .date => value.asStr.map .date
    | .dateTime => value.asStr.map .dateTime
    | .vector dim => denotedVector dim value
    | _ => value.asStr.map .string

mutual

/-- The literal a value denotes for a type. -/
def denoted (typeName : String) (value : JsonValue) : Option Literal :=
  match value with
  | .array items =>
    match of typeName with
    | .list item => (denotedItems item items).map .list
    | kind => denotedScalar kind (.array items)
  | value =>
    match of typeName with
    | .list _ => none
    | kind => denotedScalar kind value

def denotedItems (item : String) : List JsonValue → Option (List Literal)
  | [] => some []
  | value :: values => do
    let literal ← denoted item value
    let literals ← denotedItems item values
    return literal :: literals

end

/-- The form a mode admits for a type that is not a list. -/
def admitsScalar (mode : JsonParamMode) (kind : ParamKind) (value : JsonValue) : Bool :=
  match kind.range with
  | some (isSigned, _, _) => admitsInteger mode isSigned value
  | none => true

mutual

/-- The form of a value that a mode admits for a type. -/
def admits (mode : JsonParamMode) (typeName : String) (value : JsonValue) : Bool :=
  match value with
  | .array items =>
    match of typeName with
    | .list item => admitsItems mode item items
    | kind => admitsScalar mode kind (.array items)
  | value => admitsScalar mode (of typeName) value

def admitsItems (mode : JsonParamMode) (item : String) : List JsonValue → Bool
  | [] => true
  | value :: values => admits mode item value && admitsItems mode item values

end

variable {shown : Shown} {mode : JsonParamMode} {key : String}

/-! ### Types that are not lists -/

variable {hi : ℤ} {literal : Literal} {text typeName : String} {value : JsonValue}

lemma checkRange_ok_iff {lo i : ℤ} :
    checkRange key lo hi text i = .ok literal ↔ (lo ≤ i ∧ i < hi) ∧ literal = .integer i := by
  unfold checkRange
  split_ifs with h
  · simp [h, eq_comm]
  · simp [h, refuse]

/-- A reader that agrees with a partial function on items agrees with it on lists. -/
lemma mapM_ok_iff {α β : Type} {f : α → Read β} {g : α → Option β}
    (h : ∀ a b, f a = .ok b ↔ g a = some b) {l : List α} {r : List β} :
    l.mapM f = .ok r ↔ l.mapM g = some r := by
  induction l generalizing r with
  | nil => simp [pure, Except.pure]
  | cons a l ih =>
    simp only [List.mapM_cons, bind_eq_ok_iff, pure_eq_ok_iff, ih, h]
    simp [bind_eq_some_iff]

lemma vectorLiteral_ok_iff {dim : Option ℕ} :
    vectorLiteral shown mode key typeName dim value = .ok literal ↔
      denotedVector dim value = some literal := by
  cases dim with
  | none =>
    unfold vectorLiteral denotedVector
    cases value.asArray <;> cases mode <;> simp [refuse]
  | some dim =>
    unfold vectorLiteral denotedVector
    cases value.asArray with
    | none => simp [refuse]
    | some items =>
      by_cases hdim : items.length = dim
      · subst hdim
        have hitems := fun r => @mapM_ok_iff _ _ (vectorElement shown mode key) denotedElement
          (fun item b => by
            unfold vectorElement denotedElement
            cases item.asF64 <;> cases mode <;> simp [refuse]) items r
        simp only [if_true, bind_eq_bind, bind_some, map_eq_some_iff, ← hitems]
        cases items.mapM (vectorElement shown mode key) <;> simp [Except.map]
      · simp [hdim, Ne.symm hdim, refuse]

/-- Of the signed types the literal is the integer denoted. -/
lemma signed_ok_iff {value : JsonValue} {lo hi : ℤ} {text : String} {literal : Literal}
    (hlo : -2 ^ 63 ≤ lo) (hhi : hi ≤ 2 ^ 63) :
    (parseI64Param shown key value mode >>= fun i => checkRange key lo hi text i) = .ok literal ↔
      ((denotedInteger value).filter fun i => lo ≤ i ∧ i < hi).map Literal.integer = some literal ∧
        admitsInteger mode true value = true := by
  simp only [bind_eq_ok_iff, parseI64Param_ok_iff, checkRange_ok_iff,
    map_eq_some_iff, filter_eq_some_iff, decide_eq_true_eq]
  constructor
  · rintro ⟨i, ⟨hi, -, hadmits⟩, hrange, rfl⟩
    exact ⟨⟨i, ⟨hi, hrange⟩, rfl⟩, hadmits⟩
  · rintro ⟨⟨i, ⟨hi, hrange⟩, rfl⟩, hadmits⟩
    exact ⟨i, ⟨hi, by omega, hadmits⟩, hrange, rfl⟩

lemma unsigned_ok_iff (hhi : hi ≤ 2 ^ 64) :
    (parseU64Param shown key value mode >>= fun n => checkRange key 0 hi text n) = .ok literal ↔
      ((denotedInteger value).filter fun i => 0 ≤ i ∧ i < hi).map Literal.integer = some literal ∧
        admitsInteger mode false value = true := by
  simp only [bind_eq_ok_iff, parseU64Param_ok_iff, checkRange_ok_iff,
    map_eq_some_iff, filter_eq_some_iff, decide_eq_true_eq]
  constructor
  · rintro ⟨n, ⟨hn, -, hadmits⟩, hrange, rfl⟩
    exact ⟨⟨n, ⟨hn, hrange⟩, rfl⟩, hadmits⟩
  · rintro ⟨⟨i, ⟨hi, hrange⟩, rfl⟩, hadmits⟩
    obtain ⟨n, rfl⟩ := Int.eq_ofNat_of_zero_le hrange.1
    exact ⟨n, ⟨hi, by omega, hadmits⟩, hrange, rfl⟩

/-- A value is accepted if and only if it denotes a literal of the declared kind. -/
lemma scalarLiteral_ok_iff {kind : ParamKind} :
    scalarLiteral shown mode key typeName value kind = .ok literal ↔
      denotedScalar kind value = some literal ∧ admitsScalar mode kind value = true := by
  cases kind with
  | i32 => exact signed_ok_iff (by norm_num) (by norm_num)
  | i64 =>
    have hsigned := @signed_ok_iff shown mode key value (-2 ^ 63) (2 ^ 63) "" literal le_rfl le_rfl
    refine Iff.trans ?_ hsigned
    simp only [scalarLiteral, bind_eq_ok_iff, checkRange_ok_iff]
    constructor
    · intro h
      obtain ⟨i, hi, rfl⟩ := map_eq_ok h
      exact ⟨i, hi, (parseI64Param_ok_iff.mp hi).2.1, rfl⟩
    · rintro ⟨i, hi, -, rfl⟩
      rw [hi]
      rfl
  | u32 => exact unsigned_ok_iff (by norm_num)
  | u64 => exact unsigned_ok_iff (by norm_num)
  | float =>
    simp only [scalarLiteral, denotedScalar, admitsScalar, range]
    cases value.asF64 <;> simp [refuse]
  | bool =>
    simp only [scalarLiteral, denotedScalar, admitsScalar, range]
    cases value.asBool <;> simp [refuse]
  | vector dim =>
    simp only [scalarLiteral, denotedScalar, admitsScalar, range, and_true]
    exact vectorLiteral_ok_iff
  | _ =>
    simp only [scalarLiteral, denotedScalar, admitsScalar, range, and_true,
      textLiteral]
    cases value.asStr <;> simp [refuse]

/-! ### Lists at any nesting -/

lemma typed_ok_iff_of_not_array (hvalue : ∀ items, value ≠ .array items) :
    jsonValueToLiteralTyped shown mode key typeName value = .ok literal ↔
      denoted typeName value = some literal ∧ admits mode typeName value = true := by
  rw [jsonValueToLiteralTyped, denoted, admits]
  · cases of typeName with
    | list item => simp [refuse]
    | _ => exact scalarLiteral_ok_iff
  all_goals exact hvalue

mutual

/-- A declared parameter is read as what its value denotes, if the mode admits its form. -/
theorem typed_ok_iff {typeName : String} {literal : Literal} : ∀ value : JsonValue,
    jsonValueToLiteralTyped shown mode key typeName value = .ok literal ↔
      denoted typeName value = some literal ∧ admits mode typeName value = true
  | .array items => by
    have hitems := fun item literals => @typedItems_ok_iff item literals items
    rw [jsonValueToLiteralTyped, denoted, admits]
    cases of typeName with
    | list item =>
      simp only [map_eq_some_iff]
      constructor
      · intro h
        obtain ⟨literals, hliterals, rfl⟩ := map_eq_ok h
        obtain ⟨hdenoted, hadmits⟩ := (hitems item literals).mp hliterals
        exact ⟨⟨literals, hdenoted, rfl⟩, hadmits⟩
      · rintro ⟨⟨literals, hdenoted, rfl⟩, hadmits⟩
        rw [(hitems item literals).mpr ⟨hdenoted, hadmits⟩]
        rfl
    | _ => exact scalarLiteral_ok_iff
  | .null => typed_ok_iff_of_not_array (by simp)
  | .bool _ => typed_ok_iff_of_not_array (by simp)
  | .number _ => typed_ok_iff_of_not_array (by simp)
  | .string _ => typed_ok_iff_of_not_array (by simp)
  | .object _ => typed_ok_iff_of_not_array (by simp)

lemma typedItems_ok_iff {item : String} {literals : List Literal} : ∀ values : List JsonValue,
    typedItems shown mode key item values = .ok literals ↔
      denotedItems item values = some literals ∧ admitsItems mode item values = true
  | [] => by
    simp [typedItems, denotedItems, admitsItems]
  | value :: values => by
    have hvalue := fun literal => @typed_ok_iff item literal value
    have hvalues := fun literals => @typedItems_ok_iff item literals values
    simp only [typedItems, denotedItems, admitsItems, bind_eq_ok_iff, hvalue, hvalues,
      pure_eq_ok_iff, Bool.and_eq_true]
    simp only [bind_eq_bind, bind_eq_some_iff, Option.pure_def, Option.some.injEq]
    constructor
    · rintro ⟨literal, ⟨hliteral, hadmits⟩, rest, ⟨hrest, hadmitsRest⟩, rfl⟩
      exact ⟨⟨literal, hliteral, rest, hrest, rfl⟩, hadmits, hadmitsRest⟩
    · rintro ⟨⟨literal, hliteral, rest, hrest, rfl⟩, hadmits, hadmitsRest⟩
      exact ⟨literal, ⟨hliteral, hadmits⟩, rest, ⟨hrest, hadmitsRest⟩, rfl⟩

end

end Omnigraph.Params
