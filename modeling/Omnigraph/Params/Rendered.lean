import Omnigraph.Params.Bound
import Omnigraph.Query.Arrays

/-!
# Results as JSON

A cell of a result is rendered as a JSON value, in the JavaScript mode with integers that a double
may round as numerals. Such a value is read back as a parameter of the type of its column.
-/

namespace Omnigraph.Params

open Compiler SerdeJson Query

inductive JsonIntegerMode
  | javaScript
  | native
deriving DecidableEq

/-- The texts of dates, where the calendar has them. -/
structure Calendar where
  date32 : ℤ → Option String
  date64 : ℤ → Option String

/-- An integer of at most 64 bits as a number. -/
def jsonInteger (i : ℤ) : JsonNumber :=
  if hpos : 0 ≤ i ∧ i < 2 ^ 64 then .posInt i.toNat (by omega)
  else if hneg : -2 ^ 63 ≤ i ∧ i < 0 then .negInt i hneg
  else .float 0

def jsonFloatValue (bits : UInt64) : JsonValue :=
  if (Double.value bits).isSome then .number (.float bits)
  else if Double.fraction bits ≠ 0 then .string "NaN"
  else if Double.isNegative bits then .string "-Infinity"
  else .string "Infinity"

/-- A wide integer, as a numeral where JavaScript may round it. -/
def wideInteger (mode : JsonIntegerMode) (i : ℤ) : JsonValue :=
  if mode = .javaScript ∧ isJsSafeIntegerI64 i = false then .string (toString i)
  else .number (jsonInteger i)

def dateToJson (text : Option String) (i : ℤ) : JsonValue :=
  match text with
  | some text => .string text
  | none => .number (jsonInteger i)

def scalarToJson (calendar : Calendar) (mode : JsonIntegerMode) (t : DataType) (s : Scalar) :
    JsonValue :=
  match t, s with
  | .utf8, .utf8 s => .string s
  | .boolean, .boolean b => .bool b
  | .int32, .int i | .uint32, .int i => .number (jsonInteger i)
  | .int64, .int i | .uint64, .int i => wideInteger mode i
  | .float32, .float bits | .float64, .float bits => jsonFloatValue bits
  | .date32, .int i => dateToJson (calendar.date32 i) i
  | .date64, .int i => dateToJson (calendar.date64 i) i
  | _, _ => .null

/-- An item of a vector; a float that is not finite is null. -/
def vectorItemToJson : Option Scalar → JsonValue
  | some (.float bits) => if (Double.value bits).isSome then .number (.float bits) else .null
  | _ => .null

def itemToJson (calendar : Calendar) (mode : JsonIntegerMode) (t : DataType) :
    Option Scalar → JsonValue
  | some s => scalarToJson calendar mode t s
  | none => .null

def arrayValueToJsonWithMode (calendar : Calendar) (mode : JsonIntegerMode) (t : DataType)
    (cell : Cell) : JsonValue :=
  match t, cell with
  | _, none => .null
  | .list item, some (.list items) => .array (items.map (itemToJson calendar mode item))
  | .fixedSizeList .float32 _, some (.list items) => .array (items.map vectorItemToJson)
  | .fixedSizeList item _, some (.list items) =>
    .array (items.map (itemToJson calendar mode item))
  | t, some (.scalar s) => scalarToJson calendar mode t s
  | _, _ => .null

/-- A cell as JSON, for clients whose numbers are doubles. -/
def arrayValueToJson (calendar : Calendar) (t : DataType) (cell : Cell) : JsonValue :=
  arrayValueToJsonWithMode calendar .javaScript t cell

/-! ### The types of strings, booleans and integers -/

/-- The name of a type of strings, booleans or integers. -/
def itemTypeName : DataType → Option String
  | .utf8 => some ScalarType.string.display
  | .boolean => some ScalarType.bool.display
  | .int32 => some ScalarType.i32.display
  | .int64 => some ScalarType.i64.display
  | .uint32 => some ScalarType.u32.display
  | .uint64 => some ScalarType.u64.display
  | _ => none

/-- The name of such a type or of a list of one. -/
def columnTypeName : DataType → Option String
  | .list item => (itemTypeName item).map fun name => "[" ++ name ++ "]"
  | t => itemTypeName t

/-- A scalar is a value of a type: integers are in its range. -/
def fitsType (t : DataType) (s : Scalar) : Bool :=
  match t, s with
  | .utf8, .utf8 _ => true
  | .boolean, .boolean _ => true
  | .int32, .int i => -2 ^ 31 ≤ i ∧ i < 2 ^ 31
  | .int64, .int i => -2 ^ 63 ≤ i ∧ i < 2 ^ 63
  | .uint32, .int i => 0 ≤ i ∧ i < 2 ^ 32
  | .uint64, .int i => 0 ≤ i ∧ i < 2 ^ 64
  | _, _ => false

/-- A cell without nulls whose values fit its type. -/
def isCell (t : DataType) (v : Value) : Bool :=
  match t, v with
  | .list item, .list items => items.all fun o => o.any (fitsType item)
  | t, .scalar s => fitsType t s
  | _, _ => false

/-- The literal that is the value of a scalar. -/
def literalOf : Scalar → Literal
  | .utf8 s => .string s
  | .boolean b => .bool b
  | .int i => .integer i
  | .float bits => .float bits

def cellLiteral : Value → Literal
  | .scalar s => literalOf s
  | .list items => .list (items.filterMap fun o => o.map literalOf)

/-- The engine takes no unsigned integer above the signed range. -/
def isTaken : Scalar → Bool
  | .int i => i < 2 ^ 63
  | _ => true

def isTakenCell : Value → Bool
  | .scalar s => isTaken s
  | .list items => items.all fun o => o.all isTaken

/-! ### Reading a rendered cell -/

variable {mode : JsonParamMode}

section

variable {calendar : Calendar} {shown : Shown} {key : String}

variable {i : ℤ} {kind : ParamKind} {typeName : String} {value : JsonValue} {t : DataType}

lemma denotedInteger_jsonInteger (hi : -2 ^ 63 ≤ i ∧ i < 2 ^ 64) :
    denotedInteger (.number (jsonInteger i)) = some i := by
  unfold jsonInteger
  split_ifs with hpos hneg
  · simp only [denotedInteger, Option.some.injEq]
    omega
  · rfl
  · omega

lemma denotedInteger_wideInteger (hi : -2 ^ 63 ≤ i ∧ i < 2 ^ 64) :
    denotedInteger (wideInteger .javaScript i) = some i := by
  unfold wideInteger
  split_ifs
  · exact Decimal.signed_toString i
  · exact denotedInteger_jsonInteger hi

lemma admitsInteger_jsonInteger {isSigned : Bool} {i : ℤ} (hi : -2 ^ 63 ≤ i ∧ i < 2 ^ 64)
    (hsafe : isJsSafeIntegerI64 i = true) :
    admitsInteger .javaScript isSigned (.number (jsonInteger i)) = true := by
  rw [admitsInteger, denotedInteger_jsonInteger hi]
  exact hsafe

lemma admitsInteger_wideInteger {isSigned : Bool} {i : ℤ} (hi : -2 ^ 63 ≤ i ∧ i < 2 ^ 64)
    (hsigned : isSigned = false → 0 ≤ i) :
    admitsInteger .javaScript isSigned (wideInteger .javaScript i) = true := by
  unfold wideInteger
  split_ifs with hnumeral
  · rw [admitsInteger]
    cases isSigned with
    | true => rfl
    | false =>
      obtain ⟨n, rfl⟩ := Int.eq_ofNat_of_zero_le (hsigned rfl)
      have : toString (n : ℤ) = toString n := rfl
      rw [this, Decimal.isNegative_toString]
      rfl
  · refine admitsInteger_jsonInteger hi ?_
    simpa using hnumeral

lemma denoted_of_not_array (hkind : ParamKind.of typeName = kind)
    (hscalar : ∀ item, kind ≠ .list item) (hvalue : ∀ items, value ≠ .array items) :
    denoted typeName value = denotedScalar kind value := by
  rw [denoted, hkind]
  · cases kind with
    | list item => exact absurd rfl (hscalar item)
    | _ => rfl
  · exact hvalue

lemma scalarToJson_ne_array {mode : JsonIntegerMode} {s : Scalar} (items : List JsonValue) :
    scalarToJson calendar mode t s ≠ .array items := by
  unfold scalarToJson wideInteger jsonFloatValue dateToJson
  split <;> (try split_ifs) <;> (try split) <;> simp

/-- The value of an integer column is in the range of the type its name stands for, unless it is
above the signed range. -/
lemma denotedScalar_integer {isSigned : Bool} {lo hi : ℤ}
    (hrange : kind.range = some (isSigned, lo, hi)) (hvalue : denotedInteger value = some i)
    (hbounds : lo ≤ i ∧ (i < hi ↔ i < 2 ^ 63)) :
    denotedScalar kind value = if isTaken (.int i) then some (literalOf (.int i)) else none := by
  unfold denotedScalar
  rw [hrange]
  dsimp only
  rw [hvalue, Option.filter_some]
  by_cases htaken : i < 2 ^ 63
  · have hlit : isTaken (.int i) = true := decide_eq_true htaken
    rw [if_pos (decide_eq_true ⟨hbounds.1, hbounds.2.mpr htaken⟩), if_pos hlit]
    rfl
  · have hlit : ¬ isTaken (.int i) = true := fun h => htaken (of_decide_eq_true h)
    have hhi : ¬ (lo ≤ i ∧ i < hi) := fun h => htaken (hbounds.2.mp h.2)
    rw [if_neg (by simpa using hhi), if_neg hlit]
    rfl

/-- A rendered scalar denotes the scalar, and its form is admitted. -/
lemma denoted_scalarToJson {t : DataType} {name : String} {s : Scalar}
    (hname : itemTypeName t = some name) (hs : fitsType t s = true) :
    denoted name (scalarToJson calendar .javaScript t s) =
        (if isTaken s then some (literalOf s) else none) ∧
      admits .javaScript name (scalarToJson calendar .javaScript t s) = true := by
  have hdenoted : ∀ kind : ParamKind, ParamKind.of name = kind → (∀ item, kind ≠ .list item) →
      denotedScalar kind (scalarToJson calendar .javaScript t s) =
          (if isTaken s then some (literalOf s) else none) →
        admitsScalar .javaScript kind (scalarToJson calendar .javaScript t s) = true →
          denoted name (scalarToJson calendar .javaScript t s) =
              (if isTaken s then some (literalOf s) else none) ∧
            admits .javaScript name (scalarToJson calendar .javaScript t s) = true := by
    intro kind hkind hscalar hliteral hadmits
    rw [denoted_of_not_array hkind hscalar scalarToJson_ne_array, admits, hkind]
    · exact ⟨hliteral, hadmits⟩
    · exact scalarToJson_ne_array
  cases t with
  | utf8 =>
    cases s with
    | utf8 s =>
      cases hname
      exact hdenoted .string rfl (by simp) rfl rfl
    | _ => cases hs
  | boolean =>
    cases s with
    | boolean b =>
      cases hname
      exact hdenoted .bool rfl (by simp) rfl rfl
    | _ => cases hs
  | int32 =>
    cases s with
    | int i =>
      cases hname
      have hi : -2 ^ 31 ≤ i ∧ i < 2 ^ 31 := of_decide_eq_true hs
      refine hdenoted .i32 rfl (by simp)
        (denotedScalar_integer rfl (denotedInteger_jsonInteger (by omega)) (by omega)) ?_
      exact @admitsInteger_jsonInteger true i (by omega)
        (isJsSafeIntegerI64_iff.mpr (by omega))
    | _ => cases hs
  | int64 =>
    cases s with
    | int i =>
      cases hname
      have hi : -2 ^ 63 ≤ i ∧ i < 2 ^ 63 := of_decide_eq_true hs
      refine hdenoted .i64 rfl (by simp)
        (denotedScalar_integer rfl (denotedInteger_wideInteger (by omega)) (by omega)) ?_
      exact @admitsInteger_wideInteger true i (by omega) (by simp)
    | _ => cases hs
  | uint32 =>
    cases s with
    | int i =>
      cases hname
      have hi : 0 ≤ i ∧ i < 2 ^ 32 := of_decide_eq_true hs
      refine hdenoted .u32 rfl (by simp)
        (denotedScalar_integer rfl (denotedInteger_jsonInteger (by omega)) (by omega)) ?_
      exact @admitsInteger_jsonInteger false i (by omega)
        (isJsSafeIntegerI64_iff.mpr (by omega))
    | _ => cases hs
  | uint64 =>
    cases s with
    | int i =>
      cases hname
      have hi : 0 ≤ i ∧ i < 2 ^ 64 := of_decide_eq_true hs
      refine hdenoted .u64 rfl (by simp)
        (denotedScalar_integer rfl (denotedInteger_wideInteger (by omega)) (by omega)) ?_
      exact @admitsInteger_wideInteger false i (by omega) fun _ => hi.1
    | _ => cases hs
  | _ => cases hname

/-- The items of a rendered list denote its scalars. -/
lemma denotedItems_itemToJson {t : DataType} {name : String} {items : List (Option Scalar)}
    (hname : itemTypeName t = some name)
    (hitems : items.all (fun o => o.any (fitsType t)) = true) :
    denotedItems name (items.map (itemToJson calendar .javaScript t)) =
        (if items.all (fun o => o.all isTaken) then
          some (items.filterMap fun o => o.map literalOf) else none) ∧
      admitsItems .javaScript name (items.map (itemToJson calendar .javaScript t)) = true := by
  induction items with
  | nil => exact ⟨rfl, rfl⟩
  | cons o items ih =>
    rw [List.all_cons, Bool.and_eq_true] at hitems
    obtain ⟨hrest, hadmitsRest⟩ := ih hitems.2
    cases o with
    | none => simp at hitems
    | some s =>
      obtain ⟨hhead, hadmits⟩ := @denoted_scalarToJson calendar t name s hname hitems.1
      rw [List.map_cons, denotedItems, admitsItems, itemToJson, hhead, hadmits, hrest, hadmitsRest]
      refine ⟨?_, rfl⟩
      by_cases hs : isTaken s = true <;>
        by_cases htail : items.all (fun o => o.all isTaken) = true <;> simp [hs, htail]

/-- A rendered cell that is read back as a parameter of the type of its column is its own value; it
is refused only for an unsigned integer above the signed range. -/
theorem typed_arrayValueToJson {name : String} {v : Value} (hname : columnTypeName t = some name)
    (hv : isCell t v = true) (literal : Literal) :
    jsonValueToLiteralTyped shown .javaScript key name (arrayValueToJson calendar t (some v)) =
        .ok literal ↔
      isTakenCell v = true ∧ literal = cellLiteral v := by
  rw [typed_ok_iff]
  by_cases hlist : ∃ item, t = .list item
  · obtain ⟨item, rfl⟩ := hlist
    cases v with
    | scalar s => cases hv
    | list items =>
      obtain ⟨itemName, hitemName, rfl⟩ := Option.map_eq_some_iff.mp hname
      have hkind : ParamKind.of ("[" ++ itemName ++ "]") = .list itemName := by
        cases item <;> cases hitemName <;> decide +kernel
      obtain ⟨hdenoted, hadmits⟩ :=
        @denotedItems_itemToJson calendar item itemName items hitemName hv
      have hjson : arrayValueToJson calendar (.list item) (some (.list items)) =
          .array (items.map (itemToJson calendar .javaScript item)) := rfl
      rw [hjson, denoted, admits, hkind]
      dsimp only
      rw [hdenoted, hadmits, isTakenCell, cellLiteral]
      by_cases htaken : items.all (fun o => o.all isTaken) = true <;> simp [htaken, eq_comm]
  · have hscalar : ∃ s, v = .scalar s ∧ fitsType t s = true := by
      cases v with
      | scalar s => cases t <;> exact ⟨s, rfl, hv⟩
      | list items => cases t <;> first | cases hv | exact absurd ⟨_, rfl⟩ hlist
    obtain ⟨s, rfl, hs⟩ := hscalar
    have hitem : itemTypeName t = some name := by
      cases t <;> first | exact hname | exact absurd ⟨_, rfl⟩ hlist
    have hjson : arrayValueToJson calendar t (some (.scalar s)) =
        scalarToJson calendar .javaScript t s := by
      cases t <;> rfl
    obtain ⟨hdenoted, hadmits⟩ := @denoted_scalarToJson calendar t name s hitem hs
    rw [hjson, hdenoted, hadmits, isTakenCell, cellLiteral]
    by_cases htaken : isTaken s = true <;> simp [htaken, eq_comm]

end

/-! ### Integers are carried exactly -/

/-- Parameters and results carry integers exactly. A declared parameter is bound to what its value
denotes, an undeclared one is not rounded, the modes agree, and a rendered cell is read back. -/
structure CarriesExactly (shown : Shown) (calendar : Calendar) (params : Option JsonValue)
    (queryParams : List Param) (mode : JsonParamMode) : Prop where
  declared : ∀ map, jsonParamsToParamMap shown params queryParams mode = .ok map →
    ∀ member ∈ members params, ∀ decl, declaration queryParams member.1 = some decl →
      member.2.isNull = false → ∃ literal, map.lookup member.1 = some literal ∧
        denoted decl.typeName member.2 = some literal
  undeclared : ∀ map, jsonParamsToParamMap shown params queryParams mode = .ok map →
    ∀ member ∈ members params, declaration queryParams member.1 = none →
      ∃ literal, map.lookup member.1 = some literal ∧ keepsIntegers member.2 literal = true
  agree : ∀ map map', jsonParamsToParamMap shown params queryParams .standard = .ok map →
    jsonParamsToParamMap shown params queryParams .javaScript = .ok map' → map = map'
  readBack : ∀ (key : String) (t : DataType) (name : String) (v : Value),
    columnTypeName t = some name → isCell t v = true → ∀ literal,
      jsonValueToLiteralTyped shown .javaScript key name (arrayValueToJson calendar t (some v)) =
          .ok literal ↔
        isTakenCell v = true ∧ literal = cellLiteral v

section

variable {shown : Shown} {calendar : Calendar} {params : Option JsonValue}
  {queryParams : List Param} {map : ParamMap}

variable {member : String × JsonValue}

variable (hkeys : ((members params).map Prod.fst).Nodup)

include hkeys in
/-- In the standard mode an undeclared parameter keeps its integers if and only if doubles keep
those above the signed range. -/
lemma undeclared_standard (hmap : jsonParamsToParamMap shown params queryParams .standard = .ok map)
    (hmember : member ∈ members params) (hdecl : declaration queryParams member.1 = none) :
    ∃ literal, map.lookup member.1 = some literal ∧
      keepsIntegers member.2 literal = doublesKeep member.2 := by
  obtain ⟨literal, hliteral, hlookup⟩ := lookup_of_jsonParamsToParamMap hkeys hmap hmember
  simp only [memberLiteral, hdecl] at hliteral
  obtain ⟨literal', hread, hsame⟩ := @inferred_standard member.1 member.2
    (isPlain_of_inferred member.2 hliteral)
  rw [hliteral] at hread
  cases hread
  exact ⟨literal, hlookup, hsame⟩

include hkeys in
lemma undeclared_javaScript
    (hmap : jsonParamsToParamMap shown params queryParams .javaScript = .ok map)
    (hmember : member ∈ members params) (hdecl : declaration queryParams member.1 = none) :
    ∃ literal, map.lookup member.1 = some literal ∧ keepsIntegers member.2 literal = true := by
  obtain ⟨literal, hliteral, hlookup⟩ := lookup_of_jsonParamsToParamMap hkeys hmap hmember
  simp only [memberLiteral, hdecl] at hliteral
  exact ⟨literal, hlookup, (inferred_javaScript member.2 literal hliteral).1⟩

include hkeys in
lemma declared_denoted (hmap : jsonParamsToParamMap shown params queryParams mode = .ok map)
    (hmember : member ∈ members params) {decl : Param}
    (hdecl : declaration queryParams member.1 = some decl) (hnull : member.2.isNull = false) :
    ∃ literal, map.lookup member.1 = some literal ∧
      denoted decl.typeName member.2 = some literal := by
  obtain ⟨literal, hliteral, hlookup⟩ := lookup_of_jsonParamsToParamMap hkeys hmap hmember
  simp only [memberLiteral, hdecl, hnull, Bool.false_eq_true, if_false] at hliteral
  exact ⟨literal, hlookup, (typed_ok_iff member.2 |>.mp hliteral).1⟩

/-- Integers are carried exactly if and only if the mode is that of JavaScript, the object is
refused, or its undeclared members have no number above the signed range that a double rounds. -/
theorem carriesExactly_iff {mode : JsonParamMode}
    (hkeys : ((members params).map Prod.fst).Nodup) :
    CarriesExactly shown calendar params queryParams mode ↔
      mode = .javaScript ∨ (∃ member ∈ members params, acceptsMember queryParams member = false) ∨
        ∀ member ∈ members params, declaration queryParams member.1 = none →
          doublesKeep member.2 = true := by
  constructor
  · intro h
    by_cases hmode : mode = .javaScript
    · exact .inl hmode
    by_cases hrefused : ∃ member ∈ members params, acceptsMember queryParams member = false
    · exact .inr (.inl hrefused)
    refine .inr (.inr fun member hmember hdecl => ?_)
    have hstandard : mode = .standard := by
      cases mode with
      | standard => rfl
      | javaScript => exact absurd rfl hmode
    subst hstandard
    have haccepts : ∀ member ∈ members params, acceptsMember queryParams member = true := by
      intro member hmember
      by_contra hnot
      exact hrefused ⟨member, hmember, by simpa using hnot⟩
    obtain ⟨map, hmap⟩ := @exists_map_of_acceptsMember shown _ _ haccepts _ hmember
    obtain ⟨literal, hlookup, hkept⟩ := h.undeclared map hmap member hmember hdecl
    obtain ⟨literal', hlookup', hsame⟩ := undeclared_standard hkeys hmap hmember hdecl
    rw [hlookup] at hlookup'
    cases hlookup'
    rw [← hsame, hkept]
  · intro hcondition
    refine ⟨fun map hmap member hmember decl hdecl hnull =>
        declared_denoted hkeys hmap hmember hdecl hnull, ?_, fun map map' h h' => map_agree h h',
      fun key t name v hname hv literal => typed_arrayValueToJson hname hv literal⟩
    intro map hmap member hmember hdecl
    cases mode with
    | javaScript => exact undeclared_javaScript hkeys hmap hmember hdecl
    | standard =>
      rcases hcondition with hmode | ⟨other, hother, hrefused⟩ | hkeeps
      · cases hmode
      · obtain ⟨literal', hliteral', -⟩ := lookup_of_jsonParamsToParamMap hkeys hmap hother
        rw [acceptsMember_iff.mpr ⟨literal', hliteral'⟩] at hrefused
        cases hrefused
      · obtain ⟨literal, hlookup, hsame⟩ := undeclared_standard hkeys hmap hmember hdecl
        exact ⟨literal, hlookup, hsame.trans (hkeeps member hmember hdecl)⟩

end

/-- Plain texts for errors. -/
def sampleShown : Shown := ⟨fun _ => "0", fun _ => "null"⟩

def sampleCalendar : Calendar := ⟨fun _ => none, fun _ => none⟩

/-- One undeclared number. -/
def oneNumber (n : ℕ) (h : n < 2 ^ 64) : Option JsonValue :=
  some (.object [("n", .number (.posInt n h))])

/-- The number 2 ^ 63 + 2048 is carried exactly. -/
theorem carriesExactly_multiple :
    CarriesExactly sampleShown sampleCalendar (oneNumber 9223372036854777856 (by decide)) []
        .standard ↔
      JsonParamMode.standard = .javaScript ∨
        (∃ member ∈ members (oneNumber 9223372036854777856 (by decide)),
          acceptsMember [] member = false) ∨
        ∀ member ∈ members (oneNumber 9223372036854777856 (by decide)),
          declaration [] member.1 = none → doublesKeep member.2 = true :=
  carriesExactly_iff (by decide)

/-- In the standard mode the greatest number of 64 bits is rounded to `2 ^ 64`. -/
theorem not_carriesExactly_greatest :
    ¬ CarriesExactly sampleShown sampleCalendar (oneNumber 18446744073709551615 (by decide)) []
      .standard := by
  intro h
  obtain ⟨literal, hlookup, hkept⟩ := h.undeclared _ rfl
    ("n", .number (.posInt 18446744073709551615 (by decide))) (by simp [oneNumber, members]) rfl
  have hliteral : literal = .float (Double.ofNat 18446744073709551615) := by
    cases hlookup
    rfl
  subst hliteral
  revert hkept
  decide +kernel

end Omnigraph.Params
