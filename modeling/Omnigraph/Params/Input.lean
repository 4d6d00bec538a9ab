import Omnigraph.Compiler.Syntax
import Omnigraph.SerdeJson
import Omnigraph.Lib.Decimal
import Omnigraph.Lib.Prefixed

/-!
# Parameters from JSON

The values of query parameters arrive as one JSON object. A declared parameter is read as its type,
an undeclared one as the JSON value is. Callers whose numbers are doubles use the JavaScript mode:
it reads a number as an integer only if a double tells it from its neighbours.
-/

namespace Omnigraph.Params

open Compiler SerdeJson

inductive JsonParamMode
  | standard
  | javaScript
deriving DecidableEq

inductive RunInputError
  | message (text : String)

abbrev ParamMap := HashMap String Literal

/-- How errors show floats and values. -/
structure Shown where
  float : UInt64 → String
  json : JsonValue → String

abbrev Read := Except RunInputError

def refuse {α : Type} (key text : String) : Read α := .error (.message s!"param '{key}': {text}")

def jsonTypeName : JsonValue → String
  | .null => "null"
  | .bool _ => "boolean"
  | .number _ => "number"
  | .string _ => "string"
  | .array _ => "array"
  | .object _ => "object"

/-! ### Integers -/

def jsMaxSafeInteger : ℕ := 9007199254740991

def isJsSafeIntegerI64 (value : ℤ) : Bool := value.natAbs ≤ jsMaxSafeInteger

/-- A text read as a signed integer of 64 bits. -/
def parseI64 (s : String) : Option ℤ := (Decimal.signed s).filter fun i => -2 ^ 63 ≤ i ∧ i < 2 ^ 63

/-- A text read as an unsigned integer of 64 bits. -/
def parseU64 (s : String) : Option ℕ := (Decimal.unsigned s).filter fun n => n < 2 ^ 64

/-- A cast from a float to an integer type: what is out of range becomes the nearest bound. -/
def saturate (lo hi q : ℤ) : ℤ := max lo (min q hi)

section Read

variable (shown : Shown)

/-- A float as a signed integer, in the JavaScript mode. -/
def floatToI64 (key : String) (bits : UInt64) : Read ℤ :=
  match Double.value bits with
  | none => refuse key "expected integer, got number"
  | some q =>
    if q.den ≠ 1 then refuse key "expected integer, got number"
    else if q < -2 ^ 63 ∨ 2 ^ 63 < q then
      refuse key s!"integer {shown.float bits} is outside i64 range"
    else .ok (saturate (-2 ^ 63) (2 ^ 63 - 1) q.num)

/-- A float as an unsigned integer, in the JavaScript mode. -/
def floatToU64 (key : String) (bits : UInt64) : Read ℕ :=
  match Double.value bits with
  | none => refuse key "expected unsigned integer, got number"
  | some q =>
    if q.den ≠ 1 ∨ q < 0 then refuse key "expected unsigned integer, got number"
    else if 2 ^ 64 < q then refuse key s!"integer {shown.float bits} is outside u64 range"
    else .ok (saturate 0 (2 ^ 64 - 1) q.num).toNat

def numberToI64 (key : String) (number : JsonNumber) : Read ℤ :=
  match number.asI64 with
  | some parsed => .ok parsed
  | none => floatToI64 shown key number.asF64

def numberToU64 (key : String) (number : JsonNumber) : Read ℕ :=
  match number.asU64 with
  | some parsed => .ok parsed
  | none => floatToU64 shown key number.asF64

def parseI64Param (key : String) (value : JsonValue) : JsonParamMode → Read ℤ
  | .standard =>
    match value with
    | .number number =>
      match number.asI64 with
      | some parsed => .ok parsed
      | none => refuse key "expected integer number"
    | .string s =>
      match parseI64 s with
      | some parsed => .ok parsed
      | none => refuse key s!"expected integer string, got '{s}'"
    | _ => refuse key "expected integer"
  | .javaScript =>
    match value with
    | .number number => do
      let parsed ← numberToI64 shown key number
      if !isJsSafeIntegerI64 parsed then
        refuse key (s!"integer {parsed} exceeds JS safe integer range; " ++
          "pass a decimal string for exact values")
      else .ok parsed
    | .string s =>
      match parseI64 s with
      | some parsed => .ok parsed
      | none => refuse key s!"expected integer string, got '{s}'"
    | other => refuse key s!"expected integer, got {jsonTypeName other}"

def parseU64Param (key : String) (value : JsonValue) : JsonParamMode → Read ℕ
  | .standard =>
    match value with
    | .number number =>
      match number.asU64 with
      | some parsed => .ok parsed
      | none => refuse key "expected unsigned integer number"
    | .string s =>
      match parseU64 s with
      | some parsed => .ok parsed
      | none => refuse key s!"expected unsigned integer string, got '{s}'"
    | _ => refuse key "expected unsigned integer"
  | .javaScript =>
    match value with
    | .number number => do
      let parsed ← numberToU64 shown key number
      if jsMaxSafeInteger < parsed then
        refuse key (s!"integer {parsed} exceeds JS safe integer range; " ++
          "pass a decimal string for exact values")
      else .ok parsed
    | .string s =>
      match parseU64 s with
      | some parsed => .ok parsed
      | none => refuse key s!"expected unsigned integer string, got '{s}'"
    | other => refuse key s!"expected unsigned integer, got {jsonTypeName other}"

/-! ### Types of parameters -/

/-- The white space that trimming removes. -/
def isWhitespace (c : Char) : Bool :=
  let n := c.toNat
  (9 ≤ n && n ≤ 13) || n = 0x20 || n = 0x85 || n = 0xa0 || n = 0x1680 ||
    (0x2000 ≤ n && n ≤ 0x200a) || n = 0x2028 || n = 0x2029 || n = 0x202f || n = 0x205f || n = 0x3000

def trim (l : List Char) : List Char :=
  ((l.dropWhile isWhitespace).reverse.dropWhile isWhitespace).reverse

/-- The text before a last character, if it is there. -/
def stripLast (c : Char) (l : List Char) : Option (List Char) :=
  if l.getLast? = some c then some l.dropLast else none

def parseListItemType (typeName : String) : Option String := do
  let inner ← Prefixed.strip "[" typeName
  let inner ← stripLast ']' inner.toList
  return String.ofList (trim inner)

def parseVectorDim (typeName : String) : Option ℕ := do
  let inner ← Prefixed.strip "Vector(" typeName
  let inner ← stripLast ')' inner.toList
  let dim ← parseU64 (String.ofList inner)
  if dim = 0 then none else some dim

/-- What the name of a type is matched to. -/
inductive ParamKind
  | string
  | i32
  | i64
  | u32
  | u64
  | float
  | bool
  | date
  | dateTime
  | blob
  | list (item : String)
  | vector (dim : Option ℕ)
  | other
deriving DecidableEq

def ParamKind.of (typeName : String) : ParamKind :=
  match typeName with
  | "String" => string
  | "I32" => i32
  | "I64" => i64
  | "U32" => u32
  | "U64" => u64
  | "F32" | "F64" => float
  | "Bool" => bool
  | "Date" => date
  | "DateTime" => dateTime
  | "Blob" => blob
  | name =>
    match parseListItemType name with
    | some item => list item
    | none =>
      if (Prefixed.strip "Vector(" name).isSome then vector (parseVectorDim name) else other

/-! ### Literals -/

/-- What was expected; the JavaScript mode also says what it got. -/
def expected (mode : JsonParamMode) (what : String) (value : JsonValue) : String :=
  match mode with
  | .standard => s!"expected {what}"
  | .javaScript => s!"expected {what}, got {jsonTypeName value}"

/-- An integer of a range; otherwise a text says what it exceeds. -/
def checkRange (key : String) (lo hi : ℤ) (text : String) (i : ℤ) : Read Literal :=
  if lo ≤ i ∧ i < hi then .ok (.integer i) else refuse key s!"value {i} exceeds {text}"

/-- A text exceeded by an integer, which the JavaScript mode ends differently. -/
def exceeded (mode : JsonParamMode) (standard javaScript : String) : String :=
  match mode with
  | .standard => standard
  | .javaScript => javaScript

def vectorElement (mode : JsonParamMode) (key : String) (item : JsonValue) : Read Literal :=
  match item.asF64 with
  | some bits => .ok (.float bits)
  | none =>
    match mode with
    | .standard => refuse key "vector element is not numeric"
    | .javaScript => refuse key s!"vector element '{shown.json item}' is not numeric"

def vectorLiteral (mode : JsonParamMode) (key typeName : String) (dim : Option ℕ)
    (value : JsonValue) : Read Literal :=
  match dim with
  | none =>
    match mode with
    | .standard => refuse key s!"invalid vector type '{typeName}'"
    | .javaScript => refuse key s!"invalid vector type '{typeName}' (expected Vector(N))"
  | some dim =>
    match value.asArray with
    | none => refuse key (expected mode s!"array for {typeName}" value)
    | some items =>
      if items.length = dim then (items.mapM (vectorElement shown mode key)).map .list
      else refuse key s!"expected {dim} values for {typeName}, got {items.length}"

def textLiteral (key : String) (make : String → Literal) (text : String) (value : JsonValue) :
    Read Literal :=
  match value.asStr with
  | some s => .ok (make s)
  | none => refuse key text

/-- The literal of a parameter that is not a list. -/
def scalarLiteral (mode : JsonParamMode) (key typeName : String) (value : JsonValue) :
    ParamKind → Read Literal
  | .string => textLiteral key .string s!"expected string, got {jsonTypeName value}" value
  | .i32 => do
    let i ← parseI64Param shown key value mode
    checkRange key (-2 ^ 31) (2 ^ 31) (exceeded mode "I32" "I32 range") i
  | .i64 => (parseI64Param shown key value mode).map .integer
  | .u32 => do
    let n ← parseU64Param shown key value mode
    checkRange key 0 (2 ^ 32) (exceeded mode "U32" "U32 range") n
  | .u64 => do
    let n ← parseU64Param shown key value mode
    checkRange key 0 (2 ^ 63)
      (exceeded mode "current engine range for U64 (max 9223372036854775807)"
        "current engine range for U64 parameters (max 9223372036854775807)") n
  | .float =>
    match value.asF64 with
    | some bits => .ok (.float bits)
    | none => refuse key (expected mode "float" value)
  | .bool =>
    match value.asBool with
    | some b => .ok (.bool b)
    | none => refuse key (expected mode "boolean" value)
  | .date => textLiteral key .date (expected mode "date string" value) value
  | .dateTime => textLiteral key .dateTime (expected mode "datetime string" value) value
  | .blob => textLiteral key .string s!"expected blob URI string, got {jsonTypeName value}" value
  | .vector dim => vectorLiteral shown mode key typeName dim value
  | _ => textLiteral key .string
      s!"expected string for type '{typeName}', got {jsonTypeName value}" value

mutual

/-- The literal of a declared parameter. -/
def jsonValueToLiteralTyped (mode : JsonParamMode) (key typeName : String) (value : JsonValue) :
    Read Literal :=
  match value with
  | .array items =>
    match ParamKind.of typeName with
    | .list item => (typedItems mode key item items).map .list
    | kind => scalarLiteral shown mode key typeName (.array items) kind
  | value =>
    match ParamKind.of typeName with
    | .list _ => refuse key (expected mode s!"array for {typeName}" value)
    | kind => scalarLiteral shown mode key typeName value kind

def typedItems (mode : JsonParamMode) (key item : String) : List JsonValue → Read (List Literal)
  | [] => .ok []
  | value :: values => do
    let literal ← jsonValueToLiteralTyped mode key item value
    let literals ← typedItems mode key item values
    return literal :: literals

end

end Read

/-! ### Undeclared parameters -/

/-- A number as it is; the JavaScript mode refuses an integer that a double does not tell from its
neighbours. -/
def numberLiteral (mode : JsonParamMode) (key : String) (number : JsonNumber) : Read Literal :=
  let unsafeInteger (i : ℤ) : Read Literal :=
    refuse key (s!"integer {i} exceeds JS safe integer range; " ++
      "use a decimal string and a typed query parameter for exact values")
  match mode with
  | .standard =>
    match number.asI64 with
    | some i => .ok (.integer i)
    | none => .ok (.float number.asF64)
  | .javaScript =>
    match number.asI64 with
    | some i => if isJsSafeIntegerI64 i then .ok (.integer i) else unsafeInteger i
    | none =>
      match number.asU64 with
      | some n =>
        if jsMaxSafeInteger < n then unsafeInteger n
        else if n < 2 ^ 63 then .ok (.integer n)
        else refuse key s!"integer {n} exceeds supported range (max 9223372036854775807)"
      | none => .ok (.float number.asF64)

mutual

/-- The literal of an undeclared parameter. -/
def jsonValueToLiteralInferred (mode : JsonParamMode) (key : String) : JsonValue → Read Literal
  | .string s => .ok (.string s)
  | .bool b => .ok (.bool b)
  | .number number => numberLiteral mode key number
  | .array values => (inferredItems mode key values).map .list
  | .null => .ok .null
  | .object _ =>
    match mode with
    | .standard => refuse key "object is not supported"
    | .javaScript => refuse key "object values are not supported as query parameters"

def inferredItems (mode : JsonParamMode) (key : String) : List JsonValue → Read (List Literal)
  | [] => .ok []
  | value :: values => do
    let literal ← jsonValueToLiteralInferred mode key value
    let literals ← inferredItems mode key values
    return literal :: literals

end

/-! ### The map of parameters -/

section Map

variable (shown : Shown)

def declaration (queryParams : List Param) (key : String) : Option Param :=
  queryParams.find? fun param => param.name = key

/-- The literal of a member of the object. -/
def memberLiteral (queryParams : List Param) (mode : JsonParamMode) (key : String)
    (value : JsonValue) : Read Literal :=
  match declaration queryParams key with
  | some decl =>
    if value.isNull then
      if decl.nullable then .ok .null
      else refuse key "null is not accepted for non-nullable parameter"
    else jsonValueToLiteralTyped shown mode key decl.typeName value
  | none => jsonValueToLiteralInferred mode key value

def insertMember (queryParams : List Param) (mode : JsonParamMode) (map : ParamMap)
    (member : String × JsonValue) : Read ParamMap :=
  (memberLiteral shown queryParams mode member.1 member.2).map (map.insert member.1 ·)

/-- Nullable parameters that were omitted are null. -/
def fillOmitted (map : ParamMap) (queryParams : List Param) : ParamMap :=
  queryParams.foldl (fun map param =>
    if param.nullable && (map.lookup param.name).isNone then map.insert param.name .null
    else map) map

def jsonParamsToParamMap (params : Option JsonValue) (queryParams : List Param)
    (mode : JsonParamMode) : Read ParamMap :=
  match params with
  | some (.object fields) => do
    let map ← fields.foldlM (insertMember shown queryParams mode) ∅
    return fillOmitted map queryParams
  | some .null | none => .ok (queryParams.foldl (fun map param =>
      if param.nullable then map.insert param.name .null else map) ∅)
  | some other =>
    match mode with
    | .standard => .error (.message "params must be a JSON object")
    | .javaScript => .error (.message s!"params must be an object, got {jsonTypeName other}")

end Map

end Omnigraph.Params
