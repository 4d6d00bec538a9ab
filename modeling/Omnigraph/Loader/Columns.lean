import Omnigraph.SerdeJson
import Omnigraph.Lib.Prefixed
import Omnigraph.Query.Arrays

/-!
# Columns from JSON rows

The loader builds one array for every property. A value that cannot be read as the type of its
property becomes null; integers out of range and vectors of another length are errors.
-/

namespace Omnigraph.Loader

open SerdeJson Query

/-- What the loader takes from its libraries: the parsers of dates, the narrowing of a double to a
single float (none if it is not finite afterwards), and the decoder of base64. -/
structure Library where
  parseDate32 : String → Except OmniError ℤ
  parseDate64 : String → Except OmniError ℤ
  narrow : UInt64 → Option UInt64
  showFloat : UInt64 → String
  decodeBase64 : String → Option (List UInt8)

section Columns

variable (lib : Library)

/-! ### Scalars -/

/-- An integer of a range. The signed reading is tried first for a signed type. -/
def integerFromJson (what range : String) (lo hi : ℤ) (v : JsonValue) :
    Except OmniError (Option ℤ) :=
  match v.asI64.or (v.asU64.map fun n => (n : ℤ)) with
  | none => .ok none
  | some i =>
    if lo ≤ i ∧ i < hi then .ok (some i)
    else .error (.manifest s!"{what} value {i} exceeds {range} range")

def checkedJsonF32 (context : String) (bits : UInt64) : Except OmniError UInt64 :=
  match lib.narrow bits with
  | some narrowed => .ok narrowed
  | none => .error (.manifest s!"{context} value {lib.showFloat bits} exceeds Float32 range")

/-- A date: a number of days or milliseconds, or a text. -/
def dateFromJson (what : String) (lo hi : ℤ) (parse : String → Except OmniError ℤ)
    (v : JsonValue) : Except OmniError (Option ℤ) :=
  match v.asI64.or (v.asU64.map fun n => (n : ℤ)) with
  | some i =>
    if lo ≤ i ∧ i < hi then .ok (some i)
    else .error (.manifest s!"{what} value out of range: {i}")
  | none =>
    match v.asStr with
    | some s => (parse s).map some
    | none => .ok none

def parseDate32JsonValue (v : JsonValue) : Except OmniError (Option ℤ) :=
  dateFromJson "Date" (-2 ^ 31) (2 ^ 31) lib.parseDate32 v

def parseDate64JsonValue (v : JsonValue) : Except OmniError (Option ℤ) :=
  dateFromJson "DateTime" (-2 ^ 63) (2 ^ 63) lib.parseDate64 v

/-- A scalar of a type, null if the value is of another kind. -/
def scalarFromJson (what : String) (t : DataType) (v : JsonValue) :
    Except OmniError (Option Scalar) :=
  match t with
  | .utf8 => .ok (v.asStr.map .utf8)
  | .boolean => .ok (v.asBool.map .boolean)
  | .int32 => (integerFromJson what "Int32" (-2 ^ 31) (2 ^ 31) v).map (Option.map .int)
  | .int64 => (integerFromJson what "Int64" (-2 ^ 63) (2 ^ 63) v).map (Option.map .int)
  | .uint32 => (integerFromJson what "UInt32" 0 (2 ^ 32) v).map (Option.map .int)
  | .uint64 => (integerFromJson what "UInt64" 0 (2 ^ 64) v).map (Option.map .int)
  | .float32 =>
    match v.asF64 with
    | none => .ok none
    | some bits => (checkedJsonF32 lib what bits).map fun bits => some (.float bits)
  | .float64 => .ok (v.asF64.map .float)
  | .date32 => (parseDate32JsonValue lib v).map (Option.map .int)
  | .date64 => (parseDate64JsonValue lib v).map (Option.map .int)
  | _ => .error (.manifest s!"unsupported list element data type")

/-! ### Cells -/

/-- The items of a list. -/
def itemsFromJson (item : DataType) (items : List JsonValue) :
    Except OmniError (List (Option Scalar)) :=
  items.mapM (scalarFromJson lib "list" item)

/-- An element of a vector. -/
def elementFromJson (name : String) (v : JsonValue) : Except OmniError (Option Scalar) :=
  match v.asF64 with
  | none => .error (.manifest s!"vector property '{name}' elements must be numeric")
  | some bits => (checkedJsonF32 lib "vector element" bits).map fun bits => some (.float bits)

/-- The cell of a value; one that is not an array is null in a nullable vector column. -/
def vectorFromJson (name : String) (dim : ℕ) (nullable : Bool) (v : JsonValue) :
    Except OmniError (Option (List (Option Scalar))) :=
  match v.asArray with
  | some items =>
    if items.length = dim then (items.mapM (elementFromJson lib name)).map some
    else .error (.manifest
      s!"vector property '{name}' expects {dim} dimensions, got {items.length}")
  | none =>
    if nullable then .ok none
    else .error (.manifest s!"non-nullable vector property '{name}' has null values")

def listFromJson (name : String) (item : DataType) (v : JsonValue) :
    Except OmniError (Option (List (Option Scalar))) :=
  match v with
  | .null => .ok none
  | .array items => (itemsFromJson lib item items).map some
  | _ => .error (.manifest s!"list property '{name}' expects a JSON array")

/-- The cell of a value in the column of a property. -/
def cellFromJson (name : String) (t : DataType) (nullable : Bool) (v : JsonValue) :
    Except OmniError Cell :=
  match t with
  | .list item => (listFromJson lib name item v).map (Option.map .list)
  | .fixedSizeList _ dim => (vectorFromJson lib name dim nullable v).map (Option.map .list)
  | t => (scalarFromJson lib s!"property '{name}'" t v).map (Option.map .scalar)

/-! ### Arrays -/

/-- The value of a blob property: decoded bytes, or a reference. -/
inductive BlobValue
  | bytes (data : List UInt8)
  | uri (text : String)

/-- What the values of a property are stored as. -/
inductive FieldKind
  | data (t : DataType)
  | blob

/-- A property column of a table. -/
structure Field where
  name : String
  kind : FieldKind
  nullable : Bool

/-- The array of a property. -/
inductive LoadedArray
  | data (t : DataType) (cells : List Cell)
  | blob (cells : List (Option BlobValue))

def appendBlobValue (value : String) : Except OmniError BlobValue :=
  match Prefixed.strip "base64:" value with
  | some encoded =>
    match lib.decodeBase64 encoded with
    | some bytes => .ok (.bytes bytes)
    | none => .error (.manifest "invalid base64 blob data")
  | none => .ok (.uri value)

def blobFromJson (name : String) (nullable : Bool) (v : JsonValue) :
    Except OmniError (Option BlobValue) :=
  match v with
  | .string s => (appendBlobValue lib s).map some
  | .null =>
    if nullable then .ok none
    else .error (.manifest s!"non-nullable blob property '{name}' has null values")
  | _ => .error (.manifest
      s!"blob property '{name}' must be a URI string or base64: prefixed data")

def buildBlobColumn (name : String) (nullable : Bool) (rows : List JsonValue) :
    Except OmniError LoadedArray :=
  (rows.mapM fun row => blobFromJson lib name nullable (row.getD name)).map .blob

def buildColumnFromJson (name : String) (t : DataType) (nullable : Bool) (rows : List JsonValue) :
    Except OmniError LoadedArray := do
  let cells ← rows.mapM fun row => cellFromJson lib name t nullable (row.getD name)
  if !nullable && cells.any Option.isNone then
    .error (.manifest s!"non-nullable property '{name}' has null or invalid values")
  else .ok (.data t cells)

def buildField (rows : List JsonValue) (field : Field) : Except OmniError LoadedArray :=
  match field.kind with
  | .data t => buildColumnFromJson lib field.name t field.nullable rows
  | .blob => buildBlobColumn lib field.name field.nullable rows

/-- The property columns of a batch. -/
def buildFields (fields : List Field) (rows : List JsonValue) :
    Except OmniError (List LoadedArray) :=
  fields.mapM (buildField lib rows)

end Columns

/-! ### Buffers -/

/-- The bytes of a value of fixed width. -/
def width : DataType → ℕ
  | .int32 | .uint32 | .float32 | .date32 => 4
  | _ => 8

def scalarBytes : Option Scalar → ℕ
  | some (.utf8 s) => s.utf8ByteSize
  | _ => 0

/-- The buffers of scalars: an offset and the bytes of each text, bits of booleans, values of fixed
width. -/
def scalarsBytes (t : DataType) (items : List (Option Scalar)) : ℕ :=
  match t with
  | .utf8 => 4 * items.length + (items.map scalarBytes).sum
  | .boolean => (items.length + 7) / 8
  | t => width t * items.length

def cellItems : Cell → List (Option Scalar)
  | some (.list items) => items
  | _ => []

def cellScalar : Cell → Option Scalar
  | some (.scalar s) => some s
  | _ => none

def blobPayload : Option BlobValue → ℕ
  | some (.bytes data) => data.length
  | some (.uri text) => text.utf8ByteSize
  | none => 0

/-- The buffers of an array; a blob row takes a number of bytes beside its payload. -/
def bufferBytes (perBlob : ℕ) : LoadedArray → ℕ
  | .data (.list item) cells => 4 * cells.length + scalarsBytes item (cells.flatMap cellItems)
  | .data (.fixedSizeList _ dim) cells => 4 * dim * cells.length
  | .data t cells => scalarsBytes t (cells.map cellScalar)
  | .blob cells => perBlob * cells.length + (cells.map blobPayload).sum

end Omnigraph.Loader
