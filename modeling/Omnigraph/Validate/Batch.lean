import Omnigraph.Error
import Omnigraph.Lib.HashMap
import Omnigraph.Lib.Result

/-!
# Record batches and key tuples

A batch is a list of named columns of one length. A column holds cells of one Arrow type, each of
them possibly null. Ids, sources and destinations are read as strings; the columns of a uniqueness
group are reduced to a tuple of strings, one canonical text a cell.
-/

namespace Omnigraph

/-! ### Columns -/

inductive StringEncoding
  | utf8
  | largeUtf8
  | utf8View
deriving DecidableEq, Repr

/-- The Arrow types whose values are printed as integers. -/
inductive IntType
  | int32
  | int64
  | uint32
  | uint64
  | date32
  | date64
deriving DecidableEq, Repr

inductive FloatType
  | float32
  | float64
deriving DecidableEq, Repr

def FloatType.name : FloatType → String
  | float32 => "Float32"
  | float64 => "Float64"

/-- A float by what it prints as. A finite number other than zero does not print as `0`. -/
inductive FloatValue
  | nonFinite (text : String)
  | zero (negative : Bool)
  | finite (text : String) (ne_zero : text ≠ "0")
deriving DecidableEq, Repr

inductive Column
  | string (encoding : StringEncoding) (cells : List (Option String))
  | int (type : IntType) (cells : List (Option ℤ))
  | float (type : FloatType) (cells : List (Option FloatValue))
  | boolean (cells : List (Option Bool))
  /-- A list, blob or vector column, with which of its cells are null. -/
  | other (dataType : String) (nulls : List Bool)

def Column.length : Column → ℕ
  | string _ cells => cells.length
  | int _ cells => cells.length
  | float _ cells => cells.length
  | boolean cells => cells.length
  | other _ nulls => nulls.length

/-- A typed literal. -/
inductive ScalarValue
  | string (encoding : StringEncoding) (value : String)
  | int (type : IntType) (value : ℤ)
  | float (type : FloatType) (value : FloatValue)
  | boolean (value : Bool)
deriving DecidableEq

/-- The cell of a row; a row past the end reads as null. -/
def cellAt {α : Type} (cells : List (Option α)) (row : ℕ) : Option α := (cells[row]?).join

/-- The literal of a cell; a null, or a cell without a literal of its own, gives none. -/
def Column.scalarAt (row : ℕ) : Column → Option ScalarValue
  | string encoding cells => (cellAt cells row).map (.string encoding)
  | int type cells => (cellAt cells row).map (.int type)
  | float type cells => (cellAt cells row).map (.float type)
  | boolean cells => (cellAt cells row).map .boolean
  | other _ _ => none

/-! ### Batches -/

structure RecordBatch where
  columns : List (String × Column)
  numRows : ℕ
  length_eq : ∀ entry ∈ columns, entry.2.length = numRows

def RecordBatch.columnByName (batch : RecordBatch) (name : String) : Option Column :=
  batch.columns.lookup name

def stringCol (batch : RecordBatch) (name : String) : Except OmniError (List (Option String)) :=
  match batch.columnByName name with
  | none => .error (.manifest s!"batch missing column '{name}'")
  | some (.string .utf8 cells) => .ok cells
  | some _ => .error (.manifest s!"column '{name}' is not Utf8")

/-- The strings of a column. A null reads as the empty string. -/
def stringValues (batch : RecordBatch) (name : String) : Except OmniError (List String) :=
  (stringCol batch name).map fun cells => cells.map fun cell => cell.getD ""

section Cells

variable {batch : RecordBatch} {name : String}

lemma length_of_stringCol {cells : List (Option String)} (h : stringCol batch name = .ok cells) :
    cells.length = batch.numRows := by
  unfold stringCol at h
  cases hcolumn : batch.columnByName name with
  | none =>
    rw [hcolumn] at h
    cases h
  | some column =>
    rw [hcolumn] at h
    obtain ⟨pre, post, hcolumns, -⟩ := List.lookup_eq_some_iff.mp hcolumn
    have hlength := batch.length_eq (name, column) (by simp [hcolumns])
    rcases column with ⟨_ | _ | _, _⟩ | _ | _ | _ | _ <;> cases h
    exact hlength

lemma stringValues_of_cells {values : List String}
    (h : stringCol batch name = .ok (values.map some)) :
    stringValues batch name = .ok values := by
  rw [stringValues, h]
  show Except.ok ((values.map some).map fun cell => cell.getD "") = _
  rw [List.map_map]
  exact congrArg Except.ok (List.map_id values)

end Cells

/-! ### Key tuples -/

def canonicalScalarKey (column : Column) (row : ℕ) : Except OmniError (Option String) :=
  match column with
  | .string _ cells => .ok (cellAt cells row)
  | .int _ cells => .ok ((cellAt cells row).map toString)
  | .float type cells =>
    match cellAt cells row with
    | none => .ok none
    | some (.nonFinite text) => .error (.manifest
        s!"scalar key: non-finite {type.name} value {text} cannot identify a row")
    | some (.zero _) => .ok (some "0")
    | some (.finite text _) => .ok (some text)
  | .boolean cells => .ok ((cellAt cells row).map toString)
  | .other dataType nulls =>
    if nulls.getD row true then .ok none
    else .error (.manifest
      s!"scalar key: unsupported column type {dataType} for @unique/@key enforcement")

/-- The key tuple of a row. A null cell exempts the row, also from errors in later columns. -/
def compositeUniqueKey : List Column → ℕ → Except OmniError (Option (List String))
  | [], _ => .ok (some [])
  | column :: rest, row =>
    match canonicalScalarKey column row with
    | .error e => .error e
    | .ok none => .ok none
    | .ok (some value) => (compositeUniqueKey rest row).map (Option.map (value :: ·))

def formatTuple : List String → String
  | [single] => single
  | items => "(" ++ ", ".intercalate items ++ ")"

/-! ### Changes -/

structure TableChange where
  added : List RecordBatch
  changed : List RecordBatch
  deletedIds : List String

instance : Inhabited TableChange := ⟨⟨[], [], []⟩⟩

def TableChange.valueBatches (change : TableChange) : List RecordBatch :=
  change.added ++ change.changed

abbrev ChangeSet := HashMap String TableChange

/-- The non-null ids of the rows of a change. -/
def deltaIdSet (change : TableChange) : Except OmniError (List String) :=
  (change.valueBatches.mapM fun batch => stringCol batch "id").map fun columns =>
    columns.flatten.reduceOption

/-- The ids and sources of a batch of edges. -/
def edgeSrcsOf (batch : RecordBatch) : Except OmniError (List (String × String)) := do
  let ids ← stringValues batch "id"
  let srcs ← stringValues batch "src"
  return ids.zip srcs

def deltaEdgeSrc (change : TableChange) : Except OmniError (List (String × String)) :=
  (change.valueBatches.mapM edgeSrcsOf).map List.flatten

/-! ### Violations -/

structure Violation where
  tableKey : String
  rowId : Option String
  kind : MergeConflictKind
  message : String
deriving DecidableEq

def Violation.intoMergeConflict (violation : Violation) : MergeConflict :=
  ⟨violation.tableKey, violation.rowId, violation.kind, violation.message⟩

def Violation.intoOmniError (violation : Violation) : OmniError := .manifest violation.message

def valueViolation (tableKey message : String) : Violation :=
  ⟨tableKey, none, .valueConstraintViolation, message⟩

/-- What follows a prefix. -/
def stripPrefix? (pre s : String) : Option String :=
  (s.toList.dropPrefix? pre.toList).map String.ofList

def uniqueViolation (tableKey : String) (columns key : List String) (id other : String) :
    Violation where
  tableKey := tableKey
  rowId := some id
  kind := .uniqueViolation
  message :=
    let typeName :=
      ((stripPrefix? "node:" tableKey).or (stripPrefix? "edge:" tableKey)).getD tableKey
    s!"@unique violation on {typeName}.{formatTuple columns}: " ++
      s!"value '{formatTuple key}' held by '{other}' and '{id}'"

def orphanViolation (edgeTable edgeId label endpoint nodeType : String) : Violation where
  tableKey := edgeTable
  rowId := some edgeId
  kind := .orphanEdge
  message := s!"{label} '{endpoint}' not found in {nodeType}"

def cardinalityViolation (edgeTable edgeName src : String) (count : ℕ) (bound : String)
    (limit : ℕ) : Violation where
  tableKey := edgeTable
  rowId := none
  kind := .cardinalityViolation
  message :=
    s!"@card violation on edge {edgeName}: source '{src}' has {count} edges ({bound} {limit})"

end Omnigraph
