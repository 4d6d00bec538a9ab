import Omnigraph.Compiler.Syntax
import Omnigraph.Lib.Diff
import Omnigraph.Manifest.Basic

/-!
# Differences between two versions of a table

The changes between two versions of a table are found in three ways. On one lineage, the rows of the
destination that were last written in the version window are the candidates, and the ids at the
origin tell inserts from updates. Across branches, both versions are scanned in the order of the ids
and compared by a text of all their columns. The paged walk does the same, but compares blobs by
their contents when their descriptors differ.
-/

namespace Omnigraph

open Compiler (Literal)
open Diff (Edit)
open MergeJoin (Ascending)

/-! ### Rows -/

inductive EntityKind
  | node
  | edge
  deriving DecidableEq

inductive ChangeOp
  | insert
  | update
  | delete
  deriving DecidableEq

structure Endpoints where
  src : String
  dst : String

/-- A cell as it is scanned: a value, or the physical identity of a blob descriptor. -/
inductive ChangeCell
  | scalar (value : Option Literal)
  | blob (identity : String)

/-- The value of a cell: for a blob its bytes, its external reference or null. -/
inductive LogicalCell
  | scalar (value : Option Literal)
  | blob (value : Option String)

/-- A row of a table version, with the version that wrote it last. -/
structure VersionedRow where
  id : String
  /-- All columns other than `id`. -/
  columns : List (String × ChangeCell)
  lastUpdated : ℕ

/-- The rows of a table version, in the order of their ids. -/
structure TableRows where
  rows : List VersionedRow
  ascending : Ascending VersionedRow.id rows

/-- What reading needs to know: how a value and a blob descriptor are displayed, and what is stored
under a descriptor. -/
structure RowReader where
  display : Literal → String
  displayDescriptor : String → String
  payload : String → Option String

def EntityKind.isEdge (kind : EntityKind) : Bool := kind = .edge

/-- The rendered image of a row. -/
abbrev RowImage := String × List (String × LogicalCell)

structure EntityChange where
  changeIndex : ℕ
  tableKey : String
  kind : EntityKind
  typeName : String
  id : String
  op : ChangeOp
  manifestVersion : ℕ
  endpoints : Option Endpoints
  before : Option RowImage
  after : Option RowImage

structure ChangeFilter where
  kinds : Option (List EntityKind)
  typeNames : Option (List String)
  ops : Option (List ChangeOp)

def ChangeFilter.wantsOp (filter : ChangeFilter) (op : ChangeOp) : Bool :=
  match filter.ops with
  | some ops => op ∈ ops
  | none => true

section Reading

variable (reader : RowReader)

def ChangeCell.logical : ChangeCell → LogicalCell
  | .scalar value => .scalar value
  | .blob identity => .blob (reader.payload identity)

/-- The image of a row, which is its content. -/
def VersionedRow.image (row : VersionedRow) : RowImage :=
  (row.id, row.columns.map fun c => (c.1, c.2.logical reader))

/-- A null is displayed as the empty text. -/
def displayScalar (value : Option Literal) : String := (value.map reader.display).getD ""

def ChangeCell.text : ChangeCell → String
  | .scalar value => displayScalar reader value
  | .blob identity => reader.displayDescriptor identity

def signatureSeparator : String := "\x1f"

def startsWith (name start : String) : Bool := start.toList.isPrefixOf name.toList

/-- The texts of the columns. A property may have a name that starts like that of a system column;
it is left out with them. -/
def VersionedRow.displays (row : VersionedRow) : List String :=
  row.id :: (row.columns.filter fun c => !startsWith c.1 "_row_").map fun c => c.2.text reader

/-- The text of all columns. -/
def VersionedRow.signature (row : VersionedRow) : String :=
  signatureSeparator.intercalate (row.displays reader)

/-- The columns the walk compares. It leaves out more names than the diff across branches does. -/
def VersionedRow.comparedColumns (row : VersionedRow) : List (String × ChangeCell) :=
  row.columns.filter fun c => !startsWith c.1 "_row"

/-- The text of the columns that are not blobs. -/
def VersionedRow.scalarSignature (row : VersionedRow) : String :=
  signatureSeparator.intercalate (row.id :: row.comparedColumns.filterMap fun c =>
    match c.2 with
    | .scalar value => some (displayScalar reader value)
    | .blob _ => none)

def VersionedRow.blobSignatures (row : VersionedRow) : List (String × String) :=
  row.comparedColumns.filterMap fun c =>
    match c.2 with
    | .scalar _ => none
    | .blob identity => some (c.1, identity)

/-- Blob contents are compared only where the descriptors differ. -/
def rowsEqual (left right : VersionedRow) : Bool :=
  if left.scalarSignature reader ≠ right.scalarSignature reader then false
  else if left.blobSignatures = right.blobSignatures then true
  else if left.blobSignatures.map Prod.fst ≠ right.blobSignatures.map Prod.fst then false
  else (left.blobSignatures.zip right.blobSignatures).all fun pair =>
    pair.1.2 = pair.2.2 || reader.payload pair.1.2 = reader.payload pair.2.2

def VersionedRow.endpoint (row : VersionedRow) (column : String) : String :=
  match row.columns.lookup column with
  | some (.scalar (some (.string s))) => s
  | _ => ""

def VersionedRow.endpoints (row : VersionedRow) (isEdge : Bool) : Option Endpoints :=
  if isEdge then some ⟨row.endpoint "src", row.endpoint "dst"⟩ else none

/-! ### Diffs of one table -/

/-- A change without images. Its table is filled in by the caller. -/
def entityChangeFromRow (row : VersionedRow) (version : ℕ) (op : ChangeOp) (isEdge : Bool) :
    EntityChange :=
  { changeIndex := 0, tableKey := "", kind := if isEdge then .edge else .node, typeName := ""
    id := row.id, op := op, manifestVersion := version, endpoints := row.endpoints isEdge
    before := none, after := none }

def deletedIdsBySetDiff (src tgt : TableRows) (isEdge : Bool) : List EntityChange :=
  (src.rows.filter fun row => row.id ∉ tgt.rows.map VersionedRow.id).map
    fun row => entityChangeFromRow row 0 .delete isEdge

/-- The rows last written in the window, told apart by the ids at the origin. -/
def writtenInWindow (vf vt : ℕ) (src tgt : TableRows) (isEdge : Bool) (filter : ChangeFilter) :
    List EntityChange :=
  (tgt.rows.filter fun row => vf < row.lastUpdated ∧ row.lastUpdated ≤ vt).filterMap fun row =>
    if row.id ∈ src.rows.map VersionedRow.id then
      if filter.wantsOp .update then
        some (entityChangeFromRow row row.lastUpdated .update isEdge)
      else none
    else if filter.wantsOp .insert then
      some (entityChangeFromRow row row.lastUpdated .insert isEdge)
    else none

def diffTableSameLineage (vf vt : ℕ) (src tgt : TableRows) (isEdge : Bool)
    (filter : ChangeFilter) : List EntityChange :=
  (if filter.wantsOp .insert || filter.wantsOp .update then
    writtenInWindow vf vt src tgt isEdge filter else []) ++
  (if filter.wantsOp .delete then deletedIdsBySetDiff src tgt isEdge else [])

def editOp : Edit VersionedRow → ChangeOp
  | .delete _ => .delete
  | .insert _ => .insert
  | .update _ _ => .update

/-- The row an edit reports: the one at the destination unless it is gone. -/
def editRow : Edit VersionedRow → VersionedRow
  | .delete a => a
  | .insert b => b
  | .update _ b => b

def diffTableCrossBranch (src tgt : TableRows) (isEdge : Bool) (filter : ChangeFilter) :
    List EntityChange :=
  ((Diff.diff VersionedRow.id (fun a b => a.signature reader = b.signature reader)
    src.rows tgt.rows).filter fun e => filter.wantsOp (editOp e)).map
      fun e => entityChangeFromRow (editRow e) 0 (editOp e) isEdge

def diffTableAdded (tgt : TableRows) (isEdge : Bool) (filter : ChangeFilter) :
    List EntityChange :=
  if filter.wantsOp .insert then tgt.rows.map fun row => entityChangeFromRow row 0 .insert isEdge
  else []

def diffTableRemoved (src : TableRows) (isEdge : Bool) (filter : ChangeFilter) :
    List EntityChange :=
  if filter.wantsOp .delete then src.rows.map fun row => entityChangeFromRow row 0 .delete isEdge
  else []

/-- What the changes of a walk have in common. -/
structure ChangeContext where
  tableKey : String
  kind : EntityKind
  typeName : String
  manifestVersion : ℕ

def ChangeContext.change (context : ChangeContext) (e : Edit VersionedRow) : EntityChange :=
  { changeIndex := 0, tableKey := context.tableKey, kind := context.kind
    typeName := context.typeName, id := (editRow e).id, op := editOp e
    manifestVersion := context.manifestVersion
    endpoints := (editRow e).endpoints context.kind.isEdge
    before := match e with
      | .delete a => some (a.image reader)
      | _ => none
    after := match e with
      | .delete _ => none
      | .insert b | .update _ b => some (b.image reader) }

/-- The next change of the ordered walk, with what is left of the two sides. -/
def nextChange (context : ChangeContext) (src tgt : List VersionedRow) :
    Option (EntityChange × List VersionedRow × List VersionedRow) :=
  (Diff.next VersionedRow.id (rowsEqual reader) src tgt).map fun step =>
    (context.change reader step.1, step.2)

/-- All changes of the ordered walk. -/
def walkChanges (context : ChangeContext) (src tgt : List VersionedRow) : List EntityChange :=
  (Diff.diff VersionedRow.id (rowsEqual reader) src tgt).map (context.change reader)

/-- Taking the next change until there is none gives all of them. -/
theorem nextChange_eq (context : ChangeContext) (src tgt : List VersionedRow) :
    (nextChange reader context src tgt = none ∧ walkChanges reader context src tgt = []) ∨
      ∃ change src' tgt', nextChange reader context src tgt = some (change, src', tgt') ∧
        walkChanges reader context src tgt = change :: walkChanges reader context src' tgt' := by
  rcases @Diff.next_eq _ _ _ VersionedRow.id (rowsEqual reader) src tgt with
    ⟨hnext, hdiff⟩ | ⟨e, src', tgt', hnext, hdiff⟩
  · exact .inl ⟨by rw [nextChange, hnext]; rfl, by rw [walkChanges, hdiff]; rfl⟩
  · exact .inr ⟨_, src', tgt', by rw [nextChange, hnext]; rfl, by rw [walkChanges, hdiff]; rfl⟩

/-- Taking the next change until there is none. -/
inductive Walks (context : ChangeContext) :
    List VersionedRow → List VersionedRow → List EntityChange → Prop
  | done {src tgt : List VersionedRow} (hnext : nextChange reader context src tgt = none) :
    Walks context src tgt []
  | step {src tgt src' tgt' : List VersionedRow} {change : EntityChange}
    {changes : List EntityChange}
    (hnext : nextChange reader context src tgt = some (change, src', tgt'))
    (rest : Walks context src' tgt' changes) : Walks context src tgt (change :: changes)

variable {reader}

/-- A walk takes all changes. -/
theorem walks_iff {context : ChangeContext} {src tgt : List VersionedRow}
    {changes : List EntityChange} :
    Walks reader context src tgt changes ↔ changes = walkChanges reader context src tgt := by
  constructor
  · intro h
    induction h with
    | @done src tgt hnext =>
      rcases nextChange_eq reader context src tgt with ⟨-, hall⟩ | ⟨_, _, _, hsome, -⟩
      · exact hall.symm
      · rw [hnext] at hsome
        cases hsome
    | @step src tgt src' tgt' change changes hnext rest ih =>
      rcases nextChange_eq reader context src tgt with ⟨hnone, -⟩ | ⟨_, _, _, hsome, hall⟩
      · rw [hnext] at hnone
        cases hnone
      · rw [hnext] at hsome
        cases hsome
        rw [hall, ih]
  · intro h
    induction changes generalizing src tgt with
    | nil =>
      rcases nextChange_eq reader context src tgt with ⟨hnone, -⟩ | ⟨_, _, _, -, hall⟩
      · exact .done hnone
      · rw [← h] at hall
        cases hall
    | cons change changes ih =>
      rcases nextChange_eq reader context src tgt with ⟨-, hall⟩ | ⟨_, _, _, hsome, hall⟩
      · rw [hall] at h
        cases h
      · rw [hall] at h
        cases h
        exact .step hsome (ih rfl)

end Reading

end Omnigraph
