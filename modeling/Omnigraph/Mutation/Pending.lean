import Omnigraph.Merge.Staging
import Omnigraph.Mutation.Delete
import Omnigraph.Schema.Catalog

/-!
# Insert and update statements

The inserts and updates of a mutation write nothing until its end. A statement appends its rows to
the pending batches of the table. An update reads the rows its predicate matches, of the committed
table without the ids that are pending, and of all pending batches. At the end the pending rows are
reduced to the last one of each id and merged over the committed table.
-/

namespace Omnigraph

open Compiler (CompOp IRExpr Literal)
open Schema (Field)

structure IRAssignment where
  property : String
  value : IRExpr

/-! ### From literals to cells -/

/-- The conversions of leaf values: an integer as a float, floats that have to be finite in their
width, texts of dates, the contents of a blob, the text of a key value and of a tuple of them. -/
structure Codec where
  ofInt : ℤ → UInt64
  checkedF32 : UInt64 → String → Except OmniError UInt64
  checkedF64 : UInt64 → String → Except OmniError UInt64
  parseDate32 : String → Except OmniError Literal
  parseDate64 : String → Except OmniError Literal
  blobValue : String → Except OmniError Literal
  canonicalScalarKey : Schema.DataType → Literal → Except OmniError String
  keyTuple : List String → String

section Cells

variable (codec : Codec)

/-- An integer in the range of a column of a fixed width. -/
def integerIn (lo hi : ℤ) (message : String) (n : ℤ) : Except OmniError Literal :=
  if lo ≤ n ∧ n ≤ hi then .ok (.integer n) else .error (.manifest message)

/-- The integers of a column type, with its name. -/
def integerRange : Schema.DataType → Option (ℤ × ℤ × String)
  | .int32 => some (-2 ^ 31, 2 ^ 31 - 1, "Int32")
  | .int64 => some (-2 ^ 63, 2 ^ 63 - 1, "Int64")
  | .uint32 => some (0, 2 ^ 32 - 1, "UInt32")
  | .uint64 => some (0, 2 ^ 64 - 1, "UInt64")
  | _ => none

/-- An item of a list column. An item of another type is null. -/
def typedListItem : Schema.DataType → Literal → Except OmniError Literal
  | .utf8, .string s => .ok (.string s)
  | .boolean, .bool b => .ok (.bool b)
  | .float32, .integer n => (codec.checkedF32 (codec.ofInt n) "list value").map .float
  | .float32, .float f => (codec.checkedF32 f "list value").map .float
  | .float64, .integer n => .ok (.float (codec.ofInt n))
  | .float64, .float f => (codec.checkedF64 f "list value").map .float
  | .date32, .date s => codec.parseDate32 s
  | .date64, .dateTime s => codec.parseDate64 s
  | itemType, .integer n =>
    match integerRange itemType with
    | some (lo, hi, name) => integerIn lo hi s!"list value {n} exceeds {name} range" n
    | none => .ok .null
  | _, _ => .ok .null

/-- There are no lists of lists, blobs or vectors. -/
def isListItem : Schema.DataType → Bool
  | .largeBinary | .fixedSizeList _ | .list _ => false
  | _ => true

def typedListLiteralToArray (itemType : Schema.DataType) (items : List Literal) :
    Except OmniError Literal :=
  if isListItem itemType then (items.mapM (typedListItem codec itemType)).map .list
  else .error (.manifest s!"cannot convert list literal to {reprStr itemType}")

def vectorElement : Literal → Except OmniError Literal
  | .integer n => (codec.checkedF32 (codec.ofInt n) "vector element").map .float
  | .float f => (codec.checkedF32 f "vector element").map .float
  | _ => .error (.manifest "vector elements must be numeric")

def vectorLiteral (dim : ℕ) (items : List Literal) : Except OmniError Literal :=
  if items.length ≠ dim then
    .error (.manifest s!"vector property expects {dim} dimensions, got {items.length}")
  else (items.mapM (vectorElement codec)).map .list

/-- The cell of a column for a literal. A null has no cell. -/
def literalToTypedArray (lit : Literal) (dataType : Schema.DataType) :
    Except OmniError (Option Literal) :=
  match lit, dataType with
  | .null, _ => .ok none
  | .string s, .utf8 => .ok (some (.string s))
  | .float f, .float32 => (codec.checkedF32 f "float value").map fun f => some (.float f)
  | .float f, .float64 => (codec.checkedF64 f "float value").map fun f => some (.float f)
  | .bool b, .boolean => .ok (some (.bool b))
  | .date s, .date32 => (codec.parseDate32 s).map some
  | .dateTime s, .date64 => (codec.parseDate64 s).map some
  | .list items, .list itemType => (typedListLiteralToArray codec itemType items).map some
  | .list items, .fixedSizeList dim => (vectorLiteral codec dim items).map some
  | .integer n, dataType =>
    match integerRange dataType with
    | some (lo, hi, name) => (integerIn lo hi s!"integer value {n} exceeds {name} range" n).map some
    | none => .error (.manifest s!"cannot convert an integer to {reprStr dataType}")
  | _, dataType => .error (.manifest s!"cannot convert a literal to {reprStr dataType}")

/-- The row of a batch, from its columns. A column that is not nullable has no null, and `id` is a
string. -/
def rowOfColumns (columns : List (Field × Option Literal)) : Except OmniError TableRow :=
  match columns.find? fun c => !c.1.nullable && c.2.isNone with
  | some c => .error (.lance
      s!"Column '{c.1.name}' is declared as non-nullable but contains null values")
  | none =>
    match columns.find? fun c => c.1.name = "id" with
    | some (_, some (.string id)) =>
      .ok ⟨id, HashMap.insertAll (·.1) (·.2) ∅
        (columns.filterMap fun c => c.2.map fun cell => (c.1.name, cell))⟩
    | _ => .error (.lance "column 'id' is not Utf8")

end Cells

/-! ### The table -/

/-- A node type whose columns are distinct: `id`, which is no property, and the properties. -/
structure NodeTable where
  nodeType : Schema.NodeType
  fields : List Field
  schema_eq : nodeType.arrowSchema = Schema.systemField "id" :: fields
  id_notMem : "id" ∉ fields.map Field.name
  blob_mem : ∀ p ∈ nodeType.blobProperties, p ∈ fields.map Field.name

def NodeTable.tableKey (table : NodeTable) : String := nodeKey table.nodeType.name

/-- `insert <type> { … }`, with the id that is drawn for it when the type has no key. -/
structure InsertStatement where
  assignments : List IRAssignment
  ulid : String

/-- `update <type> set … where <predicate>`. The type checker lets properties be assigned only. -/
structure UpdateStatement (table : NodeTable) where
  assignments : List IRAssignment
  predicate : IRMutationPredicate
  assigned : ∀ a ∈ assignments, a.property ∈ table.fields.map Field.name

inductive Statement (table : NodeTable)
  | insert (s : InsertStatement)
  | update (s : UpdateStatement table)

/-- What the statements read: the committed table, the parameters of the query, the engine's
comparison, the conversions, the order in which a scan gives its rows and the bytes a batch
takes. -/
structure NodeWriteEnv where
  table : NodeTable
  committed : StoredTable
  params : ParamMap
  compare : CompOp → Option Literal → Literal → Truth
  codec : Codec
  scanOrder : IterOrder TableRow
  batchBytes : List TableRow → ℕ

/-! ### Pending rows -/

inductive PendingMode
  | strictInsert
  | upsert
  deriving DecidableEq

structure PendingTable where
  mode : PendingMode
  batches : List (List TableRow)

def PendingTable.rows (pending : PendingTable) : List TableRow := pending.batches.flatten

/-- The pending rows of the table; there are none before the first batch. -/
def pendingRows (pending : Option PendingTable) : List TableRow :=
  (pending.map PendingTable.rows).getD []

def pendingBatches (pending : Option PendingTable) : List (List TableRow) :=
  (pending.map PendingTable.batches).getD []

section Statements

variable (env : NodeWriteEnv)

def totalBytes (pending : Option PendingTable) : ℕ :=
  ((pendingBatches pending).map env.batchBytes).sum

/-- The mode of a table after a batch: one upsert makes all of them upserts. -/
def upgradedMode (mode : PendingMode) : Option PendingTable → PendingMode
  | none => mode
  | some existing => if mode = .upsert then .upsert else existing.mode

/-- Charges rows and bytes to the limits of a keyed write. -/
def addUsage (usage : ℕ × ℕ) (rows bytes : ℕ) : Except OmniError (ℕ × ℕ) :=
  if usage.1 + rows > keyedWriteMaxRows then
    .error (.resourceLimit s!"keyed rows for {env.table.tableKey}" keyedWriteMaxRows
      (usage.1 + rows))
  else if usage.2 + bytes > keyedWriteMaxBytes then
    .error (.resourceLimit s!"keyed bytes for {env.table.tableKey}" keyedWriteMaxBytes
      (usage.2 + bytes))
  else .ok (usage.1 + rows, usage.2 + bytes)

def appendBatch (pending : Option PendingTable) (mode : PendingMode) (batch : List TableRow) :
    Except OmniError (Option PendingTable) :=
  if batch = [] then .ok pending
  else do
    let _ ← addUsage env ((pendingRows pending).length, totalBytes env pending) batch.length
      (env.batchBytes batch)
    .ok (some ⟨upgradedMode mode pending, pendingBatches pending ++ [batch]⟩)

/-- The rows a filter matches, with the pending rows over the committed ones. -/
def scanWithPending (pending : Option PendingTable) (filter : Sql) :
    Except OmniError (List TableRow) := do
  let pendingKeys := (pendingRows pending).map TableRow.id
  let fromPending := env.scanOrder.walk
    ((pendingRows pending).filter fun row => filter.eval env.compare row = some true)
  let fromCommitted := env.scanOrder.walk
    ((env.committed.rows.filter fun row => filter.eval env.compare row = some true).filter
      fun row => row.id ∉ pendingKeys)
  let usage ← addUsage env (0, 0) (pendingRows pending).length (totalBytes env pending)
  let usage ← addUsage env usage fromPending.length (env.batchBytes fromPending)
  let _ ← addUsage env usage fromCommitted.length (env.batchBytes fromCommitted)
  .ok (fromCommitted ++ fromPending)

/-! ### Statements -/

def resolveAssignments (assignments : List IRAssignment) :
    Except OmniError (HashMap String Literal) := do
  let resolved ← assignments.mapM fun a => do
    let value ← resolveExprValue a.value env.params
    .ok (a.property, value)
  .ok (HashMap.insertAll (·.1) (·.2) ∅ resolved)

/-- The typed value of a key property. -/
def keyValue (resolved : HashMap String Literal) (key : String) :
    Except OmniError (Schema.DataType × Option Literal) := do
  match resolved.lookup key with
  | none => .error (.manifest s!"insert missing @key property '{key}'")
  | some lit =>
    match env.table.nodeType.arrowSchema.find? fun f => f.name = key with
    | none => .error (.manifestInternal (s!"@key property '{key}' is missing from node " ++
        s!"{env.table.nodeType.name} Arrow schema"))
    | some f => (literalToTypedArray env.codec lit f.dataType).map fun cell => (f.dataType, cell)

/-- The tuple of the key texts; a null exempts the row, also from errors in later columns. -/
def compositeKey : List (Schema.DataType × Option Literal) → Except OmniError (Option (List String))
  | [] => .ok (some [])
  | (_, none) :: _ => .ok none
  | (dataType, some cell) :: rest => do
    let text ← env.codec.canonicalScalarKey dataType cell
    let texts ← compositeKey rest
    .ok (texts.map (text :: ·))

def canonicalNodeId (values : List (Schema.DataType × Option Literal)) :
    Except OmniError (Option String) := do
  match ← compositeKey env values with
  | none => .ok none
  | some [] => .error (.manifestInternal
      "cannot derive a physical node id from an empty @key tuple")
  | some [scalar] => .ok (some scalar)
  | some parts => .ok (some (env.codec.keyTuple parts))

def keyDescription : List String → String
  | [key] => s!"@key property '{key}'"
  | keys => "@key properties (" ++ ", ".intercalate keys ++ ")"

def insertedId (s : InsertStatement) (resolved : HashMap String Literal) :
    Except OmniError String :=
  match env.table.nodeType.key with
  | none => .ok s.ulid
  | some keyProperties => do
    let typedKeys ← keyProperties.mapM (keyValue env resolved)
    match ← canonicalNodeId env typedKeys with
    | some id => .ok id
    | none => .error (.manifest s!"insert {keyDescription keyProperties} cannot contain null")

/-- The endpoint of an edge, in the columns that edges have. -/
def endpointCell (resolved : HashMap String Literal) (endpoint : String) (f : Field) :
    Except OmniError (Option Literal) :=
  match resolved.lookup endpoint with
  | none => .error (.manifest s!"missing required edge endpoint '{endpoint}'")
  | some lit => literalToTypedArray env.codec lit f.dataType

def insertCell (id : String) (resolved : HashMap String Literal) (f : Field) :
    Except OmniError (Option Literal) :=
  if f.name = "id" then .ok (some (.string id))
  else if f.name ∈ env.table.nodeType.blobProperties then
    match resolved.lookup f.name with
    | some (.string uri) => (env.codec.blobValue uri).map some
    | _ =>
      if f.nullable then .ok none
      else .error (.manifest s!"missing required blob property '{f.name}'")
  else if f.name = "src" then endpointCell env resolved "from" f
  else if f.name = "dst" then endpointCell env resolved "to" f
  else
    match resolved.lookup f.name with
    | some lit => literalToTypedArray env.codec lit f.dataType
    | none =>
      if f.nullable then .ok none
      else .error (.manifest s!"missing required property '{f.name}'")

def buildInsertBatch (id : String) (resolved : HashMap String Literal) :
    Except OmniError TableRow := do
  let columns ← env.table.nodeType.arrowSchema.mapM fun f => do
    let cell ← insertCell env id resolved f
    .ok (f, cell)
  rowOfColumns columns

/-- The row a statement inserts. -/
def insertedRow (s : InsertStatement) : Except OmniError TableRow := do
  let resolved ← resolveAssignments env s.assignments
  let id ← insertedId env s resolved
  buildInsertBatch env id resolved

/-- A type with a key upserts: a later statement may write the same id. -/
def insertMode : PendingMode :=
  if env.table.nodeType.key.isSome then .upsert else .strictInsert

def executeInsert (s : InsertStatement) (pending : Option PendingTable) :
    Except OmniError (ℕ × Option PendingTable) := do
  let row ← insertedRow env s
  let pending ← appendBatch env pending (insertMode env) [row]
  .ok (1, pending)

/-- Only a string replaces a blob. -/
def assignedCell (resolved : HashMap String Literal) (row : TableRow) (f : Field) :
    Except OmniError (Option Literal) :=
  if f.name ∈ env.table.nodeType.blobProperties then
    match resolved.lookup f.name with
    | some (.string uri) => (env.codec.blobValue uri).map some
    | _ => .ok (row.cell f.name)
  else
    match resolved.lookup f.name with
    | some lit => literalToTypedArray env.codec lit f.dataType
    | none => .ok (row.cell f.name)

def assignRow (resolved : HashMap String Literal) (row : TableRow) : Except OmniError TableRow := do
  let columns ← env.table.nodeType.arrowSchema.mapM fun f => do
    let cell ← assignedCell env resolved row f
    .ok (f, cell)
  rowOfColumns columns

def applyAssignments (resolved : HashMap String Literal) (matched : List TableRow) :
    Except OmniError (List TableRow) := matched.mapM (assignRow env resolved)

variable {env}

/-- A key property is never updated. -/
def UpdateStatement.checkKeys (s : UpdateStatement env.table) : Except OmniError Unit :=
  match (env.table.nodeType.key.getD []).find?
      fun key => s.assignments.any fun a => a.property = key with
  | some key => .error (.manifest
      s!"cannot update @key property '{key}' — delete and re-insert instead")
  | none => .ok ()

variable (env)

def executeUpdate (s : UpdateStatement env.table) (pending : Option PendingTable) :
    Except OmniError (ℕ × Option PendingTable) := do
  let _ ← s.checkKeys
  let predSql ← predicateToSql s.predicate env.params false
  let matched ← scanWithPending env pending predSql
  if matched = [] then .ok (0, pending)
  else do
    let resolved ← resolveAssignments env s.assignments
    let updated ← applyAssignments env resolved matched
    let pending ← appendBatch env pending .upsert updated
    .ok (matched.length, pending)

/-- A statement gives the number of nodes it affected. -/
def executeStatement (s : Statement env.table) (pending : Option PendingTable) :
    Except OmniError (ℕ × Option PendingTable) :=
  match s with
  | .insert s => executeInsert env s pending
  | .update s => executeUpdate env s pending

/-- The statements one after the other, with the count of each. -/
def executeStatements : List (Statement env.table) → Option PendingTable →
    Except OmniError (List ℕ × Option PendingTable)
  | [], pending => .ok ([], pending)
  | s :: rest, pending => do
    let (count, pending) ← executeStatement env s pending
    let (counts, pending) ← executeStatements rest pending
    .ok (count :: counts, pending)

/-! ### The end of the mutation -/

/-- The ids met, walking backwards, and the rows kept. -/
def keepUnseen (row : TableRow) (acc : List String × List TableRow) :
    List String × List TableRow :=
  if row.id ∈ acc.1 then acc else (row.id :: acc.1, row :: acc.2)

def dedupeMergeBatchesById (batches : List (List TableRow)) : List TableRow :=
  (batches.flatten.foldr keepUnseen ([], [])).2

/-- The ids of a strict insert differ from each other and from the committed ones. -/
def checkStrictInsert (rows : List TableRow) : Except OmniError Unit :=
  match rows.find? fun row => (rows.map TableRow.id).count row.id > 1 with
  | some row => .error (.keyConflict env.table.tableKey row.id)
  | none =>
    match env.committed.rows.find? fun row => row.id ∈ rows.map TableRow.id with
    | some row => .error (.keyConflict env.table.tableKey row.id)
    | none => .ok ()

/-- A merge replaces the rows of the ids it has and adds the others. -/
def mergeInsert (rows source : List TableRow) : List TableRow :=
  rows.filter (fun row => row.id ∉ source.map TableRow.id) ++ source

/-- The rows of the table after the commit. -/
def commitPending (pending : Option PendingTable) : Except OmniError (List TableRow) :=
  match pending with
  | none => .ok env.committed.rows
  | some ⟨.strictInsert, batches⟩ => do
    checkStrictInsert env batches.flatten
    .ok (env.committed.rows ++ batches.flatten)
  | some ⟨.upsert, batches⟩ =>
    .ok (mergeInsert env.committed.rows (dedupeMergeBatchesById batches))

end Statements

end Omnigraph
