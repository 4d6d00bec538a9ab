import Omnigraph.Compiler.Syntax
import Omnigraph.Validate.Evaluate

/-!
# Delete statements

A mutation may hold several delete statements. Nothing is removed until the end: a statement records
its predicate and the ids of the rows it matches, and later statements leave out the rows that an
earlier predicate matched already. A deleted node takes the edges that touch it with it. At the end
the predicates of a table are combined into one staged delete.
-/

namespace Omnigraph

open Compiler (CompOp IRExpr Literal)

/-! ### Predicates in three-valued logic -/

/-- The truth value of a predicate: `none` is unknown. -/
abbrev Truth := Option Bool

namespace Truth

def and : Truth → Truth → Truth
  | some false, _ => some false
  | _, some false => some false
  | some true, some true => some true
  | _, _ => none

def or : Truth → Truth → Truth
  | some true, _ => some true
  | _, some true => some true
  | some false, some false => some false
  | _, _ => none

/-- `IS NOT TRUE`: false and unknown are not true. -/
def isNotTrue (t : Truth) : Truth := some (t ≠ some true)

variable {s t : Truth}

lemma and_eq_true : Truth.and s t = some true ↔ s = some true ∧ t = some true := by
  rcases s with _ | _ | _ <;> rcases t with _ | _ | _ <;> simp [Truth.and]

lemma or_eq_true : Truth.or s t = some true ↔ s = some true ∨ t = some true := by
  rcases s with _ | _ | _ <;> rcases t with _ | _ | _ <;> simp [Truth.or]

lemma isNotTrue_eq_true : isNotTrue t = some true ↔ t ≠ some true := by
  simp [isNotTrue]

end Truth

/-- The SQL text of a filter, as it is parsed. -/
inductive Sql
  | compare (column : String) (op : CompOp) (value : Literal)
  | isIn (column : String) (ids : List String)
  | and (left right : Sql)
  | or (left right : Sql)
  | isNotTrue (inner : Sql)

/-- A stored row. A column without a cell is null. -/
structure TableRow where
  id : String
  cells : HashMap String Literal

/-- The rows of a table; the id is a key. -/
structure StoredTable where
  rows : List TableRow
  nodup : (rows.map TableRow.id).Nodup

def TableRow.cell (row : TableRow) (column : String) : Option Literal :=
  if column = "id" then some (.string row.id) else row.cells.lookup column

/-- The truth value of a filter on a row. `compare` is the engine's comparison of a cell, which may
be null, with a literal. -/
def Sql.eval (compare : CompOp → Option Literal → Literal → Truth) (row : TableRow) : Sql → Truth
  | .compare column op value => compare op (row.cell column) value
  | .isIn column ids =>
    match row.cell column with
    | none => none
    | some (.string s) => some (s ∈ ids)
    | some _ => some false
  | .and left right => Truth.and (left.eval compare row) (right.eval compare row)
  | .or left right => Truth.or (left.eval compare row) (right.eval compare row)
  | .isNotTrue inner => Truth.isNotTrue (inner.eval compare row)

/-! ### Statements -/

structure IRMutationPredicate where
  property : String
  op : CompOp
  value : IRExpr

/-- `delete <type> where <predicate>` -/
structure DeleteOp where
  typeName : String
  predicate : IRMutationPredicate

abbrev ParamMap := HashMap String Literal

def resolveExprValue (expr : IRExpr) (params : ParamMap) : Except OmniError Literal :=
  match expr with
  | .literal lit => .ok lit
  | .param name =>
    match params.lookup name with
    | some value => .ok value
    | none => .error (.manifest s!"parameter '{name}' not provided")
  | _ => .error (.manifest "unsupported expression in mutation")

/-- Only comparisons are allowed; a list value is compared as null. -/
def predicateToSql (predicate : IRMutationPredicate) (params : ParamMap) (isEdge : Bool) :
    Except OmniError Sql := do
  let column :=
    if isEdge then
      match predicate.property with
      | "from" => "src"
      | "to" => "dst"
      | other => other
    else predicate.property
  let value ← resolveExprValue predicate.value params
  let value := match value with
    | .list _ => .null
    | other => other
  match predicate.op with
  | .contains | .stringContains =>
    .error (.manifest "contains predicate not supported in mutations")
  | .startsWith => .error (.manifest "starts_with predicate not supported in mutations")
  | op => .ok (.compare column op value)

/-- A predicate and further ones, joined by `OR`. -/
def orAll (first : Sql) (rest : List Sql) : Sql := rest.foldl .or first

/-- The filter that leaves out what earlier predicates of the table matched. -/
def dedupDeleteFilter (base : Sql) : List Sql → Sql
  | [] => base
  | p :: prior => .and base (.isNotTrue (orAll p prior))

/-- What the statements of a mutation have recorded, table by table. -/
structure DeleteStaging where
  deletePredicates : HashMap String (List Sql)
  deletedIds : HashMap String (List String)

namespace DeleteStaging

def recordedDeletePredicates (st : DeleteStaging) (tableKey : String) : List Sql :=
  (st.deletePredicates.lookup tableKey).getD []

def recordedIds (st : DeleteStaging) (tableKey : String) : List String :=
  (st.deletedIds.lookup tableKey).getD []

def recordDelete (st : DeleteStaging) (tableKey : String) (predicate : Sql) : DeleteStaging :=
  { st with deletePredicates :=
      st.deletePredicates.insert tableKey (st.recordedDeletePredicates tableKey ++ [predicate]) }

def recordDeletedIds (st : DeleteStaging) (tableKey : String) (ids : List String) :
    DeleteStaging :=
  if ids = [] then st
  else { st with deletedIds := st.deletedIds.insert tableKey (st.recordedIds tableKey ++ ids) }

end DeleteStaging

structure MutationResult where
  affectedNodes : ℕ
  affectedEdges : ℕ

/-- What a delete reads: the engine's comparison, the catalog, the order in which its edge types are
walked, the committed tables and the parameters. -/
structure DeleteEnv where
  compare : CompOp → Option Literal → Literal → Truth
  catalog : Catalog
  edgeOrder : IterOrder (String × EdgeType)
  graph : HashMap String StoredTable
  params : ParamMap

section Execute

variable (env : DeleteEnv)

def openTableForMutation (tableKey : String) : Except OmniError StoredTable :=
  match env.graph.lookup tableKey with
  | some table => .ok table
  | none => .error (.manifest s!"no manifest entry for {tableKey}")

/-- The ids of the rows a filter matches. -/
def scanIds (table : StoredTable) (filter : Sql) : List String :=
  (table.rows.filter fun row => filter.eval env.compare row = some true).map TableRow.id

/-- Every delete, of nodes, of edges or by cascade, goes this way: scan for the rows no earlier
predicate matched, and record the predicate if there are any. -/
def scheduleDelete (tableKey : String) (base : Sql) (st : DeleteStaging) :
    Except OmniError (List String × DeleteStaging) := do
  let table ← openTableForMutation env tableKey
  let ids := scanIds env table
    (dedupDeleteFilter base (st.recordedDeletePredicates tableKey))
  if ids = [] then .ok (ids, st)
  else .ok (ids, (st.recordDeletedIds tableKey ids).recordDelete tableKey base)

/-- The edges of a type that touch one of the deleted nodes. -/
def cascadeFilter (typeName : String) (edge : EdgeType) (deletedIds : List String) : Option Sql :=
  if edge.fromType = typeName then
    if edge.toType = typeName then some (.or (.isIn "src" deletedIds) (.isIn "dst" deletedIds))
    else some (.isIn "src" deletedIds)
  else if edge.toType = typeName then some (.isIn "dst" deletedIds)
  else none

def cascadeDelete (typeName : String) (deletedIds : List String) (acc : ℕ × DeleteStaging)
    (edge : String × EdgeType) : Except OmniError (ℕ × DeleteStaging) :=
  match cascadeFilter typeName edge.2 deletedIds with
  | none => .ok acc
  | some filter => do
    let (matched, st) ← scheduleDelete env (edgeKey edge.1) filter acc.2
    .ok (acc.1 + matched.length, st)

/-- The edge types of the catalog with their names. -/
def edgeInfo : List (String × EdgeType) :=
  env.edgeOrder.walk (env.catalog.edgeTypes.entries.map fun entry => (entry.1, entry.2))

def executeDeleteNode (op : DeleteOp) (st : DeleteStaging) :
    Except OmniError (MutationResult × DeleteStaging) := do
  let predSql ← predicateToSql op.predicate env.params false
  let (deletedIds, st) ← scheduleDelete env (nodeKey op.typeName) predSql st
  if deletedIds = [] then .ok (⟨0, 0⟩, st)
  else
    let (affectedEdges, st) ←
      (edgeInfo env).foldlM (cascadeDelete env op.typeName deletedIds) (0, st)
    .ok (⟨deletedIds.length, affectedEdges⟩, st)

def executeDeleteEdge (op : DeleteOp) (st : DeleteStaging) :
    Except OmniError (MutationResult × DeleteStaging) := do
  let predSql ← predicateToSql op.predicate env.params true
  let (deletedIds, st) ← scheduleDelete env (edgeKey op.typeName) predSql st
  .ok (⟨0, deletedIds.length⟩, st)

def executeDelete (op : DeleteOp) (st : DeleteStaging) :
    Except OmniError (MutationResult × DeleteStaging) :=
  if op.typeName ∈ env.catalog.nodeTypes then executeDeleteNode env op st
  else executeDeleteEdge env op st

/-- The statements one after the other, with the counts added up. -/
def executeDeletes (ops : List DeleteOp) : Except OmniError (MutationResult × DeleteStaging) :=
  ops.foldlM (fun acc op => do
    let (result, st) ← executeDelete env op acc.2
    .ok (⟨acc.1.affectedNodes + result.affectedNodes,
      acc.1.affectedEdges + result.affectedEdges⟩, st)) (⟨0, 0⟩, ⟨∅, ∅⟩)

/-- The predicates of a table combined into its staged delete. -/
def combinedDelete (st : DeleteStaging) (tableKey : String) : Option Sql :=
  match st.recordedDeletePredicates tableKey with
  | [] => none
  | p :: rest => some (orAll p rest)

/-- The rows of a table after the staged delete. -/
def survivingRows (st : DeleteStaging) (tableKey : String) (table : StoredTable) : List TableRow :=
  match combinedDelete st tableKey with
  | none => table.rows
  | some filter => table.rows.filter fun row => filter.eval env.compare row ≠ some true

end Execute

end Omnigraph
