import Omnigraph.Lib.Nearest
import Omnigraph.Query.Ordering

/-!
# Reciprocal rank fusion

A query ordered by `rrf` runs its pipeline twice, once for each search, and fuses the two results:
the entities are scored by their ranks, the best ones are kept, and the rows of each are gathered
from the arm that has them.
-/

namespace Omnigraph.Query

open Compiler

/-! ### Search modes -/

/-- The search that orders a scan. The query vector is what the embedding gives. -/
structure ArmMode (V : Type) where
  nearest : Option (String × String × V × ℕ) := none
  bm25 : Option (String × String × String) := none

structure RrfMode (V : Type) where
  primary : ArmMode V
  secondary : ArmMode V
  k : ℕ
  limit : ℕ

/-- How the order clause changes the scan of a query. -/
structure SearchMode (V : Type) extends ArmMode V where
  rrf : Option (RrfMode V) := none

def resolveToString (expr : IRExpr) (params : ParamMap) : Option String :=
  match expr with
  | .literal (.string s) => some s
  | .param name =>
    match params.lookup name with
    | some (.string s) => some s
    | _ => none
  | _ => none

def resolveToInt (expr : IRExpr) (params : ParamMap) : Option ℤ :=
  match expr with
  | .literal (.integer n) => some n
  | .param name =>
    match params.lookup name with
    | some (.integer n) => some n
    | _ => none
  | _ => none

/-- The cast of a 64-bit integer to 32 bits. -/
def asU32 (n : ℤ) : ℕ := (n % 2 ^ 32).toNat

section Modes

variable {V : Type} (queryVec : String → String → IRExpr → Except OmniError V)

/-- The BM25 search of a field. -/
def extractBm25 (field query : IRExpr) (params : ParamMap) :
    Except OmniError (String × String × String) :=
  match field with
  | .propAccess variable_ property =>
    match resolveToString query params with
    | some text => .ok (variable_, property, text)
    | none => .error (.manifest "bm25 query must resolve to a string")
  | _ => .error (.manifest "bm25 field must be a property access")

/-- The search of one argument of `rrf`. -/
def extractSubSearchMode (expr : IRExpr) (params : ParamMap) (limit : Option ℕ) :
    Except OmniError (ArmMode V) :=
  match expr with
  | .nearest variable_ property query =>
    (queryVec variable_ property query).map fun vec =>
      ⟨some (variable_, property, vec, limit.getD 100), none⟩
  | .bm25 field query => (extractBm25 field query params).map fun search => ⟨none, some search⟩
  | _ => .ok ⟨none, none⟩

def extractRrfMode (primary secondary : IRExpr) (k : Option IRExpr) (params : ParamMap)
    (limit : ℕ) : Except OmniError (RrfMode V) := do
  let kVal := asU32 ((k.bind fun e => resolveToInt e params).getD 60)
  let primaryMode ← extractSubSearchMode queryVec primary params (some limit)
  let secondaryMode ← extractSubSearchMode queryVec secondary params (some limit)
  .ok ⟨primaryMode, secondaryMode, kVal, limit⟩

/-- The search mode of the first ordering. -/
def extractSearchMode (ir : QueryIR) (params : ParamMap) : Except OmniError (SearchMode V) :=
  match ir.orderBy with
  | [] => .ok {}
  | ordering :: _ =>
    match ordering.expr with
    | .nearest variable_ property query => do
      let vec ← queryVec variable_ property query
      match ir.limit with
      | some k => .ok { nearest := some (variable_, property, vec, k) }
      | none => .error (.manifest "nearest() ordering requires a limit clause")
    | .bm25 field query =>
      (extractBm25 field query params).map fun search => { bm25 := some search }
    | .rrf primary secondary k =>
      match ir.limit with
      | some limit =>
        (extractRrfMode queryVec primary secondary k params limit).map fun rrf =>
          { rrf := some rrf }
      | none => .error (.manifest "rrf() ordering requires a limit clause")
    | _ => .ok {}

end Modes

/-! ### Ranks and scores -/

/-- The text of an id; a null reads as the empty text. -/
def idText : Cell → String
  | some (.scalar (.utf8 s)) => s
  | _ => ""

def extractIdColumnByName (batch : RecordBatch) (colName : String) :
    Except OmniError (List String) :=
  match batch.columnByName colName with
  | none => .error (.manifest s!"batch missing '{colName}' column for RRF")
  | some col =>
    if col.dataType = .utf8 then .ok (col.cells.map idText)
    else .error (.manifest s!"'{colName}' column is not Utf8")

/-- The rank of each entity and the entities in that order; rows of one entity share its rank. -/
def entityRanks (ids : List String) : Grouped.Ranks String := ids.foldl Grouped.rank (∅, [])

/-- The entities of the primary arm, then the others of the secondary arm. -/
def allIds (primary secondary : Grouped.Ranks String) : List String :=
  primary.2 ++ secondary.2.filter fun id => id ∉ primary.1

/-- The reciprocal of a rank in doubles: every operation rounds. -/
def roundedReciprocal (k rank : ℕ) : ℚ :=
  Double.nearest
    (1 / Double.nearest (Double.nearest (Double.nearest k + Double.nearest rank) + 1))

/-- The share of an arm in the score of an entity. -/
def armScore (k : ℕ) (ranks : HashMap String ℕ) (id : String) : ℚ :=
  match ranks.lookup id with
  | some rank => roundedReciprocal k rank
  | none => 0

/-- The entities with their scores, the best ones first. Entities of one score keep their order. -/
def scoredIds (k : ℕ) (primary secondary : Grouped.Ranks String) : List (String × ℚ) :=
  ((allIds primary secondary).map fun id =>
    (id, Double.nearest (armScore k primary.1 id + armScore k secondary.1 id))).insertionSort
      fun a b => b.2 ≤ a.2

/-! ### Rows -/

/-- The row numbers of each entity. The code keeps them in 32 bits: the ids of a column take less
than `2 ^ 31` bytes, so there are never more rows with an id. -/
def rowsById (ids : List String) : HashMap String (List ℕ) :=
  ids.zipIdx.foldl (fun rows p => rows.insert p.1 ((rows.lookup p.1).getD [] ++ [p.2])) ∅

def Column.append (c d : Column) : Except OmniError Column :=
  if h : d.dataType = c.dataType then
    .ok ⟨c.dataType, c.cells ++ d.cells, fun value hvalue => by
      rcases List.mem_append.mp hvalue with hvalue | hvalue
      · exact c.holds value hvalue
      · exact h ▸ d.holds value hvalue⟩
  else .error (.lance "It is not possible to concatenate arrays of different data types.")

/-- The rows of two batches. The columns are matched by their places. -/
def RecordBatch.append (b b' : RecordBatch) : Except OmniError RecordBatch := do
  let fields ← (b.fields.zip b'.fields).mapM fun p =>
    (p.1.2.append p.2.2).map fun col => (p.1.1, col)
  RecordBatch.tryNew fields

def concatBatches (first : RecordBatch) (rest : List RecordBatch) : Except OmniError RecordBatch :=
  rest.foldlM RecordBatch.append first

section Fused

variable (primaryBatch : RecordBatch) (primaryRows : HashMap String (List ℕ))
  (secondaryBatch : RecordBatch) (secondaryRows : HashMap String (List ℕ))

/-- The rows of an entity, from the primary arm if it has the entity. -/
def entitySlice (id : String) : Option RecordBatch :=
  match primaryRows.lookup id with
  | some rows => some (primaryBatch.take rows)
  | none => (secondaryRows.lookup id).map secondaryBatch.take

/-- The rows of every entity. -/
def buildFusedBatch (orderedIds : List String) : Except OmniError RecordBatch :=
  match orderedIds.filterMap
    (entitySlice primaryBatch primaryRows secondaryBatch secondaryRows) with
  | [] => .ok (primaryBatch.take [])
  | first :: rest => concatBatches first rest

end Fused

/-! ### The query -/

section Execute

variable {V : Type} (arrow : Arrow)

/-- The variable that a search is about. -/
def ArmMode.var (mode : ArmMode V) : Option String :=
  (mode.nearest.map fun search => search.1).or (mode.bm25.map fun search => search.1)

/-- Fuse the results of the two runs of the pipeline. -/
def executeRrfQuery (ir : QueryIR) (params : ParamMap) (rrf : RrfMode V)
    (primaryWide secondaryWide : Option RecordBatch) : Except OmniError RecordBatch :=
  match rrf.primary.var with
  | none => .error (.manifest "rrf primary must be nearest or bm25")
  | some primaryVar =>
    match primaryWide, secondaryWide with
    | none, _ => .error (.manifest s!"rrf primary variable '{primaryVar}' not in bindings")
    | some _, none => .error (.manifest s!"rrf secondary variable '{primaryVar}' not in bindings")
    | some primaryBatch, some secondaryBatch => do
      let primaryIds ← extractIdColumnByName primaryBatch (primaryVar ++ ".id")
      let secondaryIds ← extractIdColumnByName secondaryBatch (primaryVar ++ ".id")
      let scored := scoredIds rrf.k (entityRanks primaryIds) (entityRanks secondaryIds)
      let winningIds := (scored.take rrf.limit).map Prod.fst
      let fusedBatch ← buildFusedBatch primaryBatch (rowsById primaryIds) secondaryBatch
        (rowsById secondaryIds) winningIds
      let resultBatch ← projectReturn arrow fusedBatch ir.returnExprs params
      .ok (resultBatch.slice (min resultBatch.numRows rrf.limit))

/-- A query ordered by `rrf`, with the results of the pipeline for its two searches. -/
def executeFusedQuery (queryVec : String → String → IRExpr → Except OmniError V) (ir : QueryIR)
    (params : ParamMap) (primaryWide secondaryWide : Option RecordBatch) :
    Except OmniError RecordBatch := do
  let mode ← extractSearchMode queryVec ir params
  match mode.rrf with
  | some rrf => executeRrfQuery arrow ir params rrf primaryWide secondaryWide
  | none => .error (.manifest "not a fused query")

end Execute

end Omnigraph.Query
