import Omnigraph.Lib.Emission
import Omnigraph.Manifest.Basic
import Omnigraph.Validate.Batch

/-!
# The integrity evaluator

The constraints of the catalog, evaluated over the changes of a write or a merge against the
committed state. Every surface goes through `evaluateWithSink`: bulk loads, mutations and branch
merges differ in the committed state they show it only.
-/

namespace Omnigraph

/-! ### The catalog -/

/-- The bounds of `@card`, as `u32`. -/
structure Cardinality where
  min : ℕ
  max : Option ℕ
  min_lt : min < 2 ^ 32
  max_lt : ∀ m ∈ max, m < 2 ^ 32

structure NodeType where
  key : Option (List String)
  uniqueConstraints : List (List String)

structure EdgeType where
  name : String
  fromType : String
  toType : String
  cardinality : Cardinality
  uniqueConstraints : List (List String)

structure Catalog where
  nodeTypes : HashMap String NodeType
  edgeTypes : HashMap String EdgeType

inductive Constraint
  | value
  | unique (tableKey : String) (columns : List String) (isKey : Bool)
  | edgeRi (tableKey fromType toType : String)
  | cardinality (tableKey : String)

def nodeKey (name : String) : String := "node:" ++ name

def edgeKey (name : String) : String := "edge:" ++ name

variable {name name' : String}

lemma nodeKey_inj : nodeKey name = nodeKey name' ↔ name = name' := by
  simp [nodeKey, ← String.toList_inj]

lemma edgeKey_inj : edgeKey name = edgeKey name' ↔ name = name' := by
  simp [edgeKey, ← String.toList_inj]

lemma nodeKey_ne_edgeKey : nodeKey name ≠ edgeKey name' := by
  simp [nodeKey, edgeKey, ← String.toList_inj]

def nodeConstraints (name : String) (nodeType : NodeType) : List Constraint :=
  (nodeType.key.toList.map fun key => .unique (nodeKey name) key true) ++
    -- a group with the columns of `@key` is covered already
    (nodeType.uniqueConstraints.filter fun columns => some columns ≠ nodeType.key).map
      fun columns => .unique (nodeKey name) columns false

def edgeConstraints (name : String) (edgeType : EdgeType) : List Constraint :=
  (edgeType.uniqueConstraints.map fun columns => .unique (edgeKey name) columns false) ++
    [.edgeRi (edgeKey name) edgeType.fromType edgeType.toType, .cardinality (edgeKey name)]

def constraintsFor (catalog : Catalog) : List Constraint :=
  .value :: (catalog.nodeTypes.entries.flatMap fun entry => nodeConstraints entry.1 entry.2) ++
    catalog.edgeTypes.entries.flatMap fun entry => edgeConstraints entry.1 entry.2

/-! ### The committed state -/

/-- The tables of a manifest snapshot, each with the rows of its pinned version. -/
abbrev Snapshot := HashMap String RecordBatch

inductive LoadMode
  | overwrite
  | append
  | merge
deriving DecidableEq

structure CommittedState where
  committed : Option Snapshot
  /-- The tables this operation replaces. -/
  overwritten : List String
  /-- The current snapshot of the branch, on the mutation path. -/
  live : Option Snapshot

namespace CommittedState

def merge (target : Snapshot) : CommittedState := ⟨some target, [], none⟩

def write (committed live : Snapshot) : CommittedState := ⟨some committed, [], some live⟩

def load (base : Snapshot) (mode : LoadMode) (changeset : ChangeSet) : CommittedState where
  committed := some base
  overwritten :=
    match mode with
    | .overwrite => changeset.keys
    | .append => []
    | .merge => []
  live := none

def openTable (self : CommittedState) (tableKey : String) : Option RecordBatch :=
  if tableKey ∈ self.overwritten then none
  else self.committed.bind fun committed => committed.lookup tableKey

def openCardinality (self : CommittedState) (tableKey : String) : Option RecordBatch :=
  if tableKey ∈ self.overwritten then none
  else self.committed.bind fun committed =>
    (committed.lookup tableKey).bind fun table =>
      match self.live with
      | some live => live.lookup tableKey
      | none => some table

/-- Which of the ids exist in the table. -/
def existingIds (self : CommittedState) (tableKey : String) (ids : List String) :
    Except OmniError (List String) :=
  match self.openTable tableKey with
  | none => .ok []
  | some table =>
    if ids = [] then .ok []
    else (stringCol table "id").map fun cells => cells.reduceOption.filter (· ∈ ids)

/-- The ids and sources of the committed edges that match one of the keys. -/
def committedEdges (self : CommittedState) (edgeTable keyCol : String) (keys : List String) :
    Except OmniError (List (String × String)) :=
  match self.openCardinality edgeTable with
  | none => .ok []
  | some table =>
    if keys = [] then .ok []
    else do
      let matched ← stringCol table keyCol
      let ids ← stringValues table "id"
      let srcs ← stringValues table "src"
      return ((matched.zip (ids.zip srcs)).filter fun row => row.1.any (· ∈ keys)).map Prod.snd

/-- The committed edges that start or end in one of the given nodes. -/
def edgesReferencing (self : CommittedState) (edgeTable : String)
    (srcNodes dstNodes : List String) : Except OmniError (List (String × String × String)) :=
  if srcNodes = [] ∧ dstNodes = [] then .ok []
  else
    match self.openTable edgeTable with
    | none => .ok []
    | some table => do
      let srcCells ← stringCol table "src"
      let dstCells ← stringCol table "dst"
      let ids ← stringValues table "id"
      let srcs ← stringValues table "src"
      let dsts ← stringValues table "dst"
      return (((srcCells.zip dstCells).zip (ids.zip (srcs.zip dsts))).filter fun row =>
        row.1.1.any (· ∈ srcNodes) || row.1.2.any (· ∈ dstNodes)).map Prod.snd

end CommittedState

/-! ### Batched uniqueness probes -/

def uniqueProbeChunkKeys : ℕ := 8192

/-- Pieces of at most `n` elements. -/
def chunks {α : Type} (n : ℕ) (l : List α) : List (List α) :=
  go l.length l
where
  /-- The first argument bounds the number of pieces. -/
  go : ℕ → List α → List (List α)
    | 0, _ => []
    | fuel + 1, l => if l = [] then [] else l.take n :: go fuel (l.drop n)

/-- A key tuple with its typed literals. -/
abbrev ProbeKey := List String × List (Option ScalarValue)

/-- The literals a chunk pushes down for its `i`-th column: one for each canonical text. -/
def pushedValues (chunk : List ProbeKey) (i : ℕ) : List (Option ScalarValue) :=
  Keyed.firsts (fun key => key.1.getD i "") (fun key => key.2.getD i none) chunk

def groupColumns (tableKey : String) (columns : List String) (batch : RecordBatch) :
    Except OmniError (List Column) :=
  columns.mapM fun name =>
    match batch.columnByName name with
    | some column => .ok column
    | none => .error (.manifest s!"table {tableKey} missing unique column '{name}'")

section Holders

-- how the storage engine compares two literals of one type
variable (sameValue : ScalarValue → ScalarValue → Bool)

/-- The conjunction of the pushed-down lists, on one row. -/
def chunkFilter (group : List Column) (chunk : List ProbeKey) (row : ℕ) : Bool :=
  group.zipIdx.all fun entry =>
    match entry.1.scalarAt row with
    | none => false
    | some cell => (pushedValues chunk entry.2).any fun value => value.any (sameValue cell)

def addHolder (wanted : List (List String)) (group : List Column) (ids : List (Option String))
    (holders : HashMap (List String) (List String)) (row : ℕ) :
    Except OmniError (HashMap (List String) (List String)) :=
  match cellAt ids row with
  | none => .ok holders
  | some id => do
    match ← compositeUniqueKey group row with
    | none => return holders
    | some key =>
      if key ∈ wanted then return holders.insert key ((holders.lookup key).getD [] ++ [id])
      else return holders

def holdersOfChunk (tableKey : String) (columns : List String) (table : RecordBatch)
    (holders : HashMap (List String) (List String)) (chunk : List ProbeKey) :
    Except OmniError (HashMap (List String) (List String)) := do
  let group ← groupColumns tableKey columns table
  let ids ← stringCol table "id"
  ((List.range table.numRows).filter (chunkFilter sameValue group chunk)).foldlM
    (addHolder (chunk.map Prod.fst) group ids) holders

def CommittedState.uniqueHolders (self : CommittedState) (tableKey : String)
    (columns : List String) (keys : List ProbeKey) :
    Except OmniError (HashMap (List String) (List String)) :=
  if keys = [] ∨ columns = [] then .ok ∅
  else
    match self.openTable tableKey with
    | none => .ok ∅
    | some table =>
      (chunks uniqueProbeChunkKeys keys).foldlM (holdersOfChunk sameValue tableKey columns table) ∅

end Holders

/-! ### Evaluating the constraints -/

abbrev Evaluation := Emission Violation OmniError

open Emission

/-- The checks of single rows, with the texts of their errors. -/
structure LeafChecks where
  validateValueConstraints : RecordBatch → NodeType → Except String Unit
  validateEnumConstraints : RecordBatch → String → Except String Unit

def emitValueError (tableKey : String) : Except String Unit → Evaluation Unit
  | .ok () => pure ()
  | .error message => emit (valueViolation tableKey message)

def evaluateValueConstraints (leaf : LeafChecks) (changeset : ChangeSet) (catalog : Catalog) :
    Evaluation Unit :=
  changeset.entries.forM fun entry =>
    match stripPrefix? "node:" entry.1 with
    | some typeName =>
      match catalog.nodeTypes.lookup typeName with
      | none => pure ()
      | some nodeType => entry.2.valueBatches.forM fun batch => do
        emitValueError entry.1 (leaf.validateValueConstraints batch nodeType)
        emitValueError entry.1 (leaf.validateEnumConstraints batch typeName)
    | none =>
      match stripPrefix? "edge:" entry.1 with
      | some typeName =>
        if typeName ∈ catalog.edgeTypes then
          entry.2.valueBatches.forM fun batch =>
            emitValueError entry.1 (leaf.validateEnumConstraints batch typeName)
        else pure ()
      | none => pure ()

section Unique

variable (sameValue : ScalarValue → ScalarValue → Bool)

/-- What the first pass has seen: the final key of each id, the keys of the current batch, and
whether a batch listed a key twice. -/
structure UniquePass where
  finalById : HashMap String ProbeKey
  seenInBatch : HashMap (List String) String
  hasViolation : Bool

/-- A key that the batch has listed before is a violation, whatever the ids. -/
def reportSeen (tableKey : String) (columns key : List String) (id : String) (pass : UniquePass) :
    Evaluation Bool :=
  match pass.seenInBatch.lookup key with
  | some prior => do
    emit (uniqueViolation tableKey columns key id prior)
    return true
  | none => return pass.hasViolation

def uniqueRow (tableKey : String) (columns : List String) (group : List Column)
    (ids : List String) (pass : UniquePass) (row : ℕ) : Evaluation UniquePass := do
  let id := ids.getD row ""
  match ← lift (compositeUniqueKey group row) with
  | none => return { pass with finalById := pass.finalById.erase id }
  | some key =>
    let hasViolation ← reportSeen tableKey columns key id pass
    return ⟨pass.finalById.insert id (key, group.map (Column.scalarAt row)),
      pass.seenInBatch.insert key id, hasViolation⟩

def uniqueBatch (tableKey : String) (columns : List String) (pass : UniquePass)
    (batch : RecordBatch) : Evaluation UniquePass := do
  let group ← lift (groupColumns tableKey columns batch)
  let ids ← lift (stringValues batch "id")
  (List.range batch.numRows).foldlM (uniqueRow tableKey columns group ids)
    { pass with seenInBatch := ∅ }

/-- The entries by id: an order that does not depend on the map. -/
def sortedEntries (finalById : HashMap String ProbeKey) : List (String × ProbeKey) :=
  (finalById.entries.map fun entry => (entry.1, entry.2)).insertionSort fun a b => a.1 ≤ b.1

def reportHolder (tableKey : String) (columns : List String)
    (holderByKey : HashMap (List String) String) (entry : String × ProbeKey) : Evaluation Unit :=
  match holderByKey.lookup entry.2.1 with
  | some other =>
    emitIf (other ≠ entry.1) (uniqueViolation tableKey columns entry.2.1 entry.1 other)
  | none => pure ()

def uniqueEntry (tableKey : String) (columns : List String)
    (holderByKey : HashMap (List String) String) (entry : String × ProbeKey) :
    Evaluation (HashMap (List String) String) := do
  reportHolder tableKey columns holderByKey entry
  return holderByKey.insert entry.2.1 entry.1

/-- One entry for each key, the first. -/
def probesOf (entries : List (String × ProbeKey)) : List ProbeKey :=
  Keyed.firsts (fun entry => entry.2.1) Prod.snd entries

def probeEntry (tableKey : String) (columns deltaIds deleted : List String)
    (holdersByKey : HashMap (List String) (List String)) (entry : String × ProbeKey) :
    Evaluation Unit :=
  match ((holdersByKey.lookup entry.2.1).getD []).find? fun holder =>
      holder ∉ deltaIds ∧ holder ∉ deleted with
  | some holder => emit (uniqueViolation tableKey columns entry.2.1 entry.1 holder)
  | none => pure ()

def evaluateUnique (tableKey : String) (columns : List String) (isKey : Bool)
    (change : TableChange) (committed : CommittedState) : Evaluation Unit := do
  let deltaIds ← lift (deltaIdSet change)
  let pass ← change.valueBatches.foldlM (uniqueBatch tableKey columns) ⟨∅, ∅, false⟩
  if pass.hasViolation then return ()
  else
    let entries := sortedEntries pass.finalById
    let _ ← entries.foldlM (uniqueEntry tableKey columns) ∅
    if isKey then return ()
    else
      let holdersByKey ← lift (committed.uniqueHolders sameValue tableKey columns
        (probesOf entries))
      entries.forM (probeEntry tableKey columns deltaIds change.deletedIds holdersByKey)

end Unique

/-! ### Endpoints -/

def changeDeletedIds (changeset : ChangeSet) (tableKey : String) : List String :=
  ((changeset.lookup tableKey).map TableChange.deletedIds).getD []

def changeIds (changeset : ChangeSet) (tableKey : String) : Except OmniError (List String) :=
  match changeset.lookup tableKey with
  | some change => deltaIdSet change
  | none => .ok []

/-- Which of the ids exist in a node table once the changes are applied. -/
def mergedNodeExistence (nodeTable : String) (ids : List String) (changeset : ChangeSet)
    (committed : CommittedState) : Except OmniError (List String) := do
  let addedChanged ← changeIds changeset nodeTable
  let deleted := changeDeletedIds changeset nodeTable
  let existing ← committed.existingIds nodeTable
    (ids.filter fun id => id ∉ addedChanged ∧ id ∉ deleted)
  return ids.filter (· ∈ addedChanged) ++ existing

/-- The ids, sources and destinations of a batch of edges. -/
def edgesOf (batch : RecordBatch) : Except OmniError (List (String × String × String)) := do
  let ids ← stringValues batch "id"
  let srcs ← stringValues batch "src"
  let dsts ← stringValues batch "dst"
  return ids.zip (srcs.zip dsts)

def deltaEdges (change : TableChange) : Except OmniError (List (String × String × String)) :=
  (change.valueBatches.mapM edgesOf).map List.flatten

/-- The edges of the change, against the nodes there will be. -/
def checkDeltaEdges (edgeTable fromType toType : String)
    (edges : List (String × String × String)) (changeset : ChangeSet)
    (committed : CommittedState) : Evaluation Unit :=
  if edges = [] then pure ()
  else do
    let fromExist ← lift (mergedNodeExistence (nodeKey fromType) (edges.map fun e => e.2.1)
      changeset committed)
    let toExist ← lift (mergedNodeExistence (nodeKey toType) (edges.map fun e => e.2.2)
      changeset committed)
    edges.forM fun e => do
      emitIf (e.2.1 ∉ fromExist) (orphanViolation edgeTable e.1 "src" e.2.1 fromType)
      emitIf (e.2.2 ∉ toExist) (orphanViolation edgeTable e.1 "dst" e.2.2 toType)

/-- The committed edges the change keeps, against the nodes that go. -/
def checkStrandedEdges (edgeTable fromType toType : String) (deltaEdgeIds removed : List String)
    (changeset : ChangeSet) (committed : CommittedState) : Evaluation Unit :=
  let deletedFrom := changeDeletedIds changeset (nodeKey fromType)
  let deletedTo := changeDeletedIds changeset (nodeKey toType)
  if deletedFrom = [] ∧ deletedTo = [] then pure ()
  else do
    let referencing ← lift (committed.edgesReferencing edgeTable deletedFrom deletedTo)
    referencing.forM fun e =>
      if e.1 ∈ deltaEdgeIds ∨ e.1 ∈ removed then pure ()
      else do
        emitIf (e.2.1 ∈ deletedFrom) (orphanViolation edgeTable e.1 "src" e.2.1 fromType)
        emitIf (e.2.2 ∈ deletedTo) (orphanViolation edgeTable e.1 "dst" e.2.2 toType)

def changeEdges : Option TableChange → Except OmniError (List (String × String × String))
  | some change => deltaEdges change
  | none => .ok []

def evaluateEdgeRi (edgeTable fromType toType : String) (change : Option TableChange)
    (changeset : ChangeSet) (committed : CommittedState) : Evaluation Unit := do
  let edges ← lift (changeEdges change)
  checkDeltaEdges edgeTable fromType toType edges changeset committed
  checkStrandedEdges edgeTable fromType toType (edges.map Prod.fst)
    ((change.map TableChange.deletedIds).getD []) changeset committed

/-! ### Cardinality -/

/-- The set of ids of each source. -/
def idsPerSrc (edges : List (String × String)) : HashMap String (Finset String) :=
  edges.foldl (fun perSrc edge =>
    perSrc.insert edge.2 (insert edge.1 ((perSrc.lookup edge.2).getD ∅))) ∅

def checkMax (edgeTable : String) (edgeType : EdgeType) (src : String) (count : ℕ) :
    Evaluation Unit :=
  match edgeType.cardinality.max with
  | some max =>
    emitIf (max < count) (cardinalityViolation edgeTable edgeType.name src count "max" max)
  | none => pure ()

def checkMin (edgeTable : String) (edgeType : EdgeType) (src : String) (count : ℕ) :
    Evaluation Unit :=
  emitIf (count < edgeType.cardinality.min)
    (cardinalityViolation edgeTable edgeType.name src count "min" edgeType.cardinality.min)

/-- The count is cast to `u32`. -/
def checkCount (edgeTable : String) (edgeType : EdgeType)
    (perSrc : HashMap String (Finset String)) (src : String) : Evaluation Unit := do
  let count := ((perSrc.lookup src).map Finset.card).getD 0 % 2 ^ 32
  checkMax edgeTable edgeType src count
  checkMin edgeTable edgeType src count

/-- The new sources, and the old ones of the edges the change deletes or moves. -/
def affectedSrcs (deltaById : HashMap String String) (touched : List (String × String))
    (deletedSrcNodes : List String) : List String :=
  (deltaById.entries.map (fun entry => entry.2) ++ touched.map Prod.snd).dedup.filter
    (· ∉ deletedSrcNodes)

/-- Counts the edges of the affected sources: the committed ones the change neither deletes nor
writes, and those of the change. -/
def checkAffected (edgeTable : String) (edgeType : EdgeType) (deletedIds : List String)
    (deltaById : HashMap String String) (committed : CommittedState) (affected : List String) :
    Evaluation Unit :=
  if affected = [] then pure ()
  else do
    let committedForAffected ← lift (committed.committedEdges edgeTable "src" affected)
    let kept := committedForAffected.filter fun edge =>
      ¬ (edge.1 ∈ deletedIds ∨ edge.1 ∈ deltaById.keys)
    let perSrc := idsPerSrc (kept ++ deltaById.entries.map fun entry => (entry.1, entry.2))
    affected.forM (checkCount edgeTable edgeType perSrc)

def evaluateCardinality (edgeTable : String) (edgeType : EdgeType) (change : TableChange)
    (changeset : ChangeSet) (committed : CommittedState) : Evaluation Unit :=
  if edgeType.cardinality.min = 0 ∧ edgeType.cardinality.max = none then pure ()
  else do
    let delta ← lift (deltaEdgeSrc change)
    -- of the rows of one id the last one wins, as at commit
    let deltaById : HashMap String String := HashMap.insertAll Prod.fst Prod.snd ∅ delta
    let removedEdges ← lift (committed.committedEdges edgeTable "id" change.deletedIds)
    let movedFrom ← lift (committed.committedEdges edgeTable "id" deltaById.keys)
    checkAffected edgeTable edgeType change.deletedIds deltaById committed
      (affectedSrcs deltaById (removedEdges ++ movedFrom)
        (changeDeletedIds changeset (nodeKey edgeType.fromType)))

/-! ### All constraints -/

section All

variable (leaf : LeafChecks) (sameValue : ScalarValue → ScalarValue → Bool)

def evaluateConstraint (changeset : ChangeSet) (committed : CommittedState) (catalog : Catalog) :
    Constraint → Evaluation Unit
  | .value => evaluateValueConstraints leaf changeset catalog
  | .unique tableKey columns isKey =>
    match changeset.lookup tableKey with
    | some change => evaluateUnique sameValue tableKey columns isKey change committed
    | none => pure ()
  | .edgeRi tableKey fromType toType =>
    let change := changeset.lookup tableKey
    if change.isSome ∨ changeDeletedIds changeset (nodeKey fromType) ≠ [] ∨
        changeDeletedIds changeset (nodeKey toType) ≠ [] then
      evaluateEdgeRi tableKey fromType toType change changeset committed
    else pure ()
  | .cardinality tableKey =>
    match changeset.lookup tableKey with
    | none => pure ()
    | some change =>
      match stripPrefix? "edge:" tableKey with
      | none => pure ()
      | some typeName =>
        match catalog.edgeTypes.lookup typeName with
        | none => pure ()
        | some edgeType => evaluateCardinality tableKey edgeType change changeset committed

def evaluateAll (constraints : List Constraint) (changeset : ChangeSet)
    (committed : CommittedState) (catalog : Catalog) : Evaluation Unit :=
  constraints.forM (evaluateConstraint leaf sameValue changeset committed catalog)

def usizeMax : ℕ := 2 ^ 64 - 1

/-- The sink, with the number of violations it has accepted. -/
def counting {σ : Type} (sink : σ → Violation → Except OmniError σ) (state : σ × ℕ)
    (violation : Violation) : Except OmniError (σ × ℕ) :=
  if state.2 < usizeMax then
    (sink state.1 violation).map fun next => (next, state.2 + 1)
  else .error (.manifest "integrity violation count overflow")

def evaluateWithSink {σ : Type} (constraints : List Constraint) (changeset : ChangeSet)
    (committed : CommittedState) (catalog : Catalog) (sink : σ → Violation → Except OmniError σ)
    (state : σ) : Except OmniError (ℕ × σ) :=
  ((evaluateAll leaf sameValue constraints changeset committed catalog).feed (counting sink)
    (state, 0)).map fun ended => (ended.2.2, ended.2.1)

def evaluate (constraints : List Constraint) (changeset : ChangeSet) (committed : CommittedState)
    (catalog : Catalog) : Except OmniError (List Violation) :=
  (evaluateWithSink leaf sameValue constraints changeset committed catalog
    (fun violations violation => .ok (violations ++ [violation])) []).map Prod.snd

def validateChangeset (changeset : ChangeSet) (committed : CommittedState) (catalog : Catalog) :
    Except OmniError Unit :=
  if changeset.entries = [] then .ok ()
  else do
    let violations ← evaluate leaf sameValue (constraintsFor catalog) changeset committed catalog
    match violations with
    | violation :: _ => .error violation.intoOmniError
    | [] => return ()

end All

/-! ### What an overwrite removes -/

def overwriteRemovedIds (base : Snapshot) (tableKey : String) (change : TableChange) :
    Except OmniError (List String) :=
  match base.lookup tableKey with
  | none => .ok []
  | some table => do
    let newIds ← deltaIdSet change
    let ids ← stringCol table "id"
    return ids.reduceOption.filter (· ∉ newIds)

/-- The removals of an overwrite, as deleted ids. -/
def foldRemovedIds (base : Snapshot) (changeset : ChangeSet) : Except OmniError ChangeSet :=
  changeset.entries.foldlM (fun acc entry => do
    let removed ← overwriteRemovedIds base entry.1 entry.2
    return if removed = [] then acc else acc.insert entry.1 { entry.2 with deletedIds := removed })
    changeset

end Omnigraph
