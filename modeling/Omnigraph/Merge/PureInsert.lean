import Omnigraph.Merge.Adopt
import Omnigraph.Manifest.Basic

/-!
# Histories of pure inserts

A table is a history of versions, each committed by a transaction over its parent. A transaction
that only inserts rows whose ids its parent lacks carries a certificate. When all transactions
between two versions carry one, a merge copies their rows without comparing the tables.
-/

namespace Omnigraph.PureInsert

/-! ### Transactions -/

/-- A fragment with the rows that are not deleted. -/
structure Fragment (R : Type) where
  id : ℕ
  physicalRows : Option ℕ
  rows : List R

inductive UpdateMode
  | rewriteRows
  | rewriteColumns
deriving DecidableEq

/-- The keys of the inserted rows. -/
structure KeyExistenceFilter where
  fieldIds : List ℤ
  keys : Finset String
deriving DecidableEq

structure UpdateOperation (R : Type) where
  removedFragmentIds : List ℕ
  updatedFragments : List (Fragment R)
  newFragments : List (Fragment R)
  fieldsModified : List ℕ
  compactedSstables : List String
  fieldsForPreservingFragBitmap : List ℕ
  updateMode : Option UpdateMode
  insertedRowsFilter : Option KeyExistenceFilter
  updatedFragmentOffsets : Option (List (ℕ × List ℕ))

inductive Operation (R : Type)
  | append (fragments : List (Fragment R))
  | delete (updatedFragments : List (Fragment R)) (deletedFragmentIds : List ℕ)
  | overwrite (fragments : List (Fragment R))
  | createIndex
  /-- A compaction: groups of fragments and what replaces them. -/
  | rewrite (groups : List (List ℕ × List (Fragment R)))
  | restore (version : ℕ)
  | update (operation : UpdateOperation R)

structure Transaction (R : Type) where
  readVersion : ℕ
  uuid : String
  operation : Operation R
  transactionProperties : Option (HashMap String String)

def insertAbsenceProperty : String := "omnigraph.insert_absence"

def insertAbsenceV1 : String := "v1"

section Certificate

variable {R : Type}

def hasInsertAbsenceCertificate (transaction : Transaction R) : Bool :=
  (transaction.transactionProperties.bind fun properties =>
    properties.lookup insertAbsenceProperty) = some insertAbsenceV1

/-- Adds a number of rows, if it is known and the sum fits. -/
def addRows (rows : Option ℕ) (fragment : Fragment R) : Option ℕ := do
  let rows ← rows
  let physicalRows ← fragment.physicalRows
  if rows + physicalRows < 2 ^ 64 then some (rows + physicalRows) else none

def physicalRows (fragments : List (Fragment R)) : Option ℕ := fragments.foldl addRows (some 0)

/-- The shape of an update that only adds rows. -/
def isInsertionOnly (operation : UpdateOperation R) (preorder : List ℕ) : Bool :=
  operation.removedFragmentIds.isEmpty && operation.updatedFragments.isEmpty &&
    !operation.newFragments.isEmpty && operation.fieldsModified.isEmpty &&
    operation.compactedSstables.isEmpty && operation.fieldsForPreservingFragBitmap = preorder &&
    operation.updateMode = some .rewriteRows && operation.updatedFragmentOffsets.isNone

def certifiedInsertAbsenceRows (transaction : Transaction R) (expectedReadVersion : ℕ)
    (idFieldId : ℤ) (preorder : List ℕ) : Option ℕ :=
  if transaction.readVersion ≠ expectedReadVersion || transaction.uuid.isEmpty ||
      !hasInsertAbsenceCertificate transaction then none
  else
    match transaction.operation with
    | .update operation =>
      if !isInsertionOnly operation preorder ||
          (operation.insertedRowsFilter.all fun filter => filter.fieldIds ≠ [idFieldId]) then none
      else physicalRows operation.newFragments
    | _ => none

/-- The filter of a batch of ids. -/
def filterOf (idFieldId : ℤ) (sourceIds : List String) : KeyExistenceFilter :=
  ⟨[idFieldId], sourceIds.toFinset⟩

def certifyError (context message : String) : OmniError :=
  .manifestInternal s!"{context}: {message}"

/-- The new fragments of an update that only adds rows, with its filter. -/
def insertionOf (context : String) (preorder : List ℕ) :
    Operation R → Except OmniError (List (Fragment R) × KeyExistenceFilter)
  | .update operation =>
    if isInsertionOnly operation preorder then
      match operation.insertedRowsFilter with
      | some filter => .ok (operation.newFragments, filter)
      | none => .error (certifyError context
          "insertion-only effect cannot be certified without an exact-id filter")
    else .error (certifyError context "strict insert did not stage a pure insertion-only Update")
  | _ => .error (certifyError context "strict insert did not stage a pure insertion-only Update")

def withCertificate (transaction : Transaction R) : Transaction R :=
  let properties := transaction.transactionProperties.getD ∅
  { transaction with
    transactionProperties := some (properties.insert insertAbsenceProperty insertAbsenceV1) }

/-- The physical rows of the new fragments, or why they are not known. -/
def certifyRows (context : String) (rows : ℕ) (fragment : Fragment R) : Except OmniError ℕ :=
  match fragment.physicalRows with
  | none => .error (certifyError context "strict-insert fragment is missing physical_rows")
  | some fragmentRows =>
    if rows + fragmentRows < 2 ^ 64 then .ok (rows + fragmentRows)
    else .error (certifyError context "strict-insert physical row count overflow")

/-- The certificate property holds another value. -/
def hasUnsupportedCertificate (transaction : Transaction R) : Bool :=
  ((transaction.transactionProperties.bind fun properties =>
    properties.lookup insertAbsenceProperty).any fun value => value ≠ insertAbsenceV1)

/-- Binds an absence proof to the transaction it was staged for. -/
def certifyInsertAbsence (transaction : Transaction R) (expectedReadVersion : ℕ) (idFieldId : ℤ)
    (preorder : List ℕ) (sourceIds : List String) (context : String) :
    Except OmniError (Transaction R) :=
  if sourceIds.isEmpty then .error (certifyError context "cannot certify an empty strict insert")
  else if transaction.readVersion ≠ expectedReadVersion then
    .error (certifyError context (s!"strict insert read version {transaction.readVersion} does " ++
      s!"not match pinned parent {expectedReadVersion}"))
  else do
    let (newFragments, filter) ← insertionOf context preorder transaction.operation
    if sourceIds.toFinset.card ≠ sourceIds.length || filter ≠ filterOf idFieldId sourceIds then
      .error (certifyError context "strict-insert filter does not encode exactly every source id")
    else do
      let physicalRows ← newFragments.foldlM (certifyRows context) 0
      if physicalRows ≠ sourceIds.length then
        .error (certifyError context (s!"strict-insert transaction describes {physicalRows} " ++
          s!"physical rows for {sourceIds.length} source ids"))
      else if hasUnsupportedCertificate transaction then
        .error (certifyError context
          "insertion-absence certificate property already contains an unsupported value")
      else .ok (withCertificate transaction)

end Certificate

/-! ### Proving an interval -/

structure KeyField where
  id : ℤ
  name : String
  nullable : Bool
  isUtf8 : Bool

/-- The identifier of a branch: a version and a unique id for each fork on the way. -/
abbrev BranchIdentifier := List (ℕ × String)

/-- The version of an ancestor at which the way to this branch leaves it. -/
def findReferencedVersion (self ancestor : BranchIdentifier) : Option ℕ :=
  if ancestor.isPrefixOf self then (self[ancestor.length]?).map Prod.fst else none

/-- An opened table version. -/
structure Dataset where
  version : ℕ
  identifier : BranchIdentifier
  usesStableRowIds : Bool
  primaryKey : List KeyField
  /-- The field ids of the schema in preorder. -/
  schemaPreorder : List ℤ

/-- How tables are opened, and what is left of the transactions between two versions. -/
structure Reader (R : Type) where
  openDataset : SubTableEntry → Except OmniError Dataset
  listTransactions : Dataset → ℕ → ℕ → Option (List (Transaction R))
  debugIdentifier : BranchIdentifier → String

structure ProvenInserts where
  source : Dataset
  sourceIdentity : TableIdentity
  sourceTablePath : String
  sourceTableBranch : Option String
  sourceBranchIdentifier : BranchIdentifier
  targetBaseBranchIdentifier : BranchIdentifier
  baseVersion : ℕ
  sourceVersion : ℕ
  insertedRows : ℕ
  chunkRows : List ℕ

def historyMaxVersions : ℕ := 1024

section History

variable {R : Type} (reader : Reader R)

def fieldIdOf (id : ℤ) : Option ℕ := if 0 ≤ id ∧ id < 2 ^ 32 then some id.toNat else none

/-- The id of the primary key, if it is a plain `id` column. -/
def exactIdField (dataset : Dataset) : Option ℤ :=
  match dataset.primaryKey with
  | [field] => if field.name = "id" && !field.nullable && field.isUtf8 then some field.id else none
  | _ => none

/-- The rows of certified transactions that follow each other from a version on. The sum is checked
against overflow. -/
def provenRows (idFieldId : ℤ) (preorder : List ℕ) :
    ℕ → ℕ → List (Transaction R) → Except OmniError (Option ℕ)
  | _, rows, [] => .ok (some rows)
  | version, rows, transaction :: transactions =>
    match certifiedInsertAbsenceRows transaction version idFieldId preorder with
    | none => .ok none
    | some transactionRows =>
      if rows + transactionRows < 2 ^ 64 then
        provenRows idFieldId preorder (version + 1) (rows + transactionRows) transactions
      else .error (.manifestInternal "branch merge pure-insert row count overflow")

/-- The transactions of the interval, checked one after the other. -/
def provenInterval (baseEntry sourceEntry : SubTableEntry) (source : Dataset)
    (idFieldId : ℤ) (preorder : List ℕ) : Except OmniError (Option ℕ) :=
  match reader.listTransactions source baseEntry.tableVersion sourceEntry.tableVersion with
  | none => .ok none
  | some transactions =>
    if transactions.length ≠ sourceEntry.tableVersion - baseEntry.tableVersion then .ok none
    else provenRows idFieldId preorder baseEntry.tableVersion 0 transactions

/-- The source continues the base: on its branch, or on one forked there. -/
def checkDescends (tableKey : String) (baseEntry sourceEntry : SubTableEntry)
    (base source : Dataset) : Except OmniError Bool :=
  if baseEntry.tableBranch = sourceEntry.tableBranch ∧ source.identifier ≠ base.identifier then
    .error (.manifestReadSetChanged s!"branch_merge_source_table_incarnation:{tableKey}"
      (some (reader.debugIdentifier base.identifier))
      (some (reader.debugIdentifier source.identifier)))
  else .ok (baseEntry.tableBranch = sourceEntry.tableBranch ∨
    findReferencedVersion source.identifier base.identifier = some baseEntry.tableVersion)

/-- The checks of opened tables, and the rows their interval inserts. -/
def provenBetween (tableKey : String) (baseEntry sourceEntry : SubTableEntry)
    (base source : Dataset) : Except OmniError (Option ℕ) :=
  if source.version ≠ sourceEntry.tableVersion || base.version ≠ baseEntry.tableVersion ||
      !source.usesStableRowIds || !base.usesStableRowIds then .ok none
  else do
    let descends ← checkDescends reader tableKey baseEntry sourceEntry base source
    if !descends then .ok none
    else
      match exactIdField source, source.schemaPreorder.mapM fieldIdOf with
      | some idFieldId, some preorder =>
        provenInterval reader baseEntry sourceEntry source idFieldId preorder
      | _, _ => .ok none

/-- What the entries alone tell: both are there, it is the same table, and both the version and the
row count have grown. -/
def entriesGrow (baseEntry sourceEntry : SubTableEntry) : Bool :=
  sourceEntry.identity = baseEntry.identity && sourceEntry.tablePath = baseEntry.tablePath &&
    baseEntry.tableVersion < sourceEntry.tableVersion &&
    baseEntry.rowCount < sourceEntry.rowCount &&
    sourceEntry.tableVersion - baseEntry.tableVersion ≤ historyMaxVersions

def provenOf (baseEntry sourceEntry : SubTableEntry) (base source : Dataset) : ProvenInserts where
  source := source
  sourceIdentity := sourceEntry.identity
  sourceTablePath := sourceEntry.tablePath
  sourceTableBranch := sourceEntry.tableBranch
  sourceBranchIdentifier := source.identifier
  targetBaseBranchIdentifier := base.identifier
  baseVersion := baseEntry.tableVersion
  sourceVersion := sourceEntry.tableVersion
  insertedRows := sourceEntry.rowCount - baseEntry.rowCount
  chunkRows := []

def tryProvenPureInsertHistory (tableKey : String) (baseEntry sourceEntry : Option SubTableEntry) :
    Except OmniError (Option ProvenInserts) :=
  match baseEntry, sourceEntry with
  | some baseEntry, some sourceEntry =>
    if !entriesGrow baseEntry sourceEntry then .ok none
    else do
      let base ← reader.openDataset baseEntry
      let source ← reader.openDataset sourceEntry
      let proven ← provenBetween reader tableKey baseEntry sourceEntry base source
      if proven = some (sourceEntry.rowCount - baseEntry.rowCount) then
        .ok (some (provenOf baseEntry sourceEntry base source))
      else .ok none
  | _, _ => .ok none

end History

end Omnigraph.PureInsert
