import Omnigraph.Manifest.Updates
import Omnigraph.Merge.Adopt

/-!
# Publishing a merge

A merge compares the manifest entries of base, source and target table by table. A table that only
the source moved is adopted: by a pointer to the source's version, by a fork of it, or, when the
target's lineage has to advance, by writing the difference onto the target. A table that both sides
moved is merged row by row. Every table that takes part ends in one manifest update.
-/

namespace Omnigraph

/-! ### Snapshots -/

/-- What a manifest shows: a table has one entry. -/
structure ManifestSnapshot extends ManifestState where
  nodup : (entries.map SubTableEntry.identity).Nodup

def ManifestSnapshot.entry (snapshot : ManifestSnapshot) (tableKey : String) :
    Option SubTableEntry :=
  snapshot.entries.find? fun entry => entry.tableKey = tableKey

def sameManifestState : Option SubTableEntry → Option SubTableEntry → Bool
  | some left, some right =>
    left.identity = right.identity ∧ left.tablePath = right.tablePath ∧
      left.tableVersion = right.tableVersion ∧ left.tableBranch = right.tableBranch ∧
      left.rowCount = right.rowCount ∧ left.versionMetadata = right.versionMetadata
  | none, none => true
  | _, _ => false

/-- The identities that are there have to agree with the first of them. -/
def ensureMergeIdentityCompatible (tableKey : String) (base source target : Option TableIdentity) :
    Except OmniError Unit :=
  match [base, source, target].reduceOption with
  | [] => .ok ()
  | observed :: rest =>
    match rest.find? fun candidate => candidate ≠ observed with
    | some candidate => .error (.manifestReadSetChanged
        s!"branch_merge_table_identity:{tableKey}" (some observed.display)
        (some candidate.display))
    | none => .ok ()

/-! ### Classification -/

def pureInsertHistoryMaxVersions : ℕ := 1024

/-- The chunks of an interval of versions that only inserted rows. -/
structure ProvenPureInsertAdopt where
  insertedRows : ℕ
  chunkRows : List ℕ

inductive CandidateTableState (R : Type)
  /-- A pointer switch or a fork; the delta is for validation alone. -/
  | adoptSourceState (validationDelta : Option (AdoptDelta R))
  | adoptPureInserts (proven : ProvenPureInsertAdopt)
  | adoptWithDelta (delta : AdoptDelta R)
  | rewriteMerged (staged : StagedMergeResult R)

/-- What a merge asks of the storage: ordered scans, the chunks of a version interval whose
transactions are all certified inserts, the metadata of a fork and of a written version, and the
row counts of written versions. -/
structure MergeStorage (R : Type) where
  view : RowView R
  rows : RowStore R
  scan : SubTableEntry → List (List R)
  ascending : ∀ entry, MergeJoin.Ascending view.rowIdAt (scan entry).flatten
  provenChunks : SubTableEntry → SubTableEntry → Except OmniError (Option (List ℕ))
  forkMetadata : SubTableEntry → String → TableVersionMetadata
  tableState : String → Option String → ℕ → ℕ × TableVersionMetadata
  validate : List (String × CandidateTableState R) → Except OmniError Unit

structure BranchMerge (R : Type) where
  storage : MergeStorage R
  targetActive : Option String
  base : ManifestSnapshot
  source : ManifestSnapshot
  target : ManifestSnapshot

def adoptAdvancesHead (targetActive : Option String) (sourceEntry : SubTableEntry)
    (targetEntry : Option SubTableEntry) : Bool :=
  match targetActive, sourceEntry.tableBranch with
  | none, some _ => true
  | some targetBranch, some _ =>
    (targetEntry.bind SubTableEntry.tableBranch) = some targetBranch
  | _, none => false

namespace BranchMerge

variable {R : Type} (merge : BranchMerge R) (tableKey : String)

def identityOf (entry : Option SubTableEntry) : Option TableIdentity :=
  entry.map SubTableEntry.identity

/-- The rows of a table in a snapshot that may lack it. -/
def scanned (snapshot : ManifestSnapshot) : Option (List (List R)) :=
  (snapshot.entry tableKey).map merge.storage.scan

def tryProvenPureInsertAdopt : Except OmniError (Option ProvenPureInsertAdopt) :=
  match merge.base.entry tableKey, merge.source.entry tableKey with
  | some base, some source =>
    if source.identity ≠ base.identity ∨ source.tablePath ≠ base.tablePath ∨
        source.tableVersion ≤ base.tableVersion ∨ source.rowCount ≤ base.rowCount ∨
        source.tableVersion - base.tableVersion > pureInsertHistoryMaxVersions then .ok none
    else do
      let chunks ← merge.storage.provenChunks base source
      return chunks.map fun chunkRows => ⟨source.rowCount - base.rowCount, chunkRows⟩
  | _, _ => .ok none

def classifyGeneralAdopt (advancesHead : Bool) : Except OmniError (CandidateTableState R) := do
  let delta ← computeAdoptDelta merge.storage.view merge.storage.rows
    (merge.scanned tableKey merge.base) (merge.scanned tableKey merge.source)
  match advancesHead, delta with
  | true, some delta => return .adoptWithDelta delta
  | _, validationDelta => return .adoptSourceState validationDelta

def classifyAdopt : Except OmniError (CandidateTableState R) :=
  match merge.source.entry tableKey with
  | none => .ok (.adoptSourceState none)
  | some sourceEntry => do
    let targetEntry := merge.target.entry tableKey
    ensureMergeIdentityCompatible tableKey (identityOf (merge.base.entry tableKey))
      (some sourceEntry.identity) (identityOf targetEntry)
    let advancesHead := adoptAdvancesHead merge.targetActive sourceEntry targetEntry
    if advancesHead then
      match ← merge.tryProvenPureInsertAdopt tableKey with
      | some proven => return .adoptPureInserts proven
      | none => merge.classifyGeneralAdopt tableKey true
    else merge.classifyGeneralAdopt tableKey false

/-- One table: what it takes to publish it, if it takes part, and the conflicts so far. -/
def classifyTable (conflicts : List MergeConflict) :
    Except OmniError (Option (CandidateTableState R) × List MergeConflict) :=
  let base := merge.base.entry tableKey
  let source := merge.source.entry tableKey
  let target := merge.target.entry tableKey
  if sameManifestState source target ∨ sameManifestState base source then .ok (none, conflicts)
  else do
    ensureMergeIdentityCompatible tableKey (identityOf base) (identityOf source)
      (identityOf target)
    if sameManifestState base target then
      let candidate ← merge.classifyAdopt tableKey
      return (some candidate, conflicts)
    else
      let (staged, conflicts) ← stageStreamingTableMerge merge.storage.view merge.storage.rows
        tableKey (merge.scanned tableKey merge.base) (merge.scanned tableKey merge.source)
        (merge.scanned tableKey merge.target) conflicts
      return (staged.map .rewriteMerged, conflicts)

def orderedTableKeys : List String :=
  ((merge.base.entries ++ merge.source.entries ++ merge.target.entries).map
    SubTableEntry.tableKey).dedup.insertionSort fun a b => a ≤ b

def classifyTables :
    Except OmniError (List (String × CandidateTableState R) × List MergeConflict) :=
  merge.orderedTableKeys.foldlM (fun acc tableKey => do
    let (candidate, conflicts) ← merge.classifyTable tableKey acc.2
    return (acc.1 ++ (candidate.map fun candidate => (tableKey, candidate)).toList, conflicts))
    ([], [])

end BranchMerge

/-! ### Transactions -/

section Plan

variable {R : Type} (tableKey : String)

/-- The number of chunks of a plan, which has to add up to the rows it is for. -/
def chunkCount (table chunks : String) (chunkRows : List ℕ) (rowCount : ℕ) : Except OmniError ℕ :=
  if rowCount = 0 ∨ chunkRows = [] then
    .error (.manifestInternal s!"branch merge {table} table '{tableKey}' is empty")
  else if chunkRows.sum ≠ rowCount then
    .error (.manifestInternal (s!"branch merge {chunks} chunks for '{tableKey}' contain " ++
      s!"{chunkRows.sum} rows, expected {rowCount}"))
  else .ok chunkRows.length

def stagedKeyedChunkCount (table : StagedTable R) : Except OmniError ℕ :=
  chunkCount tableKey "strict-insert" "strict-insert" (table.chunks.map List.length) table.rowCount

def provenInsertChunkCount (proven : ProvenPureInsertAdopt) : Except OmniError ℕ :=
  chunkCount tableKey "proven pure-insert" "pure-insert" proven.chunkRows proven.insertedRows

def optionalChunkCount : Option (StagedTable R) → Except OmniError ℕ
  | some table => stagedKeyedChunkCount tableKey table
  | none => .ok 0

def transactionCount : CandidateTableState R → Except OmniError ℕ
  | .rewriteMerged staged => do
    let keyed ← optionalChunkCount tableKey staged.deltaStaged
    return keyed + staged.deletedIds.chunks.length
  | .adoptWithDelta delta => do
    let inserts ← optionalChunkCount tableKey delta.inserts
    let upserts ← optionalChunkCount tableKey delta.upserts
    return inserts + upserts + delta.deletedIds.chunks.length
  | .adoptPureInserts proven => provenInsertChunkCount tableKey proven
  | .adoptSourceState _ => .ok 0

/-- The versions the transactions read, one after the other. -/
def planMergeTransactions (candidate : CandidateTableState R) (firstReadVersion : ℕ) :
    Except OmniError (List ℕ) := do
  let count ← transactionCount tableKey candidate
  if count = 0 then
    .error (.manifestInternal (s!"HEAD-advancing branch merge candidate '{tableKey}' has no " ++
      "logical data transaction"))
  else if count > maxBranchMergeDataTransactions then
    .error (.resourceLimit s!"branch-merge recovery transactions for {tableKey}"
      maxBranchMergeDataTransactions count)
  else .ok ((List.range count).map fun offset => firstReadVersion + offset)

end Plan

/-! ### Publication -/

namespace BranchMerge

variable {R : Type} (merge : BranchMerge R) (tableKey : String)

/-- The update of a table whose planned transactions were committed: each of them adds a version to
the target's lineage. -/
def writtenUpdate (identity : TableIdentity) (entry : SubTableEntry) (planned : List ℕ) :
    SubTableUpdate :=
  let version := entry.tableVersion + planned.length
  let state := merge.storage.tableState tableKey merge.targetActive version
  { identity
    tableKey
    tableVersion := version
    tableBranch := merge.targetActive
    rowCount := state.1
    versionMetadata := state.2 }

/-- A pointer switch, or a fork of the source's version, which keeps its number. -/
def adoptedUpdate (sourceEntry : SubTableEntry) (targetEntry : Option SubTableEntry) :
    SubTableUpdate :=
  let update (tableVersion : ℕ) (tableBranch : Option String)
      (versionMetadata : TableVersionMetadata) : SubTableUpdate :=
    ⟨sourceEntry.identity, tableKey, tableVersion, tableBranch, sourceEntry.rowCount,
      versionMetadata⟩
  match merge.targetActive, sourceEntry.tableBranch with
  | _, none => update sourceEntry.tableVersion none sourceEntry.versionMetadata
  | none, some _ =>
    let shown := targetEntry.getD sourceEntry
    update shown.tableVersion none shown.versionMetadata
  | some targetBranch, some _ =>
    match targetEntry.filter fun entry => entry.tableBranch = some targetBranch with
    | some entry => update entry.tableVersion (some targetBranch) entry.versionMetadata
    | none => update sourceEntry.tableVersion (some targetBranch)
        (merge.storage.forkMetadata sourceEntry targetBranch)

def publishAdoptedSourceState (sourceEntry : SubTableEntry) (targetEntry : Option SubTableEntry) :
    Except OmniError SubTableUpdate := do
  ensureMergeIdentityCompatible tableKey none (some sourceEntry.identity) (identityOf targetEntry)
  return merge.adoptedUpdate tableKey sourceEntry targetEntry

/-- The target branch has no lineage of its own for the table yet. -/
def firstTouches (entry : SubTableEntry) : Bool :=
  match merge.targetActive with
  | some target => entry.tableBranch ≠ some target
  | none => false

def publishWritten (identity : TableIdentity) (candidate : CandidateTableState R) :
    Except OmniError SubTableUpdate :=
  match merge.target.entry tableKey with
  | none => .error (.manifest (s!"HEAD-advancing branch merge candidate '{tableKey}' has no " ++
      "target entry"))
  | some entry =>
    match candidate with
    | .adoptPureInserts _ =>
      if merge.firstTouches entry then
        .error (.manifestInternal ("branch merge proven pure-insert candidate " ++
          s!"'{tableKey}' cannot first-touch a lazy target"))
      else do
        let planned ← planMergeTransactions tableKey candidate entry.tableVersion
        return merge.writtenUpdate tableKey identity entry planned
    | _ => do
      let planned ← planMergeTransactions tableKey candidate entry.tableVersion
      return merge.writtenUpdate tableKey identity entry planned

def publishCandidate (candidate : String × CandidateTableState R) :
    Except OmniError SubTableUpdate :=
  match merge.source.entry candidate.1 with
  | none =>
    .error (.manifest s!"branch merge candidate '{candidate.1}' has no captured source entry")
  | some sourceEntry => do
    let targetEntry := merge.target.entry candidate.1
    ensureMergeIdentityCompatible candidate.1 (identityOf (merge.base.entry candidate.1))
      (some sourceEntry.identity) (identityOf targetEntry)
    match candidate.2 with
    | .adoptSourceState _ =>
      merge.publishAdoptedSourceState candidate.1 sourceEntry targetEntry
    | candidateState => merge.publishWritten candidate.1 sourceEntry.identity candidateState

/-- The updates of a merge without conflicts and violations. -/
def branchMergeUpdates : Except OmniError (List SubTableUpdate) := do
  let (candidates, conflicts) ← merge.classifyTables
  if conflicts ≠ [] then .error (.mergeConflicts conflicts)
  else do
    merge.storage.validate candidates
    candidates.mapM merge.publishCandidate

end BranchMerge

end Omnigraph
