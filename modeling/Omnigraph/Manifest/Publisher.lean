import Omnigraph.Manifest.State

/-!
# The publisher

One publish turns a list of changes and an optional graph commit into a batch of manifest rows. It
checks the batch against the rows it loaded, folds the batch into the state it will return, and
hands the rows to one merge-insert keyed by object id. When the merge-insert loses a row-level race
the whole attempt is run again from a fresh load.
-/

namespace Omnigraph

def publisherRetryBudget : ℕ := 5

/-! ### Preconditions -/

/-- Lance's identifier of a branch, by its JSON text. -/
abbrev BranchIdentifier := String

structure GraphHeadExpectation where
  branch : Option String
  branchIdentifier : BranchIdentifier
  headCommitId : Option String
deriving DecidableEq, Repr

inductive PublishPrecondition
  | any
  | exactGraphHead (expected : GraphHeadExpectation)
deriving DecidableEq

/-- What asking Lance for the branch identifier gives. -/
inductive BranchIdentifierRead
  | found (identifier : BranchIdentifier)
  | refNotFound
  | failed (message : String)

/-! ### What an attempt loads -/

structure LoadedPublishState where
  datasetVersion : ℕ
  branchIdentifier : BranchIdentifierRead
  registeredTables : HashMap TableIdentity TableRegistration
  existingVersions : HashMap (TableIdentity × ℕ) SubTableEntry
  existingTombstones : HashMap (TableIdentity × ℕ) Unit
  lineageRows : List GraphLineageRow
  graphHeads : HashMap String String

/-- Collecting pairs into a map: the last value of a key stays. -/
def collectMap {κ ν : Type} [DecidableEq κ] (l : List (κ × ν)) : HashMap κ ν :=
  HashMap.insertAll Prod.fst Prod.snd ∅ l

/-- The manifest dataset of the publisher's branch as one attempt opens it. -/
structure DatasetRead where
  version : ℕ
  branchIdentifier : BranchIdentifierRead
  batches : List (List ManifestRow)

def loadPublishState (codecs : MetadataCodecs) (dataset : DatasetRead) :
    Except OmniError LoadedPublishState := do
  let scan ← readManifestScan codecs true dataset.batches
  return {
    datasetVersion := dataset.version
    branchIdentifier := dataset.branchIdentifier
    registeredTables := scan.tableRegistrations
    existingVersions := collectMap (scan.versionEntries.map fun entry =>
      ((entry.identity, entry.tableVersion), entry))
    existingTombstones := collectMap (scan.tombstones.map fun tombstone =>
      ((tombstone.identity, tombstone.tombstoneVersion), ()))
    lineageRows := scan.lineageRows
    graphHeads := scan.graphHeads }

/-- The greatest version among the keys of one identity. -/
def greatestVersion (identity : TableIdentity) (keys : List (TableIdentity × ℕ)) : Option ℕ :=
  (keys.filterMap fun key => if key.1 = identity then some key.2 else none).max?

def isLiveIdentity (identity : TableIdentity)
    (existingVersions : HashMap (TableIdentity × ℕ) SubTableEntry)
    (existingTombstones : HashMap (TableIdentity × ℕ) Unit) : Bool :=
  match greatestVersion identity existingVersions.keys with
  | none => false
  | some latestVersion =>
    match greatestVersion identity existingTombstones.keys with
    | some latestTombstone => latestTombstone < latestVersion
    | none => true

/-! ### Pending rows -/

structure PendingVersionRow where
  objectId : String
  objectType : ObjectType
  location : Option String
  metadata : Option String
  tableKey : String
  identity : Option TableIdentity
  tableVersion : Option ℕ
  tableBranch : Option String
  rowCount : Option ℕ

/-- The row `pending_rows_to_batch` writes. -/
def PendingVersionRow.toRow (row : PendingVersionRow) : ManifestRow where
  objectId := row.objectId
  objectType := row.objectType
  location := row.location
  metadata := row.metadata
  tableKey := row.tableKey
  stableTableId := row.identity.map TableIdentity.stableTableId
  tableIncarnationId := row.identity.map TableIdentity.tableIncarnationId
  tableVersion := row.tableVersion
  tableBranch := row.tableBranch
  rowCount := row.rowCount

/-- The row of a registration, whether it is new or renamed. -/
def bindingRow (registration : TableRegistration) : PendingVersionRow where
  objectId := tableObjectId registration.identity
  objectType := .table
  location := some registration.tablePath
  metadata := none
  tableKey := registration.tableKey
  identity := some registration.identity
  tableVersion := none
  tableBranch := none
  rowCount := none

def updateRow (codecs : MetadataCodecs) (update : SubTableUpdate) : PendingVersionRow where
  objectId := versionObjectId update.identity update.tableVersion
  objectType := .tableVersion
  location := none
  metadata := some (codecs.version.toJsonString update.versionMetadata)
  tableKey := update.tableKey
  identity := some update.identity
  tableVersion := some update.tableVersion
  tableBranch := update.tableBranch
  rowCount := some update.rowCount

def tombstoneRow (tombstone : TableTombstone) : PendingVersionRow where
  objectId := tombstoneObjectId tombstone.identity tombstone.tombstoneVersion
  objectType := .tableTombstone
  location := none
  metadata := none
  tableKey := tombstone.tableKey
  identity := some tombstone.identity
  tableVersion := some tombstone.tombstoneVersion
  tableBranch := none
  rowCount := none

/-- What the first pass carries: the bindings after the changes so far. -/
structure BindingPass where
  knownTables : HashMap TableIdentity TableRegistration
  bindingChanges : HashMap TableIdentity Unit
  rows : List PendingVersionRow

/-- What the second pass carries. -/
structure VersionPass where
  requestVersions : HashMap (TableIdentity × ℕ) Unit
  rows : List PendingVersionRow

def bindingChangedTwice (identity : TableIdentity) : OmniError :=
  .manifest s!"manifest batch changes table binding {identity.display} more than once"

def tableNotFound (identity : TableIdentity) : OmniError :=
  .lanceNamespace (.tableNotFound s!"table identity {identity.display} not found")

def boundElsewhere (identity : TableIdentity) (bound tableKey : String) : OmniError :=
  .lanceNamespace (.concurrentModification
    s!"table identity {identity.display} is bound to {bound}, not {tableKey}")

def versionExists (identity : TableIdentity) (version : ℕ) (tableKey : String) : OmniError :=
  .lanceNamespace (.concurrentModification
    s!"table version {version} already exists for identity {identity.display} ({tableKey})")

def BindingPass.register (pass : BindingPass) (registration : TableRegistration) :
    Except OmniError BindingPass := do
  registration.identity.validate
  let canonicalPath ← tablePathForIdentity registration.tableKey registration.identity
  if canonicalPath ≠ registration.tablePath then
    .error (.lanceNamespace (.concurrentModification
      (s!"table {registration.tableKey} identity {registration.identity.display} must use " ++
        s!"canonical path {canonicalPath}, got {registration.tablePath}")))
  else match pass.knownTables.lookup registration.identity with
    | some existing =>
      if existing = registration then .ok pass
      else .error (.lanceNamespace (.concurrentModification
        (s!"table identity {registration.identity.display} is already registered as " ++
          s!"{existing.tableKey} at {existing.tablePath}")))
    | none =>
      if registration.identity ∈ pass.bindingChanges then
        .error (bindingChangedTwice registration.identity)
      else .ok {
        knownTables := pass.knownTables.insert registration.identity registration
        bindingChanges := pass.bindingChanges.insert registration.identity ()
        rows := pass.rows ++ [bindingRow registration] }

/-- A rename to the alias the table already has changes nothing, but it counts as a change of the
binding. -/
def BindingPass.rename (existingVersions : HashMap (TableIdentity × ℕ) SubTableEntry)
    (existingTombstones : HashMap (TableIdentity × ℕ) Unit) (pass : BindingPass)
    (rename : TableRename) : Except OmniError BindingPass := do
  rename.identity.validate
  if rename.identity ∈ pass.bindingChanges then .error (bindingChangedTwice rename.identity)
  else match pass.knownTables.lookup rename.identity with
    | none => .error (tableNotFound rename.identity)
    | some existing =>
      if ¬ isLiveIdentity rename.identity existingVersions existingTombstones then
        .error (.lanceNamespace (.tableNotFound
          s!"live table identity {rename.identity.display} not found for rename"))
      else if existing.tableKey ≠ rename.expectedTableKey ∨
          existing.tablePath ≠ rename.tablePath then
        .error (.manifestReadSetChanged s!"table_binding:{rename.identity.display}"
          (some s!"{rename.expectedTableKey}@{rename.tablePath}")
          (some s!"{existing.tableKey}@{existing.tablePath}"))
      else do
        let canonicalPath ← tablePathForIdentity rename.tableKey rename.identity
        if canonicalPath ≠ rename.tablePath then
          .error (.manifest (s!"rename of table identity {rename.identity.display} must " ++
            s!"preserve physical path {rename.tablePath}; alias '{rename.tableKey}' implies " ++
            canonicalPath))
        else
          let bindingChanges := pass.bindingChanges.insert rename.identity ()
          if rename.tableKey = rename.expectedTableKey then .ok { pass with bindingChanges }
          else
            let renamed : TableRegistration :=
              ⟨rename.identity, rename.tableKey, rename.tablePath⟩
            .ok {
              knownTables := pass.knownTables.insert rename.identity renamed
              bindingChanges
              rows := pass.rows ++ [bindingRow renamed] }

/-- Registrations and renames, applied first so that an update in the same batch resolves through
the binding after the change. -/
def BindingPass.apply (existingVersions : HashMap (TableIdentity × ℕ) SubTableEntry)
    (existingTombstones : HashMap (TableIdentity × ℕ) Unit) (pass : BindingPass) :
    ManifestChange → Except OmniError BindingPass
  | .registerTable registration => pass.register registration
  | .renameTable rename => pass.rename existingVersions existingTombstones rename
  | .update _ => .ok pass
  | .tombstone _ => .ok pass

/-- The request carries the version as an `i64`, so a `u64` from `2 ^ 63` on arrives negative. Key,
row count, branch and metadata come back as they were sent. -/
def parseNamespaceVersionRequest (update : SubTableUpdate) :
    Except NamespaceError SubTableUpdate :=
  if update.tableKey = "" then
    .error (.invalidInput "expected single table id component, got [\"\"]")
  else if 2 ^ 63 ≤ update.tableVersion then
    .error (.invalidInput "table version must be non-negative")
  else .ok update

def VersionPass.update (codecs : MetadataCodecs)
    (knownTables : HashMap TableIdentity TableRegistration)
    (existingVersions : HashMap (TableIdentity × ℕ) SubTableEntry) (pass : VersionPass)
    (update : SubTableUpdate) : Except OmniError VersionPass := do
  update.identity.validate
  match parseNamespaceVersionRequest update with
  | .error e => .error (.lanceNamespace e)
  | .ok request =>
    match knownTables.lookup request.identity with
    | none => .error (tableNotFound request.identity)
    | some registration =>
      if registration.tableKey ≠ request.tableKey then
        .error (boundElsewhere request.identity registration.tableKey request.tableKey)
      else if (request.identity, request.tableVersion) ∈ pass.requestVersions then
        .error (versionExists request.identity request.tableVersion request.tableKey)
      else
        let accepted : VersionPass := {
          requestVersions := pass.requestVersions.insert
            (request.identity, request.tableVersion) ()
          rows := pass.rows ++ [updateRow codecs request] }
        match existingVersions.lookup (request.identity, request.tableVersion) with
        | none => .ok accepted
        | some existing =>
          let isOwnerBranchHandoff : Bool := existing.rowCount = request.rowCount ∧
            existing.tableBranch ≠ request.tableBranch
          if isOwnerBranchHandoff then .ok accepted
          else .error (versionExists request.identity request.tableVersion request.tableKey)

def VersionPass.seal (knownTables : HashMap TableIdentity TableRegistration)
    (existingTombstones : HashMap (TableIdentity × ℕ) Unit) (pass : VersionPass)
    (tombstone : TableTombstone) : Except OmniError VersionPass := do
  tombstone.identity.validate
  match knownTables.lookup tombstone.identity with
  | none => .error (tableNotFound tombstone.identity)
  | some registration =>
    if registration.tableKey ≠ tombstone.tableKey then
      .error (boundElsewhere tombstone.identity registration.tableKey tombstone.tableKey)
    else if (tombstone.identity, tombstone.tombstoneVersion) ∈ existingTombstones then
      .error (.lanceNamespace (.concurrentModification
        (s!"table tombstone {tombstone.tombstoneVersion} already exists for identity " ++
          s!"{tombstone.identity.display} ({tombstone.tableKey})")))
    else .ok { pass with rows := pass.rows ++ [tombstoneRow tombstone] }

def VersionPass.apply (codecs : MetadataCodecs)
    (knownTables : HashMap TableIdentity TableRegistration)
    (existingVersions : HashMap (TableIdentity × ℕ) SubTableEntry)
    (existingTombstones : HashMap (TableIdentity × ℕ) Unit) (pass : VersionPass) :
    ManifestChange → Except OmniError VersionPass
  | .registerTable _ => .ok pass
  | .renameTable _ => .ok pass
  | .update update => pass.update codecs knownTables existingVersions update
  | .tombstone tombstone => pass.seal knownTables existingTombstones tombstone

def buildPendingRows (codecs : MetadataCodecs) (changes : List ManifestChange)
    (knownTables : HashMap TableIdentity TableRegistration)
    (existingVersions : HashMap (TableIdentity × ℕ) SubTableEntry)
    (existingTombstones : HashMap (TableIdentity × ℕ) Unit) :
    Except OmniError (List PendingVersionRow) := do
  let bound ← changes.foldlM (BindingPass.apply existingVersions existingTombstones)
    ⟨knownTables, ∅, []⟩
  let pass ← changes.foldlM
    (VersionPass.apply codecs bound.knownTables existingVersions existingTombstones)
    ⟨∅, bound.rows⟩
  return pass.rows

/-! ### Lineage rows -/

/-- Commits compete for being the head by manifest version, then creation time, then id. -/
def GraphCommit.HeadLe (a b : GraphLineageRow) : Prop :=
  a.manifestVersion < b.manifestVersion ∨
    (a.manifestVersion = b.manifestVersion ∧ (a.createdAt < b.createdAt ∨
      (a.createdAt = b.createdAt ∧ a.graphCommitId ≤ b.graphCommitId)))

instance (a b : GraphLineageRow) : Decidable (a.HeadLe b) :=
  inferInstanceAs (Decidable (_ ∨ (_ ∧ (_ ∨ (_ ∧ _)))))

/-- The greatest row, the last one among equals. -/
def headLineageRow (rows : List GraphLineageRow) : Option GraphLineageRow :=
  rows.foldl (fun head row =>
    match head with
    | none => some row
    | some best => if best.HeadLe row then some row else some best) none

structure GraphLineageRowPart where
  objectId : String
  objectType : ObjectType
  metadata : String
  tableVersion : Option ℕ
  tableBranch : Option String

/-- The immutable row of a commit. -/
def graphCommitPart (codecs : MetadataCodecs) (commit : GraphLineageRow) : GraphLineageRowPart where
  objectId := commit.graphCommitId
  objectType := .graphCommit
  metadata := codecs.commit.toJsonString
    ⟨commit.parentCommitId, commit.mergedParentCommitId, commit.actorId, commit.createdAt⟩
  tableVersion := some commit.manifestVersion
  tableBranch := commit.manifestBranch

/-- The mutable head row of the branch the commit lands on. -/
def graphHeadPart (codecs : MetadataCodecs) (commit : GraphLineageRow) (branch : Option String) :
    GraphLineageRowPart where
  objectId := graphHeadObjectId branch
  objectType := .graphHead
  metadata := codecs.head.toJsonString ⟨commit.graphCommitId, commit.parentCommitId⟩
  tableVersion := none
  tableBranch := none

def graphLineageRowParts (codecs : MetadataCodecs) (commit : GraphLineageRow)
    (branch : Option String) : List GraphLineageRowPart :=
  [graphCommitPart codecs commit, graphHeadPart codecs commit branch]

def lineagePartToPending (part : GraphLineageRowPart) : PendingVersionRow where
  objectId := part.objectId
  objectType := part.objectType
  location := none
  metadata := some part.metadata
  tableKey := ""
  identity := none
  tableVersion := part.tableVersion
  tableBranch := part.tableBranch
  rowCount := none

/-- The commit an intent records on top of the lineage rows it finds. -/
def LineageIntent.commitOn (intent : LineageIntent) (lineageRows : List GraphLineageRow)
    (newManifestVersion : ℕ) : GraphLineageRow where
  graphCommitId := intent.graphCommitId
  manifestBranch := intent.branch
  manifestVersion := newManifestVersion
  parentCommitId := (headLineageRow lineageRows).map GraphCommit.graphCommitId
  mergedParentCommitId := intent.mergedParentCommitId
  actorId := intent.actorId
  createdAt := intent.createdAt

def resolveLineageRows (codecs : MetadataCodecs) (lineageRows : List GraphLineageRow)
    (intent : LineageIntent) (newManifestVersion : ℕ) :
    List PendingVersionRow × Option String :=
  let commit := intent.commitOn lineageRows newManifestVersion
  ((graphLineageRowParts codecs commit intent.branch).map lineagePartToPending,
    commit.parentCommitId)

/-! ### Checks before the batch is built -/

/-- The latest version no tombstone seals, or the greatest tombstone where there is none. The maps
are walked in stored order: which key is met first does not matter for a maximum. -/
def latestVisiblePerIdentity (existingVersions : HashMap (TableIdentity × ℕ) SubTableEntry)
    (existingTombstones : HashMap (TableIdentity × ℕ) Unit) : HashMap TableIdentity ℕ :=
  let maxTombstones := tombstoneMap existingTombstones.keys
  let visible := existingVersions.keys.filter fun key =>
    match maxTombstones.lookup key.1 with
    | some tombstone => tombstone < key.2
    | none => true
  let latest := HashMap.maxBy Prod.fst Prod.snd id visible
  maxTombstones.entries.foldl (fun latest entry =>
    if entry.1 ∈ latest then latest else latest.insert entry.1 entry.2) latest

def checkExpectedTableVersion (latestPerTable : HashMap TableIdentity ℕ)
    (registrations : HashMap TableIdentity TableRegistration) (identity : TableIdentity)
    (expectation : TableVersionExpectation) : Except OmniError Unit := do
  identity.validate
  let checkVersion : Except OmniError Unit :=
    let actual := (latestPerTable.lookup identity).getD 0
    if actual ≠ expectation.tableVersion then
      .error (.manifestExpectedVersionMismatch expectation.tableKey expectation.tableVersion
        actual)
    else .ok ()
  match registrations.lookup identity with
  | some registration =>
    if registration.tableKey ≠ expectation.tableKey then
      .error (.manifestReadSetChanged s!"table_binding:{identity.display}"
        (some expectation.tableKey) (some registration.tableKey))
    else checkVersion
  | none => checkVersion

/-- `order` is the order in which the map of expectations happens to be walked. -/
def checkExpectedTableVersions
    (order : IterOrder (Sigma fun _ : TableIdentity => TableVersionExpectation))
    (latestPerTable : HashMap TableIdentity ℕ)
    (registrations : HashMap TableIdentity TableRegistration)
    (expected : ExpectedTableVersions) : Except OmniError Unit :=
  (order.walk expected.entries).forM fun entry =>
    checkExpectedTableVersion latestPerTable registrations entry.1 entry.2

def checkPublishPrecondition (publisherBranch : Option String) (loaded : LoadedPublishState) :
    PublishPrecondition → Except OmniError Unit
  | .any => .ok ()
  | .exactGraphHead expected =>
    let expectedBranch := expected.branch.filter fun branch => branch ≠ "main"
    if expectedBranch ≠ publisherBranch then
      .error (.manifestInternal ("publish graph-head precondition targets branch " ++
        s!"'{expectedBranch.getD mainBranchHeadKey}' but publisher is bound to " ++
        s!"'{publisherBranch.getD mainBranchHeadKey}'"))
    else
      let member := "branch_identifier:" ++ expectedBranch.getD mainBranchHeadKey
      match loaded.branchIdentifier with
      | .refNotFound =>
        .error (.manifestReadSetChanged member (some expected.branchIdentifier) none)
      | .failed message => .error (.lance message)
      | .found actual =>
        if actual ≠ expected.branchIdentifier then
          .error (.manifestReadSetChanged member (some expected.branchIdentifier) (some actual))
        else
          let head := loaded.graphHeads.lookup (expected.branch.getD mainBranchHeadKey)
          if head ≠ expected.headCommitId then
            .error (.manifestReadSetChanged (graphHeadObjectId expected.branch)
              expected.headCommitId head)
          else .ok ()

/-! ### Folding the batch into the next state -/

def foldMissing (what column tableKey : String) : OmniError :=
  .manifestInternal s!"post-publish fold: {what} row missing {column} for {tableKey}"

def orMissing {α : Type} (column : Option α) (error : OmniError) : Except OmniError α :=
  match column with
  | some value => .ok value
  | none => .error error

def foldRegistration (registrations : HashMap TableIdentity TableRegistration)
    (row : PendingVersionRow) : Except OmniError (HashMap TableIdentity TableRegistration) :=
  match row.objectType with
  | .table => do
    let identity ← orMissing row.identity (foldMissing "table" "identity" row.tableKey)
    let location ← orMissing row.location (foldMissing "table" "path" row.tableKey)
    return registrations.insert identity ⟨identity, row.tableKey, location⟩
  | _ => .ok registrations

/-- A pending row at the version of an existing entry replaces it, as the merge-insert does. -/
def foldVersion (codecs : MetadataCodecs)
    (acc : HashMap (TableIdentity × ℕ) SubTableEntry × List (TableIdentity × ℕ))
    (row : PendingVersionRow) :
    Except OmniError (HashMap (TableIdentity × ℕ) SubTableEntry × List (TableIdentity × ℕ)) :=
  match row.objectType with
  | .tableVersion => do
    let identity ← orMissing row.identity (foldMissing "table_version" "identity" row.tableKey)
    let tableVersion ← orMissing row.tableVersion
      (foldMissing "table_version" "version" row.tableKey)
    let metadata ← orMissing row.metadata (foldMissing "table_version" "metadata" row.tableKey)
    let rowCount ← orMissing row.rowCount (foldMissing "table_version" "row_count" row.tableKey)
    let versionMetadata ← decodeJson codecs.version "manifest" metadata
    return (acc.1.insert (identity, tableVersion) ⟨identity, row.tableKey, "", tableVersion,
      row.tableBranch, rowCount, versionMetadata⟩, acc.2)
  | .tableTombstone => do
    let identity ← orMissing row.identity (foldMissing "tombstone" "identity" row.tableKey)
    let tombstoneVersion ← orMissing row.tableVersion
      (foldMissing "tombstone" "version" row.tableKey)
    return (acc.1, acc.2 ++ [(identity, tombstoneVersion)])
  | _ => .ok acc

/-- The orders in which one attempt happens to walk its maps. -/
structure WalkOrders where
  expected : IterOrder (Sigma fun _ : TableIdentity => TableVersionExpectation)
  versions : IterOrder (Sigma fun _ : TableIdentity × ℕ => SubTableEntry)
  tombstones : IterOrder (Sigma fun _ : TableIdentity × ℕ => Unit)
  latest : IterOrder (Sigma fun _ : TableIdentity => SubTableEntry)

def WalkOrders.stored : WalkOrders := ⟨.stored _, .stored _, .stored _, .stored _⟩

/-- The values of the version map, in the order it happens to be walked. -/
def WalkOrders.versionValues (orders : WalkOrders)
    (versions : HashMap (TableIdentity × ℕ) SubTableEntry) : List SubTableEntry :=
  (orders.versions.walk versions.entries).map Sigma.snd

def WalkOrders.tombstoneKeys (orders : WalkOrders)
    (tombstones : HashMap (TableIdentity × ℕ) Unit) : List (TableIdentity × ℕ) :=
  (orders.tombstones.walk tombstones.entries).map Sigma.fst

structure FoldedPublishInputs where
  registrations : HashMap TableIdentity TableRegistration
  versionEntries : List SubTableEntry
  tombstones : List (TableIdentity × ℕ)

def foldInputs (orders : WalkOrders) (codecs : MetadataCodecs)
    (existingVersions : HashMap (TableIdentity × ℕ) SubTableEntry)
    (existingTombstones : HashMap (TableIdentity × ℕ) Unit) (rows : List PendingVersionRow)
    (registeredTables : HashMap TableIdentity TableRegistration) :
    Except OmniError FoldedPublishInputs := do
  let registrations ← rows.foldlM foldRegistration registeredTables
  let folded ← rows.foldlM (foldVersion codecs)
    (existingVersions, orders.tombstoneKeys existingTombstones)
  return ⟨registrations, orders.versionValues folded.1, folded.2⟩

/-! ### One attempt, and the retry loop -/

/-- A batch ready to be merged, with what the publish will report. -/
structure PreparedPublish where
  rows : List PendingVersionRow
  parentCommitId : Option String
  knownState : ManifestState

structure PublishRequest where
  publisherBranch : Option String
  changes : List ManifestChange
  expectedTableVersions : ExpectedTableVersions
  lineage : Option LineageIntent
  precondition : PublishPrecondition

/-- The lineage rows of the batch and the parent they record. -/
def PublishRequest.lineagePart (request : PublishRequest) (codecs : MetadataCodecs)
    (loaded : LoadedPublishState) : List PendingVersionRow × Option String :=
  match request.lineage with
  | some intent =>
    resolveLineageRows codecs loaded.lineageRows intent (loaded.datasetVersion + 1)
  | none => ([], none)

/-- The head the batch leaves on the branch of its commit. -/
def PublishRequest.foldedHeads (request : PublishRequest) (graphHeads : HashMap String String) :
    HashMap String String :=
  match request.lineage with
  | some intent => graphHeads.insert (intent.branch.getD mainBranchHeadKey) intent.graphCommitId
  | none => graphHeads

/-- Everything an attempt does between its load and its merge-insert. -/
def preparePublish (orders : WalkOrders) (codecs : MetadataCodecs) (request : PublishRequest)
    (loaded : LoadedPublishState) : Except OmniError PreparedPublish := do
  checkPublishPrecondition request.publisherBranch loaded request.precondition
  checkExpectedTableVersions orders.expected
    (latestVisiblePerIdentity loaded.existingVersions loaded.existingTombstones)
    loaded.registeredTables request.expectedTableVersions
  let changeRows ← buildPendingRows codecs request.changes loaded.registeredTables
    loaded.existingVersions loaded.existingTombstones
  let lineage := request.lineagePart codecs loaded
  let rows := changeRows ++ lineage.1
  if rows = [] then
    let knownState ← assembleManifestState orders.latest loaded.datasetVersion
      loaded.registeredTables (orders.versionValues loaded.existingVersions)
      (orders.tombstoneKeys loaded.existingTombstones) loaded.graphHeads
    return ⟨rows, lineage.2, knownState⟩
  else
    let folded ← foldInputs orders codecs loaded.existingVersions loaded.existingTombstones rows
      loaded.registeredTables
    let knownState ← assembleManifestState orders.latest (loaded.datasetVersion + 1)
      folded.registrations folded.versionEntries folded.tombstones
      (request.foldedHeads loaded.graphHeads)
    return ⟨rows, lineage.2, knownState⟩

structure PublishOutcome where
  datasetVersion : ℕ
  parentCommitId : Option String
  knownState : ManifestState

/-- What an attempt meets: the dataset it opens, and the version its merge-insert creates. -/
structure Attempt where
  opened : Except OmniError DatasetRead
  merged : Except OmniError ℕ

/-- The attempts still allowed. A retryable failure of the last one is returned as it is. -/
def publishLoop (orders : WalkOrders) (codecs : MetadataCodecs) (request : PublishRequest) :
    List Attempt → Except OmniError PublishOutcome
  | [] => .error (.manifestConflict
      s!"manifest publish exhausted {publisherRetryBudget} retries against concurrent writers")
  | attempt :: rest =>
    match attempt.opened >>= loadPublishState codecs with
    | .error e =>
      if rest ≠ [] ∧ e.isRetryablePublishConflict then publishLoop orders codecs request rest
      else .error e
    | .ok loaded => do
      let prepared ← preparePublish orders codecs request loaded
      if prepared.rows = [] then
        return ⟨loaded.datasetVersion, prepared.parentCommitId, prepared.knownState⟩
      else
        match attempt.merged with
        | .ok version =>
          return ⟨version, prepared.parentCommitId, { prepared.knownState with version }⟩
        | .error e =>
          if rest ≠ [] ∧ e.isRetryablePublishConflict then publishLoop orders codecs request rest
          else .error e

/-- A request that asks for nothing and checks nothing. -/
def PublishRequest.isNoop (request : PublishRequest) : Bool :=
  request.changes.isEmpty ∧ request.expectedTableVersions.entries.isEmpty ∧
    request.lineage.isNone ∧ request.precondition = .any

def publishWithPrecondition (orders : WalkOrders) (codecs : MetadataCodecs)
    (request : PublishRequest) (attempts : Fin (publisherRetryBudget + 1) → Attempt) :
    Except OmniError PublishOutcome :=
  if request.isNoop then do
    let dataset ← (attempts 0).opened
    let knownState ← readManifestState orders.latest codecs dataset.version dataset.batches
    return ⟨dataset.version, none, knownState⟩
  else publishLoop orders codecs request (List.ofFn attempts)

end Omnigraph
