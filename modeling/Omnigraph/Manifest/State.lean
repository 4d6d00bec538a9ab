import Omnigraph.Lib.Result
import Omnigraph.Manifest.Basic

/-!
# Reading the manifest

A scan decodes every row and checks it: the object id must be the one its identity and version
give, a registration must sit at its canonical path, and a tombstone must carry the table's current
alias. The visible state keeps the latest version of each identity, unless a tombstone seals it.
-/

namespace Omnigraph

open Except

/-! ### Decoding a row -/

/-- What a row stands for. -/
inductive ManifestItem
  | registration (registration : TableRegistration)
  | version (entry : SubTableEntry)
  | tombstone (tombstone : TableTombstone)
  | lineage (row : GraphLineageRow)
  | head (branchKey headCommitId : String)
  | skipped
deriving DecidableEq

section Decode

/-- A row and its index in its batch, which error texts name. -/
abbrev IndexedRow := ManifestRow × ℕ

def requiredU64 (column : Option ℕ) (row : ℕ) (name : String) : Except OmniError ℕ :=
  match column with
  | some value => .ok value
  | none => .error (.manifestInternal s!"manifest column '{name}' is null at row {row}")

def requiredTableIdentity (row : IndexedRow) : Except OmniError TableIdentity := do
  let stableTableId ← requiredU64 row.1.stableTableId row.2 "stable_table_id"
  let tableIncarnationId ← requiredU64 row.1.tableIncarnationId row.2 "table_incarnation_id"
  let identity : TableIdentity := ⟨stableTableId, tableIncarnationId⟩
  if identity.Valid then .ok identity
  else .error (.manifestInternal (s!"manifest {row.1.objectType.name} row at index {row.2} " ++
    s!"has invalid table identity: {identity.invalidText}"))

def requireNullTableIdentity (row : IndexedRow) : Except OmniError Unit :=
  if row.1.stableTableId ≠ none ∨ row.1.tableIncarnationId ≠ none then
    .error (.manifestInternal (s!"manifest {row.1.objectType.name} row at index {row.2} " ++
      "must not carry table identity"))
  else .ok ()

def requireObjectId (row : IndexedRow) (expected : String) : Except OmniError Unit :=
  if row.1.objectId ≠ expected then
    .error (.manifestInternal (s!"manifest {row.1.objectType.name} row at index {row.2} " ++
      s!"has object_id '{row.1.objectId}', expected '{expected}'"))
  else .ok ()

def required (column : Option String) (error : OmniError) : Except OmniError String :=
  match column with
  | some value => .ok value
  | none => .error error

def decodeJson {α : Type} (codec : JsonCodec α) (context text : String) : Except OmniError α :=
  match codec.fromJsonStr text with
  | .ok value => .ok value
  | .error e => .error (.manifestInternal s!"failed to decode {context} metadata: {e}")

variable (codecs : MetadataCodecs)

def decodeTableRow (row : IndexedRow) : Except OmniError ManifestItem := do
  let identity ← requiredTableIdentity row
  requireObjectId row (tableObjectId identity)
  let tablePath ← required row.1.location
    (.manifestInternal s!"manifest table row missing location for {row.1.tableKey}")
  let canonicalPath ← tablePathForIdentity row.1.tableKey identity
  if tablePath ≠ canonicalPath then
    .error (.manifestInternal (s!"manifest table row for identity {identity.display} has path " ++
      s!"'{tablePath}', expected '{canonicalPath}'"))
  else .ok (.registration ⟨identity, row.1.tableKey, tablePath⟩)

def decodeVersionRow (row : IndexedRow) : Except OmniError ManifestItem := do
  let identity ← requiredTableIdentity row
  let tableVersion ← requiredU64 row.1.tableVersion row.2 "table_version"
  requireObjectId row (versionObjectId identity tableVersion)
  let rowCount ← requiredU64 row.1.rowCount row.2 "row_count"
  let metadata ← required row.1.metadata
    (.manifestInternal s!"manifest table_version row missing metadata for {row.1.tableKey}")
  let versionMetadata ← decodeJson codecs.version "manifest" metadata
  return .version ⟨identity, row.1.tableKey, "", tableVersion, row.1.tableBranch, rowCount,
    versionMetadata⟩

def decodeTombstoneRow (row : IndexedRow) : Except OmniError ManifestItem := do
  let identity ← requiredTableIdentity row
  let tombstoneVersion ← requiredU64 row.1.tableVersion row.2 "table_version"
  requireObjectId row (tombstoneObjectId identity tombstoneVersion)
  return .tombstone ⟨identity, row.1.tableKey, tombstoneVersion⟩

def decodeGraphCommitRow (row : IndexedRow) : Except OmniError GraphLineageRow := do
  let metadata ← required row.1.metadata
    (.manifestInternal s!"manifest graph_commit row missing metadata for {row.1.objectId}")
  let commit ← decodeJson codecs.commit "graph_commit" metadata
  let manifestVersion ← requiredU64 row.1.tableVersion row.2 "table_version"
  return ⟨row.1.objectId, row.1.tableBranch, manifestVersion, commit.parentCommitId,
    commit.mergedParentCommitId, commit.actorId, commit.createdAt⟩

/-- The text after a prefix, if it is there. -/
def stripPrefix (pre s : String) : Option String :=
  if hasPrefix pre s then some (String.ofList (s.toList.drop pre.toList.length)) else none

def decodeGraphHeadRow (row : IndexedRow) : Except OmniError (String × String) := do
  let metadata ← required row.1.metadata
    (.manifestInternal s!"manifest graph_head row missing metadata for {row.1.objectId}")
  let head ← decodeJson codecs.head "graph_head" metadata
  let branchKey ← required (stripPrefix "graph_head:" row.1.objectId)
    (.manifestInternal s!"invalid graph_head object id {row.1.objectId}")
  return (branchKey, head.headCommitId)

/-- Lineage rows are decoded only when asked for; unknown object types are skipped. -/
def decodeRow (collectLineage : Bool) (row : IndexedRow) : Except OmniError ManifestItem :=
  match row.1.objectType with
  | .table => decodeTableRow row
  | .tableVersion => decodeVersionRow codecs row
  | .tableTombstone => decodeTombstoneRow row
  | .graphCommit => do
    requireNullTableIdentity row
    if collectLineage then
      let commit ← decodeGraphCommitRow codecs row
      return .lineage commit
    else return .skipped
  | .graphHead => do
    requireNullTableIdentity row
    let head ← decodeGraphHeadRow codecs row
    return .head head.1 head.2
  | .unknown _ => .ok .skipped

end Decode

/-! ### The scan -/

structure ManifestScan where
  tableRegistrations : HashMap TableIdentity TableRegistration
  versionEntries : List SubTableEntry
  tombstones : List TableTombstone
  lineageRows : List GraphLineageRow
  graphHeads : HashMap String String

def ManifestScan.empty : ManifestScan := ⟨∅, [], [], [], ∅⟩

def ManifestScan.add (scan : ManifestScan) : ManifestItem → Except OmniError ManifestScan
  | .registration registration =>
    let existing := scan.tableRegistrations.lookup registration.identity
    if existing ≠ none ∧ existing ≠ some registration then
      .error (.manifestInternal ("manifest has conflicting table rows for identity " ++
        registration.identity.display))
    else .ok { scan with tableRegistrations :=
      scan.tableRegistrations.insert registration.identity registration }
  | .version entry => .ok { scan with versionEntries := scan.versionEntries ++ [entry] }
  | .tombstone tombstone => .ok { scan with tombstones := scan.tombstones ++ [tombstone] }
  | .lineage row => .ok { scan with lineageRows := scan.lineageRows ++ [row] }
  | .head branchKey headCommitId =>
    .ok { scan with graphHeads := scan.graphHeads.insert branchKey headCommitId }
  | .skipped => .ok scan

/-- A tombstone names a registered identity under its current alias. -/
def checkTombstone (registrations : HashMap TableIdentity TableRegistration)
    (tombstone : TableTombstone) : Except OmniError Unit :=
  match registrations.lookup tombstone.identity with
  | none => .error (.manifestInternal ("manifest tombstone for identity " ++
      s!"{tombstone.identity.display} has no table registration"))
  | some registration =>
    if registration.tableKey ≠ tombstone.tableKey then
      .error (.manifestInternal (
        s!"manifest tombstone identity {tombstone.identity.display} has " ++
        s!"diagnostic alias '{tombstone.tableKey}', current binding is " ++
        s!"'{registration.tableKey}'"))
    else .ok ()

/-- The order of the scan's version entries: by identity, then version. -/
def SubTableEntry.versionKey (entry : SubTableEntry) : ℕ ×ₗ ℕ ×ₗ ℕ :=
  toLex (entry.identity.stableTableId,
    toLex (entry.identity.tableIncarnationId, entry.tableVersion))

/-- `batches` are the rows as the store hands them out. -/
def readManifestScan (codecs : MetadataCodecs) (collectLineage : Bool)
    (batches : List (List ManifestRow)) : Except OmniError ManifestScan := do
  let scan ← (batches.flatMap List.zipIdx).foldlM (fun scan row => do
    let item ← decodeRow codecs collectLineage row
    scan.add item) ManifestScan.empty
  scan.tombstones.forM (checkTombstone scan.tableRegistrations)
  return { scan with versionEntries :=
    scan.versionEntries.insertionSort fun a b => a.versionKey ≤ b.versionKey }

/-! ### The visible state -/

structure ManifestState where
  version : ℕ
  entries : List SubTableEntry
  graphHeads : HashMap String String

/-- The latest entry of each identity. -/
def latestVersions (entries : List SubTableEntry) : HashMap TableIdentity SubTableEntry :=
  HashMap.maxBy SubTableEntry.identity id SubTableEntry.tableVersion entries

/-- The latest tombstone of each identity. -/
def tombstoneMap (tombstones : List (TableIdentity × ℕ)) : HashMap TableIdentity ℕ :=
  HashMap.maxBy Prod.fst Prod.snd id tombstones

def isVisible (sealed : HashMap TableIdentity ℕ) (entry : SubTableEntry) : Bool :=
  match sealed.lookup entry.identity with
  | some tombstoneVersion => tombstoneVersion < entry.tableVersion
  | none => true

/-- The entry under the alias and path its identity is registered with. -/
def bindEntry (registrations : HashMap TableIdentity TableRegistration) (entry : SubTableEntry) :
    Except OmniError SubTableEntry :=
  match registrations.lookup entry.identity with
  | none => .error (.manifestInternal ("manifest missing table row for identity " ++
      s!"{entry.identity.display} (version row alias '{entry.tableKey}')"))
  | some registration => .ok
      { entry with tableKey := registration.tableKey, tablePath := registration.tablePath }

def checkAliases (entries : List SubTableEntry) : Except OmniError (HashMap String TableIdentity) :=
  entries.foldlM (fun aliases entry =>
    match aliases.lookup entry.tableKey with
    | some existing =>
      if existing ≠ entry.identity then
        .error (.manifestInternal (s!"manifest has two live table identities " ++
          s!"({existing.display} and {entry.identity.display}) bound to alias " ++
          s!"'{entry.tableKey}'"))
      else .ok (aliases.insert entry.tableKey entry.identity)
    | none => .ok (aliases.insert entry.tableKey entry.identity)) ∅

/-- `order` is the order in which the map of latest entries happens to be walked. -/
def assembleManifestState (order : IterOrder (Sigma fun _ : TableIdentity => SubTableEntry))
    (version : ℕ) (registrations : HashMap TableIdentity TableRegistration)
    (versionEntries : List SubTableEntry) (tombstones : List (TableIdentity × ℕ))
    (graphHeads : HashMap String String) : Except OmniError ManifestState := do
  let latest := (order.walk (latestVersions versionEntries).entries).map Sigma.snd
  let visible := latest.filter (isVisible (tombstoneMap tombstones))
  let entries ← visible.mapM (bindEntry registrations)
  let _aliases ← checkAliases entries
  return ⟨version, entries.insertionSort fun a b => a.tableKey ≤ b.tableKey, graphHeads⟩

def readManifestState (order : IterOrder (Sigma fun _ : TableIdentity => SubTableEntry))
    (codecs : MetadataCodecs) (version : ℕ) (batches : List (List ManifestRow)) :
    Except OmniError ManifestState := do
  let scan ← readManifestScan codecs false batches
  assembleManifestState order version scan.tableRegistrations scan.versionEntries
    (scan.tombstones.map fun t => (t.identity, t.tombstoneVersion)) scan.graphHeads

/-! ### What a row decodes to -/

section DecodeSpec

variable {name : String} {u : Unit}

@[simp] lemma requiredU64_eq_ok {column : Option ℕ} {row : ℕ} {v : ℕ} :
    requiredU64 column row name = .ok v ↔ column = some v := by
  cases column <;> simp [requiredU64]

@[simp] lemma required_eq_ok {column : Option String} {error : OmniError} {v : String} :
    required column error = .ok v ↔ column = some v := by
  cases column <;> simp [required]

@[simp] lemma requireObjectId_eq_ok {row : IndexedRow} {expected : String} :
    requireObjectId row expected = .ok u ↔ row.1.objectId = expected := by
  unfold requireObjectId
  split_ifs with h
  · simpa using h
  · simpa using h

@[simp] lemma requireNullTableIdentity_eq_ok {row : IndexedRow} :
    requireNullTableIdentity row = .ok u ↔
      row.1.stableTableId = none ∧ row.1.tableIncarnationId = none := by
  unfold requireNullTableIdentity
  split_ifs with h
  · simp only [false_iff, not_and_or]
    exact h
  · simpa [not_or] using h

/-- The row carries a valid identity. -/
def ManifestRow.HasIdentity (row : ManifestRow) (identity : TableIdentity) : Prop :=
  row.stableTableId = some identity.stableTableId ∧
    row.tableIncarnationId = some identity.tableIncarnationId ∧ identity.Valid

lemma ManifestRow.HasIdentity.unique {row : ManifestRow} {identity identity' : TableIdentity}
    (h : row.HasIdentity identity) (h' : row.HasIdentity identity') : identity = identity' := by
  cases identity
  cases identity'
  simp only [TableIdentity.mk.injEq]
  exact ⟨Option.some.inj (h.1.symm.trans h'.1), Option.some.inj (h.2.1.symm.trans h'.2.1)⟩

@[simp] lemma requiredTableIdentity_eq_ok {row : IndexedRow} {identity : TableIdentity} :
    requiredTableIdentity row = .ok identity ↔ row.1.HasIdentity identity := by
  simp only [requiredTableIdentity, bind_eq_ok_iff, requiredU64_eq_ok,
    ManifestRow.HasIdentity]
  constructor
  · rintro ⟨stable, hstable, incarnation, hincarnation, h⟩
    split_ifs at h with hvalid
    cases h
    exact ⟨hstable, hincarnation, hvalid⟩
  · rintro ⟨hstable, hincarnation, hvalid⟩
    exact ⟨_, hstable, _, hincarnation, if_pos hvalid⟩

@[simp] lemma decodeJson_eq_ok {α : Type} {codec : JsonCodec α} {context text : String} {v : α} :
    decodeJson codec context text = .ok v ↔ codec.fromJsonStr text = .ok v := by
  unfold decodeJson
  cases codec.fromJsonStr text <;> simp

variable {codecs : MetadataCodecs} {collectLineage : Bool} {row : ManifestRow} {index : ℕ}
  {item : ManifestItem}

lemma decodeRow_table (htype : row.objectType = .table) :
    decodeRow codecs collectLineage (row, index) = .ok item ↔
      ∃ identity path, row.HasIdentity identity ∧ row.objectId = tableObjectId identity ∧
        row.location = some path ∧ tablePathForIdentity row.tableKey identity = .ok path ∧
        item = .registration ⟨identity, row.tableKey, path⟩ := by
  simp only [decodeRow, htype, decodeTableRow, bind_eq_ok_iff,
    requiredTableIdentity_eq_ok, requireObjectId_eq_ok, required_eq_ok]
  constructor
  · rintro ⟨identity, hid, -, hobj, path, hloc, canonical, hcanon, h⟩
    split_ifs at h with hpath
    rw [not_not] at hpath
    cases h
    exact ⟨identity, path, hid, hobj, hloc, hpath ▸ hcanon, rfl⟩
  · rintro ⟨identity, path, hid, hobj, hloc, hcanon, rfl⟩
    exact ⟨identity, hid, (), hobj, path, hloc, path, hcanon, if_neg (by simp)⟩

lemma decodeRow_version (htype : row.objectType = .tableVersion) :
    decodeRow codecs collectLineage (row, index) = .ok item ↔
      ∃ identity version rowCount metadata versionMetadata, row.HasIdentity identity ∧
        row.tableVersion = some version ∧ row.objectId = versionObjectId identity version ∧
        row.rowCount = some rowCount ∧ row.metadata = some metadata ∧
        codecs.version.fromJsonStr metadata = .ok versionMetadata ∧
        item = .version ⟨identity, row.tableKey, "", version, row.tableBranch, rowCount,
          versionMetadata⟩ := by
  simp only [decodeRow, htype, decodeVersionRow, bind_eq_ok_iff,
    requiredTableIdentity_eq_ok, requireObjectId_eq_ok, required_eq_ok, requiredU64_eq_ok,
    decodeJson_eq_ok, pure_eq_ok_iff]
  constructor
  · rintro ⟨identity, hid, version, hversion, -, hobj, count, hcount, text, htext, payload,
      hpayload, rfl⟩
    exact ⟨identity, version, count, text, payload, hid, hversion, hobj, hcount, htext, hpayload,
      rfl⟩
  · rintro ⟨identity, version, count, text, payload, hid, hversion, hobj, hcount, htext, hpayload,
      rfl⟩
    exact ⟨identity, hid, version, hversion, (), hobj, count, hcount, text, htext, payload,
      hpayload, rfl⟩

lemma decodeRow_tombstone (htype : row.objectType = .tableTombstone) :
    decodeRow codecs collectLineage (row, index) = .ok item ↔
      ∃ identity version, row.HasIdentity identity ∧ row.tableVersion = some version ∧
        row.objectId = tombstoneObjectId identity version ∧
        item = .tombstone ⟨identity, row.tableKey, version⟩ := by
  simp only [decodeRow, htype, decodeTombstoneRow, bind_eq_ok_iff,
    requiredTableIdentity_eq_ok, requireObjectId_eq_ok, requiredU64_eq_ok, pure_eq_ok_iff]
  constructor
  · rintro ⟨identity, hid, version, hversion, -, hobj, rfl⟩
    exact ⟨identity, version, hid, hversion, hobj, rfl⟩
  · rintro ⟨identity, version, hid, hversion, hobj, rfl⟩
    exact ⟨identity, hid, version, hversion, (), hobj, rfl⟩

/-- The commit a decodable commit row records. -/
def CommitRow (codecs : MetadataCodecs) (row : ManifestRow) (commit : GraphLineageRow) : Prop :=
  ∃ text version payload, row.metadata = some text ∧
    codecs.commit.fromJsonStr text = .ok payload ∧ row.tableVersion = some version ∧
    commit = ⟨row.objectId, row.tableBranch, version, payload.parentCommitId,
      payload.mergedParentCommitId, payload.actorId, payload.createdAt⟩

/-- A commit row is read only when the lineage is collected. -/
lemma decodeRow_commit (htype : row.objectType = .graphCommit) :
    decodeRow codecs collectLineage (row, index) = .ok item ↔
      (row.stableTableId = none ∧ row.tableIncarnationId = none) ∧
        ((collectLineage = true ∧ ∃ commit, CommitRow codecs row commit ∧
            item = .lineage commit) ∨
          (collectLineage = false ∧ item = .skipped)) := by
  simp only [decodeRow, htype, bind_eq_ok_iff, requireNullTableIdentity_eq_ok]
  cases collectLineage with
  | false =>
    simp only [Bool.false_eq_true, if_false, pure_eq_ok_iff, false_and, false_or, true_and]
    constructor
    · rintro ⟨-, hnull, h⟩
      exact ⟨hnull, h.symm⟩
    · rintro ⟨hnull, h⟩
      exact ⟨(), hnull, h.symm⟩
  | true =>
    simp only [if_true, decodeGraphCommitRow, bind_eq_ok_iff, required_eq_ok,
      decodeJson_eq_ok, requiredU64_eq_ok, pure_eq_ok_iff, CommitRow, true_and, reduceCtorEq,
      false_and, or_false]
    constructor
    · rintro ⟨-, hnull, commit, ⟨text, htext, payload, hpayload, version, hversion, rfl⟩, rfl⟩
      exact ⟨hnull, _, ⟨text, version, payload, htext, hpayload, hversion, rfl⟩, rfl⟩
    · rintro ⟨hnull, commit, ⟨text, version, payload, htext, hpayload, hversion, rfl⟩, rfl⟩
      exact ⟨(), hnull, _, ⟨text, htext, payload, hpayload, version, hversion, rfl⟩, rfl⟩

lemma decodeRow_head (htype : row.objectType = .graphHead) :
    decodeRow codecs collectLineage (row, index) = .ok item ↔
      (row.stableTableId = none ∧ row.tableIncarnationId = none) ∧
        ∃ text payload branchKey, row.metadata = some text ∧
          codecs.head.fromJsonStr text = .ok payload ∧
          stripPrefix "graph_head:" row.objectId = some branchKey ∧
          item = .head branchKey payload.headCommitId := by
  simp only [decodeRow, htype, decodeGraphHeadRow, bind_eq_ok_iff,
    requireNullTableIdentity_eq_ok, required_eq_ok, decodeJson_eq_ok, pure_eq_ok_iff]
  constructor
  · rintro ⟨-, hnull, head, ⟨text, htext, payload, hpayload, key, hkey, rfl⟩, rfl⟩
    exact ⟨hnull, text, payload, key, htext, hpayload, hkey, rfl⟩
  · rintro ⟨hnull, text, payload, key, htext, hpayload, hkey, rfl⟩
    exact ⟨(), hnull, _, ⟨text, htext, payload, hpayload, key, hkey, rfl⟩, rfl⟩

lemma decodeRow_unknown (htype : row.objectType = .unknown name) :
    decodeRow codecs collectLineage (row, index) = .ok item ↔ item = .skipped := by
  simp [decodeRow, htype, eq_comm]

/-- The row decodes to the item, wherever it stands in its batch. -/
def Decodes (codecs : MetadataCodecs) (collectLineage : Bool) (row : ManifestRow)
    (item : ManifestItem) : Prop := decodeRow codecs collectLineage (row, 0) = .ok item

lemma decodeRow_eq_ok_iff :
    decodeRow codecs collectLineage (row, index) = .ok item ↔
      Decodes codecs collectLineage row item := by
  unfold Decodes
  cases htype : row.objectType with
  | table => rw [decodeRow_table htype, decodeRow_table htype]
  | tableVersion => rw [decodeRow_version htype, decodeRow_version htype]
  | tableTombstone => rw [decodeRow_tombstone htype, decodeRow_tombstone htype]
  | graphCommit => rw [decodeRow_commit htype, decodeRow_commit htype]
  | graphHead => rw [decodeRow_head htype, decodeRow_head htype]
  | unknown name => rw [decodeRow_unknown htype, decodeRow_unknown htype]

lemma Decodes.unique {item' : ManifestItem} (h : Decodes codecs collectLineage row item)
    (h' : Decodes codecs collectLineage row item') : item = item' := by
  unfold Decodes at h h'
  rw [h] at h'
  cases h'
  rfl

end DecodeSpec

end Omnigraph
