import Omnigraph.Manifest.PendingRows
import Omnigraph.Manifest.Visible

/-!
# A batch and the manifest it leaves

An attempt loads what the manifest's rows hold. Its batch then writes new rows and replaces rows
that have the same object id; the manifest afterwards holds what the batch writes and what it does
not replace.
-/

namespace Omnigraph

open List ManifestChange

variable {codecs : MetadataCodecs} {collectLineage : Bool}

/-! ### Items and the object ids of their rows -/

/-- The object id a row must have to decode to the item. -/
def ManifestItem.objectId? : ManifestItem → Option String
  | .registration r => some (tableObjectId r.identity)
  | .version e => some (versionObjectId e.identity e.tableVersion)
  | .tombstone t => some (tombstoneObjectId t.identity t.tombstoneVersion)
  | .lineage c => some c.graphCommitId
  | .head branchKey _ => some ("graph_head:" ++ branchKey)
  | .skipped => none

variable {rows' : List ManifestRow}

section Items

variable {rows : List ManifestRow} {row : ManifestRow} {item item' : ManifestItem} {id : String}

lemma Decodes.objectId_eq (h : Decodes codecs collectLineage row item)
    (hid : item.objectId? = some id) : row.objectId = id := by
  cases item with
  | registration r => exact (decodes_registration_iff.mp h).2.2.1.trans (Option.some.inj hid)
  | version e => exact (decodes_version_iff.mp h).2.2.2.1.trans (Option.some.inj hid)
  | tombstone t => exact (decodes_tombstone_iff.mp h).2.2.2.1.trans (Option.some.inj hid)
  | lineage c =>
    obtain ⟨-, -, -, _, _, _, -, -, -, rfl⟩ := decodes_lineage_iff.mp h
    exact Option.some.inj hid
  | head branchKey c => exact (decodes_head_iff.mp h).2.2.1.trans (Option.some.inj hid)
  | skipped => cases hid

/-- Rows with distinct object ids hold at most one item under an id. -/
lemma Holds.eq_of_objectId (hnodup : (rows.map ManifestRow.objectId).Nodup)
    (h : Holds codecs collectLineage rows item) (h' : Holds codecs collectLineage rows item')
    (hid : item.objectId? = some id) (hid' : item'.objectId? = some id) : item = item' := by
  obtain ⟨row, hrow, hdec⟩ := h
  obtain ⟨row', hrow', hdec'⟩ := h'
  have heq : row.objectId = row'.objectId := (hdec.objectId_eq hid).trans
    (hdec'.objectId_eq hid').symm
  cases inj_on_of_nodup_map hnodup hrow hrow' heq
  exact hdec.unique hdec'

lemma Holds.perm (hperm : rows.Perm rows') :
    Holds codecs collectLineage rows item ↔ Holds codecs collectLineage rows' item := by
  simp only [Holds, hperm.mem_iff]

/-- Only commit rows are read differently when lineage is not collected. -/
lemma decodes_flag_iff {collectLineage' : Bool} (hitem : ∀ c, item ≠ .lineage c)
    (hskip : item ≠ .skipped) :
    Decodes codecs collectLineage row item ↔ Decodes codecs collectLineage' row item := by
  cases item with
  | registration r => rw [decodes_registration_iff, decodes_registration_iff]
  | version e => rw [decodes_version_iff, decodes_version_iff]
  | tombstone t => rw [decodes_tombstone_iff, decodes_tombstone_iff]
  | lineage c => exact absurd rfl (hitem c)
  | head branchKey c => rw [decodes_head_iff, decodes_head_iff]
  | skipped => exact absurd rfl hskip

lemma holds_flag_iff {collectLineage' : Bool} (hitem : ∀ c, item ≠ .lineage c)
    (hskip : item ≠ .skipped) :
    Holds codecs collectLineage rows item ↔ Holds codecs collectLineage' rows item := by
  simp only [Holds]
  exact exists_congr fun row => and_congr_right fun _ => decodes_flag_iff hitem hskip

/-- A row the publisher can decode is one every reader can decode. -/
lemma Decodes.of_collect (h : Decodes codecs true row item) :
    ∃ item', Decodes codecs collectLineage row item' := by
  cases collectLineage with
  | true => exact ⟨item, h⟩
  | false =>
    by_cases hitem : ∃ c, item = .lineage c
    · obtain ⟨c, rfl⟩ := hitem
      obtain ⟨htype, -, hnull, -⟩ := decodes_lineage_iff.mp h
      exact ⟨.skipped, (decodeRow_commit htype).mpr ⟨hnull, .inr ⟨rfl, rfl⟩⟩⟩
    · push Not at hitem
      by_cases hskip : item = .skipped
      · subst hskip
        unfold Decodes at h ⊢
        cases htype : row.objectType with
        | unknown name => exact ⟨_, (decodeRow_unknown htype).mpr rfl⟩
        | table => simp [decodeRow_table htype] at h
        | tableVersion => simp [decodeRow_version htype] at h
        | tableTombstone => simp [decodeRow_tombstone htype] at h
        | graphCommit => simp [decodeRow_commit htype] at h
        | graphHead => simp [decodeRow_head htype] at h
      · exact ⟨item, (decodes_flag_iff hitem hskip).mp h⟩

end Items

/-! ### What an attempt loads -/

/-- The loaded maps hold what the manifest's rows hold. -/
structure LoadHolds (codecs : MetadataCodecs) (rows : List ManifestRow)
    (loaded : LoadedPublishState) : Prop where
  nodup : (rows.map ManifestRow.objectId).Nodup
  decodes : ∀ row ∈ rows, ∃ item, Decodes codecs true row item
  bound : TombstonesBound codecs true rows
  registrations : ∀ identity registration,
    loaded.registeredTables.lookup identity = some registration ↔
      registration.identity = identity ∧ Holds codecs true rows (.registration registration)
  versions : ∀ key entry, loaded.existingVersions.lookup key = some entry ↔
    entry.identityVersion = key ∧ Holds codecs true rows (.version entry)
  tombstones : ∀ key, key ∈ loaded.existingTombstones ↔
    ∃ tombstone : TableTombstone, (tombstone.identity, tombstone.tombstoneVersion) = key ∧
      Holds codecs true rows (.tombstone tombstone)
  lineage : ∀ commit, commit ∈ loaded.lineageRows ↔ Holds codecs true rows (.lineage commit)
  heads : ∀ branchKey commitId, loaded.graphHeads.lookup branchKey = some commitId ↔
    Holds codecs true rows (.head branchKey commitId)

lemma TombstonesBound.perm {rows : List ManifestRow} (hperm : rows.Perm rows') :
    TombstonesBound codecs collectLineage rows ↔ TombstonesBound codecs collectLineage rows' := by
  simp only [TombstonesBound, Holds.perm hperm]

lemma lookup_collectMap {κ ν : Type} [DecidableEq κ] {l : List (κ × ν)}
    (hfun : ∀ p ∈ l, ∀ q ∈ l, p.1 = q.1 → p.2 = q.2) {k : κ} {v : ν} :
    (collectMap l).lookup k = some v ↔ (k, v) ∈ l := by
  rw [collectMap, HashMap.lookup_insertAll hfun]
  constructor
  · rintro (⟨p, hp, rfl, rfl⟩ | ⟨-, h⟩)
    · exact hp
    · simp at h
  · exact fun h => .inl ⟨(k, v), h, rfl, rfl⟩

/-- A publisher that loads knows the rows of the manifest. -/
lemma loadPublishState_holds {m : Manifest} {dataset : DatasetRead} {loaded : LoadedPublishState}
    (hbatches : dataset.batches.flatten.Perm m.rows)
    (h : loadPublishState codecs dataset = .ok loaded) : LoadHolds codecs m.rows loaded := by
  obtain ⟨scan, hscan, hloaded⟩ := Except.bind_eq_ok_iff.mp h
  cases hloaded
  have hnodup : (dataset.batches.flatten.map ManifestRow.objectId).Nodup :=
    (hbatches.map _).nodup_iff.mpr m.nodup
  obtain ⟨hdec, hbound⟩ := (readManifestScan_eq_ok_iff hnodup).mp ⟨scan, hscan⟩
  have hholds := readManifestScan_holds hnodup hscan
  refine ⟨m.nodup, fun row hrow => hdec row (hbatches.mem_iff.mpr hrow),
    (TombstonesBound.perm hbatches).mp hbound, ?_, ?_, ?_, ?_, ?_⟩
  · intro identity registration
    rw [hholds.registrations, Holds.perm hbatches]
  · intro key entry
    rw [lookup_collectMap]
    · simp only [List.mem_map, Prod.mk.injEq, hholds.versions, Holds.perm hbatches]
      constructor
      · rintro ⟨e, he, hkey, rfl⟩
        exact ⟨hkey, he⟩
      · rintro ⟨hkey, he⟩
        exact ⟨entry, he, hkey, rfl⟩
    · intro p hp q hq hkey
      obtain ⟨e, he, rfl⟩ := List.mem_map.mp hp
      obtain ⟨e', he', rfl⟩ := List.mem_map.mp hq
      obtain ⟨hident, hver⟩ := Prod.mk.inj hkey
      have hid : versionObjectId e.identity e.tableVersion =
          versionObjectId e'.identity e'.tableVersion := by
        rw [hident, hver]
      have := ((hholds.versions e).mp he).eq_of_objectId hnodup ((hholds.versions e').mp he')
        (congrArg some hid) rfl
      exact ManifestItem.version.inj this
  · intro key
    rw [HashMap.mem_iff_exists_lookup]
    constructor
    · rintro ⟨⟨⟩, hlook⟩
      obtain ⟨t, ht, heq⟩ := List.mem_map.mp ((lookup_collectMap (by simp)).mp hlook)
      exact ⟨t, congrArg Prod.fst heq, (Holds.perm hbatches).mp ((hholds.tombstones t).mp ht)⟩
    · rintro ⟨t, rfl, ht⟩
      refine ⟨(), (lookup_collectMap (by simp)).mpr (List.mem_map_of_mem ?_)⟩
      exact (hholds.tombstones t).mpr ((Holds.perm hbatches).mpr ht)
  · intro commit
    rw [hholds.lineage, Holds.perm hbatches]
  · intro branchKey commitId
    rw [hholds.heads, Holds.perm hbatches]

/-! ### What the pending rows decode to -/

/-- The entry a later read finds for an update. -/
def SubTableUpdate.toEntry (update : SubTableUpdate) : SubTableEntry where
  identity := update.identity
  tableKey := update.tableKey
  tablePath := ""
  tableVersion := update.tableVersion
  tableBranch := update.tableBranch
  rowCount := update.rowCount
  versionMetadata := update.versionMetadata

def LineageIntent.headKey (intent : LineageIntent) : String :=
  intent.branch.getD mainBranchHeadKey

/-- The commit the attempt records for an intent. -/
def LineageIntent.commitAt (intent : LineageIntent) (loaded : LoadedPublishState) :
    GraphLineageRow := intent.commitOn loaded.lineageRows (loaded.datasetVersion + 1)

section Pending

lemma decodes_bindingRow {registration : TableRegistration}
    (hvalid : registration.identity.Valid)
    (hpath : tablePathForIdentity registration.tableKey registration.identity =
      .ok registration.tablePath) :
    Decodes codecs collectLineage (bindingRow registration).toRow (.registration registration) :=
  decodes_registration_iff.mpr ⟨rfl, ⟨rfl, rfl, hvalid⟩, rfl, rfl, rfl, hpath⟩

lemma decodes_updateRow {update : SubTableUpdate} (hvalid : update.identity.Valid) :
    Decodes codecs collectLineage (updateRow codecs update).toRow (.version update.toEntry) :=
  decodes_version_iff.mpr ⟨rfl, ⟨rfl, rfl, hvalid⟩, rfl, rfl, rfl, rfl, rfl, rfl, _, rfl,
    codecs.version.fromJsonStr_toJsonString _⟩

lemma decodes_tombstoneRow {tombstone : TableTombstone} (hvalid : tombstone.identity.Valid) :
    Decodes codecs collectLineage (tombstoneRow tombstone).toRow (.tombstone tombstone) :=
  decodes_tombstone_iff.mpr ⟨rfl, ⟨rfl, rfl, hvalid⟩, rfl, rfl, rfl⟩

variable {commit : GraphLineageRow}

lemma decodes_commitRow :
    Decodes codecs collectLineage (lineagePartToPending (graphCommitPart codecs commit)).toRow
      (if collectLineage then .lineage commit else .skipped) := by
  cases collectLineage with
  | true =>
    exact decodes_lineage_iff.mpr ⟨rfl, rfl, ⟨rfl, rfl⟩, _, _, _, rfl,
      codecs.commit.fromJsonStr_toJsonString _, rfl, rfl⟩
  | false => exact (decodeRow_commit rfl).mpr ⟨⟨rfl, rfl⟩, .inr ⟨rfl, rfl⟩⟩

lemma decodes_headRow {branch : Option String} :
    Decodes codecs collectLineage (lineagePartToPending (graphHeadPart codecs commit branch)).toRow
      (.head (branch.getD mainBranchHeadKey) commit.graphCommitId) :=
  decodes_head_iff.mpr
    ⟨rfl, ⟨rfl, rfl⟩, rfl, _, _, rfl, codecs.head.fromJsonStr_toJsonString _, rfl⟩

/-- The rows of an attempt, by what they are for. -/
inductive IsPending (codecs : MetadataCodecs) (loaded : LoadedPublishState)
    (registrations : List TableRegistration) (changes : List ManifestChange)
    (lineage : Option LineageIntent) : PendingVersionRow → Prop
  | binding (r : TableRegistration) (h : r ∈ registrations) :
    IsPending codecs loaded registrations changes lineage (bindingRow r)
  | update (u : SubTableUpdate) (h : update u ∈ changes) :
    IsPending codecs loaded registrations changes lineage (updateRow codecs u)
  | tombstone (t : TableTombstone) (h : tombstone t ∈ changes) :
    IsPending codecs loaded registrations changes lineage (tombstoneRow t)
  | commit (i : LineageIntent) (h : lineage = some i) :
    IsPending codecs loaded registrations changes lineage
      (lineagePartToPending (graphCommitPart codecs (i.commitAt loaded)))
  | head (i : LineageIntent) (h : lineage = some i) :
    IsPending codecs loaded registrations changes lineage
      (lineagePartToPending (graphHeadPart codecs (i.commitAt loaded) i.branch))

variable {request : PublishRequest} {loaded : LoadedPublishState}
  {registrations : List TableRegistration} {changes : List ManifestChange}
  {lineage : Option LineageIntent} {row : PendingVersionRow}

lemma mem_batchRows_iff :
    row ∈ batchRows codecs registrations changes ↔
      (∃ r ∈ registrations, bindingRow r = row) ∨
        (∃ u, update u ∈ changes ∧ updateRow codecs u = row) ∨
        ∃ t, tombstone t ∈ changes ∧ tombstoneRow t = row := by
  simp only [batchRows, mem_append, List.mem_map, mem_filterMap]
  refine or_congr_right ?_
  constructor
  · rintro ⟨change, hmem, heq⟩
    cases change with
    | update u => exact .inl ⟨u, hmem, Option.some.inj heq⟩
    | tombstone t => exact .inr ⟨t, hmem, Option.some.inj heq⟩
    | registerTable r => cases heq
    | renameTable r => cases heq
  · rintro (⟨u, hmem, rfl⟩ | ⟨t, hmem, rfl⟩)
    · exact ⟨_, hmem, rfl⟩
    · exact ⟨_, hmem, rfl⟩

lemma mem_rows_iff :
    row ∈ batchRows codecs registrations request.changes ++ (request.lineagePart codecs loaded).1 ↔
      IsPending codecs loaded registrations request.changes request.lineage row := by
  have hlineage : row ∈ (request.lineagePart codecs loaded).1 ↔
      ∃ i, request.lineage = some i ∧
        (row = lineagePartToPending (graphCommitPart codecs (i.commitAt loaded)) ∨
          row = lineagePartToPending (graphHeadPart codecs (i.commitAt loaded) i.branch)) := by
    unfold PublishRequest.lineagePart
    cases request.lineage with
    | none => simp
    | some i => simp [resolveLineageRows, graphLineageRowParts, LineageIntent.commitAt]
  rw [mem_append, mem_batchRows_iff, hlineage]
  constructor
  · rintro ((⟨r, hr, rfl⟩ | ⟨u, hu, rfl⟩ | ⟨t, ht, rfl⟩) | ⟨i, hi, rfl | rfl⟩)
    · exact .binding r hr
    · exact .update u hu
    · exact .tombstone t ht
    · exact .commit i hi
    · exact .head i hi
  · intro h
    cases h with
    | binding r hr => exact .inl (.inl ⟨r, hr, rfl⟩)
    | update u hu => exact .inl (.inr (.inl ⟨u, hu, rfl⟩))
    | tombstone t ht => exact .inl (.inr (.inr ⟨t, ht, rfl⟩))
    | commit i hi => exact .inr ⟨i, hi, .inl rfl⟩
    | head i hi => exact .inr ⟨i, hi, .inr rfl⟩

variable (h : IsPending codecs loaded registrations changes lineage row)

include h in
/-- A pending row's object id tells its type. -/
lemma IsPending.objectType_eq : row.objectType = idType row.objectId := by
  cases h with
  | binding r hr => exact (idType_tableObjectId _).symm
  | update u hu => exact (idType_versionObjectId _ _).symm
  | tombstone t ht => exact (idType_tombstoneObjectId _ _).symm
  | commit i hi => exact (idType_graphCommitId i).symm
  | head i hi => exact (idType_graphHeadObjectId _).symm

variable {known : HashMap TableIdentity TableRegistration}
  {existingVersions : HashMap (TableIdentity × ℕ) SubTableEntry}
  {existingTombstones : HashMap (TableIdentity × ℕ) Unit}

lemma AllAccepted.update_inj
    (h : AllAccepted known existingVersions existingTombstones changes) {u u' : SubTableUpdate}
    (hu : update u ∈ changes) (hu' : update u' ∈ changes)
    (heq : u.identityVersion = u'.identityVersion) : u = u' := by
  have hmem : ∀ {u : SubTableUpdate}, update u ∈ changes →
      u ∈ changes.filterMap update? :=
    fun hu => mem_filterMap.mpr ⟨_, hu, rfl⟩
  exact inj_on_of_nodup_map h.nodup (hmem hu) (hmem hu') heq

/-- Two tombstones of one identity carry the same alias. -/
lemma AllAccepted.tombstone_inj
    (h : AllAccepted known existingVersions existingTombstones changes) {t t' : TableTombstone}
    (ht : tombstone t ∈ changes) (ht' : tombstone t' ∈ changes)
    (hid : t.identity = t'.identity) (hver : t.tombstoneVersion = t'.tombstoneVersion) :
    t = t' := by
  obtain ⟨r, hr, hkey⟩ := (h.tombstones t ht).bound
  obtain ⟨r', hr', hkey'⟩ := (h.tombstones t' ht').bound
  rw [hid, hr'] at hr
  cases hr
  cases t
  cases t'
  simp only [TableTombstone.mk.injEq]
  exact ⟨hid, hkey.symm.trans hkey', hver⟩

variable (hacc : BatchAccepted known existingVersions existingTombstones changes registrations)

include h hacc in
/-- Pending rows with one object id are the same row. -/
lemma IsPending.eq_of_objectId {row' : PendingVersionRow}
    (h' : IsPending codecs loaded registrations changes lineage row')
    (hid : row.objectId = row'.objectId) : row = row' := by
  have htype : row.objectType = row'.objectType := by
    rw [h.objectType_eq, h'.objectType_eq, hid]
  cases h with
  | binding r hr =>
    cases h' with
    | binding r' hr' =>
      have := inj_on_of_nodup_map hacc.nodup hr hr' (tableObjectId_inj hid)
      rw [this]
    | _ => cases htype
  | update u hu =>
    cases h' with
    | update u' hu' =>
      obtain ⟨hident, hver⟩ := versionObjectId_inj hid
      rw [hacc.accepted.update_inj hu hu' (Prod.ext hident hver)]
    | _ => cases htype
  | tombstone t ht =>
    cases h' with
    | tombstone t' ht' =>
      obtain ⟨hident, hver⟩ := tombstoneObjectId_inj hid
      rw [hacc.accepted.tombstone_inj ht ht' hident hver]
    | _ => cases htype
  | commit i hi =>
    cases h' with
    | commit i' hi' =>
      cases hi.symm.trans hi'
      rfl
    | _ => cases htype
  | head i hi =>
    cases h' with
    | head i' hi' =>
      cases hi.symm.trans hi'
      rfl
    | _ => cases htype

/-- What the batch writes. -/
def Writes (loaded : LoadedPublishState) (registrations : List TableRegistration)
    (changes : List ManifestChange) (lineage : Option LineageIntent) (collectLineage : Bool) :
    ManifestItem → Prop
  | .registration r => r ∈ registrations
  | .version e => ∃ u, update u ∈ changes ∧ u.toEntry = e
  | .tombstone t => tombstone t ∈ changes
  | .lineage c => collectLineage = true ∧ ∃ i, lineage = some i ∧ i.commitAt loaded = c
  | .head branchKey c => ∃ i, lineage = some i ∧ i.headKey = branchKey ∧ i.graphCommitId = c
  | .skipped => collectLineage = false ∧ lineage ≠ none

/-- What the batch replaces. -/
def Replaces (registrations : List TableRegistration) (changes : List ManifestChange)
    (lineage : Option LineageIntent) : ManifestItem → Prop
  | .registration r => ∃ r' ∈ registrations, r'.identity = r.identity
  | .version e => ∃ u, update u ∈ changes ∧ u.identityVersion = e.identityVersion
  | .tombstone t => ∃ t', tombstone t' ∈ changes ∧ t'.identity = t.identity ∧
      t'.tombstoneVersion = t.tombstoneVersion
  | .lineage c => ∃ i, lineage = some i ∧ i.graphCommitId = c.graphCommitId
  | .head branchKey _ => ∃ i, lineage = some i ∧ i.headKey = branchKey
  | .skipped => False

include h hacc in
/-- A pending row decodes to something the batch writes. -/
lemma IsPending.decodes :
    ∃ item, Decodes codecs collectLineage row.toRow item ∧
      Writes loaded registrations changes lineage collectLineage item := by
  cases h with
  | binding r hr =>
    obtain ⟨hvalid, hpath⟩ := hacc.canonical r hr
    exact ⟨_, decodes_bindingRow hvalid hpath, hr⟩
  | update u hu => exact ⟨_, decodes_updateRow (hacc.accepted.updates u hu).valid, u, hu, rfl⟩
  | tombstone t ht => exact ⟨_, decodes_tombstoneRow (hacc.accepted.tombstones t ht).valid, ht⟩
  | commit i hi =>
    refine ⟨_, decodes_commitRow, ?_⟩
    cases collectLineage with
    | true => exact ⟨rfl, i, hi, rfl⟩
    | false => exact ⟨rfl, by simp [hi]⟩
  | head i hi => exact ⟨_, decodes_headRow, i, hi, rfl, rfl⟩

include hacc in
lemma exists_pending_decodes {item : ManifestItem}
    (h : Writes loaded registrations changes lineage collectLineage item) :
    ∃ row, IsPending codecs loaded registrations changes lineage row ∧
      Decodes codecs collectLineage row.toRow item := by
  cases item with
  | registration r =>
    obtain ⟨hvalid, hpath⟩ := hacc.canonical r h
    exact ⟨_, .binding r h, decodes_bindingRow hvalid hpath⟩
  | version e =>
    obtain ⟨u, hu, rfl⟩ := h
    exact ⟨_, .update u hu, decodes_updateRow (hacc.accepted.updates u hu).valid⟩
  | tombstone t =>
    exact ⟨_, .tombstone t h, decodes_tombstoneRow (hacc.accepted.tombstones t h).valid⟩
  | lineage c =>
    obtain ⟨rfl, i, hi, rfl⟩ := h
    exact ⟨_, .commit i hi, decodes_commitRow⟩
  | head branchKey c =>
    obtain ⟨i, hi, rfl, rfl⟩ := h
    exact ⟨_, .head i hi, decodes_headRow⟩
  | skipped =>
    obtain ⟨rfl, hne⟩ := h
    obtain ⟨i, hi⟩ := Option.ne_none_iff_exists'.mp hne
    exact ⟨_, .commit i hi, decodes_commitRow⟩

/-- The object ids of the batch are those of the items it replaces. A commit already in the
manifest counts when its id is a ULID. -/
lemma replaces_iff {item : ManifestItem} {id : String} (hid : item.objectId? = some id)
    (hulid : ∀ c, item = .lineage c → ':' ∉ c.graphCommitId.toList) :
    Replaces registrations changes lineage item ↔
      ∃ row, IsPending codecs loaded registrations changes lineage row ∧ row.objectId = id := by
  cases item with
  | registration r =>
    cases hid
    constructor
    · rintro ⟨r', hr', heq⟩
      exact ⟨_, .binding r' hr', by rw [← heq]; rfl⟩
    · rintro ⟨row, hrow, hid⟩
      have htype := hrow.objectType_eq
      cases hrow with
      | binding r' hr' => exact ⟨r', hr', tableObjectId_inj hid⟩
      | _ =>
        rw [hid, idType_tableObjectId] at htype
        cases htype
  | version e =>
    cases hid
    constructor
    · rintro ⟨u, hu, heq⟩
      obtain ⟨hident, hver⟩ := Prod.mk.inj heq
      exact ⟨_, .update u hu, by rw [← hident, ← hver]; rfl⟩
    · rintro ⟨row, hrow, hid⟩
      have htype := hrow.objectType_eq
      cases hrow with
      | update u hu =>
        obtain ⟨hident, hver⟩ := versionObjectId_inj hid
        exact ⟨u, hu, Prod.ext hident hver⟩
      | _ =>
        rw [hid, idType_versionObjectId] at htype
        cases htype
  | tombstone t =>
    cases hid
    constructor
    · rintro ⟨t', ht', hident, hver⟩
      exact ⟨_, .tombstone t' ht', by rw [← hident, ← hver]; rfl⟩
    · rintro ⟨row, hrow, hid⟩
      have htype := hrow.objectType_eq
      cases hrow with
      | tombstone t' ht' => exact ⟨t', ht', tombstoneObjectId_inj hid⟩
      | _ =>
        rw [hid, idType_tombstoneObjectId] at htype
        cases htype
  | lineage c =>
    cases hid
    have hcommit : idType c.graphCommitId = .graphCommit := if_pos (hulid c rfl)
    constructor
    · rintro ⟨i, hi, heq⟩
      exact ⟨_, .commit i hi, heq⟩
    · rintro ⟨row, hrow, hid⟩
      have htype := hrow.objectType_eq
      cases hrow with
      | commit i hi => exact ⟨i, hi, hid⟩
      | _ =>
        rw [hid, hcommit] at htype
        cases htype
  | head branchKey c =>
    cases hid
    constructor
    · rintro ⟨i, hi, rfl⟩
      exact ⟨_, .head i hi, rfl⟩
    · rintro ⟨row, hrow, hid⟩
      have htype := hrow.objectType_eq
      cases hrow with
      | head i hi =>
        refine ⟨i, hi, ?_⟩
        have := congrArg String.toList hid
        simp only [lineagePartToPending, graphHeadPart, graphHeadObjectId, String.toList_append,
          append_cancel_left_eq] at this
        exact String.toList_inj.mp this
      | _ =>
        rw [hid, idType_graphHead] at htype
        cases htype
  | skipped => cases hid

end Pending

/-! ### The manifest after the batch -/

section After

variable {m : Manifest} {loaded : LoadedPublishState} {registrations : List TableRegistration}
  {changes : List ManifestChange} {lineage : Option LineageIntent} {rows : List PendingVersionRow}
  {item : ManifestItem}

/-- The rows are those of an accepted batch. -/
structure IsBatch (codecs : MetadataCodecs) (loaded : LoadedPublishState)
    (registrations : List TableRegistration) (changes : List ManifestChange)
    (lineage : Option LineageIntent) (rows : List PendingVersionRow) : Prop where
  accepted : BatchAccepted loaded.registeredTables loaded.existingVersions
    loaded.existingTombstones changes registrations
  mem_iff : ∀ row, row ∈ rows ↔ IsPending codecs loaded registrations changes lineage row

/-- The manifest once the batch is merged. -/
def Manifest.publish (m : Manifest) (rows : List PendingVersionRow) : Manifest :=
  m.mergeInsert (rows.map PendingVersionRow.toRow)

variable (h : IsBatch codecs loaded registrations changes lineage rows)

include h in
lemma IsBatch.functional :
    Keyed.Functional ManifestRow.objectId (rows.map PendingVersionRow.toRow) := by
  intro r hr q hq heq
  obtain ⟨p, hp, rfl⟩ := List.mem_map.mp hr
  obtain ⟨p', hp', rfl⟩ := List.mem_map.mp hq
  rw [((h.mem_iff p).mp hp).eq_of_objectId h.accepted ((h.mem_iff p').mp hp') heq]

include h in
lemma IsBatch.mem_publish {q : ManifestRow} : q ∈ (m.publish rows).rows ↔
      (∃ row, IsPending codecs loaded registrations changes lineage row ∧ row.toRow = q) ∨
        (q ∈ m.rows ∧ ∀ row, IsPending codecs loaded registrations changes lineage row →
          row.objectId ≠ q.objectId) := by
  refine (Keyed.mem_upsertAll h.functional).trans ?_
  simp only [List.mem_map, h.mem_iff, forall_exists_index, and_imp, forall_apply_eq_imp_iff₂]
  exact Iff.rfl

include h in
/-- After the batch the manifest holds what the batch writes and what it does not replace. -/
theorem IsBatch.holds_publish (hskip : item ≠ .skipped)
    (hulid : ∀ c, item = .lineage c → ':' ∉ c.graphCommitId.toList) :
    Holds codecs collectLineage (m.publish rows).rows item ↔
      Writes loaded registrations changes lineage collectLineage item ∨
        (Holds codecs collectLineage m.rows item ∧
          ¬ Replaces registrations changes lineage item) := by
  obtain ⟨id, hid⟩ : ∃ id, item.objectId? = some id := by
    cases item with
    | skipped => exact absurd rfl hskip
    | _ => exact ⟨_, rfl⟩
  have hreplaces : ∀ {q : ManifestRow}, Decodes codecs collectLineage q item →
      ((∀ row, IsPending codecs loaded registrations changes lineage row →
        row.objectId ≠ q.objectId) ↔ ¬ Replaces registrations changes lineage item) := by
    intro q hq
    rw [@replaces_iff codecs loaded _ _ _ _ _ hid hulid, hq.objectId_eq hid]
    push Not
    exact Iff.rfl
  constructor
  · rintro ⟨q, hq, hdec⟩
    rcases h.mem_publish.mp hq with ⟨row, hrow, rfl⟩ | ⟨hq, hkeep⟩
    · obtain ⟨item', hdec', hwrites⟩ := hrow.decodes h.accepted
      rw [hdec.unique hdec']
      exact .inl hwrites
    · exact .inr ⟨⟨q, hq, hdec⟩, (hreplaces hdec).mp hkeep⟩
  · rintro (hwrites | ⟨⟨q, hq, hdec⟩, hkeep⟩)
    · obtain ⟨row, hrow, hdec⟩ := exists_pending_decodes h.accepted hwrites
      exact ⟨row.toRow, h.mem_publish.mpr (.inl ⟨row, hrow, rfl⟩), hdec⟩
    · exact ⟨q, h.mem_publish.mpr (.inr ⟨hq, (hreplaces hdec).mpr hkeep⟩), hdec⟩

include h in
lemma IsBatch.decodes_publish (hload : LoadHolds codecs m.rows loaded) :
    ∀ q ∈ (m.publish rows).rows, ∃ item, Decodes codecs collectLineage q item := by
  intro q hq
  rcases h.mem_publish.mp hq with ⟨row, hrow, rfl⟩ | ⟨hq, -⟩
  · obtain ⟨item, hdec, -⟩ := hrow.decodes h.accepted
    exact ⟨item, hdec⟩
  · obtain ⟨item, hdec⟩ := hload.decodes q hq
    exact hdec.of_collect

end After

end Omnigraph
