import Omnigraph.Manifest.Batch
import Omnigraph.Manifest.Payload

/-!
# Folding a batch and reading it back

The publisher returns a state it folded in memory instead of reading the manifest again. The fold
and the read agree on what the batch leaves, except that only the read checks that old tombstones
carry the current alias of their table. `fold_eq_rescan_iff` says when the two are the same.
-/

namespace Omnigraph

open List Except ManifestChange

variable {codecs : MetadataCodecs}

/-! ### The fold -/

variable {t : TableTombstone}

section Folded

variable {orders : WalkOrders} {existingVersions : HashMap (TableIdentity × ℕ) SubTableEntry}
  {existingTombstones : HashMap (TableIdentity × ℕ) Unit}
  {known : HashMap TableIdentity TableRegistration} {registrations : List TableRegistration}
  {changes : List ManifestChange}

/-- The version entries after the updates of a batch. -/
def foldedVersions (existingVersions : HashMap (TableIdentity × ℕ) SubTableEntry)
    (changes : List ManifestChange) : HashMap (TableIdentity × ℕ) SubTableEntry :=
  HashMap.insertAll SubTableUpdate.identityVersion SubTableUpdate.toEntry existingVersions
    (changes.filterMap update?)

/-- The tombstones after those of a batch. -/
def foldedTombstones (existing : List (TableIdentity × ℕ)) (changes : List ManifestChange) :
    List (TableIdentity × ℕ) :=
  existing ++ (changes.filterMap tombstone?).map fun t =>
    (t.identity, t.tombstoneVersion)

lemma foldRegistration_bindingRows (known : HashMap TableIdentity TableRegistration)
    (registrations : List TableRegistration) :
    (registrations.map bindingRow).foldlM foldRegistration known =
      .ok (bindAll known registrations) := by
  induction registrations generalizing known with
  | nil => rfl
  | cons r registrations ih => exact ih (known.insert r.identity r)

lemma foldVersion_bindingRows
    (acc : HashMap (TableIdentity × ℕ) SubTableEntry × List (TableIdentity × ℕ))
    (registrations : List TableRegistration) :
    (registrations.map bindingRow).foldlM (foldVersion codecs) acc = .ok acc := by
  induction registrations generalizing acc with
  | nil => rfl
  | cons r registrations ih => exact ih acc

lemma foldRegistration_versionRows (known : HashMap TableIdentity TableRegistration)
    (changes : List ManifestChange) :
    (changes.filterMap (versionRow codecs)).foldlM foldRegistration known =
      .ok known := by
  induction changes with
  | nil => rfl
  | cons change changes ih =>
    cases change <;> exact ih

/-- Folding the version rows of the changes folds the changes. -/
lemma foldVersion_versionRows (versions : HashMap (TableIdentity × ℕ) SubTableEntry)
    (tombstones : List (TableIdentity × ℕ)) (changes : List ManifestChange) :
    (changes.filterMap (versionRow codecs)).foldlM (foldVersion codecs)
      (versions, tombstones) =
        .ok (foldedVersions versions changes, foldedTombstones tombstones changes) := by
  induction changes generalizing versions tombstones with
  | nil => simp [foldedVersions, foldedTombstones, HashMap.insertAll, pure, Except.pure]
  | cons change changes ih =>
    cases change with
    | registerTable r => exact ih versions tombstones
    | renameTable r => exact ih versions tombstones
    | update u =>
      have hstep : foldVersion codecs (versions, tombstones) (updateRow codecs u) =
          .ok (versions.insert u.identityVersion u.toEntry, tombstones) := by
        have hjson : decodeJson codecs.version "manifest"
            (codecs.version.toJsonString u.versionMetadata) = .ok u.versionMetadata :=
          decodeJson_eq_ok.mpr (codecs.version.fromJsonStr_toJsonString _)
        show (decodeJson codecs.version "manifest" _ >>= fun versionMetadata => pure _) = _
        rw [hjson]
        rfl
      show (updateRow codecs u :: changes.filterMap _).foldlM (foldVersion codecs) _ = _
      rw [foldlM_cons, hstep]
      exact ih _ _
    | tombstone t =>
      have hstep : foldVersion codecs (versions, tombstones) (tombstoneRow t) =
          .ok (versions, tombstones ++ [(t.identity, t.tombstoneVersion)]) := rfl
      show (tombstoneRow t :: changes.filterMap _).foldlM (foldVersion codecs) _ = _
      rw [foldlM_cons, hstep]
      refine (ih _ _).trans ?_
      simp [foldedTombstones, foldedVersions, tombstone?, update?,
        filterMap_cons]

/-- Lineage rows leave the folded tables as they are. -/
lemma fold_lineagePart {request : PublishRequest} {loaded : LoadedPublishState}
    (known : HashMap TableIdentity TableRegistration)
    (acc : HashMap (TableIdentity × ℕ) SubTableEntry × List (TableIdentity × ℕ)) :
    (request.lineagePart codecs loaded).1.foldlM foldRegistration known = .ok known ∧
      (request.lineagePart codecs loaded).1.foldlM (foldVersion codecs) acc = .ok acc := by
  unfold PublishRequest.lineagePart
  cases request.lineage with
  | none => exact ⟨rfl, rfl⟩
  | some intent => exact ⟨rfl, rfl⟩

theorem foldInputs_eq {request : PublishRequest} {loaded : LoadedPublishState} :
    foldInputs orders codecs existingVersions existingTombstones
      (batchRows codecs registrations changes ++ (request.lineagePart codecs loaded).1) known =
    .ok ⟨bindAll known registrations,
      orders.versionValues (foldedVersions existingVersions changes),
      foldedTombstones (orders.tombstoneKeys existingTombstones) changes⟩ := by
  have hlineage := @fold_lineagePart codecs request loaded
  apply bind_eq_ok_iff.mpr
  refine ⟨bindAll known registrations, ?_, bind_eq_ok_iff.mpr
    ⟨(foldedVersions existingVersions changes,
      foldedTombstones (orders.tombstoneKeys existingTombstones) changes), ?_, rfl⟩⟩
  · rw [batchRows, foldlM_append, foldlM_append, foldRegistration_bindingRows]
    show ((changes.filterMap (versionRow codecs)).foldlM foldRegistration _ >>=
      fun known => (request.lineagePart codecs loaded).1.foldlM foldRegistration known) = _
    rw [foldRegistration_versionRows]
    exact (hlineage _ (∅, [])).1
  · rw [batchRows, foldlM_append, foldlM_append, foldVersion_bindingRows]
    show ((changes.filterMap (versionRow codecs)).foldlM (foldVersion codecs) _ >>=
      fun acc => (request.lineagePart codecs loaded).1.foldlM (foldVersion codecs) acc) = _
    rw [foldVersion_versionRows]
    exact (hlineage ∅ _).2

variable {entry : SubTableEntry} {versions : HashMap (TableIdentity × ℕ) SubTableEntry}
  {key : TableIdentity × ℕ}

lemma mem_versionValues :
    entry ∈ orders.versionValues versions ↔ ∃ key, versions.lookup key = some entry := by
  simp only [WalkOrders.versionValues, List.mem_map, IterOrder.mem_walk]
  constructor
  · rintro ⟨⟨key, e⟩, hmem, rfl⟩
    exact ⟨key, HashMap.lookup_eq_some_iff_mem.mpr hmem⟩
  · rintro ⟨key, hlook⟩
    exact ⟨⟨key, entry⟩, HashMap.lookup_eq_some_iff_mem.mp hlook, rfl⟩

lemma mem_tombstoneKeys {tombstones : HashMap (TableIdentity × ℕ) Unit} :
    key ∈ orders.tombstoneKeys tombstones ↔ key ∈ tombstones := by
  simp only [WalkOrders.tombstoneKeys, List.mem_map, IterOrder.mem_walk, AList.mem_keys,
    AList.keys, List.keys]

lemma functional_versionValues
    (hkey : ∀ key entry, versions.lookup key = some entry → entry.identityVersion = key) :
    Keyed.Functional SubTableEntry.identityVersion (orders.versionValues versions) := by
  intro e he e' he' heq
  obtain ⟨key, hlook⟩ := mem_versionValues.mp he
  obtain ⟨key', hlook'⟩ := mem_versionValues.mp he'
  rw [hkey _ _ hlook, hkey _ _ hlook'] at heq
  rw [heq, hlook'] at hlook
  exact (Option.some.inj hlook).symm

lemma mem_updates {u : SubTableUpdate} :
    u ∈ changes.filterMap update? ↔ update u ∈ changes := by
  rw [mem_filterMap]
  constructor
  · rintro ⟨change, hmem, heq⟩
    cases change with
    | update u' => exact Option.some.inj heq ▸ hmem
    | _ => cases heq
  · exact fun h => ⟨_, h, rfl⟩

lemma mem_tombstones :
    t ∈ changes.filterMap tombstone? ↔ tombstone t ∈ changes := by
  rw [mem_filterMap]
  constructor
  · rintro ⟨change, hmem, heq⟩
    cases change with
    | tombstone t' => exact Option.some.inj heq ▸ hmem
    | _ => cases heq
  · exact fun h => ⟨_, h, rfl⟩

lemma lookup_foldedVersions (hacc : AllAccepted known existingVersions existingTombstones changes) :
    (foldedVersions existingVersions changes).lookup key = some entry ↔
      (∃ u, update u ∈ changes ∧ u.identityVersion = key ∧ u.toEntry = entry) ∨
        ((∀ u, update u ∈ changes → u.identityVersion ≠ key) ∧
          existingVersions.lookup key = some entry) := by
  rw [foldedVersions, HashMap.lookup_insertAll]
  · simp only [mem_updates]
  · intro u hu u' hu' heq
    rw [hacc.update_inj (mem_updates.mp hu) (mem_updates.mp hu') heq]

lemma mem_foldedTombstones {existing : List (TableIdentity × ℕ)} :
    key ∈ foldedTombstones existing changes ↔
      key ∈ existing ∨ ∃ t, tombstone t ∈ changes ∧
        (t.identity, t.tombstoneVersion) = key := by
  simp only [foldedTombstones, mem_append, List.mem_map, mem_tombstones]

/-- A batch without rows has nothing to fold. -/
lemma eq_nil_of_batchRows_eq_nil {known : HashMap TableIdentity TableRegistration}
    {existing : List (TableIdentity × ℕ)} (h : batchRows codecs registrations changes = []) :
    bindAll known registrations = known ∧ foldedVersions existingVersions changes =
      existingVersions ∧ foldedTombstones existing changes = existing := by
  rw [batchRows, append_eq_nil_iff, map_eq_nil_iff] at h
  obtain ⟨rfl, hnone⟩ := h
  rw [filterMap_eq_nil_iff] at hnone
  have hupdates : changes.filterMap update? = [] := by
    rw [filterMap_eq_nil_iff]
    intro change hmem
    have := hnone change hmem
    cases change <;> simp_all [versionRow, update?]
  have htombstones : changes.filterMap tombstone? = [] := by
    rw [filterMap_eq_nil_iff]
    intro change hmem
    have := hnone change hmem
    cases change <;> simp_all [versionRow, tombstone?]
  simp [bindAll, foldedVersions, foldedTombstones, HashMap.insertAll, hupdates, htombstones]

end Folded

/-! ### A prepared publish -/

section Prepared

variable {orders : WalkOrders} {request : PublishRequest} {loaded : LoadedPublishState}
  {prepared : PreparedPublish} {m : Manifest}

/-- What an attempt has in hand when it reaches its merge-insert. -/
structure PreparedHolds (orders : WalkOrders) (codecs : MetadataCodecs) (request : PublishRequest)
    (loaded : LoadedPublishState) (registrations : List TableRegistration)
    (prepared : PreparedPublish) : Prop where
  batch : IsBatch codecs loaded registrations request.changes request.lineage prepared.rows
  parent : prepared.parentCommitId = (request.lineagePart codecs loaded).2
  shows : Shows (bindAll loaded.registeredTables registrations)
    (orders.versionValues (foldedVersions loaded.existingVersions request.changes))
    (foldedTombstones (orders.tombstoneKeys loaded.existingTombstones) request.changes)
    prepared.knownState.entries
  heads : prepared.knownState.graphHeads = request.foldedHeads loaded.graphHeads
  precondition : checkPublishPrecondition request.publisherBranch loaded request.precondition =
    .ok ()

lemma LoadHolds.functional_folded (hload : LoadHolds codecs m.rows loaded)
    {known : HashMap TableIdentity TableRegistration}
    (hacc : AllAccepted known loaded.existingVersions loaded.existingTombstones request.changes) :
    Keyed.Functional SubTableEntry.identityVersion
      (orders.versionValues (foldedVersions loaded.existingVersions request.changes)) := by
  apply functional_versionValues
  intro key entry hlook
  rcases (lookup_foldedVersions hacc).mp hlook with ⟨u, -, rfl, rfl⟩ | ⟨-, hlook⟩
  · rfl
  · exact ((hload.versions key entry).mp hlook).1

/-- What a request prepares is its batch, with the state that the batch leads to. -/
theorem preparePublish_holds (hload : LoadHolds codecs m.rows loaded)
    (h : preparePublish orders codecs request loaded = .ok prepared) :
    ∃ registrations, PreparedHolds orders codecs request loaded registrations prepared := by
  obtain ⟨⟨⟩, hpre, h⟩ := bind_eq_ok_iff.mp h
  obtain ⟨-, -, h⟩ := bind_eq_ok_iff.mp h
  obtain ⟨changeRows, hbuild, h⟩ := bind_eq_ok_iff.mp h
  obtain ⟨registrations, hacc, rfl⟩ := buildPendingRows_eq_ok hbuild
  have hbatch : ∀ row, row ∈ batchRows codecs registrations request.changes ++
      (request.lineagePart codecs loaded).1 ↔
      IsPending codecs loaded registrations request.changes request.lineage row :=
    fun row => mem_rows_iff
  have hfun := @LoadHolds.functional_folded codecs orders request loaded m hload _ hacc.accepted
  refine ⟨registrations, ?_⟩
  dsimp only at h
  split_ifs at h with hnil
  · obtain ⟨state, hstate, hres⟩ := bind_eq_ok_iff.mp h
    cases hres
    obtain ⟨hchange, hlineage⟩ := append_eq_nil_iff.mp hnil
    obtain ⟨hbind, hversions, htombstones⟩ := @eq_nil_of_batchRows_eq_nil codecs
      loaded.existingVersions registrations request.changes loaded.registeredTables
      (orders.tombstoneKeys loaded.existingTombstones) hchange
    have hnolineage : request.lineage = none := by
      cases hlin : request.lineage with
      | none => rfl
      | some intent =>
        simp [PublishRequest.lineagePart, hlin, resolveLineageRows, graphLineageRowParts]
          at hlineage
    rw [hversions] at hfun
    obtain ⟨hshows, -, hheads⟩ := assemble_eq_ok hfun hstate
    refine ⟨⟨hacc, hbatch⟩, rfl, ?_, ?_, hpre⟩
    · rw [hbind, hversions, htombstones]
      exact hshows
    · rw [hheads, PublishRequest.foldedHeads, hnolineage]
  · obtain ⟨folded, hfolded, h⟩ := bind_eq_ok_iff.mp h
    obtain ⟨state, hstate, hres⟩ := bind_eq_ok_iff.mp h
    cases hres
    rw [foldInputs_eq] at hfolded
    cases hfolded
    obtain ⟨hshows, -, hheads⟩ := assemble_eq_ok hfun hstate
    exact ⟨⟨hacc, hbatch⟩, rfl, hshows, hheads, hpre⟩

end Prepared

/-! ### Reading the published manifest -/

section Rescan

variable {orders : WalkOrders} {request : PublishRequest} {loaded : LoadedPublishState}
  {prepared : PreparedPublish} {m : Manifest} {registrations : List TableRegistration}

/-- However its rows are handed out, the manifest reads as the state. -/
def RescansTo (codecs : MetadataCodecs) (m : Manifest) (state : ManifestState) : Prop :=
  ∀ (collectLineage : Bool) (batches : List (List ManifestRow))
    (order : IterOrder (Sigma fun _ : TableIdentity => SubTableEntry)) (version : ℕ),
    batches.flatten.Perm m.rows →
      ∃ scan reread, readManifestScan codecs collectLineage batches = .ok scan ∧
        assembleManifestState order version scan.tableRegistrations scan.versionEntries
          (scan.tombstones.map fun t => (t.identity, t.tombstoneVersion)) scan.graphHeads =
            .ok reread ∧
        reread.entries = state.entries ∧
        ∀ key, reread.graphHeads.lookup key = state.graphHeads.lookup key

/-- The manifest has a tombstone row of the identity. -/
def Manifest.HasTombstone (m : Manifest) (identity : TableIdentity) : Prop :=
  ∃ row ∈ m.rows, row.objectType = .tableTombstone ∧ row.HasIdentity identity

variable {identity : TableIdentity} {r : TableRegistration} {flag : Bool}

lemma LoadHolds.hasTombstone_iff (hload : LoadHolds codecs m.rows loaded) :
    m.HasTombstone identity ↔
      ∃ t, Holds codecs true m.rows (.tombstone t) ∧ t.identity = identity := by
  constructor
  · rintro ⟨row, hrow, htype, hid⟩
    obtain ⟨item, hdec⟩ := hload.decodes row hrow
    obtain ⟨identity', version, hid', -, -, rfl⟩ := (decodeRow_tombstone htype).mp hdec
    exact ⟨_, ⟨row, hrow, hdec⟩, hid'.unique hid⟩
  · rintro ⟨t, ⟨row, hrow, hdec⟩, rfl⟩
    obtain ⟨htype, hid, -⟩ := decodes_tombstone_iff.mp hdec
    exact ⟨row, hrow, htype, hid⟩

lemma BatchAccepted.lookup_bindAll {known : HashMap TableIdentity TableRegistration}
    {existingVersions : HashMap (TableIdentity × ℕ) SubTableEntry}
    {existingTombstones : HashMap (TableIdentity × ℕ) Unit} {changes : List ManifestChange}
    (h : BatchAccepted known existingVersions existingTombstones changes registrations) :
    (bindAll known registrations).lookup identity = some r ↔
      (r ∈ registrations ∧ r.identity = identity) ∨
        ((∀ r' ∈ registrations, r'.identity ≠ identity) ∧ known.lookup identity = some r) := by
  rw [bindAll, HashMap.lookup_insertAll]
  · refine or_congr_left ⟨?_, fun hr => ⟨r, hr.1, hr.2, rfl⟩⟩
    rintro ⟨r', hr', hid, rfl⟩
    exact ⟨hr', hid⟩
  · intro a ha b hb heq
    exact inj_on_of_nodup_map h.nodup ha hb heq

/-- The registrations the batch leaves are those the published manifest holds. -/
lemma PreparedHolds.registration_iff (hload : LoadHolds codecs m.rows loaded)
    (h : PreparedHolds orders codecs request loaded registrations prepared) :
    (bindAll loaded.registeredTables registrations).lookup identity = some r ↔
      r.identity = identity ∧
        Holds codecs flag (m.publish prepared.rows).rows (.registration r) := by
  rw [h.batch.accepted.lookup_bindAll, h.batch.holds_publish (by simp) (by simp),
    hload.registrations, @holds_flag_iff codecs flag _ _ true (by simp) (by simp)]
  show _ ↔ r.identity = identity ∧ (r ∈ registrations ∨
    (_ ∧ ¬ ∃ r' ∈ registrations, r'.identity = r.identity))
  push Not
  constructor
  · rintro (⟨hr, hid⟩ | ⟨hno, rfl, hold⟩)
    · exact ⟨hid, .inl hr⟩
    · exact ⟨rfl, .inr ⟨hold, hno⟩⟩
  · rintro ⟨rfl, hr | ⟨hold, hno⟩⟩
    · exact .inl ⟨hr, rfl⟩
    · exact .inr ⟨hno, rfl, hold⟩

/-- A published tombstone is new, or it was there before. -/
lemma PreparedHolds.tombstone_iff (hload : LoadHolds codecs m.rows loaded)
    (h : PreparedHolds orders codecs request loaded registrations prepared) :
    Holds codecs flag (m.publish prepared.rows).rows (.tombstone t) ↔
      tombstone t ∈ request.changes ∨ Holds codecs true m.rows (.tombstone t) := by
  rw [h.batch.holds_publish (by simp) (by simp),
    @holds_flag_iff codecs flag _ _ true (by simp) (by simp)]
  refine or_congr_right (and_iff_left_of_imp ?_)
  -- a tombstone the manifest already has is never written again
  rintro hold ⟨t', ht', hid, hver⟩
  apply (h.batch.accepted.accepted.tombstones t' ht').fresh
  rw [hload.tombstones]
  exact ⟨t, by rw [hid, hver], hold⟩

lemma PreparedHolds.version_iff (hload : LoadHolds codecs m.rows loaded)
    (h : PreparedHolds orders codecs request loaded registrations prepared) {e : SubTableEntry} :
    e ∈ orders.versionValues (foldedVersions loaded.existingVersions request.changes) ↔
      Holds codecs flag (m.publish prepared.rows).rows (.version e) := by
  rw [mem_versionValues, h.batch.holds_publish (by simp) (by simp),
    @holds_flag_iff codecs flag _ _ true (by simp) (by simp)]
  simp only [lookup_foldedVersions h.batch.accepted.accepted, hload.versions]
  show _ ↔ (∃ u, update u ∈ request.changes ∧ u.toEntry = e) ∨
    (_ ∧ ¬ ∃ u, update u ∈ request.changes ∧
      u.identityVersion = e.identityVersion)
  push Not
  constructor
  · rintro ⟨key, ⟨u, hu, -, heq⟩ | ⟨hno, rfl, hold⟩⟩
    · exact .inl ⟨u, hu, heq⟩
    · exact .inr ⟨hold, hno⟩
  · rintro (⟨u, hu, heq⟩ | ⟨hold, hno⟩)
    · exact ⟨_, .inl ⟨u, hu, rfl, heq⟩⟩
    · exact ⟨_, .inr ⟨hno, rfl, hold⟩⟩

lemma PreparedHolds.head_iff (hload : LoadHolds codecs m.rows loaded)
    (h : PreparedHolds orders codecs request loaded registrations prepared)
    {key commitId : String} :
    (request.foldedHeads loaded.graphHeads).lookup key = some commitId ↔
      Holds codecs flag (m.publish prepared.rows).rows (.head key commitId) := by
  rw [h.batch.holds_publish (by simp) (by simp),
    @holds_flag_iff codecs flag _ _ true (by simp) (by simp), ← hload.heads]
  simp only [Writes, Replaces, PublishRequest.foldedHeads]
  cases request.lineage with
  | none => simp
  | some i =>
    rw [HashMap.lookup_insert_ite]
    simp only [Option.some.injEq, exists_eq_left', LineageIntent.headKey]
    split_ifs with hkey
    · simp [← hkey]
    · have := Ne.symm hkey
      simp [this]

/-- Old tombstones stay bound when no rename gives their table another alias. -/
lemma PreparedHolds.tombstonesBound_iff (hload : LoadHolds codecs m.rows loaded)
    (h : PreparedHolds orders codecs request loaded registrations prepared) {flag : Bool} :
    TombstonesBound codecs flag (m.publish prepared.rows).rows ↔
      ∀ rename, renameTable rename ∈ request.changes → rename.ChangesKey →
        ¬ m.HasTombstone rename.identity := by
  constructor
  · intro hbound rename hmem hkey htomb
    obtain ⟨t, ht, hid⟩ := hload.hasTombstone_iff.mp htomb
    obtain ⟨old, hold, holdid, holdkey⟩ := hload.bound t ht
    have hlook := (hload.registrations t.identity old).mpr ⟨holdid, hold⟩
    obtain ⟨r, hr, hrid⟩ := h.batch.accepted.renamed rename hmem hkey
    -- the binding the batch leaves has another alias than the tombstone
    have hrkey : r.tableKey ≠ t.tableKey := by
      rcases h.batch.accepted.origin r hr
        with ⟨hnone, -⟩ | ⟨rename', -, hkey', -, hrkey, old', hold', holdkey', -⟩
      · rw [hrid, ← hid, hlook] at hnone
        cases hnone
      · rw [hrid, ← hid, hlook] at hold'
        cases hold'
        rw [← hrkey, ← holdkey, holdkey']
        exact hkey'
    obtain ⟨r', hr', hrid', hrkey'⟩ := hbound t ((h.tombstone_iff hload).mpr (.inr ht))
    have hlook' := (h.registration_iff hload).mpr ⟨hrid', hr'⟩
    rw [(h.batch.accepted.lookup_bindAll).mpr (.inl ⟨hr, hrid.trans hid.symm⟩)] at hlook'
    cases hlook'
    exact hrkey hrkey'
  · intro hsafe t ht
    rcases (h.tombstone_iff hload).mp ht with hnew | ht
    · obtain ⟨r, hlook, hkey⟩ := (h.batch.accepted.accepted.tombstones t hnew).bound
      obtain ⟨hid, hr⟩ := (h.registration_iff hload).mp hlook
      exact ⟨r, hr, hid, hkey⟩
    · obtain ⟨old, hold, hid, hkey⟩ := hload.bound t ht
      have hlook := (hload.registrations t.identity old).mpr ⟨hid, hold⟩
      have hkept : ∀ r ∈ registrations, r.identity ≠ t.identity := by
        intro r hr hrid
        rcases h.batch.accepted.origin r hr with ⟨hnone, -⟩ | ⟨rename, hmem, hchanges, hrename, -⟩
        · rw [hrid, hlook] at hnone
          cases hnone
        · exact hsafe rename hmem hchanges
            (hload.hasTombstone_iff.mpr ⟨t, ht, (hrename.trans hrid).symm⟩)
      have hafter := (h.batch.accepted.lookup_bindAll).mpr (.inr ⟨hkept, hlook⟩)
      exact ⟨old, ((h.registration_iff hload).mp hafter).2, hid, hkey⟩

/-- For every manifest and every publish an attempt accepts: the manifest it leaves reads back as
the folded state if and only if no rename of the batch gives another alias to a table that has a
tombstone row. -/
theorem fold_eq_rescan_iff {dataset : DatasetRead}
    (hbatches : dataset.batches.flatten.Perm m.rows)
    (hload : loadPublishState codecs dataset = .ok loaded)
    (hprepare : preparePublish orders codecs request loaded = .ok prepared) :
    RescansTo codecs (m.publish prepared.rows) prepared.knownState ↔
      ∀ rename, renameTable rename ∈ request.changes → rename.ChangesKey →
        ¬ m.HasTombstone rename.identity := by
  have hholds := loadPublishState_holds hbatches hload
  obtain ⟨registrations, h⟩ := preparePublish_holds hholds hprepare
  rw [← @PreparedHolds.tombstonesBound_iff _ _ _ _ _ _ _ hholds h true]
  constructor
  · intro hrescan
    -- a scan that succeeds has a registration for every tombstone
    obtain ⟨scan, -, hscan, -⟩ := hrescan true [(m.publish prepared.rows).rows] (.stored _) 0
      (by simp)
    have hnodup : (([(m.publish prepared.rows).rows].flatten).map ManifestRow.objectId).Nodup := by
      rw [flatten_singleton]
      exact (m.publish prepared.rows).nodup
    have hbound := ((readManifestScan_eq_ok_iff hnodup).mp ⟨scan, hscan⟩).2
    rwa [flatten_singleton] at hbound
  · intro hbound flag batches order version hperm
    have hnodup : (batches.flatten.map ManifestRow.objectId).Nodup :=
      (hperm.map _).nodup_iff.mpr (m.publish prepared.rows).nodup
    have hbound' : TombstonesBound codecs flag batches.flatten := by
      rw [TombstonesBound.perm hperm]
      rw [@PreparedHolds.tombstonesBound_iff _ _ _ _ _ _ _ hholds h true] at hbound
      exact (h.tombstonesBound_iff hholds).mpr hbound
    obtain ⟨scan, hscan⟩ := (readManifestScan_eq_ok_iff hnodup).mpr
      ⟨fun row hrow => h.batch.decodes_publish hholds row (hperm.mem_iff.mp hrow), hbound'⟩
    have hread := readManifestScan_holds hnodup hscan
    -- the scan and the fold hold the same registrations, versions and tombstones
    have hversions : ∀ e, e ∈ scan.versionEntries ↔
        e ∈ orders.versionValues (foldedVersions loaded.existingVersions request.changes) := by
      intro e
      rw [hread.versions, Holds.perm hperm, h.version_iff hholds]
    have hshows : Shows scan.tableRegistrations scan.versionEntries
        (scan.tombstones.map fun t => (t.identity, t.tombstoneVersion))
        prepared.knownState.entries := by
      refine h.shows.congr ?_ (fun e => (hversions e).symm) ?_
      · intro identity
        apply Option.ext
        intro r
        rw [hread.registrations, Holds.perm hperm, h.registration_iff hholds]
      · intro key
        simp only [mem_foldedTombstones, mem_tombstoneKeys, hholds.tombstones, List.mem_map,
          hread.tombstones, Holds.perm hperm, h.tombstone_iff hholds]
        constructor
        · rintro (⟨t, hkey, ht⟩ | ⟨t, ht, hkey⟩)
          · exact ⟨t, .inr ht, hkey⟩
          · exact ⟨t, .inl ht, hkey⟩
        · rintro ⟨t, ht | ht, hkey⟩
          · exact .inr ⟨t, ht, hkey⟩
          · exact .inl ⟨t, hkey, ht⟩
    have hfun : Keyed.Functional SubTableEntry.identityVersion scan.versionEntries := by
      have := @LoadHolds.functional_folded codecs orders request loaded m hholds _
        h.batch.accepted.accepted
      intro e he e' he'
      exact this e ((hversions e).mp he) e' ((hversions e').mp he')
    refine ⟨scan, _, hscan, assemble_of_shows hfun hshows, rfl, ?_⟩
    intro key
    apply Option.ext
    intro commitId
    rw [hread.heads, Holds.perm hperm, h.heads, h.head_iff hholds]

end Rescan

/-! ### A renamed table with an old tombstone -/

def personIdentity : TableIdentity := ⟨1, 1⟩

def personRegistration : TableRegistration :=
  ⟨personIdentity, "node:Person", "nodes/0000000000000001-0000000000000001"⟩

def personUpdate (version rowCount : ℕ) (branch : Option String) : SubTableUpdate :=
  ⟨personIdentity, "node:Person", version, branch, rowCount, ⟨"v.manifest", none, none, none⟩⟩

/-- A registered table with one version. -/
def personManifest : Manifest where
  rows := [(bindingRow personRegistration).toRow,
    (updateRow jsonCodecs (personUpdate 2 3 none)).toRow]
  nodup := by decide +kernel

/-- The same table, dropped at version 1 and updated to version 2 afterwards. -/
def revivedManifest : Manifest where
  rows := (tombstoneRow ⟨personIdentity, "node:Person", 1⟩).toRow :: personManifest.rows
  nodup := by decide +kernel

def renamePerson : TableRename :=
  ⟨personIdentity, "node:Person", "node:Human", "nodes/0000000000000001-0000000000000001"⟩

def renameRequest : PublishRequest :=
  ⟨none, [.renameTable renamePerson], ∅, some ⟨"01B", none, none, none, 7, by decide⟩, .any⟩

def datasetOf (m : Manifest) : DatasetRead := ⟨4, .found "main", [m.rows]⟩

theorem fold_eq_rescan_renamed : ∃ loaded prepared,
    loadPublishState jsonCodecs (datasetOf personManifest) = .ok loaded ∧
      preparePublish .stored jsonCodecs renameRequest loaded = .ok prepared ∧
      RescansTo jsonCodecs (personManifest.publish prepared.rows) prepared.knownState := by
  obtain ⟨prepared, h⟩ := exists_eq_ok (x := loadPublishState jsonCodecs
    (datasetOf personManifest) >>= preparePublish .stored jsonCodecs renameRequest)
    (by decide +kernel)
  obtain ⟨loaded, hload, hprepare⟩ := bind_eq_ok_iff.mp h
  refine ⟨loaded, prepared, hload, hprepare, ?_⟩
  apply (fold_eq_rescan_iff (by simp [datasetOf]) hload hprepare).mpr
  rintro rename - - ⟨row, hrow, htype, -⟩
  have hno : ∀ row ∈ personManifest.rows, row.objectType ≠ .tableTombstone := by decide +kernel
  exact hno row hrow htype

/-- The rename is accepted and the manifest it leaves cannot be read. -/
theorem fold_accepts_unreadable : ∃ before loaded prepared,
    readManifestState (.stored _) jsonCodecs 4 [revivedManifest.rows] = .ok before ∧
      loadPublishState jsonCodecs (datasetOf revivedManifest) = .ok loaded ∧
      preparePublish .stored jsonCodecs renameRequest loaded = .ok prepared ∧
      ¬ RescansTo jsonCodecs (revivedManifest.publish prepared.rows) prepared.knownState := by
  obtain ⟨before, hbefore⟩ := exists_eq_ok
    (x := readManifestState (.stored _) jsonCodecs 4 [revivedManifest.rows]) (by decide +kernel)
  obtain ⟨prepared, h⟩ := exists_eq_ok (x := loadPublishState jsonCodecs
    (datasetOf revivedManifest) >>= preparePublish .stored jsonCodecs renameRequest)
    (by decide +kernel)
  obtain ⟨loaded, hload, hprepare⟩ := bind_eq_ok_iff.mp h
  refine ⟨before, loaded, prepared, hbefore, hload, hprepare, ?_⟩
  intro hrescan
  obtain ⟨scan, -, hscan, -⟩ := hrescan true [(revivedManifest.publish prepared.rows).rows]
    (.stored _) 5 (by simp)
  have hfails : ((loadPublishState jsonCodecs (datasetOf revivedManifest) >>=
      preparePublish .stored jsonCodecs renameRequest) >>= fun prepared =>
        readManifestScan jsonCodecs true
          [(revivedManifest.publish prepared.rows).rows]).isOk = false := by decide +kernel
  rw [h] at hfails
  change (readManifestScan jsonCodecs true
    [(revivedManifest.publish prepared.rows).rows]).isOk = false at hfails
  rw [hscan] at hfails
  cases hfails

end Omnigraph
