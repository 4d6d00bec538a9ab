import Omnigraph.Manifest.Fold

/-!
# Which updates a publish makes visible

A publish that succeeds has recorded every update of its batch, but the state it returns shows an
update only when its version is the greatest of its identity and above every tombstone. The
publisher compares the new version neither with the visible one nor with its tombstones, so an
update can be acknowledged and stay invisible. `updates_visible_iff` says when none does.
-/

namespace Omnigraph

open Except ManifestChange

variable {codecs : MetadataCodecs} {orders : WalkOrders} {request : PublishRequest}

/-! ### The attempt a publish succeeds with -/

/-- The outcome comes from this attempt: from its load and its merge-insert, or from a plain read
when there is nothing to publish. -/
inductive PublishedBy (orders : WalkOrders) (codecs : MetadataCodecs) (request : PublishRequest)
    (attempt : Attempt) (dataset : DatasetRead) (outcome : PublishOutcome) : Prop
  | prepared (loaded : LoadedPublishState) (p : PreparedPublish)
    (opened : attempt.opened = .ok dataset)
    (load : loadPublishState codecs dataset = .ok loaded)
    (prepare : preparePublish orders codecs request loaded = .ok p)
    (entries : outcome.knownState.entries = p.knownState.entries)
  | noop (opened : attempt.opened = .ok dataset) (nothing : request.changes = [])
    (read : readManifestState orders.latest codecs dataset.version dataset.batches =
      .ok outcome.knownState)

variable {outcome : PublishOutcome}

/-- An acknowledged request was published by one of the attempts. -/
lemma publishLoop_eq_ok {attempts : List Attempt}
    (h : publishLoop orders codecs request attempts = .ok outcome) :
    ∃ attempt ∈ attempts, ∃ dataset,
      PublishedBy orders codecs request attempt dataset outcome := by
  induction attempts with
  | nil => cases h
  | cons attempt rest ih =>
    -- a retry hands the outcome to a later attempt
    have hretry : ∀ {e : OmniError}, (if rest ≠ [] ∧ e.isRetryablePublishConflict = true then
        publishLoop orders codecs request rest else .error e) = .ok outcome →
        ∃ attempt' ∈ attempt :: rest, ∃ dataset,
          PublishedBy orders codecs request attempt' dataset outcome := by
      intro e h
      split_ifs at h
      obtain ⟨attempt', hmem, hpub⟩ := ih h
      exact ⟨attempt', List.mem_cons_of_mem _ hmem, hpub⟩
    rw [publishLoop] at h
    cases hload : attempt.opened >>= loadPublishState codecs with
    | error e =>
      rw [hload] at h
      exact hretry h
    | ok loaded =>
      rw [hload] at h
      obtain ⟨dataset, hopened, hloaded⟩ := bind_eq_ok_iff.mp hload
      obtain ⟨p, hprepare, h⟩ := bind_eq_ok_iff.mp h
      have hdone : outcome.knownState.entries = p.knownState.entries →
          ∃ attempt' ∈ attempt :: rest, ∃ dataset,
            PublishedBy orders codecs request attempt' dataset outcome := fun hentries =>
        ⟨attempt, List.mem_cons_self, dataset,
          .prepared loaded p hopened hloaded hprepare hentries⟩
      split_ifs at h with hrows
      · cases h
        exact hdone rfl
      · cases hmerged : attempt.merged with
        | ok version =>
          rw [hmerged] at h
          cases h
          exact hdone rfl
        | error e =>
          rw [hmerged] at h
          exact hretry h

theorem publishWithPrecondition_eq_ok {attempts : Fin (publisherRetryBudget + 1) → Attempt}
    (h : publishWithPrecondition orders codecs request attempts = .ok outcome) :
    ∃ i dataset, PublishedBy orders codecs request (attempts i) dataset outcome := by
  unfold publishWithPrecondition at h
  split_ifs at h with hnoop
  · obtain ⟨dataset, hopened, h⟩ := bind_eq_ok_iff.mp h
    obtain ⟨state, hread, h⟩ := bind_eq_ok_iff.mp h
    cases h
    have hchanges : request.changes = [] := by
      simp only [PublishRequest.isNoop, decide_eq_true_eq] at hnoop
      exact List.isEmpty_iff.mp hnoop.1
    exact ⟨0, dataset, .noop hopened hchanges hread⟩
  · obtain ⟨attempt, hmem, dataset, hpub⟩ := publishLoop_eq_ok h
    obtain ⟨i, rfl⟩ := List.mem_ofFn.mp hmem
    exact ⟨i, dataset, hpub⟩

/-! ### What the property says -/

def ManifestChange.identity : ManifestChange → TableIdentity
  | .update u => u.identity
  | .registerTable r => r.identity
  | .renameTable r => r.identity
  | .tombstone t => t.identity

/-- The state shows the update as the one entry of its identity. -/
def ShowsUpdate (state : ManifestState) (u : SubTableUpdate) : Prop :=
  ∃ entry ∈ state.entries, entry.identity = u.identity ∧ entry.tableVersion = u.tableVersion ∧
    entry.tableBranch = u.tableBranch ∧ entry.rowCount = u.rowCount ∧
    entry.versionMetadata = u.versionMetadata ∧
    ∀ other ∈ state.entries, other.identity = u.identity → other = entry

/-- The batch does not drop the table it updates. -/
def Untombstoned (changes : List ManifestChange) (u : SubTableUpdate) : Prop :=
  ∀ t, tombstone t ∈ changes → t.identity ≠ u.identity

/-- Every update that its batch does not drop is shown, and tables the batch does not mention keep
their entry. -/
structure NoUpdateLost (changes : List ManifestChange) (before after : ManifestState) : Prop where
  updates : ∀ u, update u ∈ changes → Untombstoned changes u → ShowsUpdate after u
  others : ∀ entry : SubTableEntry, (∀ change ∈ changes, change.identity ≠ entry.identity) →
    (entry ∈ after.entries ↔ entry ∈ before.entries)

/-- The update's version is the greatest its identity will have, and above its tombstones. -/
structure Manifest.IsNewest (m : Manifest) (changes : List ManifestChange) (u : SubTableUpdate) :
    Prop where
  versions : ∀ row ∈ m.rows, row.objectType = .tableVersion → row.HasIdentity u.identity →
    ∀ v, row.tableVersion = some v → v ≤ u.tableVersion
  tombstones : ∀ row ∈ m.rows, row.objectType = .tableTombstone → row.HasIdentity u.identity →
    ∀ v, row.tableVersion = some v → v < u.tableVersion
  updates : ∀ u', update u' ∈ changes → u'.identity = u.identity →
    u'.tableVersion ≤ u.tableVersion

/-! ### Live entries after the batch -/

section Live

variable {m : Manifest} {loaded : LoadedPublishState} {prepared : PreparedPublish}
  {registrations : List TableRegistration} {u : SubTableUpdate} {entry : SubTableEntry}

variable (hload : LoadHolds codecs m.rows loaded)

variable (h : PreparedHolds orders codecs request loaded registrations prepared)

include h hload in
lemma PreparedHolds.mem_versions :
    entry ∈ orders.versionValues (foldedVersions loaded.existingVersions request.changes) ↔
      (∃ u, update u ∈ request.changes ∧ u.toEntry = entry) ∨
        (Holds codecs true m.rows (.version entry) ∧
          ∀ u, update u ∈ request.changes →
            u.identityVersion ≠ entry.identityVersion) := by
  rw [h.version_iff hload, h.batch.holds_publish (by simp) (by simp)]
  simp only [Writes, Replaces]
  push Not
  exact Iff.rfl

include hload in
lemma PreparedHolds.mem_tombstones
    (_ : PreparedHolds orders codecs request loaded registrations prepared)
    {key : TableIdentity × ℕ} :
    key ∈ foldedTombstones (orders.tombstoneKeys loaded.existingTombstones) request.changes ↔
      (∃ t : TableTombstone, (t.identity, t.tombstoneVersion) = key ∧
          Holds codecs true m.rows (.tombstone t)) ∨
        ∃ t, tombstone t ∈ request.changes ∧
          (t.identity, t.tombstoneVersion) = key := by
  rw [mem_foldedTombstones, mem_tombstoneKeys, hload.tombstones]

variable {identity : TableIdentity} {row : ManifestRow} {v : ℕ}

include hload in
/-- A row that carries an identity and a version, among rows that all decode. -/
lemma LoadHolds.version_row (hrow : row ∈ m.rows) (htype : row.objectType = .tableVersion)
    (hid : row.HasIdentity identity) (hver : row.tableVersion = some v) :
    ∃ e, Holds codecs true m.rows (.version e) ∧ e.identity = identity ∧ e.tableVersion = v := by
  obtain ⟨item, hdec⟩ := hload.decodes row hrow
  obtain ⟨identity', v', _, _, _, hid', hver', -, -, -, -, rfl⟩ := (decodeRow_version htype).mp hdec
  exact ⟨_, ⟨row, hrow, hdec⟩, hid'.unique hid, Option.some.inj (hver'.symm.trans hver)⟩

include hload in
lemma LoadHolds.tombstone_row (hrow : row ∈ m.rows) (htype : row.objectType = .tableTombstone)
    (hid : row.HasIdentity identity) (hver : row.tableVersion = some v) :
    ∃ t, Holds codecs true m.rows (.tombstone t) ∧ t.identity = identity ∧
      t.tombstoneVersion = v := by
  obtain ⟨item, hdec⟩ := hload.decodes row hrow
  obtain ⟨identity', v', hid', hver', -, rfl⟩ := (decodeRow_tombstone htype).mp hdec
  exact ⟨_, ⟨row, hrow, hdec⟩, hid'.unique hid, Option.some.inj (hver'.symm.trans hver)⟩

include h hload in
/-- The update's entry is live after the batch exactly when the update is the newest. -/
lemma PreparedHolds.isLive_update_iff (hu : update u ∈ request.changes)
    (hkeep : Untombstoned request.changes u) :
    IsLive (orders.versionValues (foldedVersions loaded.existingVersions request.changes))
      (foldedTombstones (orders.tombstoneKeys loaded.existingTombstones) request.changes)
      u.toEntry ↔ m.IsNewest request.changes u := by
  constructor
  · intro hlive
    have hupdates : ∀ u', update u' ∈ request.changes →
        u'.identity = u.identity → u'.tableVersion ≤ u.tableVersion := fun u' hu' hid =>
      hlive.latest u'.toEntry ((h.mem_versions hload).mpr (.inl ⟨u', hu', rfl⟩)) hid
    refine ⟨?_, ?_, hupdates⟩
    · intro row hrow htype hid v hver
      obtain ⟨e, he, heid, rfl⟩ := hload.version_row hrow htype hid hver
      by_cases hrep : ∃ u', update u' ∈ request.changes ∧
          u'.identityVersion = e.identityVersion
      · -- the row is replaced by an update with the same version
        obtain ⟨u', hu', heq⟩ := hrep
        obtain ⟨hident, hversion⟩ := Prod.mk.inj heq
        rw [← hversion]
        exact hupdates u' hu' (hident.trans heid)
      · push Not at hrep
        exact hlive.latest e ((h.mem_versions hload).mpr (.inr ⟨he, hrep⟩)) heid
    · intro row hrow htype hid v hver
      obtain ⟨t, ht, htid, rfl⟩ := hload.tombstone_row hrow htype hid hver
      exact hlive.unsealed (t.identity, t.tombstoneVersion)
        ((h.mem_tombstones hload).mpr (.inl ⟨t, rfl, ht⟩)) htid
  · intro hnew
    refine ⟨(h.mem_versions hload).mpr (.inl ⟨u, hu, rfl⟩), ?_, ?_⟩
    · intro other hother hid
      rcases (h.mem_versions hload).mp hother with ⟨u', hu', rfl⟩ | ⟨⟨row, hrow, hdec⟩, -⟩
      · exact hnew.updates u' hu' hid
      · obtain ⟨htype, hrid, hver, -⟩ := decodes_version_iff.mp hdec
        change other.identity = u.identity at hid
        exact hnew.versions row hrow htype (hid ▸ hrid) _ hver
    · intro key hkey hid
      rcases (h.mem_tombstones hload).mp hkey with ⟨t, rfl, row, hrow, hdec⟩ | ⟨t, ht, rfl⟩
      · obtain ⟨htype, hrid, hver, -⟩ := decodes_tombstone_iff.mp hdec
        change t.identity = u.identity at hid
        exact hnew.tombstones row hrow htype (hid ▸ hrid) _ hver
      · exact absurd hid (hkeep t ht)

include h hload in
lemma PreparedHolds.showsUpdate_iff (hu : update u ∈ request.changes)
    (hkeep : Untombstoned request.changes u) :
    ShowsUpdate prepared.knownState u ↔ m.IsNewest request.changes u := by
  rw [← h.isLive_update_iff hload hu hkeep]
  have hfun := @LoadHolds.functional_folded codecs orders request loaded m hload _
    h.batch.accepted.accepted
  have hmem := (h.mem_versions hload).mpr (.inl ⟨u, hu, rfl⟩)
  constructor
  · rintro ⟨entry, hentry, hid, hver, -⟩
    obtain ⟨raw, registration, hlive, -, rfl⟩ := (h.shows.mem_iff entry).mp hentry
    have : raw = u.toEntry := hfun raw hlive.mem u.toEntry hmem (Prod.ext hid hver)
    exact this ▸ hlive
  · intro hlive
    obtain ⟨registration, hreg⟩ := h.shows.registered _ hlive
    have hentry := (h.shows.mem_iff _).mpr ⟨u.toEntry, registration, hlive, hreg, rfl⟩
    refine ⟨_, hentry, rfl, rfl, rfl, rfl, rfl, ?_⟩
    intro other hother hid
    exact List.inj_on_of_nodup_map h.shows.nodup hother hentry hid

/-- What a read of the manifest shows, in terms of what its rows hold. -/
structure ReadShows (codecs : MetadataCodecs) (rows : List ManifestRow)
    (registrations : HashMap TableIdentity TableRegistration) (versions : List SubTableEntry)
    (tombstones : List (TableIdentity × ℕ)) (state : ManifestState) : Prop where
  shows : Shows registrations versions tombstones state.entries
  registration_iff : ∀ identity r, registrations.lookup identity = some r ↔
    r.identity = identity ∧ Holds codecs true rows (.registration r)
  version_iff : ∀ e, e ∈ versions ↔ Holds codecs true rows (.version e)
  tombstone_iff : ∀ key, key ∈ tombstones ↔ ∃ t : TableTombstone,
    (t.identity, t.tombstoneVersion) = key ∧ Holds codecs true rows (.tombstone t)

variable {before : ManifestState}

/-- A reader shows the rows of the manifest, in whatever batches they come. -/
lemma readManifestState_shows {batches : List (List ManifestRow)} {version : ℕ}
    {order : IterOrder (Sigma fun _ : TableIdentity => SubTableEntry)}
    (hperm : batches.flatten.Perm m.rows)
    (h : readManifestState order codecs version batches = .ok before) :
    ∃ registrations versions tombstones,
      ReadShows codecs m.rows registrations versions tombstones before := by
  obtain ⟨scan, hscan, hassemble⟩ := bind_eq_ok_iff.mp h
  have hnodup : (batches.flatten.map ManifestRow.objectId).Nodup :=
    (hperm.map _).nodup_iff.mpr m.nodup
  have hread := readManifestScan_holds hnodup hscan
  have hversions : ∀ e, e ∈ scan.versionEntries ↔ Holds codecs true m.rows (.version e) := by
    intro e
    rw [hread.versions, Holds.perm hperm, @holds_flag_iff codecs false _ _ true (by simp) (by simp)]
  have hfun : Keyed.Functional SubTableEntry.identityVersion scan.versionEntries := by
    intro e he e' he' heq
    obtain ⟨hident, hver⟩ := Prod.mk.inj heq
    have hid : versionObjectId e.identity e.tableVersion =
        versionObjectId e'.identity e'.tableVersion := by rw [hident, hver]
    have := ((hversions e).mp he).eq_of_objectId m.nodup ((hversions e').mp he')
      (congrArg some hid) rfl
    exact ManifestItem.version.inj this
  refine ⟨_, _, _, (assemble_eq_ok hfun hassemble).1, ?_, hversions, ?_⟩
  · intro identity r
    rw [hread.registrations, Holds.perm hperm,
      @holds_flag_iff codecs false _ _ true (by simp) (by simp)]
  · intro key
    simp only [List.mem_map, hread.tombstones, Holds.perm hperm]
    refine exists_congr fun t => ?_
    rw [@holds_flag_iff codecs false _ _ true (by simp) (by simp), and_comm]

include h hload in
/-- A table the batch does not mention keeps its entry. -/
lemma PreparedHolds.entry_kept {old : HashMap TableIdentity TableRegistration}
    {versions : List SubTableEntry} {tombstones : List (TableIdentity × ℕ)}
    (hbefore : ReadShows codecs m.rows old versions tombstones before)
    (hother : ∀ change ∈ request.changes, change.identity ≠ entry.identity) :
    entry ∈ prepared.knownState.entries ↔ entry ∈ before.entries := by
  have hversion : ∀ {e : SubTableEntry}, e.identity = entry.identity →
      (e ∈ orders.versionValues (foldedVersions loaded.existingVersions request.changes) ↔
        e ∈ versions) := by
    intro e hid
    rw [h.mem_versions hload, hbefore.version_iff]
    constructor
    · rintro (⟨u, hu, rfl⟩ | ⟨he, -⟩)
      · exact absurd hid (hother _ hu)
      · exact he
    · exact fun he => .inr ⟨he, fun u hu heq =>
        hother _ hu ((congrArg Prod.fst heq).trans hid)⟩
  have htombstone : ∀ {key : TableIdentity × ℕ}, key.1 = entry.identity →
      (key ∈ foldedTombstones (orders.tombstoneKeys loaded.existingTombstones) request.changes ↔
        key ∈ tombstones) := by
    intro key hid
    rw [h.mem_tombstones hload, hbefore.tombstone_iff]
    constructor
    · rintro (ht | ⟨t, ht, rfl⟩)
      · exact ht
      · exact absurd hid (hother _ ht)
    · exact .inl
  have hlive : ∀ {raw : SubTableEntry}, raw.identity = entry.identity →
      (IsLive (orders.versionValues (foldedVersions loaded.existingVersions request.changes))
        (foldedTombstones (orders.tombstoneKeys loaded.existingTombstones) request.changes) raw ↔
        IsLive versions tombstones raw) := by
    intro raw hid
    constructor
    · intro hl
      exact ⟨(hversion hid).mp hl.mem,
        fun o ho hoid => hl.latest o ((hversion (hoid.trans hid)).mpr ho) hoid,
        fun t ht htid => hl.unsealed t ((htombstone (htid.trans hid)).mpr ht) htid⟩
    · intro hl
      exact ⟨(hversion hid).mpr hl.mem,
        fun o ho hoid => hl.latest o ((hversion (hoid.trans hid)).mp ho) hoid,
        fun t ht htid => hl.unsealed t ((htombstone (htid.trans hid)).mp ht) htid⟩
  have hlookup : ∀ r, (bindAll loaded.registeredTables registrations).lookup entry.identity =
      some r ↔ old.lookup entry.identity = some r := by
    intro r
    rw [h.batch.accepted.lookup_bindAll, hload.registrations, hbefore.registration_iff]
    have hno : ∀ r' ∈ registrations, r'.identity ≠ entry.identity := by
      intro r' hr' hid
      rcases h.batch.accepted.origin r' hr' with ⟨-, hmem⟩ | ⟨rename, hmem, -, hrename, -⟩
      · exact hother _ hmem hid
      · exact hother _ hmem (hrename.trans hid)
    constructor
    · rintro (⟨hr, hid⟩ | ⟨-, hr⟩)
      · exact absurd hid (hno r hr)
      · exact hr
    · exact fun hr => .inr ⟨hno, hr⟩
  rw [h.shows.mem_iff, hbefore.shows.mem_iff]
  refine exists_congr fun raw => exists_congr fun r => ?_
  constructor
  · rintro ⟨hl, hr, rfl⟩
    exact ⟨(@hlive raw rfl).mp hl, (hlookup r).mp hr, rfl⟩
  · rintro ⟨hl, hr, rfl⟩
    exact ⟨(@hlive raw rfl).mpr hl, (hlookup r).mpr hr, rfl⟩

end Live

/-! ### The result -/

/-- For every publish that succeeds, over whatever attempts: on the manifest its attempt read, no
update is lost if and only if every update the batch does not drop is the newest of its table. -/
theorem updates_visible_iff {attempts : Fin (publisherRetryBudget + 1) → Attempt}
    {outcome : PublishOutcome}
    (h : publishWithPrecondition orders codecs request attempts = .ok outcome) :
    ∃ i dataset, PublishedBy orders codecs request (attempts i) dataset outcome ∧
      ∀ (m : Manifest) (order : IterOrder (Sigma fun _ : TableIdentity => SubTableEntry))
        (version : ℕ) (before : ManifestState), dataset.batches.flatten.Perm m.rows →
        readManifestState order codecs version dataset.batches = .ok before →
        (NoUpdateLost request.changes before outcome.knownState ↔
          ∀ u, update u ∈ request.changes → Untombstoned request.changes u →
            m.IsNewest request.changes u) := by
  obtain ⟨i, dataset, hpub⟩ := publishWithPrecondition_eq_ok h
  refine ⟨i, dataset, hpub, ?_⟩
  intro m order version before hperm hread
  obtain ⟨old, versions, tombstones, hbefore⟩ := readManifestState_shows hperm hread
  -- an empty request shows what was there, another one the fold of its changes
  cases hpub with
  | noop hopened hnothing hread' =>
    obtain ⟨old', versions', tombstones', hafter⟩ := readManifestState_shows hperm hread'
    have hsame : Shows old versions tombstones outcome.knownState.entries := by
      refine hafter.shows.congr ?_ ?_ ?_
      · intro identity
        apply Option.ext
        intro r
        rw [hafter.registration_iff, hbefore.registration_iff]
      · intro e
        rw [hafter.version_iff, hbefore.version_iff]
      · intro key
        rw [hafter.tombstone_iff, hbefore.tombstone_iff]
    constructor
    · simp [hnothing]
    · intro _
      refine ⟨by simp [hnothing], fun entry _ => ?_⟩
      rw [hsame.mem_iff, hbefore.shows.mem_iff]
  | prepared loaded p hopened hload hprepare hentries =>
    have hholds := loadPublishState_holds hperm hload
    obtain ⟨registrations, hp⟩ := preparePublish_holds hholds hprepare
    have hshows : ∀ u, ShowsUpdate outcome.knownState u ↔ ShowsUpdate p.knownState u := by
      intro u
      rw [ShowsUpdate, ShowsUpdate, hentries]
    constructor
    · intro hlost u hu hkeep
      exact (hp.showsUpdate_iff hholds hu hkeep).mp ((hshows u).mp (hlost.updates u hu hkeep))
    · intro hnewest
      refine ⟨?_, ?_⟩
      · intro u hu hkeep
        exact (hshows u).mpr ((hp.showsUpdate_iff hholds hu hkeep).mpr (hnewest u hu hkeep))
      · intro entry hother
        rw [hentries]
        exact hp.entry_kept hholds hbefore hother

def updateRequest (u : SubTableUpdate) (visible : ℕ) : PublishRequest where
  publisherBranch := some "topic"
  changes := [.update u]
  expectedTableVersions := (∅ : ExpectedTableVersions).insert personIdentity
    ⟨"node:Person", visible⟩
  lineage := some ⟨"01C", some "topic", none, none, 9, by decide⟩
  precondition := .any

/-- Every attempt opens the manifest, and the first merge-insert wins. -/
def attemptOn (m : Manifest) : Attempt := ⟨.ok (datasetOf m), .ok 5⟩

/-- Version 3 on top of version 2. -/
theorem updates_visible_ascending : ∃ before outcome,
    readManifestState (.stored _) jsonCodecs 4 [personManifest.rows] = .ok before ∧
      publishWithPrecondition .stored jsonCodecs (updateRequest (personUpdate 3 8 none) 2)
        (fun _ => attemptOn personManifest) = .ok outcome ∧
      NoUpdateLost [.update (personUpdate 3 8 none)] before outcome.knownState := by
  obtain ⟨before, hbefore⟩ := exists_eq_ok
    (x := readManifestState (.stored _) jsonCodecs 4 [personManifest.rows]) (by decide +kernel)
  obtain ⟨outcome, houtcome⟩ := exists_eq_ok
    (x := publishWithPrecondition .stored jsonCodecs (updateRequest (personUpdate 3 8 none) 2)
      (fun _ => attemptOn personManifest)) (by decide +kernel)
  refine ⟨before, outcome, hbefore, houtcome, ?_⟩
  obtain ⟨i, dataset, hpub, hiff⟩ := updates_visible_iff houtcome
  have hdataset : dataset = datasetOf personManifest := by
    cases hpub with
    | prepared loaded p hopened => exact (Except.ok.inj hopened).symm
    | noop hopened => exact (Except.ok.inj hopened).symm
  subst hdataset
  apply (hiff personManifest (.stored _) 4 before (by simp [datasetOf]) hbefore).mpr
  have hversions : ∀ row ∈ personManifest.rows, row.tableVersion.getD 0 < 3 := by decide +kernel
  intro u hu _
  cases List.mem_singleton.mp hu
  refine ⟨?_, ?_, ?_⟩
  · intro row hrow _ _ v hv
    have := hversions row hrow
    rw [hv] at this
    exact Nat.le_of_lt this
  · intro row hrow _ _ v hv
    have := hversions row hrow
    rwa [hv] at this
  · intro u' hu' _
    cases List.mem_singleton.mp hu'
    exact Nat.le_refl _

/-- A branch that owns version 7 of a table. -/
def ownedManifest : Manifest where
  rows := [(bindingRow personRegistration).toRow,
    (updateRow jsonCodecs (personUpdate 7 3 (some "topic"))).toRow]
  nodup := by decide +kernel

/-- Switching the branch back to version 5 of main is acknowledged, with the visible version
expected, and version 7 stays the one shown. -/
theorem update_acknowledged_and_hidden : ∃ before outcome,
    readManifestState (.stored _) jsonCodecs 4 [ownedManifest.rows] = .ok before ∧
      (∃ entry ∈ before.entries, entry.identity = personIdentity ∧
        (updateRequest (personUpdate 5 9 none) 7).expectedTableVersions.lookup personIdentity =
          some ⟨entry.tableKey, entry.tableVersion⟩) ∧
      publishWithPrecondition .stored jsonCodecs (updateRequest (personUpdate 5 9 none) 7)
        (fun _ => attemptOn ownedManifest) = .ok outcome ∧
      ¬ NoUpdateLost [.update (personUpdate 5 9 none)] before outcome.knownState := by
  obtain ⟨before, hbefore⟩ := exists_eq_ok
    (x := readManifestState (.stored _) jsonCodecs 4 [ownedManifest.rows]) (by decide +kernel)
  obtain ⟨outcome, houtcome⟩ := exists_eq_ok
    (x := publishWithPrecondition .stored jsonCodecs (updateRequest (personUpdate 5 9 none) 7)
      (fun _ => attemptOn ownedManifest)) (by decide +kernel)
  refine ⟨before, outcome, hbefore, ?_, houtcome, ?_⟩
  · have hvisible : (match readManifestState (.stored _) jsonCodecs 4 [ownedManifest.rows] with
        | .ok state => decide (∃ entry ∈ state.entries, entry.identity = personIdentity ∧
            (updateRequest (personUpdate 5 9 none) 7).expectedTableVersions.lookup personIdentity =
              some ⟨entry.tableKey, entry.tableVersion⟩)
        | .error _ => false) = true := by decide +kernel
    rw [hbefore] at hvisible
    exact of_decide_eq_true hvisible
  · intro hlost
    obtain ⟨entry, hentry, -, hversion, -⟩ := hlost.updates (personUpdate 5 9 none) (by simp)
      (by simp [Untombstoned])
    have hshown : (match publishWithPrecondition .stored jsonCodecs
          (updateRequest (personUpdate 5 9 none) 7) (fun _ => attemptOn ownedManifest) with
        | .ok outcome => decide (∀ entry ∈ outcome.knownState.entries, entry.tableVersion = 7)
        | .error _ => false) = true := by decide +kernel
    rw [houtcome] at hshown
    have := of_decide_eq_true hshown entry hentry
    rw [hversion] at this
    exact absurd this (by decide)

end Omnigraph
