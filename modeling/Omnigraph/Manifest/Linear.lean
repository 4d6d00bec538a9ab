import Omnigraph.Manifest.History

/-!
# Every run leaves a linear history

The publishers of a branch take their steps in any order. Each step keeps the history linear, and
what every publisher holds in its phase true; so does every run, from every store a branch can
have: the one a graph starts with, the one a run leaves, and the one a fork copies.
-/

namespace Omnigraph

open List Option

/-! ### The invariant -/

/-- What holds of a publisher in its phase. -/
def PhaseHolds {P : Type} (codecs : MetadataCodecs) (orders : P → WalkOrders) (key : String)
    (start : Store) (request : P → PublishRequest) (store : Store)
    (published : List (P × GraphLineageRow)) (p : P) : Phase → Prop
  | .ready _ => True
  | .loaded _ dataset state => Observed codecs key start store dataset state
  | .prepared _ dataset state batch => Observed codecs key start store dataset state ∧
      ∃ registrations,
        PreparedHolds (orders p) codecs (request p) state registrations batch
  | .done _ result => ∀ outcome, result = .ok outcome → ∀ i, (request p).lineage = some i →
      ∃ c, (p, c) ∈ published ∧ c.graphCommitId = i.graphCommitId ∧
        c.parentCommitId = outcome.parentCommitId ∧
        PinsParent codecs start (request p) c.parentCommitId

/-- Who published the commits that have landed. -/
def Owned {P : Type} (request : P → PublishRequest) (w : World P) : Prop :=
  ∀ p c, (p, c) ∈ w.published →
    (∃ i, (request p).lineage = some i ∧ c.graphCommitId = i.graphCommitId) ∧
      ∃ attempts result, w.phase p = .done attempts result

/-- The invariant of every run. -/
structure Linear {P : Type} (codecs : MetadataCodecs) (orders : P → WalkOrders) (key : String)
    (start : Store) (request : P → PublishRequest) (w : World P) : Prop where
  history : LinearHistory codecs key start w.store w.published
  owned : Owned request w
  phases : ∀ p, PhaseHolds codecs orders key start request w.store w.published p (w.phase p)

section Invariant

variable {P : Type} {codecs : MetadataCodecs} {orders : P → WalkOrders}
  {key : String} {start : Store} {request : P → PublishRequest} {w w' : World P}

lemma Settled.linear (h : Settled codecs key start) :
    Linear codecs orders key start request (World.start start) :=
  ⟨h.linearHistory, fun _ _ hmem => (nomatch hmem), fun _ => trivial⟩

/-- A publisher that is not done has published nothing. -/
lemma Linear.unpublished (h : Linear codecs orders key start request w) {p : P}
    (hphase : ∀ attempts result, w.phase p ≠ .done attempts result) (c : GraphLineageRow) :
    (p, c) ∉ w.published := by
  intro hmem
  obtain ⟨-, attempts, result, hdone⟩ := h.owned p c hmem
  exact hphase attempts result hdone

variable {p : P} {published : List (P × GraphLineageRow)} {tried : List Attempt}
  {dataset : DatasetRead} {state : LoadedPublishState} {batch : PreparedPublish}

lemma phaseHolds_afterFailure {store : Store} {attempt : Attempt} {e : OmniError} :
    PhaseHolds codecs orders key start request store published p
      (afterFailure tried attempt e) := by
  unfold afterFailure
  split_ifs with hretry
  · trivial
  · intro outcome hok
    cases hok

/-- A publisher builds its batch, or is done without one. -/
lemma phaseHolds_builtPhase {store : Store} (h : Observed codecs key start store dataset state) :
    PhaseHolds codecs orders key start request store published p (builtPhase tried dataset state
      (preparePublish (orders p) codecs (request p) state)) := by
  cases hprepare : preparePublish (orders p) codecs (request p) state with
  | error e =>
    intro outcome hok
    cases hok
  | ok batch =>
    obtain ⟨m, hload⟩ := h.loaded
    obtain ⟨registrations, hprepared⟩ := preparePublish_holds hload hprepare
    simp only [builtPhase]
    split_ifs with hrows
    · -- a batch without rows has no commit
      intro outcome hok i hi
      have := (hprepared.batch.mem_iff _).mpr (.commit i hi)
      rw [hrows] at this
      cases this
    · exact ⟨h, registrations, hprepared⟩

variable (h : Linear codecs orders key start request w)

include h in
/-- The commit a publisher is about to add has an id of its own. -/
lemma Linear.fresh (hminted : MintedOnce codecs request start) (hp : ∀ c, (p, c) ∉ w.published)
    {i : LineageIntent} (hi : (request p).lineage = some i) :
    ∀ c ∈ commitRows codecs w.store.manifest, c.graphCommitId ≠ i.graphCommitId := by
  intro c hc heq
  rcases (h.history.rows c).mp hc with hc | hc
  · exact hminted.fresh p i hi c hc heq
  · obtain ⟨⟨q, c⟩, hmem, rfl⟩ := List.mem_map.mp hc
    obtain ⟨⟨j, hj, hid⟩, -⟩ := h.owned q c hmem
    obtain rfl := hminted.distinct q p j i hj hi (hid.symm.trans heq)
    exact hp c hmem

variable [DecidableEq P]

include h in
lemma Linear.goto {phase : Phase} (hphase : ∀ attempts result, w.phase p ≠ .done attempts result)
    (hnext : PhaseHolds codecs orders key start request w.store w.published p phase) :
    Linear codecs orders key start request (w.goto p phase) := by
  refine ⟨h.history, fun q c hmem => ?_, fun q => ?_⟩
  · obtain ⟨hintent, hdone⟩ := h.owned q c hmem
    have hne : q ≠ p := by
      rintro rfl
      exact h.unpublished hphase c hmem
    refine ⟨hintent, ?_⟩
    rwa [World.goto_phase_of_ne hne]
  · by_cases hq : q = p
    · subst hq
      rw [World.goto_phase_self]
      exact hnext
    · rw [World.goto_phase_of_ne hq]
      exact h.phases q

lemma Owned.landed (h : Owned request w) {store : Store} (hp : ∀ c, (p, c) ∉ w.published) :
    Owned request (w.landed request p tried dataset state batch store) := by
  intro q c hmem
  have hcases : (q, c) ∈ w.published ++
      (request p).lineage.toList.map fun i => (p, i.commitAt state) := hmem
  rcases mem_append.mp hcases with hold | hnew
  · obtain ⟨hintent, hdone⟩ := h q c hold
    have hne : q ≠ p := by
      rintro rfl
      exact hp c hold
    refine ⟨hintent, ?_⟩
    rwa [World.landed_phase_of_ne hne]
  · obtain ⟨i, hi, heq⟩ := List.mem_map.mp hnew
    cases heq
    exact ⟨⟨i, mem_toList.mp hi, rfl⟩, _, _, World.landed_phase_self⟩

include h in
/-- A batch that lands keeps the history linear. -/
lemma Linear.landed (hon : ∀ p, OnBranch key (request p))
    (hminted : MintedOnce codecs request start)
    (hphase : w.phase p = .prepared tried dataset state batch)
    (hfree : ¬ w.store.Contended dataset.version batch.rows) :
    Linear codecs orders key start request
      (w.landed request p tried dataset state batch (w.store.land batch.rows)) := by
  have hunpublished := @Linear.unpublished _ _ _ _ _ _ _ h p (by simp [hphase])
  have hp := h.phases p
  rw [hphase] at hp
  obtain ⟨hsnap, registrations, hprepared⟩ := hp
  refine ⟨?_, h.owned.landed hunpublished, fun q => ?_⟩
  · show LinearHistory codecs key start (w.store.land batch.rows)
      (w.published ++ (request p).lineage.toList.map fun i => (p, i.commitAt state))
    cases hi : (request p).lineage with
    | none =>
      rw [toList_none, map_nil, append_nil]
      exact h.history.land_none hprepared.batch hi
    | some i =>
      exact h.history.land_some hsnap hprepared.batch (hon p) hi hfree
        (h.fresh hminted hunpublished hi) p
  · by_cases hq : q = p
    · subst hq
      rw [World.landed_phase_self]
      intro outcome hok i hi
      cases hok
      refine ⟨i.commitAt state, mem_append_right _ ?_, rfl, ?_, ?_⟩
      · exact List.mem_map.mpr ⟨i, mem_toList.mpr hi, rfl⟩
      · rw [hprepared.parent, PublishRequest.lineagePart, hi]
        rfl
      · exact hsnap.pinsParent (hon q) hprepared.precondition
    · rw [World.landed_phase_of_ne hq]
      have hother := h.phases q
      cases hphaseq : w.phase q with
      | ready tried => trivial
      | loaded tried' dataset' state' =>
        rw [hphaseq] at hother
        exact hother.land h.history hprepared.batch (hon p)
      | prepared tried' dataset' state' batch' =>
        rw [hphaseq] at hother
        exact ⟨hother.1.land h.history hprepared.batch (hon p), hother.2⟩
      | done attempts result =>
        rw [hphaseq] at hother
        intro outcome hok i hi
        obtain ⟨c, hmem, hc⟩ := hother outcome hok i hi
        exact ⟨c, mem_append_left _ hmem, hc⟩

/-- Every step keeps the history linear. -/
theorem Linear.steps (hon : ∀ p, OnBranch key (request p))
    (hminted : MintedOnce codecs request start) (h : Linear codecs orders key start request w)
    (hstep : Steps codecs orders request w w') : Linear codecs orders key start request w' := by
  cases hstep with
  | misses p tried attempt e hphase hfails =>
    exact h.goto (by simp [hphase]) phaseHolds_afterFailure
  | refused p tried dataset state batch e hphase =>
    exact h.goto (by simp [hphase]) phaseHolds_afterFailure
  | loads p tried dataset state hphase hversion hrows hload =>
    have hstate : state.datasetVersion = dataset.version := by
      obtain ⟨scan, -, hres⟩ := Except.bind_eq_ok_iff.mp hload
      cases hres
      rfl
    have hsnap := h.history.observed (loadPublishState_holds hrows hload) hstate hversion
    exact h.goto (by simp [hphase]) hsnap
  | builds p tried dataset state hphase =>
    have hp := h.phases p
    rw [hphase] at hp
    exact h.goto (by simp [hphase]) (phaseHolds_builtPhase hp)
  | lands p tried dataset state batch hphase hfree => exact h.landed hon hminted hphase hfree

end Invariant

/-! ### The stores a branch can have -/

section Branch

/-- The rows of a table of a new graph. -/
def entryRows (entry : SubTableEntry) (metadata : String) : List ManifestRow :=
  [{ objectId := tableObjectId entry.identity
     objectType := .table
     location := some entry.tablePath
     metadata := none
     tableKey := entry.tableKey
     stableTableId := some entry.identity.stableTableId
     tableIncarnationId := some entry.identity.tableIncarnationId
     tableVersion := none
     tableBranch := none
     rowCount := none },
   { objectId := versionObjectId entry.identity entry.tableVersion
     objectType := .tableVersion
     location := none
     metadata := some metadata
     tableKey := entry.tableKey
     stableTableId := some entry.identity.stableTableId
     tableIncarnationId := some entry.identity.tableIncarnationId
     tableVersion := some entry.tableVersion
     tableBranch := entry.tableBranch
     rowCount := some entry.rowCount }]

def entriesToBatch (entries : List SubTableEntry) (versionMetadata : HashMap TableIdentity String)
    (genesisLineage : List GraphLineageRowPart) : Except OmniError (List ManifestRow) := do
  let tables ← entries.mapM fun entry =>
    match versionMetadata.lookup entry.identity with
    | some metadata => .ok (entryRows entry metadata)
    | none => .error (.manifestInternal
        s!"missing initial version metadata for {entry.tableKey}")
  return tables.flatten ++ genesisLineage.map fun part => (lineagePartToPending part).toRow

/-- The rows of the write that creates a graph's manifest. -/
def initManifestRows (codecs : MetadataCodecs) (entries : List SubTableEntry)
    (versionMetadata : HashMap TableIdentity String) (graphCommitId : String) (createdAt : ℤ) :
    Except OmniError (List ManifestRow) :=
  entriesToBatch entries versionMetadata
    (graphLineageRowParts codecs (genesisCommit graphCommitId createdAt) none)

/-- A native branch copies the rows and goes on from the version it was created at. -/
def Store.fork (store : Store) : Store := { store with log := [] }

/-- The stores a branch can have. A fork has no head row of its own name: the rows of a branch hold
the head rows of the branches it descends from, and none of those can be deleted while it is there
(`ensure_branch_delete_safe`). -/
inductive BranchStore (codecs : MetadataCodecs) : String → Store → Prop
  | init {entries : List SubTableEntry} {versionMetadata : HashMap TableIdentity String}
    {graphCommitId : String} {createdAt : ℤ} {store : Store}
    (ulid : ':' ∉ graphCommitId.toList)
    (rows : initManifestRows codecs entries versionMetadata graphCommitId createdAt =
      .ok store.manifest.rows)
    (version : store.version = genesisManifestVersion) :
    BranchStore codecs mainBranchHeadKey store
  | run {key : String} {store : Store} {P : Type} [DecidableEq P] {orders : P → WalkOrders}
    {request : P → PublishRequest} {events : List (Event P)} {w : World P}
    (before : BranchStore codecs key store) (onBranch : ∀ p, OnBranch key (request p))
    (minted : MintedOnce codecs request store)
    (run : (World.start store).run codecs orders request events = some w) :
    BranchStore codecs key w.store
  | fork {key : String} {store : Store} (source : BranchStore codecs key store) (target : String)
    (headless : ∀ id, ¬ Holds codecs true store.manifest.rows (.head target id)) :
    BranchStore codecs target store.fork

variable {codecs : MetadataCodecs} {key : String} {store : Store}

variable {createdAt : ℤ} {entries : List SubTableEntry} {graphCommitId : String}
  {rows : List ManifestRow} {versionMetadata : HashMap TableIdentity String}

/-- Among the rows of a new graph, the genesis commit and its head row are the only lineage. -/
lemma mem_initManifestRows {row : ManifestRow}
    (h : initManifestRows codecs entries versionMetadata graphCommitId createdAt = .ok rows)
    (hrow : row ∈ rows) :
    row.objectType = .table ∨ row.objectType = .tableVersion ∨
      Decodes codecs true row (.lineage (genesisCommit graphCommitId createdAt)) ∨
      Decodes codecs true row (.head mainBranchHeadKey graphCommitId) := by
  obtain ⟨tables, htables, hres⟩ := Except.bind_eq_ok_iff.mp h
  cases hres
  rcases mem_append.mp hrow with hrow | hrow
  · obtain ⟨table, htable, hrow⟩ := mem_flatten.mp hrow
    obtain ⟨entry, -, hentry⟩ := (Except.mem_mapM htables).mp htable
    split at hentry
    · cases hentry
      simp only [entryRows, mem_cons, not_mem_nil, or_false] at hrow
      rcases hrow with rfl | rfl
      · exact .inl rfl
      · exact .inr (.inl rfl)
    · cases hentry
  · simp only [graphLineageRowParts, map_cons, map_nil, mem_cons,
      not_mem_nil, or_false] at hrow
    rcases hrow with rfl | rfl
    · exact .inr (.inr (.inl decodes_commitRow))
    · exact .inr (.inr (.inr decodes_headRow))

lemma genesis_holds
    (h : initManifestRows codecs entries versionMetadata graphCommitId createdAt = .ok rows) :
    Holds codecs true rows (.lineage (genesisCommit graphCommitId createdAt)) := by
  obtain ⟨tables, -, hres⟩ := Except.bind_eq_ok_iff.mp h
  cases hres
  exact ⟨_, mem_append_right _ mem_cons_self, decodes_commitRow⟩

/-- A new graph's branch is settled on its genesis commit. -/
lemma settled_init (hulid : ':' ∉ graphCommitId.toList)
    (hrows : initManifestRows codecs entries versionMetadata graphCommitId createdAt =
      .ok store.manifest.rows) (hversion : store.version = genesisManifestVersion) :
    Settled codecs mainBranchHeadKey store := by
  have honly : ∀ c ∈ commitRows codecs store.manifest,
      c = genesisCommit graphCommitId createdAt := by
    intro c hc
    obtain ⟨row, hrow, hdec⟩ := mem_commitRows.mp hc
    have htype := (decodes_lineage_iff.mp hdec).1
    rcases mem_initManifestRows hrows hrow with h | h | h | h
    · rw [h] at htype
      cases htype
    · rw [h] at htype
      cases htype
    · cases hdec.unique h
      rfl
    · cases hdec.unique h
  refine ⟨fun c hc => ?_, fun c hc => ?_, fun id hid => ?_⟩
  · rw [honly c hc]
    exact hulid
  · rw [honly c hc, hversion]
    exact le_refl _
  · obtain ⟨row, hrow, hdec⟩ := hid
    have htype := (decodes_head_iff.mp hdec).1
    rcases mem_initManifestRows hrows hrow with h | h | h | h
    · rw [h] at htype
      cases htype
    · rw [h] at htype
      cases htype
    · cases hdec.unique h
    · cases hdec.unique h
      refine ⟨_, ⟨mem_commitRows.mpr (genesis_holds hrows), fun r hr => ?_⟩, rfl⟩
      rw [honly r hr]
      exact .refl _

theorem BranchStore.settled (h : BranchStore codecs key store) : Settled codecs key store := by
  induction h with
  | init hulid hrows hversion => exact settled_init hulid hrows hversion
  | run _ hon hminted hrun ih =>
    exact (run_invariant (Linear.steps hon hminted) ih.linear hrun).history.settled
  | fork _ target hheadless ih =>
    exact ⟨ih.ulid, ih.past, fun id hid => absurd hid (hheadless id)⟩

end Branch

/-! ### The history of every run -/

section Run

variable {P : Type} [DecidableEq P] {codecs : MetadataCodecs} {orders : P → WalkOrders}
  {key : String} {start : Store} {request : P → PublishRequest} {events : List (Event P)}
  {w : World P}

/-- Any number of publishers race on a branch, in any order of steps. Every publish that reports
success has its commit in the manifest exactly once, on the head its precondition names; the
commits of the manifest are those it had and those that were published; and the published ones form
one chain of first parents, on top of the inherited head, in the order in which they landed, with
increasing manifest versions. -/
theorem linear_history (hbranch : BranchStore codecs key start)
    (hon : ∀ p, OnBranch key (request p)) (hminted : MintedOnce codecs request start)
    (hrun : (World.start start).run codecs orders request events = some w) :
    (∀ p attempts outcome i, w.phase p = .done attempts (.ok outcome) →
      (request p).lineage = some i →
      ((commitRows codecs w.store.manifest).map GraphCommit.graphCommitId).count
          i.graphCommitId = 1 ∧
        ∃ c ∈ commitRows codecs w.store.manifest, (p, c) ∈ w.published ∧
          c.graphCommitId = i.graphCommitId ∧ c.parentCommitId = outcome.parentCommitId ∧
          PinsParent codecs start (request p) c.parentCommitId) ∧
    (∀ c, c ∈ commitRows codecs w.store.manifest ↔
      c ∈ commitRows codecs start.manifest ∨ c ∈ w.published.map Prod.snd) ∧
    (chainSince codecs start w.published).IsChain OnTopOf := by
  have h := run_invariant (Linear.steps hon hminted) hbranch.settled.linear hrun
  refine ⟨fun p attempts outcome i hdone hi => ?_, h.history.rows, h.history.chain⟩
  have hp := h.phases p
  rw [hdone] at hp
  obtain ⟨c, hmem, hid, hparent, hpins⟩ := hp outcome rfl i hi
  have hc : c ∈ commitRows codecs w.store.manifest :=
    (h.history.rows c).mpr (.inr (List.mem_map_of_mem hmem))
  refine ⟨?_, c, hc, hmem, hid, hparent, hpins⟩
  rw [← hid]
  exact count_eq_one_of_mem (nodup_commitRows codecs _) (List.mem_map_of_mem hc)

end Run

lemma raceRequest_mintedOnce : MintedOnce jsonCodecs raceRequest newGraph := by
  have hids : ∀ p i, (raceRequest p).lineage = some i →
      i.graphCommitId = if p then "01B" else "01C" := by
    rintro p i ⟨⟩
    rfl
  refine ⟨fun p q i j hi hj heq => ?_, fun p i hi c hc => ?_⟩
  · rw [hids p i hi, hids q j hj] at heq
    clear hi hj
    decide +revert
  · have hgenesis : ∀ c ∈ commitRows jsonCodecs newGraph.manifest, c.graphCommitId = "01A" := by
      decide +kernel
    rw [hids p i hi, hgenesis c hc]
    clear hi
    decide +revert

theorem linear_history_race : ∃ events w,
    (World.start newGraph).run jsonCodecs (fun _ => .stored) raceRequest events = some w ∧
      (∀ p, (w.phase p).succeeded) ∧ (chainSince jsonCodecs newGraph w.published).IsChain OnTopOf ∧
      ∀ p attempts outcome i, w.phase p = .done attempts (.ok outcome) →
        (raceRequest p).lineage = some i →
        ((commitRows jsonCodecs w.store.manifest).map GraphCommit.graphCommitId).count
          i.graphCommitId = 1 := by
  have hsome : ((World.start newGraph).run jsonCodecs (fun _ => .stored) raceRequest raceEvents >>=
      fun w => w.run jsonCodecs (fun _ => .stored) raceRequest (retryEvents w)).any
        (fun w => (w.phase true).succeeded && (w.phase false).succeeded) = true := by
    decide +kernel
  obtain ⟨w, hrun, hdone⟩ := (Option.any_eq_true _ _).mp hsome
  obtain ⟨w1, hrace, hretry⟩ := bind_eq_some_iff.mp hrun
  have hwhole : (World.start newGraph).run jsonCodecs (fun _ => .stored) raceRequest
      (raceEvents ++ retryEvents w1) = some w := by
    rw [World.run, foldlM_append]
    exact bind_eq_some_iff.mpr ⟨w1, hrace, hretry⟩
  have hbranch : BranchStore jsonCodecs mainBranchHeadKey newGraph :=
    @BranchStore.init jsonCodecs [] ∅ "01A" 5 newGraph (by decide) rfl rfl
  have hon : ∀ p, OnBranch mainBranchHeadKey (raceRequest p) := by
    intro p
    refine ⟨rfl, ?_⟩
    rintro i ⟨⟩
    rfl
  obtain ⟨hpublished, -, hchain⟩ := linear_history hbranch hon raceRequest_mintedOnce hwhole
  refine ⟨_, w, hwhole, ?_, hchain, fun p attempts outcome i hp hi => ?_⟩
  · simpa [Bool.forall_bool, and_comm] using hdone
  · exact (hpublished p attempts outcome i hp hi).1

end Omnigraph
