import Omnigraph.Cluster.Fenced
import Omnigraph.Cluster.Valid

/-!
# One approval, one delete

A delete of a graph needs an approval. The approval is named by the sidecar of the delete before the
root is removed, and recorded in the ledger with the delete; its file is marked afterwards, and that
may fail. Removals are logged along runs of commands that stop anywhere, and the log says of each
which approval authorized it.
-/

namespace Omnigraph.Cluster

open List BTreeMap

variable {hasher : Hasher} {engine : Engine} {store : ClusterStore} {env : Env}
  {desired : DesiredCluster} {w : World}

/-! ### Recorded approvals -/

/-- The approvals that are recorded in the first ledger are in the second. -/
def KeepsRecords (state state' : ClusterState) : Prop :=
  ∀ approvalId ∈ state.approvalRecords, approvalId ∈ state'.approvalRecords

variable {s s' : ClusterState} {α : Type} {deleted : String × Option String}

lemma KeepsRecords.trans {s'' : ClusterState} (h : KeepsRecords s s') (h' : KeepsRecords s' s'') :
    KeepsRecords s s'' := fun a ha => h' a (h a ha)

lemma keepsRecords_of_eq (h : s'.approvalRecords = s.approvalRecords) :
    KeepsRecords s s' := fun _ ha => h ▸ ha

lemma keepsRecords_foldl {f : ClusterState → α → ClusterState}
    (hf : ∀ state a, KeepsRecords state (f state a)) (l : List α) (state : ClusterState) :
    KeepsRecords state (l.foldl f state) := by
  induction l generalizing state with
  | nil => exact fun _ ha => ha
  | cons a l ih => exact (hf state a).trans (ih _)

lemma keepsRecords_rollForwardDelete (file : String) (sidecar : RecoverySidecar) (s : Sweep) :
    KeepsRecords s.state (rollForwardDelete env file sidecar s).state := by
  unfold rollForwardDelete
  cases sidecar.approvalId with
  | none => exact keepsRecords_of_eq rfl
  | some approvalId => exact fun _ ha => mem_insert.mpr (.inr ha)

lemma keepsRecords_sweepLiveSchema (file : String) (sidecar : RecoverySidecar) (digest : String)
    (s : Sweep) :
    KeepsRecords s.state (sweepLiveSchema hasher env file sidecar digest s).state := by
  unfold sweepLiveSchema
  split_ifs <;> exact keepsRecords_of_eq rfl

lemma keepsRecords_sweepSidecar (s : Sweep) (entry : String × RecoverySidecar) :
    KeepsRecords s.state (sweepSidecar hasher store env w s entry).state := by
  unfold sweepSidecar
  split
  · unfold sweepGraphCreateSidecar
    split
    · exact keepsRecords_of_eq rfl
    · split
      · exact keepsRecords_sweepLiveSchema _ _ _ _
      · exact keepsRecords_of_eq rfl
  · unfold sweepSchemaApplySidecar
    split
    · exact keepsRecords_sweepLiveSchema _ _ _ _
    · exact keepsRecords_of_eq rfl
  · unfold sweepGraphDeleteSidecar
    split_ifs
    · exact keepsRecords_of_eq rfl
    · exact keepsRecords_rollForwardDelete _ _ _
    · exact keepsRecords_of_eq rfl

/-- The sweep forgets no approval. -/
lemma keepsRecords_sweep (state : ClusterState) :
    KeepsRecords state (sweepRecoverySidecars hasher store env w state).state := by
  have hfold : ∀ (entries : List (String × RecoverySidecar)) (s : Sweep),
      KeepsRecords s.state (entries.foldl (sweepSidecar hasher store env w) s).state := by
    intro entries
    induction entries with
    | nil => exact fun _ _ ha => ha
    | cons entry entries ih => exact fun s => (keepsRecords_sweepSidecar s entry).trans (ih _)
  exact hfold (listRecoverySidecars env w).1 ⟨state, (listRecoverySidecars env w).2, [], [], []⟩

lemma keepsRecords_applyChange (state : ClusterState) (change : PlanChange) :
    KeepsRecords state (applyChange desired state change) := by
  unfold applyChange
  split
  · exact keepsRecords_of_eq rfl
  · exact keepsRecords_of_eq rfl
  · split_ifs <;> exact keepsRecords_of_eq rfl
  · exact keepsRecords_of_eq rfl

lemma keepsRecords_recordDelete (state : ClusterState) (deleted : String × Option String) :
    KeepsRecords state (recordDelete env state deleted) := by
  unfold recordDelete
  cases deleted.2 with
  | none => exact keepsRecords_of_eq rfl
  | some approvalId => exact fun _ ha => mem_insert.mpr (.inr ha)

/-- A removed graph is recorded with its approval. -/
lemma mem_recordDeletes {executed : List (String × Option String)} (hdeleted : deleted ∈ executed)
    {approvalId : String} (h : deleted.2 = some approvalId) (state : ClusterState) :
    approvalId ∈ (executed.foldl (recordDelete env) state).approvalRecords := by
  obtain ⟨pre, post, rfl⟩ := append_of_mem hdeleted
  rw [foldl_append, foldl_cons]
  refine keepsRecords_foldl keepsRecords_recordDelete post _ _ ?_
  rw [recordDelete, h]
  exact mem_insert.mpr (.inl rfl)

lemma keepsRecords_recomputeGraphs (changes : List PlanChange) (graphs : List DesiredGraph)
    (state : ClusterState) :
    KeepsRecords state (graphs.foldl (recomputeGraph hasher changes) state) := by
  refine keepsRecords_foldl (fun state graph => ?_) graphs state
  by_cases h : graphAddress graph.id ∈ state.resources
  · rw [recomputeGraph_of_mem hasher h]
    exact keepsRecords_of_eq rfl
  · rw [recomputeGraph_of_not_mem hasher h]
    exact keepsRecords_of_eq rfl

lemma approvalRecords_converge (state : ClusterState) :
    (converge desired state).1.approvalRecords = state.approvalRecords := by
  unfold converge
  split_ifs <;> rfl

section Settled

variable {planned : Planned} {changes : List PlanChange} {deletes : Deletes}

/-- The ledger a run ends with has the approvals of the sweep. -/
lemma mem_settled_of_swept {approvalId : String}
    (h : approvalId ∈ planned.sweep.state.approvalRecords) :
    approvalId ∈ (settled hasher env desired planned changes deletes).1.approvalRecords := by
  rw [settled, approvalRecords_converge, settle_eq]
  refine keepsRecords_recomputeGraphs _ _ _ _ ?_
  exact keepsRecords_foldl keepsRecords_recordDelete _ _ _
    (keepsRecords_foldl keepsRecords_applyChange _ _ _ h)

/-- It has the approvals of the graphs that were removed. -/
lemma mem_settled_of_executed (hdeleted : deleted ∈ deletes.executed) {approvalId : String}
    (h : deleted.2 = some approvalId) :
    approvalId ∈ (settled hasher env desired planned changes deletes).1.approvalRecords := by
  rw [settled, approvalRecords_converge, settle_eq]
  exact keepsRecords_recomputeGraphs _ _ _ _ (mem_recordDeletes hdeleted h _)

end Settled

lemma keepsRecords_refreshed (sweep : Sweep) :
    KeepsRecords sweep.state (refreshed hasher store env desired w sweep) := by
  have hfinding : ∀ state found, KeepsRecords state (recordFinding state found) := by
    intro state found
    unfold recordFinding
    split <;> exact keepsRecords_of_eq rfl
  have hobserved : ∀ (state : ClusterState) (graph : DesiredGraph), KeepsRecords state
      (recordObserved hasher store env graph (observeGraph store env w graph.id) state) := by
    intro state graph
    unfold recordObserved
    split
    · exact keepsRecords_of_eq rfl
    · dsimp only
      split_ifs <;> exact keepsRecords_of_eq rfl
    · exact keepsRecords_of_eq rfl
  exact (keepsRecords_foldl hfinding _ _).trans (keepsRecords_foldl hobserved _ _)

/-! ### Authorization -/

/-- The artifact that a delete is recorded to consume. -/
def consumableArtifact (desired : DesiredCluster) (approvals : List ApprovalArtifact)
    (graphId : String) : Option ApprovalArtifact :=
  approvals.find? fun artifact => artifact.pendingFor (graphAddress graphId) &&
    artifact.boundConfigDigest = desired.configDigest

/-- The delete of a graph is in the plan, and some artifact approves it. -/
lemma Prepared.isApproved {planned : Planned}
    (hprepared : Prepared hasher store env desired w planned) {graphId : String}
    (h : DeleteApplied planned.changes graphId) :
    ∃ change ∈ planChanges desired planned.sweep.state, change.operation = .delete ∧
      change.resource = graphAddress graphId ∧
      isApproved planned.approvals desired.configDigest change = true := by
  obtain ⟨_, hmem, happlied, hoperation, hresource⟩ := h
  rw [hprepared.changes_eq] at hmem
  obtain ⟨c, hc, rfl⟩ := List.mem_map.mp hmem
  have hkind : resourceKind c.resource = .graph graphId :=
    resourceKind_eq_graph_iff.mpr hresource
  have hdelete : c.operation = .delete := hoperation
  have hclassified := Option.some.inj happlied
  simp only [classifyChange, hkind, hdelete, classifyGraph] at hclassified
  split_ifs at hclassified with hpending hrides
  simp only [ridesApprovedDelete, Bool.and_eq_true, decide_eq_true_eq] at hrides
  obtain ⟨c', hc', hresource'⟩ := List.mem_map.mp hrides.1.2
  obtain ⟨hmem', happroved⟩ := mem_filter.mp hc'
  refine ⟨c', hmem', ?_, hresource', happroved⟩
  have hresource : c.resource = graphAddress graphId := hresource
  rw [(says_of_mem hmem').delete_iff, hresource', ← hresource]
  exact (says_of_mem hc).delete_iff.mp hdelete

variable {change : PlanChange} {artifact : ApprovalArtifact} {ε : Type}

/-- An approved delete finds an artifact to consume. -/
lemma exists_consumableArtifact {approvals : List ApprovalArtifact} {graphId : String}
    (hresource : change.resource = graphAddress graphId)
    (h : isApproved approvals desired.configDigest change = true) :
    ∃ artifact, consumableArtifact desired approvals graphId = some artifact := by
  obtain ⟨artifact, hmem, hmatches⟩ := List.any_eq_true.mp h
  rw [hresource] at hmatches
  simp only [ApprovalArtifact.boundTo, Bool.and_eq_true, decide_eq_true_eq] at hmatches
  rw [← Option.isSome_iff_exists, consumableArtifact, List.find?_isSome]
  refine ⟨artifact, hmem, ?_⟩
  rw [Bool.and_eq_true, decide_eq_true_eq]
  exact ⟨hmatches.1, hmatches.2.1.1⟩

/-- An artifact that is bound to the digests of one that is bound to the change. -/
lemma boundTo_of_digests {other : ApprovalArtifact}
    (hconfig : artifact.boundConfigDigest = desired.configDigest)
    (hbefore : artifact.boundBeforeDigest = other.boundBeforeDigest)
    (hafter : artifact.boundAfterDigest = other.boundAfterDigest)
    (h : other.boundTo change desired.configDigest = true) :
    artifact.boundTo change desired.configDigest = true := by
  simp only [ApprovalArtifact.boundTo, Bool.and_eq_true, decide_eq_true_eq] at h ⊢
  exact ⟨⟨hconfig, hbefore.trans h.1.2⟩, hafter.trans h.2⟩

/-! ### Stopped runs -/

section Stops

open Durable

/-- An approval is stored under its id. -/
def KeyedApprovals (w : World) : Prop :=
  ∀ approvalId artifact, w.approvals.lookup approvalId = some artifact →
    artifact.approvalId = approvalId

/-- What retiring sidecars and marking approvals leaves. -/
structure Retires (operationIds : List String) (w t : World) : Prop where
  ledger : t.ledger = w.ledger
  roots : t.roots = w.roots
  sidecars : ∀ file, t.sidecars.lookup file = w.sidecars.lookup file ∨
    file ∈ operationIds ∧ t.sidecars.lookup file = none
  keyed : KeyedApprovals w → KeyedApprovals t

instance (operationIds : List String) : IsPreorder World (Retires operationIds) where
  refl _ := ⟨rfl, rfl, fun _ => .inl rfl, fun h => h⟩
  trans w t u h h' := by
    refine ⟨h'.ledger.trans h.ledger, h'.roots.trans h.roots, fun file => ?_,
      fun hkeyed => h'.keyed (h.keyed hkeyed)⟩
    rcases h'.sidecars file with hsame | hgone
    · rw [hsame]
      exact h.sidecars file
    · exact .inr hgone

lemma retires_cleanSidecars (operationIds : List String) :
    Keeps (Retires operationIds) (cleanSidecars env operationIds : Durable World ε Unit) := by
  refine keeps_forM fun operationId hmem => keeps_attempt (keeps_write fun w => ?_) _
  refine ⟨rfl, rfl, fun file => ?_, fun hkeyed => hkeyed⟩
  by_cases hfile : file = operationId
  · rw [hfile]
    exact .inr ⟨hmem, lookup_erase_self _ _⟩
  · exact .inl (lookup_erase_ne _ hfile)

lemma keyed_insert {w : World} (h : KeyedApprovals w) {approvalId : String}
    (hid : artifact.approvalId = approvalId) :
    KeyedApprovals { w with approvals := w.approvals.insert approvalId artifact } := by
  intro other artifact' hlookup
  rw [lookup_insert] at hlookup
  split_ifs at hlookup with heq
  · cases hlookup
    exact hid.trans heq.symm
  · exact h other artifact' hlookup

lemma retires_markApprovalsConsumed (operationIds approvalIds : List String) :
    Keeps (Retires operationIds)
      (markApprovalsConsumed env approvalIds : Durable World ε Unit) := by
  unfold markApprovalsConsumed
  split
  · exact keeps_pure ()
  · refine (keeps_read _).bind fun artifacts => keeps_forM fun artifact _ => ?_
    unfold markApproval
    split
    · refine keeps_attempt (keeps_write fun w => ?_) _
      refine ⟨rfl, rfl, fun _ => .inl rfl, fun hkeyed => ?_⟩
      exact keyed_insert hkeyed rfl
    · exact keeps_pure ()

lemma retires_retire {written : Bool} (operationIds approvalIds : List String) :
    Keeps (Retires operationIds) (retire env (written, false) operationIds approvalIds) := by
  rw [retire, if_neg Bool.false_ne_true]
  exact (retires_cleanSidecars operationIds).bind fun _ =>
    retires_markApprovalsConsumed operationIds approvalIds

/-- The new ledger is written, and what it records is being retired. -/
structure Late (hasher : Hasher) (env : Env) (desired : DesiredCluster) (planned : Planned)
    (changes : List PlanChange) (deletes : Deletes) (u t : World) : Prop where
  ledger : ∃ revision, t.ledger =
    some { (settled hasher env desired planned changes deletes).1 with stateRevision := revision }
  roots : t.roots = u.roots
  sidecars : ∀ file, t.sidecars.lookup file = u.sidecars.lookup file ∨
    file ∈ planned.sweep.completedSidecars ++ deletes.moves.completedSidecars ∧
      t.sidecars.lookup file = none
  keyed : KeyedApprovals u → KeyedApprovals t

variable {planned : Planned} {changes : List PlanChange} {deletes : Deletes} {u t : World}

lemma late_of_retires {v : World} (hledger : ∃ revision, v.ledger =
      some { (settled hasher env desired planned changes deletes).1 with
        stateRevision := revision }) (hroots : v.roots = u.roots)
    (hsidecars : v.sidecars = u.sidecars) (happrovals : v.approvals = u.approvals)
    (h : Retires (planned.sweep.completedSidecars ++ deletes.moves.completedSidecars) v t) :
    Late hasher env desired planned changes deletes u t := by
  refine ⟨by rw [h.ledger]; exact hledger, h.roots.trans hroots, fun file => ?_,
    fun hkeyed => h.keyed ?_⟩
  · rw [← hsidecars]
    exact h.sidecars file
  · rwa [KeyedApprovals, happrovals]

/-- Wherever finishing stops, the world is as before or a late one. -/
lemma finishApply_stops (hledger : u.ledger = some planned.before) :
    (finishApply hasher env desired planned changes deletes).wp
      (Late hasher env desired planned changes deletes u)
      (fun _ t => t = u ∨ Late hasher env desired planned changes deletes u t) u := by
  rw [finishApply, wp_bind]
  have hwritten : ∀ t, Retires (planned.sweep.completedSidecars ++ deletes.moves.completedSidecars)
      { u with ledger := some (settled hasher env desired planned changes deletes).1.advanced } t →
        Late hasher env desired planned changes deletes u t := by
    intro t ht
    refine late_of_retires ?_ ?_ ?_ ?_ ht
    · exact ⟨_, rfl⟩
    · rfl
    · rfl
    · rfl
  refine wp_mono (writeState_wp planned.before _ u) ?_ ?_
  · rintro t rfl
    exact hwritten _ (Std.Refl.refl _)
  · rintro r t (⟨rfl, heq, rfl⟩ | ⟨rfl, rfl⟩ | ⟨rfl, rfl⟩)
    · have hsame : ∀ v, Retires
          (planned.sweep.completedSidecars ++ deletes.moves.completedSidecars) t v →
            Late hasher env desired planned changes deletes t v := by
        refine fun v hv => late_of_retires ⟨planned.before.stateRevision, ?_⟩ rfl rfl rfl hv
        rw [hledger, settled, heq]
      rw [then_ok, wp_bind]
      refine wp_mono (retires_retire _ _ t) hsame ?_
      rintro r v ⟨⟨_, rfl⟩, hv⟩
      rw [then_ok, wp_pure]
      exact .inr (hsame v hv)
    · rw [then_ok, wp_bind]
      refine wp_mono (retires_retire _ _ _) hwritten ?_
      rintro r v ⟨⟨_, rfl⟩, hv⟩
      rw [then_ok, wp_pure]
      exact .inr (hwritten v hv)
    · rw [then_ok, wp_bind, retire, if_pos rfl, wp_pure, then_ok, wp_pure]
      exact .inl rfl

/-- What an apply leaves wherever it stops: nothing changed, operations on graphs under the old
ledger, or the new ledger. -/
inductive Stopped (hasher : Hasher) (engine : Engine) (store : ClusterStore) (env : Env)
    (desired : DesiredCluster) (w t : World) : Prop
  | idle (same : t = w)
  | early (planned : Planned) (prepared : Prepared hasher store env desired w planned)
      (records : SameRecords w t) (fenced : Fenced store env desired planned w t)
  | late (planned : Planned) (changes : List PlanChange) (deletes : Deletes) (u : World)
      (ran : Ran hasher engine store env desired planned changes deletes w u)
      (fenced : Fenced store env desired planned w u)
      (completes : CompletesRecorded env desired planned deletes)
      (settles : Late hasher env desired planned changes deletes u t)

/-- Wherever an apply stops, it is idle, early or late. -/
lemma applyConfigDir_stops (hdraws : Draws env w) :
    (applyConfigDir hasher engine store env desired).wp
      (Stopped hasher engine store env desired w)
      (fun _ => Stopped hasher engine store env desired w) w := by
  rw [applyConfigDir, wp_bind]
  refine wp_mono (wp_self (prepareApply_wp w)) (fun _ h => h.elim) ?_
  rintro r _ ⟨⟨rfl, hprepared⟩, hplanned_eq, -⟩
  cases r with
  | error output => exact .idle rfl
  | ok planned =>
    replace hprepared := hprepared planned rfl
    rw [then_ok, wp_bind]
    refine wp_mono (wp_self (wp_and.mpr ⟨moveGraphs_wp hprepared.isPlan.nodup _,
      fenced_moveGraphs planned hdraws⟩)) (fun t ht => .early planned hprepared ht.1 ht.2) ?_
    rintro r u ⟨⟨⟨hrecords, hmoved⟩, hfenced, hcompletes⟩, hmoved_eq, -⟩
    cases r with
    | error output => exact .early planned hprepared hrecords hfenced
    | ok moved =>
      have hran := Ran.mk hplanned_eq.symm hmoved_eq.symm hprepared (hmoved moved rfl)
      have hlate : ∀ t, Late hasher env desired planned moved.1 moved.2 u t →
          Stopped hasher engine store env desired _ t :=
        fun t ht => .late planned moved.1 moved.2 u hran hfenced (hcompletes moved rfl) ht
      rw [then_ok]
      refine wp_mono (finishApply_stops (hrecords.ledger.trans hprepared.ledger)) hlate ?_
      rintro r t (rfl | ht)
      · exact .early planned hprepared hrecords hfenced
      · exact hlate t ht

end Stops

/-! ### Removals and what is noted of them -/

/-- The root was there, and it is gone. -/
def Removes (store : ClusterStore) (w t : World) (graphUri : String) : Prop :=
  rootPresent store w graphUri = true ∧ rootPresent store t graphUri = false

/-- A root that an apply removed, and what the apply started from. -/
structure RemovedRoot where
  uri : String
  world : World
  env : Env
  desired : DesiredCluster

/-- The roots that are removed between two worlds. -/
def removedRoots (store : ClusterStore) (env : Env) (desired : DesiredCluster) (w t : World) :
    List RemovedRoot :=
  (w.roots.keys.filter fun graphUri => rootPresent store w graphUri &&
    !rootPresent store t graphUri).map fun graphUri => ⟨graphUri, w, env, desired⟩

/-- The sweep that a run begins with, if there is a ledger. -/
def sweptState (hasher : Hasher) (store : ClusterStore) (env : Env) (w : World)
    (state : ClusterState) : ClusterState := (sweepRecoverySidecars hasher store env w state).state

/-- The artifact is for this graph, it is not consumed, it is bound to the configuration of the run
and to the digests of the delete, and it is the one the run records. -/
structure RemovedRoot.AuthorizedBy (hasher : Hasher) (store : ClusterStore) (r : RemovedRoot)
    (graphId : String) (artifact : ApprovalArtifact) : Prop where
  uri : r.uri = store.graphRoot graphId
  listed : artifact ∈ (listApprovalArtifacts r.env r.world .listApprovals).1
  pending : artifact.pendingFor (graphAddress graphId) = true
  bound : ∃ state, r.world.ledger = some state ∧ ∃ change ∈ planChanges r.desired
    (sweptState hasher store r.env r.world state), change.operation = .delete ∧
      change.resource = graphAddress graphId ∧
      artifact.boundTo change r.desired.configDigest = true
  consumed : consumableArtifact r.desired
    (listApprovalArtifacts r.env r.world .listApprovals).1 graphId = some artifact

/-- The approval is recorded as consumed, or the sidecar of a delete that removed the root names
it. -/
def Noted (store : ClusterStore) (w : World) (graphId approvalId : String) : Prop :=
  (∃ state, w.ledger = some state ∧ approvalId ∈ state.approvalRecords) ∨
    ∃ file sidecar, w.sidecars.lookup file = some sidecar ∧ sidecar.kind = .graphDelete ∧
      sidecar.graphUri = store.graphRoot graphId ∧ sidecar.approvalId = some approvalId ∧
      rootPresent store w (store.graphRoot graphId) = false

/-- The sidecar of a delete whose root is gone. -/
structure Lingers (store : ClusterStore) (w : World) (sidecar : RecoverySidecar)
    (approvalId : String) : Prop where
  listed : ∃ file, w.sidecars.lookup file = some sidecar
  kind : sidecar.kind = .graphDelete
  gone : rootPresent store w sidecar.graphUri = false
  approval : sidecar.approvalId = some approvalId

/-- The sweep finds the approvals of all deletes whose root is gone recorded, or records them. -/
def SweepAccounts (hasher : Hasher) (store : ClusterStore) (env : Env) (w : World) : Prop :=
  ∀ state, w.ledger = some state → ∀ sidecar approvalId, Lingers store w sidecar approvalId →
    approvalId ∈ (sweptState hasher store env w state).approvalRecords

/-- The approval is not recorded in the ledger, and no sidecar of a delete whose root the sweep does
not find names it. -/
structure Unused (store : ClusterStore) (env : Env) (w : World) (approvalId : String) : Prop where
  ledger : ∀ state, w.ledger = some state → approvalId ∉ state.approvalRecords
  sidecars : ∀ file sidecar, w.sidecars.lookup file = some sidecar → sidecar.kind = .graphDelete →
    sidecar.approvalId = some approvalId →
      graphRootExists store w (env.ok (.probeRoot file)) sidecar.graphUri = true

/-- The sweep accounts for what was removed, and a graph whose delete is not recorded yet is not
made again without writing the ledger. Where one of the listed artifacts approves a planned delete,
the one that the delete is recorded to consume is bound to the same digests and was not used
before. -/
structure ApplyAccounts (hasher : Hasher) (store : ClusterStore) (env : Env)
    (desired : DesiredCluster) (w t : World) : Prop where
  sweep : SweepAccounts hasher store env w
  written : ∀ state, w.ledger = some state → ∀ sidecar approvalId,
    Lingers store w sidecar approvalId → approvalId ∉ state.approvalRecords →
      rootPresent store t sidecar.graphUri = true → t.ledger ≠ w.ledger
  artifacts : ∀ state, w.ledger = some state →
    ∀ change ∈ planChanges desired (sweptState hasher store env w state), ∀ graphId,
      change.operation = .delete → change.resource = graphAddress graphId →
    ∀ other ∈ (listApprovalArtifacts env w .listApprovals).1,
      other.pendingFor change.resource = true →
      other.boundTo change desired.configDigest = true →
    ∀ artifact, consumableArtifact desired (listApprovalArtifacts env w .listApprovals).1 graphId =
        some artifact →
      artifact.boundBeforeDigest = other.boundBeforeDigest ∧
        artifact.boundAfterDigest = other.boundAfterDigest ∧ Unused store env w artifact.approvalId

variable {state : ClusterState}

section Steps

open Durable

variable {t : World} {graphId approvalId : String}

lemma graphRoot_inj {graphId other : String}
    (h : store.graphRoot graphId = store.graphRoot other) : graphId = other := by
  unfold ClusterStore.graphRoot at h
  exact Prefixed.append_inj ((String.append_left_inj ".omni").mp h)

variable (h : Noted store w graphId approvalId)

include h in
lemma Noted.lingers_or :
    (∃ state, w.ledger = some state ∧ approvalId ∈ state.approvalRecords) ∨
      ∃ sidecar, Lingers store w sidecar approvalId ∧
        sidecar.graphUri = store.graphRoot graphId := by
  rcases h with hrecorded | ⟨file, sidecar, hlookup, hkind, huri, happroval, hgone⟩
  · exact .inl hrecorded
  · exact .inr ⟨sidecar, ⟨⟨file, hlookup⟩, hkind, huri ▸ hgone, happroval⟩, huri⟩

/-- The sweep records the approvals of deletes whose root it does not find. -/
lemma mem_records_sweepSidecar {s : Sweep} {entry : String × RecoverySidecar}
    (h : approvalId ∈ (sweepSidecar hasher store env w s entry).state.approvalRecords) :
    approvalId ∈ s.state.approvalRecords ∨ entry.2.kind = .graphDelete ∧
      entry.2.approvalId = some approvalId ∧
        graphRootExists store w (env.ok (.probeRoot entry.1)) entry.2.graphUri = false := by
  have hlive : ∀ digest, approvalId ∈ (sweepLiveSchema hasher env entry.1 entry.2 digest
      s).state.approvalRecords → approvalId ∈ s.state.approvalRecords := by
    intro digest h
    unfold sweepLiveSchema at h
    split_ifs at h <;> exact h
  unfold sweepSidecar at h
  split at h
  · unfold sweepGraphCreateSidecar at h
    split at h
    · exact .inl h
    · split at h
      · exact .inl (hlive _ h)
      · exact .inl h
  · unfold sweepSchemaApplySidecar at h
    split at h
    · exact .inl (hlive _ h)
    · exact .inl h
  · next hkind =>
    unfold sweepGraphDeleteSidecar at h
    split_ifs at h with hexists hrecorded
    · exact .inl h
    · unfold rollForwardDelete at h
      cases happroval : entry.2.approvalId with
      | none =>
        rw [happroval] at h
        exact .inl h
      | some other =>
        rw [happroval] at h
        rcases mem_insert.mp h with rfl | hold
        · exact .inr ⟨hkind, rfl, by simpa using hexists⟩
        · exact .inl hold
    · exact .inl h

/-- An approval that was not used is not recorded by the sweep. -/
lemma Unused.not_mem_swept (h : Unused store env w approvalId) (hstate : w.ledger = some state) :
    approvalId ∉ (sweptState hasher store env w state).approvalRecords := by
  have hfold : ∀ (entries : List (String × RecoverySidecar)) (s : Sweep),
      (∀ entry ∈ entries, w.sidecars.lookup entry.1 = some entry.2) →
      approvalId ∉ s.state.approvalRecords →
        approvalId ∉ (entries.foldl (sweepSidecar hasher store env w) s).state.approvalRecords := by
    intro entries
    induction entries with
    | nil => exact fun _ _ hs => hs
    | cons entry entries ih =>
      intro s hentries hs
      refine ih _ (fun e he => hentries e (mem_cons_of_mem _ he)) fun hmem => ?_
      rcases mem_records_sweepSidecar hmem with hold | ⟨hkind, happroval, hgone⟩
      · exact hs hold
      · rw [h.sidecars _ _ (hentries entry mem_cons_self) hkind happroval] at hgone
        cases hgone
  refine hfold _ _ (fun entry hentry => ?_) (h.ledger state hstate)
  unfold listRecoverySidecars at hentry
  split_ifs at hentry
  · exact lookup_eq_some_iff.mpr hentry
  · cases hentry

include h in
/-- What is noted is recorded by the next sweep. -/
lemma Noted.mem_swept (haccounts : SweepAccounts hasher store env w)
    (hstate : w.ledger = some state) :
    approvalId ∈ (sweptState hasher store env w state).approvalRecords := by
  rcases h.lingers_or with ⟨state', hstate', hmem⟩ | ⟨sidecar, hlingers, -⟩
  · cases hstate.symm.trans hstate'
    exact keepsRecords_sweep state approvalId hmem
  · exact haccounts state hstate sidecar approvalId hlingers

variable {file : String}

include h in
/-- What is noted stays noted. -/
lemma Noted.of_stopped (hdraws : Draws env w)
    (haccounts : ApplyAccounts hasher store env desired w t)
    (hstopped : Stopped hasher engine store env desired w t) :
    Noted store t graphId approvalId := by
  rcases hstopped with rfl | ⟨planned, hprepared, hrecords, hfenced⟩ |
    ⟨planned, changes, deletes, u, hran, -, -, hlate⟩
  · exact h
  · rcases h with ⟨state, hstate, hmem⟩ | ⟨file, sidecar, hlookup, hkind, huri, happroval, hgone⟩
    · exact .inl ⟨state, hrecords.ledger.trans hstate, hmem⟩
    · by_cases hmem : approvalId ∈ planned.before.approvalRecords
      · exact .inl ⟨planned.before, hrecords.ledger.trans hprepared.ledger, hmem⟩
      · refine .inr ⟨file, sidecar, ?_, hkind, huri, happroval, ?_⟩
        · rw [hfenced.sidecars file, hlookup]
          rintro ⟨kind, id, rfl⟩
          exact hdraws.fresh kind id (mem_of_lookup hlookup)
        · rw [← Bool.not_eq_true]
          intro hpresent
          rw [← huri] at hgone hpresent
          exact haccounts.written planned.before hprepared.ledger sidecar approvalId
            ⟨⟨file, hlookup⟩, hkind, hgone, happroval⟩ hmem hpresent hrecords.ledger
  · obtain ⟨revision, hledger⟩ := hlate.ledger
    refine .inl ⟨_, hledger, ?_⟩
    have hswept := h.mem_swept haccounts.sweep hran.prepared.ledger
    rw [sweptState, ← hran.prepared.sweep] at hswept
    exact mem_settled_of_swept hswept

lemma mem_completed_of_foldl {entries : List (String × RecoverySidecar)} {s : Sweep}
    (h : file ∈ (entries.foldl (sweepSidecar hasher store env w) s).completedSidecars) :
    file ∈ s.completedSidecars ∨ file ∈ entries.map Prod.fst := by
  induction entries generalizing s with
  | nil => exact .inl h
  | cons entry entries ih =>
    rcases ih h with hstep | hrest
    · have hcompleted : (sweepSidecar hasher store env w s entry).completedSidecars =
          s.completedSidecars ++ [entry.1] ∨
          (sweepSidecar hasher store env w s entry).completedSidecars = s.completedSidecars := by
        rcases @sweepStep_sweepSidecar hasher store env w s entry
          with ⟨hc, -, -, -⟩ | ⟨_, -, -, -, hc, -, -, -⟩ | ⟨-, -, -, hc, -, -, -⟩ | ⟨hc, -, -, -⟩
        · exact .inl hc
        · exact .inl hc
        · exact .inl hc
        · exact .inr hc
      rcases hcompleted with hc | hc
      · rw [hc] at hstep
        rcases mem_append.mp hstep with hold | hnew
        · exact .inl hold
        · exact .inr (by simp [mem_singleton.mp hnew])
      · rw [hc] at hstep
        exact .inl hstep
    · exact .inr (by simp [hrest])

/-- The sweep retires sidecars that are there. -/
lemma mem_sidecars_of_completed
    (h : file ∈ (sweepRecoverySidecars hasher store env w state).completedSidecars) :
    file ∈ w.sidecars := by
  have hlisted : file ∈ (listRecoverySidecars env w).1.map Prod.fst := by
    rcases mem_completed_of_foldl h with hnil | hlisted
    · cases hnil
    · exact hlisted
  unfold listRecoverySidecars at hlisted
  split_ifs at hlisted
  · exact hlisted
  · cases hlisted

/-- The sidecar of a removed root is kept until the removal is recorded. -/
lemma noted_of_pinned (hdraws : Draws env w) {planned : Planned} {changes : List PlanChange}
    {deletes : Deletes} {u : World} (hran : Ran hasher engine store env desired planned changes
      deletes w u) (hcompletes : CompletesRecorded env desired planned deletes)
    (hlate : Late hasher env desired planned changes deletes u t)
    (hgone : rootPresent store t (store.graphRoot graphId) = false)
    (hpinned : Pinned store env desired planned.approvals u graphId)
    (happroval : consumableApproval desired planned.approvals graphId = some approvalId) :
    Noted store t graphId approvalId := by
  have hnoted : Pinned store env desired planned.approvals t graphId →
      Noted store t graphId approvalId :=
    fun h => .inr ⟨_, _, h, rfl, rfl, happroval, hgone⟩
  rcases hlate.sidecars (env.operationId .graphDelete graphId) with hsame | ⟨hmem, -⟩
  · exact hnoted (hsame.trans hpinned)
  · rcases mem_append.mp hmem with hswept | hmoved
    · rw [hran.prepared.sweep] at hswept
      exact absurd (mem_sidecars_of_completed hswept) (hdraws.fresh _ _)
    · rcases hcompletes _ hmoved with ⟨kind, other, hkind, heq⟩ | ⟨other, hexecuted, heq⟩
      · exact absurd (hdraws.inj _ _ _ _ heq).1.symm hkind
      · obtain ⟨revision, hledger⟩ := hlate.ledger
        rw [← (hdraws.inj _ _ _ _ heq).2] at hexecuted
        exact .inl ⟨_, hledger, mem_settled_of_executed hexecuted happroval⟩

/-- A root that an apply removed was authorized, and the approval is noted. -/
lemma noted_of_removed (hdraws : Draws env w)
    (haccounts : ApplyAccounts hasher store env desired w t)
    (hstopped : Stopped hasher engine store env desired w t) {graphUri : String}
    (hremoves : Removes store w t graphUri) : ∃ graphId artifact,
      (RemovedRoot.mk graphUri w env desired).AuthorizedBy hasher store graphId artifact ∧
      Noted store t graphId artifact.approvalId ∧ ∀ state, w.ledger = some state →
        artifact.approvalId ∉ (sweptState hasher store env w state).approvalRecords := by
  obtain ⟨hpresent, hgone⟩ := hremoves
  -- the delete that removed the root, and how its approval is noted
  have hdelete : ∃ planned graphId, Prepared hasher store env desired w planned ∧
      DeleteApplied planned.changes graphId ∧ graphUri = store.graphRoot graphId ∧
      ∀ approvalId, consumableApproval desired planned.approvals graphId = some approvalId →
        Noted store t graphId approvalId := by
    rcases hstopped with rfl | ⟨planned, hprepared, hrecords, hfenced⟩ |
      ⟨planned, changes, deletes, u, hran, hfenced, hcompletes, hlate⟩
    · rw [hpresent] at hgone
      cases hgone
    · obtain ⟨graphId, happlied, rfl, hpinned⟩ := hfenced.removed graphUri hpresent hgone
      exact ⟨planned, graphId, hprepared, happlied, rfl,
        fun approvalId h => .inr ⟨_, _, hpinned, rfl, rfl, h, hgone⟩⟩
    · have hgone' : rootPresent store u graphUri = false := by
        rw [← hgone]
        exact (rootPresent_congr (congrArg (BTreeMap.lookup · graphUri) hlate.roots)).symm
      obtain ⟨graphId, happlied, rfl, hpinned⟩ := hfenced.removed graphUri hpresent hgone'
      exact ⟨planned, graphId, hran.prepared, happlied, rfl,
        fun approvalId h => noted_of_pinned hdraws hran hcompletes hlate hgone hpinned h⟩
  obtain ⟨planned, graphId, hprepared, happlied, rfl, hnoted⟩ := hdelete
  obtain ⟨change, hchange, hoperation, hresource, happroved⟩ := hprepared.isApproved happlied
  obtain ⟨artifact, hartifact⟩ := exists_consumableArtifact hresource happroved
  -- the artifact that approves the delete need not be the one that it consumes
  obtain ⟨other, hother, hmatches⟩ := List.any_eq_true.mp happroved
  rw [Bool.and_eq_true] at hmatches
  rw [hprepared.approvals] at hartifact hother
  rw [hprepared.sweep] at hchange
  obtain ⟨hbefore, hafter, hunused⟩ := haccounts.artifacts planned.before hprepared.ledger change
    hchange graphId hoperation hresource other hother hmatches.1 hmatches.2 artifact hartifact
  have hfound := List.find?_some hartifact
  rw [Bool.and_eq_true, decide_eq_true_eq] at hfound
  refine ⟨graphId, artifact, ⟨rfl, mem_of_find?_eq_some hartifact, hfound.1,
    ⟨planned.before, hprepared.ledger, change, hchange, hoperation, hresource,
      boundTo_of_digests hfound.2 hbefore hafter hmatches.2⟩, hartifact⟩, hnoted _ ?_,
    fun state hstate => hunused.not_mem_swept hstate⟩
  show (consumableArtifact _ _ _).map ApprovalArtifact.approvalId = _
  rw [hprepared.approvals, hartifact, Option.map_some]

end Steps

/-! ### Runs -/

section Runs

open Durable

/-- A command on the cluster, with what it reads and which of its calls succeed. -/
inductive ClusterCommand
  | plan (env : Env) (loader : Loader) (raw : RawClusterConfig)
  | approve (env : Env) (loader : Loader) (raw : RawClusterConfig) (approvalId resource : String)
  | refresh (env : Env) (loader : Loader) (raw : RawClusterConfig)
  | apply (env : Env) (loader : Loader) (raw : RawClusterConfig)

namespace ClusterCommand

/-- What a command leaves, stopped anywhere. The configurations have no errors, and the ids that an
apply draws are new. -/
def Leaves (hasher : Hasher) (engine : Engine) (store : ClusterStore) (w : World) :
    ClusterCommand → World → Prop
  | plan _ _ _, t => t = w
  | approve env loader raw approvalId resource, t =>
      hasErrors (loadDesired hasher loader raw).2 = false ∧
      Durable.Leaves (approveConfigDir env (loadDesired hasher loader raw).1 approvalId resource)
        w t
  | refresh env loader raw, t => hasErrors (loadDesired hasher loader raw).2 = false ∧
      Durable.Leaves (syncConfigDir hasher store env (loadDesired hasher loader raw).1 .refresh) w t
  | apply env loader raw, t => hasErrors (loadDesired hasher loader raw).2 = false ∧ Draws env w ∧
      Durable.Leaves (applyConfigDir hasher engine store env (loadDesired hasher loader raw).1) w t

/-- The roots that a command removed. -/
def removed (hasher : Hasher) (store : ClusterStore) (w t : World) :
    ClusterCommand → List RemovedRoot
  | apply env loader raw => removedRoots store env (loadDesired hasher loader raw).1 w t
  | _ => []

/-- A refresh and an apply account for the deletes before them. -/
def Accounts (hasher : Hasher) (store : ClusterStore) (w t : World) : ClusterCommand → Prop
  | refresh env _ _ => SweepAccounts hasher store env w
  | apply env loader raw =>
      ApplyAccounts hasher store env (loadDesired hasher loader raw).1 w t
  | _ => True

end ClusterCommand

/-- The worlds that commands lead to, with the roots that were removed on the way. Every command
satisfies a condition. -/
inductive ClusterRun (hasher : Hasher) (engine : Engine) (store : ClusterStore)
    (holds : World → World → ClusterCommand → Prop) (start : World) :
    List RemovedRoot → World → Prop
  | start : ClusterRun hasher engine store holds start [] start
  | step {removals : List RemovedRoot} {w t : World} (command : ClusterCommand)
      (run : ClusterRun hasher engine store holds start removals w) (condition : holds w t command)
      (leaves : command.Leaves hasher engine store w t) :
      ClusterRun hasher engine store holds start
        (removals ++ command.removed hasher store w t) t

/-- Every removal of a root was authorized by an approval that is noted, and no approval authorized
two. -/
structure OneApproval (hasher : Hasher) (store : ClusterStore) (removals : List RemovedRoot)
    (w : World) : Prop where
  authorized : ∀ r ∈ removals, ∃ graphId artifact,
    r.AuthorizedBy hasher store graphId artifact ∧ Noted store w graphId artifact.approvalId
  once : removals.Pairwise fun r r' => ∀ graphId graphId' artifact artifact',
    r.AuthorizedBy hasher store graphId artifact →
      r'.AuthorizedBy hasher store graphId' artifact' →
        artifact.approvalId ≠ artifact'.approvalId

variable {t : World}

variable {r : RemovedRoot} {artifact' : ApprovalArtifact} {graphId' : String}

lemma mem_removedRoots (h : r ∈ removedRoots store env desired w t) :
    r = ⟨r.uri, w, env, desired⟩ ∧ Removes store w t r.uri := by
  obtain ⟨graphUri, hmem, rfl⟩ := List.mem_map.mp h
  have hremoves := (mem_filter.mp hmem).2
  rw [Bool.and_eq_true, Bool.not_eq_true'] at hremoves
  exact ⟨rfl, hremoves⟩

lemma nodup_removedRoots :
    ((removedRoots store env desired w t).map RemovedRoot.uri).Nodup := by
  have hkeys : w.roots.keys.Nodup := Sorted.Increasing.nodup_map w.roots.sorted
  rw [removedRoots, List.map_map]
  exact (hkeys.filter _).map_on fun _ _ _ _ h => h

/-- Two roots that one run removed have different approvals. -/
lemma authorizedBy_ne (hkeyed : KeyedApprovals w) {r' : RemovedRoot} (hr : r.world = w)
    (hr' : r'.world = w) (hne : r.uri ≠ r'.uri) {graphId : String}
    (h : r.AuthorizedBy hasher store graphId artifact)
    (h' : r'.AuthorizedBy hasher store graphId' artifact') :
    artifact.approvalId ≠ artifact'.approvalId := by
  have hlookup : ∀ (env : Env) (a : ApprovalArtifact),
      a ∈ (listApprovalArtifacts env w .listApprovals).1 →
        w.approvals.lookup a.approvalId = some a := by
    intro env a hmem
    unfold listApprovalArtifacts at hmem
    split_ifs at hmem
    · obtain ⟨entry, hentry, rfl⟩ := List.mem_map.mp hmem
      have hstored := lookup_eq_some_iff.mpr hentry
      rw [hkeyed _ _ hstored]
      exact hstored
    · cases hmem
  intro heq
  have hsame : artifact = artifact' := by
    have ha := hlookup r.env artifact (hr ▸ h.listed)
    have ha' := hlookup r'.env artifact' (hr' ▸ h'.listed)
    rw [heq, ha'] at ha
    exact (Option.some.inj ha).symm
  have hpending := h.pending
  have hpending' := h'.pending
  rw [hsame] at hpending
  simp only [ApprovalArtifact.pendingFor, Bool.and_eq_true, decide_eq_true_eq] at hpending hpending'
  have hid : graphId = graphId' := Prefixed.append_inj (hpending.2.symm.trans hpending'.2)
  exact hne (by rw [h.uri, h'.uri, hid])

/-- The artifact that authorized a removal is the one the run consumed. -/
lemma authorizedBy_unique {graphId : String} (h : r.AuthorizedBy hasher store graphId artifact)
    (h' : r.AuthorizedBy hasher store graphId' artifact') : artifact = artifact' := by
  have hid : graphId = graphId' := graphRoot_inj (h.uri.symm.trans h'.uri)
  subst hid
  exact Option.some.inj (h.consumed.symm.trans h'.consumed)

/-- What a refresh that writes the ledger leaves of it and of the approvals. -/
structure Refreshes (hasher : Hasher) (store : ClusterStore) (env : Env) (w t : World) : Prop where
  noted : SweepAccounts hasher store env w → ∀ graphId approvalId,
    Noted store w graphId approvalId → Noted store t graphId approvalId
  keyed : KeyedApprovals w → KeyedApprovals t

/-- A refresh that stops anywhere leaves the old world or the refreshed ledger. -/
lemma finishSync_stops {next : ClusterState} (hstate : w.ledger = some state)
    (hnext : KeepsRecords (sweptState hasher store env w state) next)
    (diagnostics : List Diagnostic) :
    (finishSync env (sweepRecoverySidecars hasher store env w state) diagnostics next).wp
      (Refreshes hasher store env w)
      (fun _ t => t = w ∨ Refreshes hasher store env w t) w := by
  unfold finishSync
  split
  · have hwritten : ∀ t,
        Retires (sweepRecoverySidecars hasher store env w state).completedSidecars
          { w with ledger := some next } t → Refreshes hasher store env w t := by
      intro t ht
      refine ⟨fun haccounts graphId approvalId hold => .inl ⟨next, ht.ledger, ?_⟩, ht.keyed⟩
      exact hnext approvalId (hold.mem_swept haccounts hstate)
    rw [wp_bind, wp_write, then_ok, wp_bind]
    refine ⟨hwritten _ (Std.Refl.refl _), wp_mono (retires_cleanSidecars _ _) hwritten ?_⟩
    rintro r t ⟨⟨_, rfl⟩, ht⟩
    rw [then_ok, wp_bind]
    refine wp_mono (retires_markApprovalsConsumed _ _ t)
      (fun u hu => hwritten u (IsTrans.trans _ _ _ ht hu)) ?_
    rintro r u ⟨⟨_, rfl⟩, hu⟩
    rw [then_ok, wp_pure]
    exact .inr (hwritten u (IsTrans.trans _ _ _ ht hu))
  · rw [wp_pure]
    exact .inl rfl

lemma refresh_stops (w : World) : (syncConfigDir hasher store env desired .refresh).wp
    (fun t => t = w ∨ Refreshes hasher store env w t)
    (fun _ t => t = w ∨ Refreshes hasher store env w t) w := by
  rw [syncConfigDir, wp_bind, wp_read]
  cases hstate : syncedState hasher env desired .refresh w with
  | error output => exact .inl rfl
  | ok state =>
    rw [then_ok, wp_bind, wp_read, then_ok]
    refine wp_mono (finishSync_stops (syncedState_ledger hstate) ?_ _) (fun _ h => .inr h)
      fun _ _ h => h
    exact fun approvalId h => keepsRecords_refreshed _ approvalId h

lemma approve_stops (approvalId resource : String) (w : World) :
    (approveConfigDir env desired approvalId resource).wp
      (Retires [] w) (fun _ => Retires [] w) w := by
  have hsame : Retires [] w w := Std.Refl.refl w
  unfold approveConfigDir
  dsimp only
  split
  · rw [wp_bind, wp_fail]
    exact hsame
  · rw [wp_bind, wp_read]
    cases approvableState env w with
    | error diagnostics => exact hsame
    | ok state =>
      rw [then_ok]
      split
      · rw [wp_fail]
        exact hsame
      · next change _ =>
        split
        · rw [wp_bind, wp_write, then_ok, wp_pure]
          have hwritten : Retires [] w { w with
              approvals := w.approvals.insert approvalId
                { approvalId := approvalId, resource := change.resource
                  boundConfigDigest := desired.configDigest
                  boundBeforeDigest := change.beforeDigest
                  boundAfterDigest := change.afterDigest, consumedAt := none } } :=
            ⟨rfl, rfl, fun _ => .inl rfl, fun hkeyed => keyed_insert hkeyed rfl⟩
          exact ⟨hwritten, hwritten⟩
        · rw [wp_fail]
          exact hsame

lemma Noted.of_retires {graphId approvalId : String} (h : Noted store w graphId approvalId)
    (hretires : Retires [] w t) : Noted store t graphId approvalId := by
  rcases h with ⟨state, hstate, hmem⟩ | ⟨file, sidecar, hlookup, hkind, huri, happroval, hgone⟩
  · exact .inl ⟨state, hretires.ledger.trans hstate, hmem⟩
  · refine .inr ⟨file, sidecar, ?_, hkind, huri, happroval, ?_⟩
    · rcases hretires.sidecars file with hsame | ⟨hnil, -⟩
      · exact hsame.trans hlookup
      · cases hnil
    · rw [← hgone]
      exact rootPresent_congr (congrArg (BTreeMap.lookup · _) hretires.roots)

/-- What holds along a run. -/
structure RunInvariant (hasher : Hasher) (store : ClusterStore) (removals : List RemovedRoot)
    (w : World) : Prop extends OneApproval hasher store removals w where
  keyed : KeyedApprovals w

variable {removals : List RemovedRoot}

/-- A command that removes no root. -/
lemma RunInvariant.of_noted (h : RunInvariant hasher store removals w)
    (hnoted : ∀ graphId approvalId, Noted store w graphId approvalId →
      Noted store t graphId approvalId) (hkeyed : KeyedApprovals w → KeyedApprovals t) :
    RunInvariant hasher store (removals ++ []) t := by
  rw [append_nil]
  refine ⟨⟨fun r hr => ?_, h.once⟩, hkeyed h.keyed⟩
  obtain ⟨graphId, artifact, hauthorized, hold⟩ := h.authorized r hr
  exact ⟨graphId, artifact, hauthorized, hnoted _ _ hold⟩

lemma Stopped.keyed (hstopped : Stopped hasher engine store env desired w t)
    (h : KeyedApprovals w) : KeyedApprovals t := by
  rcases hstopped with rfl | ⟨planned, hprepared, hrecords, hfenced⟩ |
    ⟨planned, changes, deletes, u, hran, -, -, hlate⟩
  · exact h
  · rwa [KeyedApprovals, hrecords.approvals]
  · apply hlate.keyed
    rwa [KeyedApprovals, hran.moved.records.approvals]

/-- An apply that accounts for the deletes before it. -/
lemma RunInvariant.of_stopped (h : RunInvariant hasher store removals w) (hdraws : Draws env w)
    (haccounts : ApplyAccounts hasher store env desired w t)
    (hstopped : Stopped hasher engine store env desired w t) :
    RunInvariant hasher store (removals ++ removedRoots store env desired w t) t := by
  have hnew : ∀ r ∈ removedRoots store env desired w t, ∃ graphId artifact,
      r.AuthorizedBy hasher store graphId artifact ∧ Noted store t graphId artifact.approvalId ∧
      ∀ state, w.ledger = some state →
        artifact.approvalId ∉ (sweptState hasher store env w state).approvalRecords := by
    intro r hr
    obtain ⟨heq, hremoves⟩ := mem_removedRoots hr
    rw [heq]
    exact noted_of_removed hdraws haccounts hstopped hremoves
  refine ⟨⟨fun r hr => ?_, ?_⟩, hstopped.keyed h.keyed⟩
  · rcases mem_append.mp hr with hr | hr
    · obtain ⟨graphId, artifact, hauthorized, hold⟩ := h.authorized r hr
      exact ⟨graphId, artifact, hauthorized, hold.of_stopped hdraws haccounts hstopped⟩
    · obtain ⟨graphId, artifact, hauthorized, hnoted, -⟩ := hnew r hr
      exact ⟨graphId, artifact, hauthorized, hnoted⟩
  · rw [pairwise_append]
    refine ⟨h.once, ?_, ?_⟩
    · refine (pairwise_map.mp nodup_removedRoots).imp_of_mem ?_
      intro r r' hr hr' hne graphId graphId' artifact artifact' hauthorized hauthorized'
      refine authorizedBy_ne h.keyed ?_ ?_ hne hauthorized hauthorized'
      · rw [(mem_removedRoots hr).1]
      · rw [(mem_removedRoots hr').1]
    · intro r hr r' hr' graphId graphId' artifact artifact' hauthorized hauthorized' heq
      -- what was noted before is recorded by the sweep of this run
      obtain ⟨_, noted, hnoted, hold⟩ := h.authorized r hr
      obtain ⟨_, fresh, hfresh, -, hunrecorded⟩ := hnew r' hr'
      rw [authorizedBy_unique hauthorized hnoted, authorizedBy_unique hauthorized' hfresh] at heq
      obtain ⟨state, hstate, -⟩ := hfresh.bound
      rw [(mem_removedRoots hr').1] at hstate
      refine hunrecorded state hstate ?_
      rw [← heq]
      exact hold.mem_swept haccounts.sweep hstate

/-- In a run of commands that account for the deletes before them, every removal of a root was
authorized by an approval that is noted, and no approval authorized two removals. -/
theorem approvals_authorize_once {start : World} (hstart : KeyedApprovals start)
    {removals : List RemovedRoot} (hrun : ClusterRun hasher engine store
      (fun w t command => command.Accounts hasher store w t) start removals w) :
    OneApproval hasher store removals w := by
  suffices h : RunInvariant hasher store removals w from h.toOneApproval
  induction hrun with
  | start => exact ⟨⟨fun _ h => absurd h not_mem_nil, .nil⟩, hstart⟩
  | @step removals w t command run condition leaves ih =>
    cases command with
    | plan env loader raw =>
      cases leaves
      exact ih.of_noted (fun _ _ h => h) fun h => h
    | approve env loader raw approvalId resource =>
      have hretires : Retires [] w t :=
        leaves.2.of_wp (approve_stops approvalId resource w) (Std.Refl.refl w)
      exact ih.of_noted (fun _ _ h => h.of_retires hretires) hretires.keyed
    | refresh env loader raw =>
      rcases leaves.2.of_wp (refresh_stops w) (.inl rfl) with rfl | ⟨hnoted, hkeyed⟩
      · exact ih.of_noted (fun _ _ h => h) fun h => h
      · exact ih.of_noted (hnoted condition) hkeyed
    | apply env loader raw =>
      exact ih.of_stopped leaves.2.1 condition
        (leaves.2.2.of_wp (applyConfigDir_stops leaves.2.1) (.idle rfl))

end Runs

/-! ### An approval that is used twice -/

section Twice

/-- Every call succeeds, and ids are drawn apart. -/
def drawingEnv : Env :=
  { plainEnv with
    operationId := fun kind graphId => match kind with
      | .graphCreate => "c." ++ graphId
      | .schemaApply => "s." ++ graphId
      | .graphDelete => "d." ++ graphId }

/-- The mark of an approval fails. -/
def unmarkedEnv : Env :=
  { drawingEnv with ok := fun call => match call with
      | .markConsumed _ => false
      | _ => true }

/-- The cluster with one graph. -/
def createdWorld : World :=
  (applyConfigDir plainHasher plainEngine localStore drawingEnv
    (loadDesired plainHasher plainLoader (configOf [plainGraph "g"])).1 emptyWorld).final

/-- The delete of the graph is approved. -/
def approvedWorld : World :=
  (approveConfigDir drawingEnv (loadDesired plainHasher plainLoader (configOf [])).1 "a"
    "graph.g" createdWorld).final

/-- The graph is removed in a run whose calls succeed or fail as in an environment. -/
def deletedWorld (env : Env) (w : World) : World :=
  (applyConfigDir plainHasher plainEngine localStore env
    (loadDesired plainHasher plainLoader (configOf [])).1 w).final

/-- The graph is made again after its approval could not be marked. -/
def recreatedWorld : World :=
  (applyConfigDir plainHasher plainEngine localStore drawingEnv
    (loadDesired plainHasher plainLoader (configOf [plainGraph "g"])).1
    (deletedWorld unmarkedEnv approvedWorld)).final

lemma drawingEnv_inj : ∀ kind kind' graphId graphId', drawingEnv.operationId kind graphId =
    drawingEnv.operationId kind' graphId' → kind = kind' ∧ graphId = graphId' := by
  have hcs : Prefixed.Apart "c." "s." := by decide +kernel
  have hcd : Prefixed.Apart "c." "d." := by decide +kernel
  have hsd : Prefixed.Apart "s." "d." := by decide +kernel
  intro kind kind' graphId graphId' h
  cases kind with
  | graphCreate =>
    cases kind' with
    | graphCreate => exact ⟨rfl, Prefixed.append_inj h⟩
    | schemaApply => exact absurd h (hcs.append_ne _ _)
    | graphDelete => exact absurd h (hcd.append_ne _ _)
  | schemaApply =>
    cases kind' with
    | graphCreate => exact absurd h.symm (hcs.append_ne _ _)
    | schemaApply => exact ⟨rfl, Prefixed.append_inj h⟩
    | graphDelete => exact absurd h (hsd.append_ne _ _)
  | graphDelete =>
    cases kind' with
    | graphCreate => exact absurd h.symm (hcd.append_ne _ _)
    | schemaApply => exact absurd h.symm (hsd.append_ne _ _)
    | graphDelete => exact ⟨rfl, Prefixed.append_inj h⟩

lemma draws_of_empty (h : w.sidecars = ∅) : Draws drawingEnv w := by
  refine ⟨fun kind graphId hmem => ?_, drawingEnv_inj⟩
  rw [h] at hmem
  cases hmem

lemma leaves_final (m : Durable World ε α) (w : World) :
    Durable.Leaves m w (m w).final := .inr (.inr rfl)

/-- The artifact of the approval. -/
def approvalOfGraph : ApprovalArtifact :=
  ⟨"a", "graph.g", "cluster-config\x00\x00", some "graph\x00g\x00schema\x00g.pg\x00", none, none⟩

/-- The run that removed the graph listed the artifact and consumed it. -/
def authorizes (env : Env) (w : World) (artifact : ApprovalArtifact) : Bool :=
  let desired := (loadDesired plainHasher plainLoader (configOf [])).1
  let listed := (listApprovalArtifacts env w .listApprovals).1
  decide (artifact ∈ listed) && artifact.pendingFor (graphAddress "g") &&
    decide (consumableArtifact desired listed "g" = some artifact) &&
    w.ledger.any fun state => (planChanges desired
      (sweptState plainHasher localStore env w state)).any fun change =>
        decide (change.operation = .delete) && decide (change.resource = graphAddress "g") &&
          artifact.boundTo change desired.configDigest

lemma authorizedBy_of_authorizes {env : Env} {w : World} {artifact : ApprovalArtifact}
    (h : authorizes env w artifact = true) :
    (RemovedRoot.mk (localStore.graphRoot "g") w env
      (loadDesired plainHasher plainLoader (configOf [])).1).AuthorizedBy plainHasher localStore "g"
        artifact := by
  simp only [authorizes, Bool.and_eq_true, decide_eq_true_eq, Option.any_eq_true,
    List.any_eq_true] at h
  obtain ⟨⟨⟨hlisted, hpending⟩, hconsumed⟩, state, hstate, change, hchange, ⟨hdelete, hresource⟩,
    hbound⟩ := h
  exact ⟨rfl, hlisted, hpending, ⟨state, hstate, change, hchange, hdelete, hresource, hbound⟩,
    hconsumed⟩

lemma mem_removedRoots_of_removes {w t : World} {graphUri : String}
    (h : (w.roots.keys.filter fun uri => rootPresent localStore w uri &&
      !rootPresent localStore t uri).contains graphUri = true) :
    ⟨graphUri, w, env, desired⟩ ∈ removedRoots localStore env desired w t :=
  List.mem_map_of_mem (contains_iff_mem.mp h)

/-- A run without sidecars accounts for what was removed if its only artifact is not recorded. -/
lemma accounts_of_empty {w t : World} (artifact : ApprovalArtifact) (hsidecars : w.sidecars = ∅)
    (hlisted : (listApprovalArtifacts env w .listApprovals).1 = [artifact])
    (hunrecorded : ∀ state, w.ledger = some state → artifact.approvalId ∉ state.approvalRecords) :
    ApplyAccounts plainHasher localStore env desired w t := by
  have hnone : ∀ sidecar approvalId, ¬ Lingers localStore w sidecar approvalId := by
    intro sidecar approvalId h
    obtain ⟨file, hlookup⟩ := h.listed
    rw [hsidecars] at hlookup
    cases hlookup
  refine ⟨fun _ _ sidecar approvalId h => absurd h (hnone _ _),
    fun _ _ sidecar approvalId h => absurd h (hnone _ _), ?_⟩
  intro _ _ _ _ graphId _ _ other hother _ _ consumed hconsumed
  have hmem := mem_of_find?_eq_some hconsumed
  rw [hlisted, mem_singleton] at hother hmem
  subst hother hmem
  refine ⟨rfl, rfl, hunrecorded, fun file sidecar hlookup => ?_⟩
  rw [hsidecars] at hlookup
  cases hlookup

/-- The first use of the approval is accounted for. -/
theorem approvals_authorize_once_graph : ∃ removals,
    ⟨localStore.graphRoot "g", approvedWorld, drawingEnv,
      (loadDesired plainHasher plainLoader (configOf [])).1⟩ ∈ removals ∧
    ClusterRun plainHasher plainEngine localStore
      (fun w t command => command.Accounts plainHasher localStore w t) approvedWorld removals
      (deletedWorld drawingEnv approvedWorld) ∧
    OneApproval plainHasher localStore removals (deletedWorld drawingEnv approvedWorld) := by
  have hsidecars : approvedWorld.sidecars = ∅ := by decide +kernel
  have haccounts : ClusterCommand.Accounts plainHasher localStore approvedWorld
      (deletedWorld drawingEnv approvedWorld) (.apply drawingEnv plainLoader (configOf [])) := by
    refine accounts_of_empty approvalOfGraph hsidecars (by decide +kernel) ?_
    have hunrecorded : (approvedWorld.ledger.all fun state =>
        decide ("a" ∉ state.approvalRecords)) = true := by decide +kernel
    intro state hstate
    rw [hstate, Option.all_some, decide_eq_true_eq] at hunrecorded
    exact hunrecorded
  have hleaves : ClusterCommand.Leaves plainHasher plainEngine localStore approvedWorld
      (.apply drawingEnv plainLoader (configOf [])) (deletedWorld drawingEnv approvedWorld) :=
    ⟨by decide +kernel, draws_of_empty hsidecars, leaves_final _ _⟩
  have hrun := ClusterRun.step _ .start haccounts hleaves
  have hkeyed : KeyedApprovals approvedWorld := by
    intro approvalId artifact hlookup
    have hall : ∀ entry ∈ approvedWorld.approvals.entries, entry.2.approvalId = entry.1 := by
      decide +kernel
    exact hall _ (lookup_eq_some_iff.mp hlookup)
  have hmem := @mem_removedRoots_of_removes drawingEnv
    (loadDesired plainHasher plainLoader (configOf [])).1 approvedWorld
    (deletedWorld drawingEnv approvedWorld) (localStore.graphRoot "g") (by decide +kernel)
  exact ⟨_, mem_append_right _ hmem, hrun, approvals_authorize_once hkeyed hrun⟩

/-- The mark of an approval fails when its graph is removed. The graph is made again and dropped
again, and the same approval authorizes its delete. -/
theorem approval_authorizes_twice : ∃ removals w,
    ClusterRun plainHasher plainEngine localStore (fun _ _ _ => True) emptyWorld removals w ∧
      ¬ OneApproval plainHasher localStore removals w := by
  have hempty : hasErrors (loadDesired plainHasher plainLoader (configOf [])).2 = false := by
    decide +kernel
  have hgraph : hasErrors (loadDesired plainHasher plainLoader (configOf [plainGraph "g"])).2 =
      false := by
    decide +kernel
  have hunmarked : ∀ {w : World}, w.sidecars = ∅ → Draws unmarkedEnv w :=
    fun h => ⟨(draws_of_empty h).fresh, drawingEnv_inj⟩
  have hcreated : ClusterCommand.Leaves plainHasher plainEngine localStore emptyWorld
      (.apply drawingEnv plainLoader (configOf [plainGraph "g"])) createdWorld :=
    ⟨hgraph, draws_of_empty rfl, leaves_final _ _⟩
  have happroved : ClusterCommand.Leaves plainHasher plainEngine localStore createdWorld
      (.approve drawingEnv plainLoader (configOf []) "a" "graph.g") approvedWorld :=
    ⟨hempty, leaves_final _ _⟩
  have hdeleted : ClusterCommand.Leaves plainHasher plainEngine localStore approvedWorld
      (.apply unmarkedEnv plainLoader (configOf [])) (deletedWorld unmarkedEnv approvedWorld) :=
    ⟨hempty, hunmarked (by decide +kernel), leaves_final _ _⟩
  have hrecreated : ClusterCommand.Leaves plainHasher plainEngine localStore
      (deletedWorld unmarkedEnv approvedWorld)
      (.apply drawingEnv plainLoader (configOf [plainGraph "g"])) recreatedWorld :=
    ⟨hgraph, draws_of_empty (by decide +kernel), leaves_final _ _⟩
  have hagain : ClusterCommand.Leaves plainHasher plainEngine localStore recreatedWorld
      (.apply drawingEnv plainLoader (configOf [])) (deletedWorld drawingEnv recreatedWorld) :=
    ⟨hempty, draws_of_empty (by decide +kernel), leaves_final _ _⟩
  have hstart : ClusterRun plainHasher plainEngine localStore (fun _ _ _ => True) emptyWorld []
    emptyWorld := .start
  have hrun := ((((hstart.step _ trivial hcreated).step _ trivial happroved).step _
    trivial hdeleted).step _ trivial hrecreated).step _ trivial hagain
  refine ⟨_, _, hrun, fun h => ?_⟩
  -- the root is removed by the third command and by the last one
  have hfirst := @mem_removedRoots_of_removes unmarkedEnv
    (loadDesired plainHasher plainLoader (configOf [])).1 approvedWorld
    (deletedWorld unmarkedEnv approvedWorld) (localStore.graphRoot "g") (by decide +kernel)
  have hsecond := @mem_removedRoots_of_removes drawingEnv
    (loadDesired plainHasher plainLoader (configOf [])).1 recreatedWorld
    (deletedWorld drawingEnv recreatedWorld) (localStore.graphRoot "g") (by decide +kernel)
  have hne := (pairwise_append.mp h.once).2.2 _
    (mem_append_left _ (mem_append_right _ hfirst)) _ hsecond
  have hauthorized := @authorizedBy_of_authorizes unmarkedEnv approvedWorld approvalOfGraph
    (by decide +kernel)
  have hauthorized' := @authorizedBy_of_authorizes drawingEnv recreatedWorld approvalOfGraph
    (by decide +kernel)
  exact hne "g" "g" approvalOfGraph approvalOfGraph hauthorized hauthorized' rfl

end Twice

end Omnigraph.Cluster
