import Omnigraph.Cluster.Changes

/-!
# What the operations on graphs do

The operations of an apply change graph roots and sidecars, and the payloads of the catalog are
written between them. None of them touches the ledger or the approvals. An operation that does not
fail leaves no sidecar that is not listed for cleaning.
-/

namespace Omnigraph.Cluster

open List Durable

variable {hasher : Hasher} {engine : Engine} {store : ClusterStore} {env : Env}
  {desired : DesiredCluster}

/-! ### Frames -/

/-- The ledger and the approvals are as they were. -/
structure SameRecords (w w' : World) : Prop where
  ledger : w'.ledger = w.ledger
  approvals : w'.approvals = w.approvals

instance : IsPreorder World SameRecords where
  refl _ := ⟨rfl, rfl⟩
  trans _ _ _ h h' := ⟨h'.ledger.trans h.ledger, h'.approvals.trans h.approvals⟩

lemma SameRecords.refl (w : World) : SameRecords w w := ⟨rfl, rfl⟩

/-- Besides, the sidecars are as they were. -/
structure SameSidecars (w w' : World) : Prop extends SameRecords w w' where
  sidecars : w'.sidecars = w.sidecars

lemma SameSidecars.refl (w : World) : SameSidecars w w := ⟨.refl w, rfl⟩

instance : IsPreorder World SameSidecars where
  refl := .refl
  trans _ _ _ h h' := ⟨IsTrans.trans _ _ _ h.1 h'.1, h'.sidecars.trans h.sidecars⟩

/-! ### Roots and payloads -/

lemma sameSidecars_setRoot (graphUri : String) (root : GraphRoot) :
    Keeps SameSidecars (setRoot graphUri root) :=
  keeps_write fun _ => ⟨⟨rfl, rfl⟩, rfl⟩

lemma sameSidecars_beginGraph (graphId source : String) (leftover : List String) :
    Keeps SameSidecars (beginGraph store env graphId source leftover) := by
  unfold beginGraph
  split
  · exact sameSidecars_setRoot _ _
  · exact keeps_pure ()

lemma sameSidecars_initGraph (graphId source : String) :
    Keeps SameSidecars (initGraph store env graphId source) := by
  refine (keeps_read _).bind fun root => ?_
  split
  · exact keeps_pure false
  · refine (sameSidecars_beginGraph graphId source _).bind fun _ => ?_
    split
    · exact (sameSidecars_setRoot _ _).bind fun _ => keeps_pure true
    · exact keeps_pure false

lemma sameSidecars_moveSchema (graphUri source : String) :
    Keeps SameSidecars (moveSchema graphUri source) := by
  refine keeps_write fun w => ?_
  split
  · exact ⟨⟨rfl, rfl⟩, rfl⟩
  · exact .refl w

lemma sameSidecars_applySchema (live source : String) (sidecar : RecoverySidecar) :
    Keeps SameSidecars (applySchema engine env live source sidecar) := by
  unfold applySchema
  split_ifs
  · exact keeps_pure ()
  · exact sameSidecars_moveSchema _ _
  · exact sameSidecars_moveSchema _ _
  · exact keeps_pure ()

lemma sameSidecars_removeObjects (graphId graphUri : String) (objects : List String × ℕ) :
    Keeps SameSidecars (removeObjects env graphId graphUri objects) := by
  refine keeps_forM ?_
  intro object _
  refine keeps_write fun w => ?_
  split
  · exact ⟨⟨rfl, rfl⟩, rfl⟩
  · exact .refl w

lemma sameSidecars_deleteGraphRoot (graphId : String) :
    Keeps SameSidecars (deleteGraphRoot store env graphId) := by
  refine (keeps_read _).bind fun root => ?_
  split_ifs
  · refine (sameSidecars_removeObjects _ _ _).bind fun _ => ?_
    refine Keeps.bind (keeps_write fun _ => ⟨⟨rfl, rfl⟩, rfl⟩) fun _ => ?_
    exact keeps_pure true
  · exact (sameSidecars_removeObjects _ _ _).bind fun _ => keeps_pure false

lemma sameSidecars_writeResourcePayload (path digest resource : String) :
    Keeps SameSidecars (writeResourcePayload hasher env path digest resource) := by
  refine (keeps_read _).bind fun present => ?_
  split_ifs
  · exact keeps_pure []
  · exact keeps_pure _
  · refine Keeps.bind (keeps_write fun _ => ⟨⟨rfl, rfl⟩, rfl⟩) fun _ => ?_
    exact keeps_pure []
  · exact keeps_pure _

lemma sameSidecars_writePayload (change : PlanChange) :
    Keeps SameSidecars (writePayload hasher env desired change) := by
  unfold writePayload
  dsimp only
  split
  · exact keeps_pure []
  · split
    · exact keeps_pure []
    · split_ifs
      · exact keeps_pure _
      · exact sameSidecars_writeResourcePayload _ _ _

lemma sameSidecars_writePayloads (changes : List PlanChange) :
    Keeps SameSidecars (writePayloads hasher env desired changes) := by
  refine keeps_foldlM ?_ []
  intro diagnostics change _
  exact (sameSidecars_writePayload change).bind fun _ => keeps_pure _

/-! ### One graph -/

/-- What the operation on one graph leaves. -/
structure MoveStep (graphId : String) (moves moves' : GraphMoves) (w t : World) : Prop where
  records : SameRecords w t
  failed : moves'.failed = moves.failed ∨
    ∃ origin, moves'.failed = moves.failed.insert graphId origin
  completed : ∀ operationId ∈ moves.completedSidecars, operationId ∈ moves'.completedSidecars
  sidecars : graphId ∈ moves'.failed ∨ ∀ operationId ∈ t.sidecars,
    operationId ∈ w.sidecars ∨ operationId ∈ moves'.completedSidecars

variable {approvals : List ApprovalArtifact} {deletes : Deletes} {failed : FailedGraphs}

section Step

variable {graphId : String} {moves : GraphMoves} {w t : World}

lemma moveStep_refl : MoveStep graphId moves moves w w :=
  ⟨.refl w, .inl rfl, fun _ h => h, .inr fun _ h => .inl h⟩

lemma mem_insert_self {origin : FailedGraphOrigin} :
    graphId ∈ failed.insert graphId origin := BTreeMap.mem_insert.mpr (.inl rfl)

lemma moveStep_failWith (h : SameRecords w t) (code address : String) (origin : FailedGraphOrigin) :
    MoveStep graphId moves (moves.failWith code address graphId origin) w t :=
  ⟨h, .inr ⟨origin, rfl⟩, fun _ h => h, .inl mem_insert_self⟩

lemma moveStep_skip (h : SameRecords w t) (code address : String) (origin : FailedGraphOrigin) :
    MoveStep graphId moves (moves.skip code address graphId origin) w t :=
  ⟨h, .inr ⟨origin, rfl⟩, fun _ h => h, .inl mem_insert_self⟩

@[simp] lemma failed_pinSidecar (kind : RecoverySidecarKind) :
    (pinSidecar env kind graphId moves).failed = moves.failed := by
  unfold pinSidecar
  split_ifs <;> rfl

@[simp] lemma completed_pinSidecar (kind : RecoverySidecarKind) :
    (pinSidecar env kind graphId moves).completedSidecars = moves.completedSidecars := by
  unfold pinSidecar
  split_ifs <;> rfl

variable {sidecar : RecoverySidecar}

/-- The sidecar that fenced an operation is the only one that is new. -/
lemma moveStep_completed (moves' : GraphMoves) (hfailed : moves'.failed = moves.failed)
    (hcompleted : moves'.completedSidecars = moves.completedSidecars) (hrecords : SameRecords w t)
    (hsidecars : t.sidecars = w.sidecars.insert sidecar.operationId sidecar) :
    MoveStep graphId moves (moves'.completed sidecar.operationId) w t := by
  refine ⟨hrecords, .inl hfailed, fun operationId h => ?_, .inr fun operationId h => ?_⟩
  · exact mem_append_left _ (hcompleted ▸ h)
  · rw [hsidecars, BTreeMap.mem_insert] at h
    rcases h with rfl | h
    · exact .inr (mem_append_right _ (mem_singleton.mpr rfl))
    · exact .inl h

lemma sameRecords_writeSidecar (w : World) (sidecar : RecoverySidecar) :
    SameRecords w { w with sidecars := w.sidecars.insert sidecar.operationId sidecar } :=
  ⟨rfl, rfl⟩

lemma keeps_deleteSidecar (operationId : String) :
    Keeps SameRecords (deleteSidecar operationId : Apply Unit) :=
  keeps_write fun _ => ⟨rfl, rfl⟩

lemma keeps_attempt {ε : Type} {R : World → World → Prop} [IsPreorder World R]
    {step : Durable World ε Unit} (h : Keeps R step) (call : Io) :
    Keeps R (attempt env call step) := by
  unfold attempt
  split_ifs
  · exact h
  · exact keeps_pure ()

/-- The program does not fail, and what it leaves is one step of the operations. -/
def Steps (graphId : String) (moves : GraphMoves) (m : Apply GraphMoves) : Prop :=
  ∀ w, m.wp (SameRecords w) (fun r t => ∃ moves', r = .ok moves' ∧
    MoveStep graphId moves moves' w t) w

lemma steps_pure {moves' : GraphMoves} (h : ∀ w, MoveStep graphId moves moves' w w) :
    Steps graphId moves (pure moves') := by
  intro w
  rw [wp_pure]
  exact ⟨moves', rfl, h w⟩

lemma steps_createFenced (graph : DesiredGraph) (sidecar : RecoverySidecar) (moves : GraphMoves) :
    Steps graph.id moves (createFenced hasher store env desired graph sidecar moves) := by
  intro w
  have hsidecar := sameRecords_writeSidecar w sidecar
  rw [createFenced, wp_bind, writeRecoverySidecar, wp_write, then_ok]
  refine ⟨hsidecar, ?_⟩
  split
  · next code _ =>
    rw [wp_bind]
    refine wp_mono (keeps_attempt (keeps_deleteSidecar _) _ _)
      (fun t ht => IsTrans.trans _ _ _ hsidecar ht) ?_
    rintro r t ⟨⟨_, rfl⟩, ht⟩
    rw [then_ok, wp_pure]
    exact ⟨_, rfl, moveStep_failWith (IsTrans.trans _ _ _ hsidecar ht) _ _ _⟩
  · next source _ =>
    rw [wp_bind]
    refine wp_mono (sameSidecars_initGraph graph.id source _)
      (fun t ht => IsTrans.trans _ _ _ hsidecar ht.1) ?_
    rintro r t ⟨⟨created, rfl⟩, ht⟩
    have hrecords : SameRecords w t := IsTrans.trans _ _ _ hsidecar ht.1
    rw [then_ok]
    split
    · rw [wp_pure]
      exact ⟨_, rfl, moveStep_completed _ (failed_pinSidecar _) (completed_pinSidecar _) hrecords
        ht.sidecars⟩
    · rw [wp_pure]
      exact ⟨_, rfl, moveStep_failWith hrecords _ _ _⟩

lemma steps_createGraph (moves : GraphMoves) (graphId : String) :
    Steps graphId moves (createGraph hasher store env desired moves graphId) := by
  unfold createGraph
  split
  · exact steps_pure fun w => moveStep_skip (.refl w) _ _ _
  · split
    · exact steps_pure fun w => moveStep_refl
    · next graph hgraph =>
      have hid : graph.id = graphId := by simpa using List.find?_some hgraph
      split
      · rw [← hid]
        exact steps_createFenced _ _ _
      · exact steps_pure fun w => moveStep_failWith (.refl w) _ _ _

lemma MoveStep.of_eq {moves' moves'' : GraphMoves} (h : MoveStep graphId moves' moves'' w t)
    (hfailed : moves'.failed = moves.failed)
    (hcompleted : moves'.completedSidecars = moves.completedSidecars) :
    MoveStep graphId moves moves'' w t :=
  ⟨h.records, hfailed ▸ h.failed, hcompleted ▸ h.completed, h.sidecars⟩

lemma dropUnmoved_wp (recorded : Option String) (sidecar : RecoverySidecar) (moves : GraphMoves)
    (w : World) : (dropUnmoved hasher env recorded sidecar moves).wp (SameRecords w)
      (fun r t => ∃ moves', r = .ok moves' ∧ moves'.failed = moves.failed ∧
        moves'.completedSidecars = moves.completedSidecars ∧ SameRecords w t) w := by
  rw [dropUnmoved, wp_bind, wp_read, then_ok]
  split
  · rw [wp_pure]
    exact ⟨moves, rfl, rfl, rfl, .refl w⟩
  · split
    · rw [wp_bind, deleteSidecar, wp_write, then_ok, wp_pure]
      exact ⟨⟨rfl, rfl⟩, moves, rfl, rfl, rfl, ⟨rfl, rfl⟩⟩
    · rw [wp_pure]
      exact ⟨_, rfl, rfl, rfl, .refl w⟩

lemma steps_updateFenced (recorded : Option String) (live source : String)
    (hid : sidecar.graphId = graphId) (moves : GraphMoves) :
    Steps graphId moves (updateFenced hasher engine env recorded live source sidecar moves) := by
  intro w
  have hsidecar := sameRecords_writeSidecar w sidecar
  rw [updateFenced, wp_bind, writeRecoverySidecar, wp_write, then_ok, wp_bind]
  refine ⟨hsidecar, ?_⟩
  refine wp_mono (sameSidecars_applySchema live source sidecar _)
    (fun t ht => IsTrans.trans _ _ _ hsidecar ht.1) ?_
  rintro r t ⟨⟨_, rfl⟩, ht⟩
  have hrecords : SameRecords w t := IsTrans.trans _ _ _ hsidecar ht.1
  rw [then_ok]
  split
  · rw [wp_pure]
    exact ⟨_, rfl, moveStep_completed _ (failed_pinSidecar _) (completed_pinSidecar _) hrecords
      ht.sidecars⟩
  · rw [wp_bind]
    refine wp_mono (dropUnmoved_wp recorded sidecar moves t)
      (fun u hu => IsTrans.trans _ _ _ hrecords hu) ?_
    rintro r u ⟨moves', rfl, hfailed, hcompleted, hu⟩
    rw [then_ok, wp_pure]
    have hrecords' : SameRecords w u := IsTrans.trans _ _ _ hrecords hu
    rw [hid]
    exact ⟨_, rfl, (moveStep_failWith hrecords' _ _ _).of_eq hfailed hcompleted⟩

lemma steps_updateOpened (resources : Resources) (graph : DesiredGraph) (moves : GraphMoves)
    (opened : Option String) : Steps graph.id moves
      (updateOpened hasher engine store env desired resources graph moves opened) := by
  unfold updateOpened
  dsimp only
  split
  · exact steps_pure fun w => moveStep_failWith (.refl w) _ _ _
  · exact steps_pure fun w => moveStep_failWith (.refl w) _ _ _
  · split_ifs
    · exact steps_pure fun w => moveStep_failWith (.refl w) _ _ _
    · exact steps_pure fun w => moveStep_failWith (.refl w) _ _ _
    · exact steps_updateFenced _ _ _ rfl _

lemma steps_updateSchema (resources : Resources) (moves : GraphMoves) (graphId : String) :
    Steps graphId moves
      (updateSchema hasher engine store env desired resources moves graphId) := by
  unfold updateSchema
  split
  · exact steps_pure fun w => moveStep_skip (.refl w) _ _ _
  · split
    · exact steps_pure fun w => moveStep_refl
    · next graph hgraph =>
      have hid : graph.id = graphId := by simpa using List.find?_some hgraph
      intro w
      rw [wp_bind, wp_read, then_ok, ← hid]
      exact steps_updateOpened _ _ _ _ w

/-- What the delete of one graph leaves. -/
structure DeleteStep (approvals : List ApprovalArtifact) (desired : DesiredCluster)
    (graphId : String) (deletes deletes' : Deletes) (w t : World) : Prop where
  move : MoveStep graphId deletes.moves deletes'.moves w t
  executed : deletes'.executed = deletes.executed ∧ graphId ∈ deletes'.moves.failed ∨
    deletes'.executed = deletes.executed ++
      [(graphId, consumableApproval desired approvals graphId)] ∧
    deletes'.moves.failed = deletes.moves.failed

lemma deleteStep_failWith (h : SameRecords w t) (code address : String) :
    DeleteStep approvals desired graphId deletes (deletes.failWith code address graphId) w t :=
  ⟨moveStep_failWith h _ _ _, .inl ⟨rfl, mem_insert_self⟩⟩

lemma deleteGraph_wp (approvals : List ApprovalArtifact) (deletes : Deletes) (graphId : String)
    (w : World) : (deleteGraph store env desired approvals deletes graphId).wp (SameRecords w)
      (fun r t => ∃ deletes', r = .ok deletes' ∧
        DeleteStep approvals desired graphId deletes deletes' w t) w := by
  unfold deleteGraph
  split_ifs
  · rw [wp_pure]
    exact ⟨_, rfl, moveStep_skip (.refl w) _ _ _, .inl ⟨rfl, mem_insert_self⟩⟩
  · rw [wp_pure]
    exact ⟨_, rfl, deleteStep_failWith (.refl w) _ _⟩
  · rw [wp_pure]
    exact ⟨_, rfl, deleteStep_failWith (.refl w) _ _⟩
  · have hsidecar := sameRecords_writeSidecar w
      (newSidecar store env .graphDelete graphId "" (consumableApproval desired approvals graphId))
    rw [deleteFenced, wp_bind, writeRecoverySidecar, wp_write, then_ok, wp_bind]
    refine ⟨hsidecar, ?_⟩
    refine wp_mono (sameSidecars_deleteGraphRoot _ _)
      (fun t ht => IsTrans.trans _ _ _ hsidecar ht.1) ?_
    rintro r t ⟨⟨removed, rfl⟩, ht⟩
    have hrecords : SameRecords w t := IsTrans.trans _ _ _ hsidecar ht.1
    rw [then_ok]
    split
    · rw [wp_pure]
      exact ⟨_, rfl, moveStep_completed _ rfl rfl hrecords ht.sidecars, .inr ⟨rfl, rfl⟩⟩
    · rw [wp_pure]
      exact ⟨_, rfl, deleteStep_failWith hrecords _ _⟩

end Step

/-! ### Several graphs -/

/-- What the operations on the graphs `done` leave. -/
structure Moving (done : List String) (moves moves' : GraphMoves) (w t : World) : Prop where
  records : SameRecords w t
  kept : ∀ graphId ∈ moves.failed, graphId ∈ moves'.failed
  failed : ∀ graphId ∈ moves'.failed, graphId ∈ moves.failed ∨ graphId ∈ done
  completed : ∀ operationId ∈ moves.completedSidecars, operationId ∈ moves'.completedSidecars
  sidecars : moves'.failed = ∅ → ∀ operationId ∈ t.sidecars,
    operationId ∈ w.sidecars ∨ operationId ∈ moves'.completedSidecars

section Moving

variable {done : List String} {moves moves' moves'' : GraphMoves} {w t u : World}

lemma moving_refl : Moving [] moves moves w w :=
  ⟨.refl w, fun _ h => h, fun _ h => .inl h, fun _ h => h, fun _ _ h => .inl h⟩

lemma ne_empty_of_mem {graphId : String} (h : graphId ∈ failed) : failed ≠ ∅ := by
  rintro rfl
  cases h

lemma eq_empty_of_subset {failed' : FailedGraphs} (h : ∀ id ∈ failed, id ∈ failed')
    (hempty : failed' = ∅) : failed = ∅ := by
  ext1 graphId
  rw [BTreeMap.lookup_empty, BTreeMap.lookup_eq_none_iff]
  intro hmem
  exact ne_empty_of_mem (h graphId hmem) hempty

lemma Moving.trans {done' : List String} (h : Moving done moves moves' w t)
    (h' : Moving done' moves' moves'' t u) : Moving (done ++ done') moves moves'' w u := by
  refine ⟨IsTrans.trans _ _ _ h.records h'.records, fun id hid => h'.kept id (h.kept id hid),
    fun id hid => ?_, fun op hop => h'.completed op (h.completed op hop),
    fun hempty op hop => ?_⟩
  · rcases h'.failed id hid with hid | hid
    · exact (h.failed id hid).imp_right (mem_append_left _)
    · exact .inr (mem_append_right _ hid)
  · rcases h'.sidecars hempty op hop with hop | hop
    · exact (h.sidecars (eq_empty_of_subset h'.kept hempty) op hop).imp_right (h'.completed op)
    · exact .inr hop

lemma MoveStep.moving {graphId : String} (h : MoveStep graphId moves moves' w t) :
    Moving [graphId] moves moves' w t := by
  have hfailed : ∀ id, id ∈ moves'.failed → id ∈ moves.failed ∨ id = graphId := by
    intro id hid
    rcases h.failed with heq | ⟨origin, heq⟩
    · exact .inl (heq ▸ hid)
    · rw [heq, BTreeMap.mem_insert] at hid
      exact hid.symm
  refine ⟨h.records, fun id hid => ?_, fun id hid => ?_, h.completed, fun hempty => ?_⟩
  · rcases h.failed with heq | ⟨origin, heq⟩
    · exact heq ▸ hid
    · exact heq ▸ BTreeMap.mem_insert.mpr (.inr hid)
  · exact (hfailed id hid).imp_right mem_singleton.mpr
  · exact h.sidecars.resolve_left fun hmem => ne_empty_of_mem hmem hempty

/-- Operations on the graphs of a list, one after the other. -/
lemma moving_foldlM {f : GraphMoves → String → Apply GraphMoves}
    (hf : ∀ moves graphId, Steps graphId moves (f moves graphId)) (graphIds : List String)
    (moves : GraphMoves) (w : World) :
    (graphIds.foldlM f moves).wp (SameRecords w)
      (fun r t => ∃ moves', r = .ok moves' ∧ Moving graphIds moves moves' w t) w := by
  apply wp_foldlM (fun done moves' t => Moving done moves moves' w t)
  · intro pre graphId post moves' t _ ht
    refine wp_mono (hf moves' graphId t) (fun u hu => IsTrans.trans _ _ _ ht.records hu) ?_
    rintro r u ⟨moves'', rfl, hu⟩
    exact ⟨moves'', rfl, ht.trans hu.moving⟩
  · intro moves' t ht
    exact ⟨moves', rfl, ht⟩
  · exact moving_refl

/-- What the deletes of the graphs `done` leave. -/
structure Deleting (approvals : List ApprovalArtifact) (desired : DesiredCluster)
    (done : List String) (moves : GraphMoves) (deletes : Deletes) (w t : World) : Prop where
  moving : Moving done moves deletes.moves w t
  executed : ∀ deleted ∈ deletes.executed, deleted.1 ∈ done ∧
    deleted.2 = consumableApproval desired approvals deleted.1 ∧ deleted.1 ∉ deletes.moves.failed
  covered : ∀ graphId ∈ done,
    graphId ∈ deletes.moves.failed ∨ graphId ∈ deletes.executed.map Prod.fst

/-- Deleting one more graph extends what the deletes did. -/
lemma Deleting.step {approvals : List ApprovalArtifact} {graphId : String}
    {deletes deletes' : Deletes} (h : Deleting approvals desired done moves deletes w t)
    (hstep : DeleteStep approvals desired graphId deletes deletes' t u) (hnew : graphId ∉ done)
    (hnot : graphId ∉ moves.failed) :
    Deleting approvals desired (done ++ [graphId]) moves deletes' w u := by
  have hunfailed : graphId ∉ deletes.moves.failed := by
    intro hmem
    exact (h.moving.failed graphId hmem).elim hnot hnew
  have hmono : ∀ id, id ∈ deletes.moves.failed → id ∈ deletes'.moves.failed :=
    hstep.move.moving.kept
  refine ⟨h.moving.trans hstep.move.moving, ?_, ?_⟩
  · intro deleted hdeleted
    rcases hstep.executed with ⟨hexecuted, -⟩ | ⟨hexecuted, hfailed⟩
    · rw [hexecuted] at hdeleted
      obtain ⟨hdone, hconsumable, hkept⟩ := h.executed deleted hdeleted
      refine ⟨mem_append_left _ hdone, hconsumable, fun hmem => ?_⟩
      rcases hstep.move.moving.failed _ hmem with hmem | hmem
      · exact hkept hmem
      · rw [mem_singleton.mp hmem] at hdone
        exact hnew hdone
    · rw [hexecuted] at hdeleted
      rw [hfailed]
      rcases mem_append.mp hdeleted with hdeleted | hdeleted
      · obtain ⟨hdone, hconsumable, hkept⟩ := h.executed deleted hdeleted
        exact ⟨mem_append_left _ hdone, hconsumable, hkept⟩
      · rw [mem_singleton] at hdeleted
        rw [hdeleted]
        exact ⟨mem_append_right _ (mem_singleton.mpr rfl), rfl, hunfailed⟩
  · intro id hid
    rcases mem_append.mp hid with hid | hid
    · rcases h.covered id hid with hmem | hmem
      · exact .inl (hmono id hmem)
      · refine .inr ?_
        rcases hstep.executed with ⟨hexecuted, -⟩ | ⟨hexecuted, -⟩
        · rwa [hexecuted]
        · rw [hexecuted, map_append]
          exact mem_append_left _ hmem
    · rw [mem_singleton.mp hid]
      rcases hstep.executed with ⟨-, hfailed⟩ | ⟨hexecuted, -⟩
      · exact .inl hfailed
      · refine .inr ?_
        rw [hexecuted, map_append]
        exact mem_append_right _ (mem_singleton.mpr rfl)

lemma deleting_foldlM {graphIds : List String} (hnodup : graphIds.Nodup) {moves : GraphMoves}
    (hnot : ∀ id ∈ graphIds, id ∉ moves.failed) (w : World) :
    (graphIds.foldlM (deleteGraph store env desired approvals) ⟨moves, []⟩).wp (SameRecords w)
      (fun r t => ∃ deletes, r = .ok deletes ∧
        Deleting approvals desired graphIds moves deletes w t) w := by
  apply wp_foldlM (fun done deletes t => Deleting approvals desired done moves deletes w t)
  · intro pre graphId post deletes t hl ht
    refine wp_mono (deleteGraph_wp approvals deletes graphId t)
      (fun u hu => IsTrans.trans _ _ _ ht.moving.records hu) ?_
    rintro r u ⟨deletes', rfl, hu⟩
    have hnew : graphId ∉ pre := by
      rw [hl] at hnodup
      exact fun hmem => (nodup_append.mp hnodup).2.2 graphId hmem graphId (by simp) rfl
    exact ⟨deletes', rfl, ht.step hu hnew (hnot graphId (by rw [hl]; simp))⟩
  · intro deletes t ht
    exact ⟨deletes, rfl, ht⟩
  · exact ⟨moving_refl, fun _ h => absurd h not_mem_nil, fun _ h => absurd h not_mem_nil⟩

end Moving

/-! ### All operations -/

variable {dependencies : List Dependency} {change : PlanChange} {changes : List PlanChange}
  {operation : PlanOperation} {pre : String}

lemma demoteReason_graph {graphId : String} :
    demoteReason failed dependencies (graphAddress graphId) = none ↔ graphId ∉ failed := by
  simp only [demoteReason, resourceKind_graphAddress, Option.map_eq_none_iff,
    BTreeMap.lookup_eq_none_iff]

/-- A change that is still applied is not demoted. -/
lemma demote_applied (h : (demote failed dependencies change).disposition = some .applied) :
    demote failed dependencies change = change ∧
      demoteReason failed dependencies change.resource = none := by
  unfold demote at h ⊢
  split_ifs at h ⊢ with happlied
  · exact absurd h happlied
  · split at h
    · cases h
    · next hnone => exact ⟨rfl, hnone⟩

lemma demote_of_reason_eq_none (h : demoteReason failed dependencies change.resource = none) :
    demote failed dependencies change = change := by
  unfold demote
  rw [h, ite_self]

lemma mem_operationsOf {graphId : String} : graphId ∈ operationsOf operation pre changes ↔
      ∃ change ∈ changes, change.disposition = some .applied ∧ change.operation = operation ∧
        change.resource = pre ++ graphId := by
  simp only [operationsOf, mem_filterMap, mem_filter, decide_eq_true_eq,
    Prefixed.strip_eq_some_iff, and_assoc]

lemma nodup_operationsOf (h : (changes.map PlanChange.resource).Nodup) :
    (operationsOf operation pre changes).Nodup := by
  rw [List.Nodup, pairwise_map] at h
  rw [operationsOf, List.Nodup, pairwise_filterMap]
  refine (h.filter _).imp ?_
  intro change change' hne graphId hgraph graphId' hgraph' heq
  rw [Prefixed.strip_eq_some_iff] at hgraph hgraph'
  exact hne (by rw [hgraph, hgraph', heq])

/-- What the operations of a run and its payloads leave. -/
structure Moved (desired : DesiredCluster) (planned : Planned) (changes : List PlanChange)
    (deletes : Deletes) (w t : World) : Prop where
  records : SameRecords w t
  demoted : ∃ failed : FailedGraphs, (∀ id ∈ failed, id ∈ deletes.moves.failed) ∧
    changes = demoteDependentsOfFailedGraphs
      (demoteDependentsOfFailedGraphs planned.changes failed desired.dependencies)
      deletes.moves.failed desired.dependencies
  executed_iff : ∀ graphId, graphId ∈ deletes.executed.map Prod.fst ↔ ∃ change ∈ changes,
    change.disposition = some .applied ∧ change.operation = .delete ∧
      change.resource = graphAddress graphId
  consumable : ∀ deleted ∈ deletes.executed,
    deleted.2 = consumableApproval desired planned.approvals deleted.1
  sidecars : deletes.moves.failed = ∅ → ∀ operationId ∈ t.sidecars,
    operationId ∈ w.sidecars ∨ operationId ∈ deletes.moves.completedSidecars

/-- The deletes that are executed are the ones that stay applied. -/
lemma executed_iff {moves : GraphMoves} {w t : World}
    (h : Deleting approvals desired (operationsOf .delete "graph." changes) moves deletes w t)
    (graphId : String) :
    graphId ∈ deletes.executed.map Prod.fst ↔
      ∃ change ∈ demoteDependentsOfFailedGraphs changes deletes.moves.failed desired.dependencies,
        change.disposition = some .applied ∧ change.operation = .delete ∧
          change.resource = graphAddress graphId := by
  constructor
  · intro hmem
    obtain ⟨deleted, hdeleted, rfl⟩ := List.mem_map.mp hmem
    obtain ⟨hdone, -, hkept⟩ := h.executed deleted hdeleted
    obtain ⟨change, hchange, happlied, hoperation, hresource⟩ := mem_operationsOf.mp hdone
    have hreason : demoteReason deletes.moves.failed desired.dependencies change.resource =
        none := by
      rw [hresource]
      exact demoteReason_graph.mpr hkept
    refine ⟨change, ?_, happlied, hoperation, hresource⟩
    rw [← demote_of_reason_eq_none hreason]
    exact List.mem_map_of_mem hchange
  · rintro ⟨_, hmem, happlied, hoperation, hresource⟩
    obtain ⟨change, hchange, rfl⟩ := List.mem_map.mp hmem
    obtain ⟨heq, hreason⟩ := demote_applied happlied
    rw [heq] at happlied hoperation hresource
    rw [hresource] at hreason
    have hdone := mem_operationsOf.mpr ⟨change, hchange, happlied, hoperation, hresource⟩
    exact (h.covered graphId hdone).resolve_left (demoteReason_graph.mp hreason)

/-- The operations leave the ledger and the approvals as they were. -/
theorem moveGraphs_wp {planned : Planned}
    (hnodup : (planned.changes.map PlanChange.resource).Nodup) (w : World) :
    (moveGraphs hasher engine store env desired planned).wp (SameRecords w)
      (fun r t => SameRecords w t ∧
        ∀ moved, r = .ok moved → Moved desired planned moved.1 moved.2 w t) w := by
  unfold moveGraphs
  rw [wp_bind]
  refine wp_mono (moving_foldlM (@steps_createGraph hasher _ _ _) _ _ _) (fun _ h => h) ?_
  rintro r t ⟨created, rfl, ht⟩
  rw [then_ok, wp_bind]
  refine wp_mono (moving_foldlM (steps_updateSchema planned.sweep.state.resources) _ created t)
    (fun u hu => IsTrans.trans _ _ _ ht.records hu) ?_
  rintro r u ⟨moves, rfl, hu⟩
  have hmoves := ht.trans hu
  set changes := demoteDependentsOfFailedGraphs planned.changes moves.failed desired.dependencies
    with hchanges
  rw [then_ok, wp_bind]
  refine wp_mono (sameSidecars_writePayloads changes u)
    (fun v hv => IsTrans.trans _ _ _ hmoves.records hv.1) ?_
  rintro r v ⟨⟨errors, rfl⟩, hv⟩
  have hrecords : SameRecords w v := IsTrans.trans _ _ _ hmoves.records hv.1
  rw [then_ok]
  split
  · rw [wp_bind, wp_fail]
    exact ⟨hrecords, fun _ h => by cases h⟩
  have hnodup' : (changes.map PlanChange.resource).Nodup := by
    rw [hchanges, map_resource_demote]
    exact hnodup
  let begun : GraphMoves := { moves with
    diagnostics := planned.diagnostics ++ moves.diagnostics ++ changes.filterMap changeWarning }
  -- a delete that still applies is of a graph no operation has failed on
  have hkept : ∀ id ∈ operationsOf .delete "graph." changes, id ∉ begun.failed := by
    intro id hid
    obtain ⟨_, hmem, happlied, -, hresource⟩ := mem_operationsOf.mp hid
    obtain ⟨change, -, rfl⟩ := List.mem_map.mp hmem
    obtain ⟨heq, hreason⟩ := demote_applied happlied
    rw [heq] at hresource
    rw [hresource] at hreason
    exact demoteReason_graph.mp hreason
  rw [wp_bind]
  refine wp_mono (deleting_foldlM (nodup_operationsOf hnodup') hkept v)
    (fun _ h => IsTrans.trans _ _ _ hrecords h) ?_
  rintro r x ⟨deletes, rfl, hx⟩
  rw [then_ok, wp_pure]
  refine ⟨IsTrans.trans _ _ _ hrecords hx.moving.records, ?_⟩
  rintro moved hmoved
  cases hmoved
  refine ⟨IsTrans.trans _ _ _ hrecords hx.moving.records,
    ⟨moves.failed, hx.moving.kept, rfl⟩, executed_iff hx,
    fun deleted hdeleted => (hx.executed deleted hdeleted).2.1, fun hempty op hop => ?_⟩
  rcases hx.moving.sidecars hempty op hop with hop | hop
  · rw [hv.sidecars] at hop
    have hnone := eq_empty_of_subset hx.moving.kept hempty
    exact (hmoves.sidecars hnone op hop).imp_right (hx.moving.completed op)
  · exact .inr hop

end Omnigraph.Cluster
