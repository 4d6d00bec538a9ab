import Omnigraph.Cluster.Moves
import Omnigraph.Lib.Result

/-!
# What an apply leaves

An apply reads, then moves graphs, and then writes the ledger. It leaves the old ledger or the new
one, wherever it stops; the sidecars and approvals it retires are changed after the new ledger is
written.
-/

namespace Omnigraph.Cluster

open Durable

variable {hasher : Hasher} {engine : Engine} {store : ClusterStore} {env : Env}
  {desired : DesiredCluster}

/-! ### Planning -/

/-- What a run knows after it planned. -/
structure Prepared (hasher : Hasher) (store : ClusterStore) (env : Env) (desired : DesiredCluster)
    (w : World) (planned : Planned) : Prop where
  ledger : w.ledger = some planned.before
  valid : Valid hasher planned.before.resources
  sweep : planned.sweep = sweepRecoverySidecars hasher store env w planned.before
  approvals : planned.approvals = (listApprovalArtifacts env w .listApprovals).1
  changes : planned.changes = classifyChanges (planChanges desired planned.sweep.state)
    desired.dependencies planned.sweep.pendingGraphs
    (approvedResources planned.approvals (planChanges desired planned.sweep.state)
      desired.configDigest).1

variable {planned : Planned} {w : World}

lemma Prepared.isPlan (h : Prepared hasher store env desired w planned) :
    IsPlan desired planned.sweep.state planned.changes := by
  rw [h.changes]
  exact isPlan_classify _ _ _ _ _

/-- The change with the disposition the run gives it. -/
def Planned.classified (desired : DesiredCluster) (planned : Planned) (change : PlanChange) :
    PlanChange :=
  Cluster.classified (planChanges desired planned.sweep.state) desired.dependencies
    planned.sweep.pendingGraphs (approvedResources planned.approvals
      (planChanges desired planned.sweep.state) desired.configDigest).1 change

lemma Prepared.changes_eq (h : Prepared hasher store env desired w planned) : planned.changes =
      (planChanges desired planned.sweep.state).map (planned.classified desired) := h.changes

variable {state : ClusterState}

lemma appliedState_eq_ok (h : appliedState hasher env desired w = .ok state) :
    w.ledger = some state ∧ Valid hasher state.resources := by
  unfold appliedState at h
  split_ifs at h
  split at h
  · cases h
  · next hledger =>
    split_ifs at h with hvalid
    cases h
    exact ⟨hledger, (validate_eq_nil_iff hasher).mp (not_not.mp hvalid)⟩

lemma planApply_eq_ok (h : planApply hasher store env desired w state = .ok planned) :
    planned.before = state ∧ planned.sweep = sweepRecoverySidecars hasher store env w state ∧
      planned.approvals = (listApprovalArtifacts env w .listApprovals).1 ∧
      planned.changes = classifyChanges (planChanges desired planned.sweep.state)
        desired.dependencies planned.sweep.pendingGraphs
        (approvedResources planned.approvals (planChanges desired planned.sweep.state)
          desired.configDigest).1 := by
  unfold planApply at h
  dsimp only at h
  split_ifs at h
  cases h
  exact ⟨rfl, rfl, rfl, rfl⟩

lemma prepareApply_wp (w : World) :
    (prepareApply hasher store env desired).wp (fun _ => False)
      (fun r t => t = w ∧ ∀ planned, r = .ok planned → Prepared hasher store env desired w planned)
      w := by
  rw [prepareApply, wp_read]
  refine ⟨rfl, fun planned hplanned => ?_⟩
  obtain ⟨state, hstate, hplan⟩ := Except.bind_eq_ok_iff.mp hplanned
  obtain ⟨hledger, hvalid⟩ := appliedState_eq_ok hstate
  obtain ⟨rfl, hsweep, happrovals, hchanges⟩ := planApply_eq_ok hplan
  exact ⟨hledger, hvalid, hsweep, happrovals, hchanges⟩

/-! ### Retiring -/

/-- Some of these sidecars are gone, and nothing else changed. -/
structure Cleaned (operationIds : List String) (w t : World) : Prop where
  only : t = { w with sidecars := t.sidecars }
  lookup : ∀ operationId, t.sidecars.lookup operationId = w.sidecars.lookup operationId ∨
    operationId ∈ operationIds ∧ t.sidecars.lookup operationId = none

instance (operationIds : List String) : IsPreorder World (Cleaned operationIds) where
  refl _ := ⟨rfl, fun _ => .inl rfl⟩
  trans w t u h h' := by
    refine ⟨?_, fun operationId => ?_⟩
    · have honly := h'.only
      rw [h.only] at honly
      exact honly
    · rcases h'.lookup operationId with hsame | hgone
      · rw [hsame]
        exact h.lookup operationId
      · exact .inr hgone

variable {operationId : String} {operationIds : List String} {ε : Type}

lemma Cleaned.mem {t : World} (h : Cleaned operationIds w t) (hmem : operationId ∈ t.sidecars) :
    operationId ∈ w.sidecars := by
  rw [BTreeMap.mem_iff_exists] at hmem ⊢
  rcases h.lookup operationId with hsame | ⟨-, hgone⟩
  · rwa [← hsame]
  · rw [hgone] at hmem
    obtain ⟨_, hnone⟩ := hmem
    cases hnone

lemma cleaned_deleteSidecar (h : operationId ∈ operationIds) (w : World) :
    Cleaned operationIds w { w with sidecars := w.sidecars.erase operationId } := by
  refine ⟨rfl, fun other => ?_⟩
  by_cases hother : other = operationId
  · rw [hother]
    exact .inr ⟨h, BTreeMap.lookup_erase_self _ _⟩
  · exact .inl (BTreeMap.lookup_erase_ne _ hother)

/-- Only these sidecars go, and those go whose removal succeeds. -/
lemma cleanSidecars_wp (operationIds : List String) (w : World) :
    (cleanSidecars env operationIds : Durable World ε Unit).wp (Cleaned operationIds w)
      (fun r t => r = .ok () ∧ Cleaned operationIds w t ∧ ∀ operationId ∈ operationIds,
        env.ok (.cleanSidecar operationId) = true → operationId ∉ t.sidecars) w := by
  apply wp_forM (fun done t => Cleaned operationIds w t ∧ ∀ operationId ∈ done,
    env.ok (.cleanSidecar operationId) = true → operationId ∉ t.sidecars)
  · rintro pre operationId post t hl ⟨ht, hdone⟩
    have hmem : operationId ∈ operationIds := by
      rw [hl]
      simp
    unfold attempt
    split
    · rw [deleteSidecar, wp_write]
      have hstep := cleaned_deleteSidecar hmem t
      refine ⟨IsTrans.trans _ _ _ ht hstep, rfl, IsTrans.trans _ _ _ ht hstep, ?_⟩
      intro other hother hok
      rcases List.mem_append.mp hother with hother | hother
      · exact fun h => hdone other hother hok (hstep.mem h)
      · rw [List.mem_singleton.mp hother]
        exact BTreeMap.lookup_eq_none_iff.mp (BTreeMap.lookup_erase_self _ _)
    · next hfail =>
      rw [wp_pure]
      refine ⟨rfl, ht, fun other hother hok => ?_⟩
      rcases List.mem_append.mp hother with hother | hother
      · exact hdone other hother hok
      · rw [List.mem_singleton.mp hother] at hok
        exact absurd hok hfail
  · rintro t ⟨ht, hdone⟩
    exact ⟨rfl, ht, hdone⟩
  · exact ⟨Std.Refl.refl w, fun _ h => absurd h List.not_mem_nil⟩

/-- Nothing but approvals changed. -/
def OnlyApprovals (w t : World) : Prop := t = { w with approvals := t.approvals }

instance : IsPreorder World OnlyApprovals where
  refl _ := rfl
  trans w t u h h' := by
    rw [OnlyApprovals, h] at h'
    exact h'

lemma onlyApprovals_markApprovalsConsumed (approvalIds : List String) :
    Keeps OnlyApprovals (markApprovalsConsumed env approvalIds : Durable World ε Unit) := by
  unfold markApprovalsConsumed
  split
  · exact keeps_pure ()
  · refine (keeps_read _).bind fun artifacts => keeps_forM ?_
    intro artifact _
    unfold markApproval
    split
    · unfold attempt
      split
      · exact keeps_write fun w => rfl
      · exact keeps_pure ()
    · exact keeps_pure ()

/-! ### Finishing -/

/-- The ledger a run ends with, and whether it converged. -/
def settled (hasher : Hasher) (env : Env) (desired : DesiredCluster) (planned : Planned)
    (changes : List PlanChange) (deletes : Deletes) : ClusterState × Bool :=
  converge desired (settle hasher env desired planned.sweep.state changes deletes.executed)

/-- What a run that moved its graphs ends with. -/
structure Finished (hasher : Hasher) (env : Env) (desired : DesiredCluster) (planned : Planned)
    (changes : List PlanChange) (deletes : Deletes) (output : ApplyOutput) (w t : World) :
    Prop where
  changes_eq : output.changes = changes
  pending : output.pendingGraphs = planned.sweep.pendingGraphs
  failed : output.failedGraphs = deletes.moves.failed
  converged : output.converged = (settled hasher env desired planned changes deletes).2
  ledger : output.stateWriteFailed = false → ∃ revision, t.ledger =
    some { (settled hasher env desired planned changes deletes).1 with stateRevision := revision }
  kept : output.stateWriteFailed = true → t.ledger = w.ledger
  sidecars : output.stateWriteFailed = false → ∀ operationId ∈ t.sidecars,
    operationId ∈ w.sidecars ∧
      (operationId ∈ planned.sweep.completedSidecars ++ deletes.moves.completedSidecars →
        env.ok (.cleanSidecar operationId) = false)

lemma writeState_wp (before after : ClusterState) (w : World) :
    (writeState env before after).wp (fun t => t = { w with ledger := some after.advanced })
      (fun r t => r = .ok (false, false) ∧ after = before ∧ t = w ∨
        r = .ok (true, false) ∧ t = { w with ledger := some after.advanced } ∨
        r = .ok (false, true) ∧ t = w) w := by
  unfold writeState
  split
  · next h =>
    rw [wp_pure]
    exact .inl ⟨rfl, h, rfl⟩
  · split
    · rw [wp_bind, wp_write, then_ok, wp_pure]
      exact ⟨rfl, .inr (.inl ⟨rfl, rfl⟩)⟩
    · rw [wp_pure]
      exact .inr (.inr ⟨rfl, rfl⟩)

/-- Retiring keeps the ledger, and removes the sidecars that can be removed. -/
lemma retire_wp {written : Bool} (operationIds approvalIds : List String) (w : World) :
    (retire env (written, false) operationIds approvalIds).wp (fun t => t.ledger = w.ledger)
      (fun r t => r = .ok () ∧ t.ledger = w.ledger ∧ ∀ operationId ∈ t.sidecars,
        operationId ∈ w.sidecars ∧
          (operationId ∈ operationIds → env.ok (.cleanSidecar operationId) = false)) w := by
  rw [retire, if_neg Bool.false_ne_true, wp_bind]
  have hledger : ∀ t, Cleaned operationIds w t → t.ledger = w.ledger := by
    intro t ht
    rw [ht.only]
  refine wp_mono (cleanSidecars_wp operationIds w) hledger ?_
  rintro r t ⟨rfl, ht, hcleaned⟩
  rw [then_ok]
  have honly : ∀ u, OnlyApprovals t u → u.ledger = w.ledger := by
    intro u hu
    rw [hu]
    exact hledger t ht
  refine wp_mono (onlyApprovals_markApprovalsConsumed approvalIds t) honly ?_
  rintro r u ⟨⟨_, rfl⟩, hu⟩
  refine ⟨rfl, honly u hu, fun operationId hmem => ?_⟩
  have hmem' : operationId ∈ t.sidecars := by
    rw [hu] at hmem
    exact hmem
  refine ⟨ht.mem hmem', fun hretired => ?_⟩
  cases hok : env.ok (.cleanSidecar operationId) with
  | false => rfl
  | true => exact absurd hmem' (hcleaned operationId hretired hok)

/-- Finishing an apply writes the settled ledger or none. -/
lemma finishApply_wp (hledger : w.ledger = some planned.before) (changes : List PlanChange)
    (deletes : Deletes) :
    (finishApply hasher env desired planned changes deletes).wp
      (fun t => t.ledger = w.ledger ∨
        t.ledger = some (settled hasher env desired planned changes deletes).1.advanced)
      (fun r t => ∃ output, r = .ok output ∧
        Finished hasher env desired planned changes deletes output w t) w := by
  rw [finishApply, wp_bind]
  refine wp_mono (writeState_wp planned.before _ w) (fun t ht => .inr (by rw [ht]; rfl)) ?_
  rintro r t (⟨rfl, heq, rfl⟩ | ⟨rfl, rfl⟩ | ⟨rfl, rfl⟩)
  · rw [then_ok, wp_bind]
    refine wp_mono (retire_wp _ _ t) (fun u hu => .inl hu) ?_
    rintro r u ⟨rfl, hu, hsidecars⟩
    rw [then_ok, wp_pure]
    refine ⟨_, rfl, rfl, rfl, rfl, rfl, fun _ => ⟨planned.before.stateRevision, ?_⟩,
      fun _ => hu, fun _ => hsidecars⟩
    rw [hu, hledger, settled, heq]
  · rw [then_ok, wp_bind]
    refine wp_mono (retire_wp _ _ _) (fun u hu => .inr hu) ?_
    rintro r u ⟨rfl, hu, hsidecars⟩
    rw [then_ok, wp_pure]
    exact ⟨_, rfl, rfl, rfl, rfl, rfl, fun _ => ⟨_, hu⟩, fun h => absurd h Bool.false_ne_true,
      fun _ => hsidecars⟩
  · rw [then_ok, wp_bind, retire, if_pos rfl, wp_pure, then_ok, wp_pure]
    exact ⟨_, rfl, rfl, rfl, rfl, rfl, fun h => absurd h.symm Bool.false_ne_true, fun _ => rfl,
      fun h => absurd h.symm Bool.false_ne_true⟩

/-! ### The whole run -/

/-- A run planned and moved its graphs. -/
structure Ran (hasher : Hasher) (engine : Engine) (store : ClusterStore) (env : Env)
    (desired : DesiredCluster) (planned : Planned) (changes : List PlanChange) (deletes : Deletes)
    (w u : World) : Prop where
  planned_eq : (prepareApply hasher store env desired w).result = .ok planned
  moved_eq : (moveGraphs hasher engine store env desired planned w).result = .ok (changes, deletes)
  prepared : Prepared hasher store env desired w planned
  moved : Moved desired planned changes deletes w u

/-- What an apply that ends with an output did. -/
structure Applied (hasher : Hasher) (engine : Engine) (store : ClusterStore) (env : Env)
    (desired : DesiredCluster) (planned : Planned) (changes : List PlanChange) (deletes : Deletes)
    (output : ApplyOutput) (w u t : World) : Prop extends
    Ran hasher engine store env desired planned changes deletes w u where
  finished : Finished hasher env desired planned changes deletes output u t

/-- The ledger is a new one, of a run that planned and moved its graphs. -/
def Rewritten (hasher : Hasher) (engine : Engine) (store : ClusterStore) (env : Env)
    (desired : DesiredCluster) (w t : World) : Prop :=
  ∃ planned changes deletes u, Ran hasher engine store env desired planned changes deletes w u ∧
    ∃ revision, t.ledger =
      some { (settled hasher env desired planned changes deletes).1 with stateRevision := revision }

/-- A run leaves the old ledger or the new one, and says what it did. -/
theorem applyConfigDir_wp (w : World) :
    (applyConfigDir hasher engine store env desired).wp
      (fun t => t.ledger = w.ledger ∨ Rewritten hasher engine store env desired w t)
      (fun r t => (t.ledger = w.ledger ∨ Rewritten hasher engine store env desired w t) ∧
        ∀ output, r = .ok output → ∃ planned changes deletes u,
          Applied hasher engine store env desired planned changes deletes output w u t) w := by
  rw [applyConfigDir, wp_bind]
  refine wp_mono (wp_self (prepareApply_wp w)) (fun _ h => h.elim) ?_
  rintro r _ ⟨⟨rfl, hprepared⟩, hplanned_eq, -⟩
  cases r with
  | error output => exact ⟨.inl rfl, fun _ h => by cases h⟩
  | ok planned =>
    replace hprepared := hprepared planned rfl
    rw [then_ok, wp_bind]
    refine wp_mono (wp_self (moveGraphs_wp hprepared.isPlan.nodup _))
      (fun t ht => .inl ht.ledger) ?_
    rintro r u ⟨⟨hrecords, hmoved⟩, hmoved_eq, -⟩
    cases r with
    | error output => exact ⟨.inl hrecords.ledger, fun _ h => by cases h⟩
    | ok moved =>
      have hran := Ran.mk hplanned_eq.symm hmoved_eq.symm hprepared (hmoved moved rfl)
      have hledger : u.ledger = some planned.before := hrecords.ledger.trans hprepared.ledger
      have hrewritten : ∀ t revision, t.ledger = some { (settled hasher env desired planned moved.1
          moved.2).1 with stateRevision := revision } →
            Rewritten hasher engine store env desired _ t :=
        fun t revision ht => ⟨planned, moved.1, moved.2, u, hran, revision, ht⟩
      rw [then_ok]
      refine wp_mono (finishApply_wp hledger moved.1 moved.2) ?_ ?_
      · rintro t (ht | ht)
        · exact .inl (ht.trans hrecords.ledger)
        · exact .inr (hrewritten t _ ht)
      · rintro r t ⟨output, rfl, hfinished⟩
        refine ⟨?_, ?_⟩
        · cases hwrite : output.stateWriteFailed with
          | true => exact .inl ((hfinished.kept hwrite).trans hrecords.ledger)
          | false =>
            obtain ⟨revision, ht⟩ := hfinished.ledger hwrite
            exact .inr (hrewritten t revision ht)
        · rintro _ ⟨⟩
          exact ⟨planned, moved.1, moved.2, u, hran, hfinished⟩

end Omnigraph.Cluster
