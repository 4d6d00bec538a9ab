import Omnigraph.Cluster.Run
import Omnigraph.Cluster.Settle
import Omnigraph.Cluster.Swept
import Omnigraph.Cluster.Sync

/-!
# Apply converges

When every change of a plan is applied, or follows from the ones that are, the ledger records what
is declared. The next apply finds nothing to do and leaves everything as it is.
-/

namespace Omnigraph.Cluster

open Option BTreeMap

/-! ### The settled ledger -/

variable {env' : Env}

section Settled

variable {hasher : Hasher} {env : Env} {desired : DesiredCluster} {state : ClusterState}
  {changes : List PlanChange} {executed : List (String × Option String)}

/-- Every change is applied or follows from others. -/
def AllApplied (changes : List PlanChange) : Prop :=
  ∀ change ∈ changes, change.disposition = some .applied ∨ change.disposition = some .derived

variable {address : String} {resources : Resources} {graph : DesiredGraph}

lemma asDeclared_congr {resources' : Resources}
    (h : resources'.lookup address = resources.lookup address)
    (hdeclared : AsDeclared desired resources address) : AsDeclared desired resources' address where
  digest := by rw [digestAt, h]; exact hdeclared.digest
  bindings := by rw [h]; exact hdeclared.bindings
  profile := by rw [h]; exact hdeclared.profile

lemma asDeclared_of_none (h : resources.lookup address = none)
    (hdesired : address ∉ desired.resourceDigests) :
    AsDeclared desired resources address where
  digest := by rw [digestAt, h, lookup_eq_none_iff.mpr hdesired, map_none]
  bindings _ _ entry hentry := by rw [h] at hentry; cases hentry
  profile _ _ entry hentry := by rw [h] at hentry; cases hentry

/-- What is in the subtree of a graph that is not declared is not declared. -/
lemma Coherent.not_mem_of_inSubtree (hcoherent : Coherent hasher desired) {graphId : String}
    (hnot : ¬ desired.Declares graphId) (h : InSubtree graphId address) :
    address ∉ desired.resourceDigests := by
  intro hmem
  rcases h with rfl | rfl | ⟨name, rfl⟩
  · exact hnot ((hcoherent.graph_iff graphId).mp hmem)
  · exact hnot (hcoherent.schema_declared graphId hmem)
  · have hread := readFrom_resourceKind (queryPrefix graphId ++ name)
    cases hkind : resourceKind (queryPrefix graphId ++ name) with
    | query other rest =>
      rw [hkind] at hread
      obtain ⟨hdot, haddress⟩ := hread
      rw [haddress] at hmem
      obtain ⟨hdeclares, hname⟩ := hcoherent.query other rest hmem hdot
      cases (queryPrefix_apart hdot hname haddress.symm).1
      exact hnot hdeclares
    | graph other =>
      exact query_ne_graphAddress _ _ _ (resourceKind_eq_graph_iff.mp hkind)
    | schema other =>
      exact query_ne_schemaAddress _ _ _ (resourceKind_eq_schema_iff.mp hkind)
    | policy other =>
      exact query_ne_policyAddress _ _ _ (resourceKind_eq_policy_iff.mp hkind)
    | embeddingProvider other =>
      exact query_ne_embeddingProviderAddress _ _ _
        (resourceKind_eq_embeddingProvider_iff.mp hkind)
    | unknown => exact hcoherent.known _ hmem hkind

lemma asDeclared_of_applied {change : PlanChange} {entry : Option StateResource}
    (hsaid : change.Says desired state.resources) (happlied : change.disposition = some .applied)
    (hlookup : resources.lookup change.resource = change.outcome desired entry) :
    AsDeclared desired resources change.resource := by
  rw [PlanChange.outcome, happlied] at hlookup
  cases hoperation : change.operation with
  | delete =>
    rw [hoperation] at hlookup
    exact asDeclared_of_none hlookup (hsaid.delete_iff.mp hoperation)
  | create | update =>
    rw [hoperation] at hlookup
    have hmem : change.resource ∈ desired.resourceDigests := by
      by_contra hnot
      cases hoperation.symm.trans (hsaid.delete_iff.mpr hnot)
    obtain ⟨digest, hdigest⟩ := mem_iff_exists.mp hmem
    refine ⟨?_, ?_, ?_⟩
    · rw [digestAt, hlookup, map_some, hsaid.after, hdigest, getD_some]
    · intro bindings hbindings entry hentry
      rw [hlookup] at hentry
      cases hentry
      exact hbindings
    · intro profile hprofile entry hentry
      rw [hlookup] at hentry
      cases hentry
      exact hprofile

/-- Anything but a declared graph is recorded as it is declared. -/
lemma asDeclared_partsAfter (hcoherent : Coherent hasher desired)
    (hplan : IsPlan desired state changes) (happlied : AllApplied changes)
    (hexecuted : ∀ deleted ∈ executed, ¬ desired.Declares deleted.1)
    (haddress : ∀ graphId, desired.Declares graphId → address ≠ graphAddress graphId) :
    AsDeclared desired (partsAfter env desired state changes executed).resources address := by
  by_cases hsubtree : ∃ deleted ∈ executed, InSubtree deleted.1 address
  · obtain ⟨deleted, hdeleted, hin⟩ := hsubtree
    exact asDeclared_of_none (lookup_recordDeletes_of_inSubtree env hdeleted hin _)
      (hcoherent.not_mem_of_inSubtree (hexecuted deleted hdeleted) hin)
  · have hkept : ∀ deleted ∈ executed, ¬ InSubtree deleted.1 address :=
      fun deleted hdeleted hin => hsubtree ⟨deleted, hdeleted, hin⟩
    refine asDeclared_congr (lookup_recordDeletes_of_not_inSubtree env hkept _) ?_
    by_cases hchange : ∃ change ∈ changes, change.resource = address
    · obtain ⟨change, hmem, rfl⟩ := hchange
      have hlookup := lookup_applyChanges desired hplan.nodup hmem state
      rcases happlied change hmem with happlied | hderived
      · exact asDeclared_of_applied (hplan.said change hmem) happlied hlookup
      · -- an updated graph is declared
        obtain ⟨graphId, hresource, hoperation⟩ := hplan.derived change hmem hderived
        have hdesired : graphAddress graphId ∈ desired.resourceDigests := by
          by_contra hnot
          rw [← hresource] at hnot
          cases hoperation.symm.trans ((hplan.said change hmem).delete_iff.mpr hnot)
        exact absurd hresource (haddress graphId ((hcoherent.graph_iff graphId).mp hdesired))
    · have hnone : ∀ change ∈ changes, change.resource ≠ address :=
        fun change hmem hresource => hchange ⟨change, hmem, hresource⟩
      refine asDeclared_congr (lookup_applyChanges_of_forall_ne desired hnone state) ?_
      by_contra hnot
      exact hchange (hplan.covers address hnot)

lemma Coherent.providerIsPart (hcoherent : Coherent hasher desired)
    (hgraph : graph ∈ desired.graphs) : graph.ProviderIsPart := by
  intro provider hprovider other
  obtain ⟨name, rfl, -⟩ := hcoherent.provider graph hgraph provider hprovider
  exact embeddingProviderAddress_ne_graphAddress other name

/-- The digest of a declared graph over parts that are recorded as they are declared. -/
lemma Coherent.compositeDigest (hcoherent : Coherent hasher desired)
    (hparts : ∀ address, (∀ graphId, desired.Declares graphId → address ≠ graphAddress graphId) →
      AsDeclared desired resources address) (hgraph : graph ∈ desired.graphs) :
    desired.resourceDigests.lookup (graphAddress graph.id) = some (compositeDigest hasher resources
      graph.id graph.embeddingProvider graph.externalBlobPolicy) := by
  obtain ⟨queries, hqueries, hdigest⟩ := hcoherent.composite graph hgraph
  have hrecorded : ∀ name, (stateQueryDigestsForGraph resources graph.id).lookup name =
      queries.lookup name := by
    intro name
    rw [lookup_stateQueryDigestsForGraph, hqueries,
      (hparts _ fun _ _ => query_ne_graphAddress _ _ _).digest]
  have hprovider : stateEmbeddingProviderDigest resources graph.embeddingProvider =
      graph.embeddingProvider.bind desired.resourceDigests.lookup := by
    cases hsome : graph.embeddingProvider with
    | none => rfl
    | some provider =>
      exact (hparts provider fun graphId _ =>
        hcoherent.providerIsPart hgraph provider hsome graphId).digest
  rw [hdigest, Cluster.compositeDigest, ext hrecorded, hprovider,
    (hparts _ fun _ _ => schemaAddress_ne_graphAddress _ _).digest]

lemma graphChangeBlocked_eq_false (happlied : AllApplied changes) (graphId : String) :
    graphChangeBlocked changes graphId = false := by
  rw [graphChangeBlocked, List.any_eq_false]
  intro change hchange hblocked
  rcases happlied change hchange with h | h
  · simp [h] at hblocked
  · simp [h] at hblocked

/-- A declared graph is recorded before its entry is computed. -/
lemma mem_partsAfter (hcoherent : Coherent hasher desired) (hplan : IsPlan desired state changes)
    (happlied : AllApplied changes)
    (hexecuted : ∀ deleted ∈ executed, ¬ desired.Declares deleted.1) {graphId : String}
    (hdeclares : desired.Declares graphId) :
    graphAddress graphId ∈ (partsAfter env desired state changes executed).resources := by
  have hdesired := (hcoherent.graph_iff graphId).mpr hdeclares
  have hkept : ∀ deleted ∈ executed, ¬ InSubtree deleted.1 (graphAddress graphId) :=
    fun deleted hdeleted hin =>
      hcoherent.not_mem_of_inSubtree (hexecuted deleted hdeleted) hin hdesired
  rw [mem_iff_exists, partsAfter, lookup_recordDeletes_of_not_inSubtree env hkept]
  by_cases hchange : ∃ change ∈ changes, change.resource = graphAddress graphId
  · obtain ⟨change, hmem, hresource⟩ := hchange
    have hsaid := hplan.said change hmem
    have hdelete : change.operation ≠ .delete := by
      rw [Ne, hsaid.delete_iff, hresource, not_not]
      exact hdesired
    rw [← hresource, lookup_applyChanges desired hplan.nodup hmem, PlanChange.outcome]
    rcases happlied change hmem with happlied | hderived
    · rw [happlied]
      cases hoperation : change.operation with
      | delete => exact absurd hoperation hdelete
      | create => exact ⟨_, rfl⟩
      | update => exact ⟨_, rfl⟩
    · rw [hderived]
      obtain ⟨-, -, hoperation⟩ := hplan.derived change hmem hderived
      have hrecorded : change.resource ∈ state.resources := by
        by_contra hnot
        cases hoperation.symm.trans (hsaid.create_iff.mpr hnot)
      exact mem_iff_exists.mp hrecorded
  · have hnone : ∀ change ∈ changes, change.resource ≠ graphAddress graphId :=
      fun change hmem hresource => hchange ⟨change, hmem, hresource⟩
    rw [lookup_applyChanges_of_forall_ne desired hnone]
    by_contra hnot
    obtain ⟨change, hmem, hresource⟩ := hplan.covers (graphAddress graphId) (by
      intro hdeclared
      obtain ⟨digest, hdigest⟩ := mem_iff_exists.mp hdesired
      have hrecorded := hdeclared.digest.trans hdigest
      rw [digestAt, map_eq_some_iff] at hrecorded
      obtain ⟨entry, hentry, -⟩ := hrecorded
      exact hnot ⟨entry, hentry⟩)
    exact hnone change hmem hresource

/-- The entry of a declared graph, and what it is computed from. -/
lemma lookup_settle (hcoherent : Coherent hasher desired) {graph : DesiredGraph}
    (hgraph : graph ∈ desired.graphs)
    (hmem : graphAddress graph.id ∈ (partsAfter env desired state changes executed).resources) :
    (settle hasher env desired state changes executed).resources.lookup (graphAddress graph.id) =
      some (graphEntry hasher changes (partsAfter env desired state changes executed).resources
        graph) :=
  lookup_recomputeGraphs hasher hcoherent.graphs_nodup
    (fun _ hg => hcoherent.providerIsPart hg) hgraph hmem

lemma lookup_settle_of_not_declared
    (haddress : ∀ graphId, desired.Declares graphId → address ≠ graphAddress graphId) :
    (settle hasher env desired state changes executed).resources.lookup address =
      (partsAfter env desired state changes executed).resources.lookup address :=
  lookup_recomputeGraphs_of_forall_ne hasher
    (fun graph hgraph => haddress graph.id ⟨graph, hgraph, rfl⟩) _

/-- The settled ledger records everything as it is declared. -/
lemma asDeclared_settle (hcoherent : Coherent hasher desired)
    (hplan : IsPlan desired state changes) (happlied : AllApplied changes)
    (hexecuted : ∀ deleted ∈ executed, ¬ desired.Declares deleted.1) (address : String) :
    AsDeclared desired (settle hasher env desired state changes executed).resources address := by
  have hparts : ∀ address, (∀ graphId, desired.Declares graphId → address ≠ graphAddress graphId) →
      AsDeclared desired (partsAfter env desired state changes executed).resources address :=
    fun _ h => asDeclared_partsAfter hcoherent hplan happlied hexecuted h
  by_cases haddress : ∃ graph ∈ desired.graphs, address = graphAddress graph.id
  · obtain ⟨graph, hgraph, rfl⟩ := haddress
    have hlookup := lookup_settle hcoherent hgraph
      (@mem_partsAfter _ env _ _ _ _ hcoherent hplan happlied hexecuted _
        ⟨graph, hgraph, rfl⟩)
    have hkind : ∀ name, resourceKind (graphAddress graph.id) ≠ .policy name ∧
        resourceKind (graphAddress graph.id) ≠ .embeddingProvider name := by
      intro name
      rw [resourceKind_graphAddress]
      exact ⟨ResourceKind.noConfusion, ResourceKind.noConfusion⟩
    refine ⟨?_, ?_, ?_⟩
    · rw [digestAt, hlookup, map_some, graphEntry, settledPolicy,
        graphChangeBlocked_eq_false happlied, hcoherent.compositeDigest hparts hgraph]
      rfl
    · intro bindings hbindings
      obtain ⟨-, name, hname⟩ := (hcoherent.policy_iff _).mp (mem_of_lookup hbindings)
      exact absurd hname (hkind name).1
    · intro profile hprofile
      obtain ⟨-, name, hname⟩ := (hcoherent.profile_iff _).mp (mem_of_lookup hprofile)
      exact absurd hname (hkind name).2
  · have hnot : ∀ graphId, desired.Declares graphId → address ≠ graphAddress graphId := by
      rintro _ ⟨graph, hgraph, rfl⟩ haddress'
      exact haddress ⟨graph, hgraph, haddress'⟩
    exact asDeclared_congr (lookup_settle_of_not_declared hnot) (hparts address hnot)

/-- Settling the settled ledger again changes nothing. -/
lemma settle_settled (hcoherent : Coherent hasher desired) (hplan : IsPlan desired state changes)
    (happlied : AllApplied changes) (hexecuted : ∀ deleted ∈ executed, ¬ desired.Declares deleted.1)
    {state' : ClusterState}
    (hstate : state'.resources = (settle hasher env desired state changes executed).resources) :
    settle hasher env' desired state' [] [] = state' := by
  apply recomputeGraphs_eq_self
  intro graph hgraph _
  show state'.resources.lookup _ = some (graphEntry hasher [] state'.resources graph)
  have hparts : SameParts (partsAfter env desired state changes executed).resources
      state'.resources := by
    rw [hstate]
    exact sameParts_recomputeGraphs hasher _ _ _
  have hpolicy : settledPolicy changes (partsAfter env desired state changes executed).resources
      graph = graph.externalBlobPolicy := by
    rw [settledPolicy, graphChangeBlocked_eq_false happlied]
    rfl
  have hentry : graphEntry hasher [] state'.resources graph = graphEntry hasher changes
      (partsAfter env desired state changes executed).resources graph := by
    rw [graphEntry, graphEntry, hpolicy,
      hparts.compositeDigest hasher graph.id (hcoherent.providerIsPart hgraph)]
    rfl
  rw [hentry, hstate]
  exact lookup_settle hcoherent hgraph
    (mem_partsAfter hcoherent hplan happlied hexecuted ⟨graph, hgraph, rfl⟩)

/-- What is recorded as it is declared is bound by its digests. -/
lemma valid_of_asDeclared (hcoherent : Coherent hasher desired)
    (hplan : IsPlan desired state changes) (happlied : AllApplied changes)
    (hexecuted : ∀ deleted ∈ executed, ¬ desired.Declares deleted.1) :
    Valid hasher (settle hasher env desired state changes executed).resources := by
  intro graphId entry hentry
  have hdeclared : desired.Declares graphId := by
    rw [← hcoherent.graph_iff, mem_iff_exists,
      ← (asDeclared_settle hcoherent hplan happlied hexecuted _).digest, digestAt, hentry]
    exact ⟨_, rfl⟩
  obtain ⟨graph, hgraph, rfl⟩ := hdeclared
  rw [lookup_settle hcoherent hgraph
    (mem_partsAfter hcoherent hplan happlied hexecuted ⟨graph, hgraph, rfl⟩)] at hentry
  cases hentry
  rw [expectedStateGraphResourceDigest, graphEntry, getD_persistedExternalBlobPolicy]
  exact (sameParts_recomputeGraphs hasher _ _ _).compositeDigest hasher graph.id
    (hcoherent.providerIsPart hgraph) _

end Settled

/-! ### A run with nothing to do -/

section Idle

open Durable

variable {hasher : Hasher} {engine : Engine} {store : ClusterStore} {env : Env}
  {desired : DesiredCluster} {state : ClusterState} {w : World}

lemma appliedState_eq (hledger : w.ledger = some state) (hvalid : Valid hasher state.resources)
    (hlock : desired.stateLock = true → env.ok .acquireLock = true)
    (hread : env.ok .readState = true) : appliedState hasher env desired w = .ok state := by
  have hlocked : (desired.stateLock && !env.ok .acquireLock) = false := by
    cases hstate : desired.stateLock with
    | false => rfl
    | true => rw [hlock hstate]; rfl
  unfold appliedState
  rw [hlocked, if_neg Bool.false_ne_true, hread, if_neg (by decide : ¬ true = false), hledger]
  dsimp only
  rw [if_neg (not_not.mpr ((validate_eq_nil_iff hasher).mpr hvalid))]

/-- Without sidecars an apply plans what a plan lists. -/
lemma planned_changes (hsidecars : w.sidecars = ∅) {planned : Planned}
    (hprepared : Prepared hasher store env desired w planned) :
    planned.sweep.state = planned.before ∧ planned.changes =
      classifyChanges (planChanges desired planned.before) desired.dependencies []
        (approvedResources (listApprovalArtifacts env w .listApprovals).1
          (planChanges desired planned.before) desired.configDigest).1 := by
  obtain ⟨hstate, hpending, -, -⟩ := @sweep_nil hasher store env _ planned.before hsidecars
  rw [← hprepared.sweep] at hstate hpending
  refine ⟨hstate, ?_⟩
  rw [hprepared.changes, hpending, hstate, hprepared.approvals]

lemma planApply_eq (hsidecars : w.sidecars = ∅) (hplan : planChanges desired state = []) :
    ∃ planned, planApply hasher store env desired w state = .ok planned ∧ planned.before = state ∧
      planned.sweep.state = state ∧ planned.changes = [] ∧
      planned.sweep.completedSidecars = [] ∧ planned.sweep.consumedApprovals = [] := by
  obtain ⟨hstate, -, hcompleted, hconsumed⟩ := @sweep_nil hasher store env _ state hsidecars
  have hok : ∃ planned, planApply hasher store env desired w state = .ok planned := by
    unfold planApply
    dsimp only
    rw [hstate, hplan]
    exact ⟨_, if_neg Bool.false_ne_true⟩
  obtain ⟨planned, hplanned⟩ := hok
  obtain ⟨hbefore, hsweep, -, hchanges⟩ := planApply_eq_ok hplanned
  rw [← hsweep] at hstate hcompleted hconsumed
  refine ⟨planned, hplanned, hbefore, hstate, ?_, hcompleted, hconsumed⟩
  rw [hchanges, hstate, hplan]
  rfl

lemma moveGraphs_idle {planned : Planned} (hchanges : planned.changes = []) (w : World) :
    (moveGraphs hasher engine store env desired planned).wp (fun _ => False)
      (fun r t => t = w ∧ ∃ deletes, r = .ok ([], deletes) ∧ deletes.executed = [] ∧
        deletes.moves.completedSidecars = []) w := by
  have hnone : ∀ operation pre, operationsOf operation pre planned.changes = [] := by
    intro operation pre
    rw [hchanges]
    rfl
  rw [moveGraphs, hnone, hnone, wp_bind, wp_foldlM_nil, then_ok, wp_bind, wp_foldlM_nil, then_ok,
    hchanges]
  exact ⟨fun t ht => absurd ht List.not_mem_nil, rfl, _, rfl, rfl, rfl⟩

/-- An apply with nothing to do. -/
lemma applyConfigDir_idle (hsidecars : w.sidecars = ∅) (hledger : w.ledger = some state)
    (hvalid : Valid hasher state.resources) (hplan : planChanges desired state = [])
    (hsettle : settle hasher env desired state [] [] = state)
    (hdigest : state.appliedRevision.configDigest = some desired.configDigest)
    (hlock : desired.stateLock = true → env.ok .acquireLock = true)
    (hread : env.ok .readState = true) :
    (applyConfigDir hasher engine store env desired).wp (fun _ => False)
      (fun r t => t = w ∧ ∃ output, r = .ok output ∧ output.changes = [] ∧
        output.converged = true ∧ output.stateWritten = false) w := by
  obtain ⟨planned, hplanned, hbefore, hstate, hchanges, hcompleted, hconsumed⟩ :=
    @planApply_eq hasher store env _ _ _ hsidecars hplan
  have hconverge : converge desired state = (state, true) := by
    rw [converge, if_pos hplan, ← hdigest]
  have hprepare : (appliedState hasher env desired w >>= fun state =>
      planApply hasher store env desired w state) = .ok planned := by
    rw [appliedState_eq hledger hvalid hlock hread]
    exact hplanned
  rw [applyConfigDir, wp_bind, prepareApply, wp_read, hprepare, then_ok, wp_bind]
  refine wp_mono (moveGraphs_idle hchanges w) (fun _ h => h) ?_
  rintro r _ ⟨rfl, deletes, rfl, hexecuted, hcleaned⟩
  have hwrite : writeState env state state = pure (false, false) := if_pos rfl
  rw [then_ok, finishApply, hstate, hbefore, hexecuted, hsettle, hconverge, hcompleted, hconsumed,
    hcleaned]
  dsimp only
  rw [hwrite]
  exact ⟨fun t ht => absurd ht List.not_mem_nil, rfl, _, rfl, rfl, rfl, rfl⟩

end Idle

/-! ### Convergence -/

section Convergence

variable {hasher : Hasher} {engine : Engine} {store : ClusterStore} {env : Env}
  {desired : DesiredCluster} {output : ApplyOutput}

/-- A run that reports no pending recovery and no failure. -/
structure CleanRun (output : ApplyOutput) : Prop where
  pending : output.pendingGraphs = []
  failed : output.failedGraphs = ∅
  written : output.stateWriteFailed = false

/-- The sidecars can be listed, and each of them can be removed once it is retired. -/
structure RemovesSidecars (env : Env) : Prop where
  listed : env.ok .listSidecars = true
  cleaned : ∀ file, env.ok (.cleanSidecar file) = true

/-- The ledger records what is declared, and nothing else. -/
structure Converged (desired : DesiredCluster) (state : ClusterState) : Prop where
  digests : stateResourceDigests state = desired.resourceDigests
  bindings : ∀ address bindings, desired.policyBindings.lookup address = some bindings →
    ∃ entry, state.resources.lookup address = some entry ∧ entry.appliesTo = some bindings
  profiles : ∀ address profile, desired.embeddingProviders.lookup address = some profile →
    ∃ entry, state.resources.lookup address = some entry ∧ entry.embeddingProfile = some profile

/-- The run changed nothing and had nothing to change. -/
def LeavesAsIs (run : Outcome World ApplyOutput ApplyOutput) (w : World) : Prop :=
  run.trace = [] ∧ run.final = w ∧ ∃ output, run.result = .ok output ∧ output.changes = [] ∧
    output.converged = true ∧ output.stateWritten = false

lemma converged_of_asDeclared (hcoherent : Coherent hasher desired) {state : ClusterState}
    (h : ∀ address, AsDeclared desired state.resources address) : Converged desired state := by
  have hrecorded : ∀ address ∈ desired.resourceDigests,
      ∃ entry, state.resources.lookup address = some entry := by
    intro address hmem
    obtain ⟨digest, hdigest⟩ := mem_iff_exists.mp hmem
    have hdigest' := (h address).digest.trans hdigest
    rw [digestAt, map_eq_some_iff] at hdigest'
    obtain ⟨entry, hentry, -⟩ := hdigest'
    exact ⟨entry, hentry⟩
  refine ⟨?_, ?_, ?_⟩
  · ext1 address
    rw [lookup_stateResourceDigests, (h address).digest]
  · intro address bindings hbindings
    obtain ⟨entry, hentry⟩ :=
      hrecorded address ((hcoherent.policy_iff address).mp (mem_of_lookup hbindings)).1
    exact ⟨entry, hentry, (h address).bindings bindings hbindings entry hentry⟩
  · intro address profile hprofile
    obtain ⟨entry, hentry⟩ :=
      hrecorded address ((hcoherent.profile_iff address).mp (mem_of_lookup hprofile)).1
    exact ⟨entry, hentry, (h address).profile profile hprofile entry hentry⟩

variable {planned : Planned} {changes : List PlanChange} {deletes : Deletes} {w u t : World}

lemma Moved.isPlan (hprepared : Prepared hasher store env desired w planned)
    (hmoved : Moved desired planned changes deletes w u) :
    IsPlan desired planned.sweep.state changes := by
  obtain ⟨failed, -, rfl⟩ := hmoved.demoted
  exact (hprepared.isPlan.demote _ _).demote _ _

/-- A graph is removed only if it is not declared. -/
lemma Moved.not_declared (hcoherent : Coherent hasher desired)
    (hplan : IsPlan desired planned.sweep.state changes)
    (hmoved : Moved desired planned changes deletes w u) :
    ∀ deleted ∈ deletes.executed, ¬ desired.Declares deleted.1 := by
  intro deleted hdeleted hdeclares
  obtain ⟨change, hchange, -, hoperation, hresource⟩ :=
    (hmoved.executed_iff deleted.1).mp (List.mem_map_of_mem hdeleted)
  have hnot := (hplan.said change hchange).delete_iff.mp hoperation
  rw [hresource] at hnot
  exact hnot ((hcoherent.graph_iff _).mpr hdeclares)

/-- A clean run retires every sidecar. -/
lemma Applied.sidecars_eq_empty (hclean : CleanRun output) (hremoves : RemovesSidecars env)
    (happlied : Applied hasher engine store env desired planned changes deletes output w u t) :
    t.sidecars = ∅ := by
  ext1 file
  rw [lookup_empty, lookup_eq_none_iff]
  intro hfile
  obtain ⟨hmoved, hretired⟩ := happlied.finished.sidecars hclean.written file hfile
  have hpending : (sweepRecoverySidecars hasher store env w planned.before).pendingGraphs = [] := by
    rw [← happlied.prepared.sweep, ← happlied.finished.pending, hclean.pending]
  have hfailed : deletes.moves.failed = ∅ := by
    rw [← happlied.finished.failed, hclean.failed]
  have hcompleted : file ∈ planned.sweep.completedSidecars ++ deletes.moves.completedSidecars := by
    rcases happlied.moved.sidecars hfailed file hmoved with hold | hnew
    · refine List.mem_append_left _ ?_
      rw [happlied.prepared.sweep]
      exact mem_completedSidecars hremoves.listed hpending hold
    · exact List.mem_append_right _ hnew
  exact absurd (hremoves.cleaned file) (by rw [hretired hcompleted]; exact Bool.false_ne_true)

/-- What a clean run that applied everything leaves, and that the next run leaves it. -/
lemma Applied.converges (hcoherent : Coherent hasher desired) (hclean : CleanRun output)
    (happlied : Applied hasher engine store env desired planned changes deletes output w u t)
    (hall : AllApplied output.changes) :
    output.converged = true ∧ ∃ state, t.ledger = some state ∧ Converged desired state ∧
      (RemovesSidecars env → ∀ env' : Env,
        (desired.stateLock = true → env'.ok .acquireLock = true) → env'.ok .readState = true →
          LeavesAsIs (applyConfigDir hasher engine store env' desired t) t) := by
  rw [happlied.finished.changes_eq] at hall
  have hplan := happlied.moved.isPlan happlied.prepared
  have hexecuted := happlied.moved.not_declared hcoherent hplan
  have hdeclared : ∀ address, AsDeclared desired (settle hasher env desired planned.sweep.state
      changes deletes.executed).resources address :=
    asDeclared_settle hcoherent hplan hall hexecuted
  have hnone : planChanges desired (settle hasher env desired planned.sweep.state changes
      deletes.executed) = [] := planChanges_eq_nil_iff.mpr hdeclared
  obtain ⟨revision, hledger⟩ := happlied.finished.ledger hclean.written
  rw [settled, converge, if_pos hnone] at hledger
  refine ⟨?_, _, hledger, converged_of_asDeclared hcoherent hdeclared, ?_⟩
  · rw [happlied.finished.converged, settled, converge, if_pos hnone]
  · intro hremoves env' hlock hread
    have hidle := @applyConfigDir_idle hasher engine store _ _ _ _
        (happlied.sidecars_eq_empty hclean hremoves) hledger
      (valid_of_asDeclared hcoherent hplan hall hexecuted)
      (planChanges_eq_nil_iff.mpr hdeclared)
      (settle_settled hcoherent hplan hall hexecuted rfl) rfl hlock hread
    exact ⟨List.eq_nil_iff_forall_not_mem.mpr hidle.1, hidle.2.1, hidle.2.2⟩

/-- The changes and dispositions of a plan are the ones an apply classifies. -/
lemma planConfigDir_changes (hsidecars : w.sidecars = ∅)
    (hprepared : Prepared hasher store env desired w planned)
    (hok : hasErrors (planConfigDir env' desired w).diagnostics = false)
    (hlisted : (listApprovalArtifacts env' w .listApprovals).1 =
      (listApprovalArtifacts env w .listApprovals).1) :
    (planConfigDir env' desired w).changes = planned.changes := by
  have hclean : hasErrors (planDiagnostics env' desired w) = false := by
    simp only [planConfigDir, hasErrors_append, Bool.or_eq_false_iff] at hok
    exact hok.1.1
  rw [(planned_changes hsidecars hprepared).2, planConfigDir, hclean, hprepared.ledger]
  dsimp only
  rw [if_neg Bool.false_ne_true, hlisted]

end Convergence

section Main

variable {hasher : Hasher} {loader : Loader} {raw : RawClusterConfig}

end Main

/-! ### An edited schema -/

/-- A hash without collisions. -/
def plainHasher : Hasher where
  sha256Hex := id
  policyJson _ := "allow"
  profileJson profile := profile.model.getD ""

/-- Every file holds its path. -/
def plainLoader : Loader where
  read path := some path
  listing _ := .notADirectory
  parseQuery source := some [source]
  schemaError _ := none
  typechecks _ _ _ := true
  policyValid _ _ := true
  providerErrors _ _ := []
  normalizeBase _ := none
  allowPolicy _ := none
  configJson raw := String.join raw.graphs.keys

/-- Every call succeeds. -/
def plainEnv : Env where
  ok _ := true
  now := "now"
  actor := none
  operationId _ graphId := graphId
  schemaSource graphId := graphId ++ ".pg"
  payloadSource resource := resource
  partialObjects _ := none
  nestedObjects _ := []
  movedOnFailure _ := false
  removalOrder _ objects := objects
  removedBeforeFailure _ := 0
  survives _ _ := true
  manifestVersion _ := 0
  observationError _ := ""

/-- Every migration plan has steps. -/
def plainEngine : Engine := ⟨fun _ _ => false⟩

def localStore : ClusterStore := ⟨.localFiles, "/cluster"⟩

/-- A configuration of graphs, each with its schema in a file of its name. -/
def configOf (graphs : List (String × GraphConfig)) : RawClusterConfig where
  version := 1
  metadataName := none
  storage := none
  stateBackend := none
  stateLock := none
  embedding := ∅
  graphs := (∅ : BTreeMap String GraphConfig).insertAll id graphs
  policies := ∅

def plainGraph (graphId : String) : String × GraphConfig :=
  (graphId, ⟨graphId ++ ".pg", .explicit ∅, none, []⟩)

def emptyState : ClusterState := ⟨1, 0, ⟨none, ∅⟩, ∅, ∅, ∅, ∅⟩

/-- A cluster to which nothing was applied. -/
def emptyWorld : World := ⟨some emptyState, ∅, ∅, ∅, ∅⟩

def ranClean (result : Except ApplyOutput ApplyOutput) : Bool :=
  match result with
  | .ok output => decide (output.pendingGraphs = []) && decide (output.failedGraphs = ∅) &&
      !output.stateWriteFailed && output.changes.all fun change =>
        change.disposition = some .applied || change.disposition = some .derived
  | .error _ => false

lemma exists_of_ranClean {result : Except ApplyOutput ApplyOutput} (h : ranClean result = true) :
    ∃ output, result = .ok output ∧ CleanRun output ∧ AllApplied output.changes := by
  cases result with
  | error output => cases h
  | ok output =>
    simp only [ranClean, Bool.and_eq_true, decide_eq_true_eq, List.all_eq_true, Bool.or_eq_true,
      Bool.not_eq_true'] at h
    exact ⟨output, rfl, ⟨h.1.1.1, h.1.1.2, h.1.2⟩, h.2⟩

/-- The configuration that declares the graph `g` with this schema file. -/
def schemaConfig (path : String) : RawClusterConfig :=
  configOf [("g", ⟨path, .explicit ∅, none, []⟩)]

/-- The graph is created from `old.pg`. -/
def createdFromOld : World :=
  (applyConfigDir plainHasher plainEngine localStore { plainEnv with schemaSource _ := "old.pg" }
    (loadDesired plainHasher plainLoader (schemaConfig "old.pg")).1 emptyWorld).final

/-- Applies the configuration in which the schema file was edited and another graph is declared. -/
def applyEdited (engine : Engine) (env : Env) (w : World) : Outcome World ApplyOutput ApplyOutput :=
  applyConfigDir plainHasher engine localStore env
    (loadDesired plainHasher plainLoader (configOf [plainGraph "g", plainGraph "h"])).1 w

/-- Every migration plan is empty, as for an edit of a comment. -/
def commentEngine : Engine := ⟨fun _ _ => true⟩

/-- The sidecar of a run cannot be removed. -/
def unremovedEnv : Env := { plainEnv with ok call := call ≠ .cleanSidecar "g" }

end Omnigraph.Cluster
