import Omnigraph.Cluster.Serve

/-!
# The authority a graph is served with

A graph that a run holds back keeps the schema it was served with. The run may still change what it
is served with besides: the provider of a declared graph is written whatever became of the changes
of the graph, a policy waits only for the graphs it is declared to be bound to, and the change of a
provider never waits. What is derived for a graph before and after a run agrees exactly under the
conditions of `KeepsAuthority`.
-/

namespace Omnigraph.Cluster

open Option

variable {hasher : Hasher} {engine : Engine} {store : ClusterStore} {env : Env}
  {desired : DesiredCluster} {w : World}

/-! ### Authority -/

/-- The profile that is served for a provider. -/
def providerProfile (hasher : Hasher) (resources : Resources) (provider : String) :
    Option EmbeddingProviderConfig :=
  match resourceKind provider with
  | .embeddingProvider _ => servingProfile hasher resources provider
  | _ => none

lemma servingEmbedding_eq (resources : Resources) (address : String) (entry : StateResource) :
    (servingEmbedding hasher resources address entry).toOption.join =
      entry.embeddingProvider.bind (providerProfile hasher resources) := by
  unfold servingEmbedding
  cases entry.embeddingProvider with
  | none => rfl
  | some provider =>
    rw [bind_some, providerProfile]
    dsimp only
    cases resourceKind provider with
    | embeddingProvider name => cases servingProfile hasher resources provider <;> rfl
    | graph _ | schema _ | query _ _ | policy _ | unknown => rfl

variable {graphId : String} {resources : Resources}

/-- What is derived for a recorded graph, from what is recorded of it. -/
lemma servingAuthority_eq (h : graphAddress graphId ∈ resources) :
    servingAuthority hasher resources graphId =
      some ⟨stateGraphExternalBlobPolicy resources graphId,
        stateGraphEmbeddingProvider resources graphId,
        (stateGraphEmbeddingProvider resources graphId).bind
          (providerProfile hasher resources)⟩ := by
  obtain ⟨entry, hentry⟩ := BTreeMap.mem_iff_exists.mp h
  rw [servingAuthority, stateGraphExternalBlobPolicy, stateGraphEmbeddingProvider, hentry,
    map_some, servingEmbedding_eq]
  rfl

/-- The same is derived for a graph from two ledgers. -/
structure SameAuthority (hasher : Hasher) (before after : Resources) (graphId : String) :
    Prop where
  authority : servingAuthority hasher after graphId = servingAuthority hasher before graphId
  policies : ∀ policy, policy ∈ servingPolicies after graphId ↔
    policy ∈ servingPolicies before graphId

lemma option_bind_congr_iff {α β : Type} {o : Option α} {f g : α → Option β} :
    o.bind f = o.bind g ↔ ∀ a ∈ o, f a = g a := by
  cases o <;> simp

variable {before : Resources} {address : String}

/-- The authority of a graph is its policy, its provider and the profile. -/
lemma sameAuthority_iff {after : Resources} (hbefore : graphAddress graphId ∈ before)
    (hafter : graphAddress graphId ∈ after) :
    SameAuthority hasher before after graphId ↔
      stateGraphExternalBlobPolicy after graphId = stateGraphExternalBlobPolicy before graphId ∧
      stateGraphEmbeddingProvider after graphId = stateGraphEmbeddingProvider before graphId ∧
      (∀ provider ∈ stateGraphEmbeddingProvider before graphId,
        providerProfile hasher after provider = providerProfile hasher before provider) ∧
      ∀ policy, policy ∈ servingPolicies after graphId ↔
        policy ∈ servingPolicies before graphId := by
  constructor
  · rintro ⟨hauthority, hpolicies⟩
    rw [servingAuthority_eq hbefore, servingAuthority_eq hafter, Option.some.injEq,
      ServingAuthority.mk.injEq] at hauthority
    obtain ⟨hpolicy, hprovider, hprofile⟩ := hauthority
    rw [hprovider, option_bind_congr_iff] at hprofile
    exact ⟨hpolicy, hprovider, hprofile, hpolicies⟩
  · rintro ⟨hpolicy, hprovider, hprofile, hpolicies⟩
    refine ⟨?_, hpolicies⟩
    rw [servingAuthority_eq hbefore, servingAuthority_eq hafter, hpolicy, hprovider,
      option_bind_congr_iff.mpr hprofile]

/-! ### What the sweep leaves alone -/

lemma sweepSidecar_lookup {entry : String × RecoverySidecar}
    (h : ¬ InSubtree entry.2.graphId address) (s : Sweep) :
    (sweepSidecar hasher store env w s entry).state.resources.lookup address =
      s.state.resources.lookup address := by
  rcases @sweepStep_sweepSidecar hasher store env w s entry
    with ⟨-, -, -, hstate⟩ | ⟨_, -, -, -, -, -, -, hresources⟩ |
      ⟨-, -, -, -, -, -, hresources⟩ | ⟨-, -, -, hresources⟩
  · rw [hstate]
  · rw [hresources]
    exact lookup_recordLiveSchema _ h
  · rw [hresources]
    exact lookup_tombstoneResources_of_not_inSubtree h _
  · rw [hresources]

/-- The sweep changes the subtrees of graphs only. -/
lemma sweep_lookup (h : ∀ graphId, ¬ InSubtree graphId address) (state : ClusterState) :
    (sweepRecoverySidecars hasher store env w state).state.resources.lookup address =
      state.resources.lookup address := by
  have hfold : ∀ (entries : List (String × RecoverySidecar)) (s : Sweep),
      (entries.foldl (sweepSidecar hasher store env w) s).state.resources.lookup address =
        s.state.resources.lookup address := by
    intro entries
    induction entries with
    | nil => exact fun _ => rfl
    | cons entry entries ih => exact fun s => (ih _).trans (sweepSidecar_lookup (h _) s)
  exact hfold _ _

/-- What the entry of a graph says of its provider and its policy. -/
def graphMetadata (resources : Resources) (graphId : String) :
    Option String × ExternalBlobPolicy :=
  (stateGraphEmbeddingProvider resources graphId, stateGraphExternalBlobPolicy resources graphId)

variable {resources' : Resources}

lemma graphMetadata_congr
    (h : resources'.lookup (graphAddress graphId) = resources.lookup (graphAddress graphId)) :
    graphMetadata resources' graphId = graphMetadata resources graphId := by
  rw [graphMetadata, graphMetadata, stateGraphEmbeddingProvider, stateGraphEmbeddingProvider,
    stateGraphExternalBlobPolicy, stateGraphExternalBlobPolicy, h]

lemma graphMetadata_of_not_mem (h : resources.lookup (graphAddress graphId) = none) :
    graphMetadata resources graphId = (none, .deny) := by
  rw [graphMetadata, stateGraphEmbeddingProvider, stateGraphExternalBlobPolicy, h]
  rfl

/-- A ledger that is rolled forward to the live schema of a graph keeps what it says of it besides.
-/
lemma graphMetadata_recordLiveSchema (resources : Resources)
    (graphId sidecarGraph digest : String) :
    graphMetadata (recordLiveSchema hasher resources sidecarGraph digest) graphId =
      graphMetadata resources graphId := by
  by_cases h : graphId = sidecarGraph
  · subst h
    have hinserted : graphMetadata (resources.insert (schemaAddress graphId) { digest := digest })
        graphId = graphMetadata resources graphId :=
      graphMetadata_congr (BTreeMap.lookup_insert_ne _ _
        (schemaAddress_ne_graphAddress graphId graphId).symm)
    rw [← hinserted]
    simp only [graphMetadata, recordLiveSchema, stateGraphEmbeddingProvider,
      stateGraphExternalBlobPolicy, BTreeMap.lookup_insert_self, bind_some,
      getD_persistedExternalBlobPolicy]
  · exact graphMetadata_congr (lookup_recordLiveSchema_graph digest h)

/-- The sidecar is of a delete of the graph, and the sweep does not find the root. -/
def dropsGraph (store : ClusterStore) (env : Env) (w : World) (graphId : String)
    (entry : String × RecoverySidecar) : Bool :=
  entry.2.kind = .graphDelete && entry.2.graphId = graphId &&
    !graphRootExists store w (env.ok (.probeRoot entry.1)) entry.2.graphUri

/-- The sweep of one sidecar keeps what is said of a graph unless it drops the graph. -/
lemma graphMetadata_sweepSidecar (graphId : String) (s : Sweep) (entry : String × RecoverySidecar) :
    graphMetadata (sweepSidecar hasher store env w s entry).state.resources graphId =
      if dropsGraph store env w graphId entry then (none, .deny)
      else graphMetadata s.state.resources graphId := by
  split_ifs with hdrops
  · simp only [dropsGraph, Bool.and_eq_true, Bool.not_eq_true', decide_eq_true_eq] at hdrops
    obtain ⟨⟨hkind, rfl⟩, hgone⟩ := hdrops
    apply graphMetadata_of_not_mem
    rw [sweepSidecar, hkind]
    dsimp only
    rw [sweepGraphDeleteSidecar, hgone, if_neg Bool.false_ne_true]
    by_cases hrecorded : graphAddress entry.2.graphId ∈ s.state.resources
    · rw [if_neg (not_not.mpr hrecorded), (rollForwardDelete_spec _ _ _).2.2.2]
      exact lookup_tombstoneResources_of_inSubtree (.inl rfl) _
    · rw [if_pos hrecorded]
      exact BTreeMap.lookup_eq_none_iff.mpr hrecorded
  · rcases @sweepStep_sweepSidecar hasher store env w s entry
      with ⟨-, -, -, hstate⟩ | ⟨_, -, -, -, -, -, -, hresources⟩ |
        ⟨hkind, hgone, -, -, -, -, hresources⟩ | ⟨-, -, -, hresources⟩
    · rw [hstate]
    · rw [hresources]
      exact graphMetadata_recordLiveSchema _ _ _ _
    · have hother : entry.2.graphId ≠ graphId := fun heq => hdrops (by simp [dropsGraph, *])
      rw [hresources]
      refine graphMetadata_congr (lookup_tombstoneResources_of_not_inSubtree (fun hin => ?_) _)
      exact hother (inSubtree_graphAddress_iff.mp hin).symm
    · rw [hresources]

/-- The sweep drops the graph: a listed sidecar of a delete says that its root was removed. -/
def sweepDrops (store : ClusterStore) (env : Env) (w : World) (graphId : String) : Bool :=
  (listRecoverySidecars env w).1.any (dropsGraph store env w graphId)

/-- The sweep keeps the provider and the policy of a graph unless it drops the graph, and then it
has neither. -/
lemma graphMetadata_sweep (graphId : String) (state : ClusterState) :
    graphMetadata (sweepRecoverySidecars hasher store env w state).state.resources graphId =
      if sweepDrops store env w graphId then (none, .deny)
      else graphMetadata state.resources graphId := by
  have hfold : ∀ (entries : List (String × RecoverySidecar)) (s : Sweep),
      graphMetadata (entries.foldl (sweepSidecar hasher store env w) s).state.resources graphId =
        if entries.any (dropsGraph store env w graphId) then (none, .deny)
        else graphMetadata s.state.resources graphId := by
    intro entries
    induction entries with
    | nil => exact fun _ => rfl
    | cons entry entries ih =>
      intro s
      rw [List.foldl_cons, ih, graphMetadata_sweepSidecar, List.any_cons]
      cases entries.any (dropsGraph store env w graphId) <;>
        cases dropsGraph store env w graphId entry <;> rfl
  exact hfold _ _

/-- The sweep keeps a part of a graph's metadata, or puts back that of no graph. -/
lemma metadata_sweep_iff {α : Type} (part : Option String × ExternalBlobPolicy → α)
    (state : ClusterState) :
    part (graphMetadata (sweepRecoverySidecars hasher store env w state).state.resources graphId) =
        part (graphMetadata state.resources graphId) ↔
      (sweepDrops store env w graphId = true →
        part (graphMetadata state.resources graphId) = part (none, .deny)) := by
  rw [graphMetadata_sweep]
  split_ifs with hdrops
  · rw [forall_prop_of_true hdrops, eq_comm]
  · exact iff_of_true rfl fun h => absurd h hdrops

lemma provider_sweep_iff (state : ClusterState) :
    stateGraphEmbeddingProvider (sweepRecoverySidecars hasher store env w state).state.resources
        graphId = stateGraphEmbeddingProvider state.resources graphId ↔
      (sweepDrops store env w graphId = true →
        stateGraphEmbeddingProvider state.resources graphId = none) :=
  metadata_sweep_iff Prod.fst state

lemma policy_sweep_iff (state : ClusterState) :
    stateGraphExternalBlobPolicy (sweepRecoverySidecars hasher store env w state).state.resources
        graphId = stateGraphExternalBlobPolicy state.resources graphId ↔
      (sweepDrops store env w graphId = true →
        stateGraphExternalBlobPolicy state.resources graphId = .deny) :=
  metadata_sweep_iff Prod.snd state

lemma not_inSubtree_policyAddress (graphId name : String) :
    ¬ InSubtree graphId (policyAddress name) := by
  rintro (haddress | haddress | ⟨name', haddress⟩)
  · simpa using congrArg resourceKind haddress
  · simpa using congrArg resourceKind haddress
  · exact query_ne_policyAddress _ _ _ haddress.symm

/-! ### Policies -/

/-- The change of a policy waits: for a recovery, if the policy is declared, or for a graph that an
operation failed on. -/
def policyHeld (desired : DesiredCluster) (pendingGraphs : List String) (failed : FailedGraphs)
    (name : String) : Bool :=
  decide (policyAddress name ∈ desired.resourceDigests) &&
      dependsOn desired.dependencies pendingGraphs (policyAddress name) ||
    dependsOn desired.dependencies failed.keys (policyAddress name)

/-- The policy is declared with this content and bound to the graph. -/
def DesiredCluster.BindsPolicy (desired : DesiredCluster) (graphId name digest : String) : Prop :=
  desired.resourceDigests.lookup (policyAddress name) = some digest ∧
    ∃ bindings, desired.policyBindings.lookup (policyAddress name) = some bindings ∧
      graphAddress graphId ∈ bindings

variable {name : String} {dependencies : List Dependency}

variable (hcoherent : Coherent hasher desired)

include hcoherent in
lemma mem_servingPolicies_of_asDeclared {digest : String}
    (h : AsDeclared desired resources (policyAddress name)) :
    (name, digest) ∈ servingPolicies resources graphId ↔
      desired.BindsPolicy graphId name digest := by
  rw [mem_servingPolicies]
  constructor
  · rintro ⟨entry, hentry, hbound, rfl⟩
    have hdigest := h.digest
    rw [digestAt, hentry, map_some] at hdigest
    obtain ⟨bindings, hbindings⟩ := BTreeMap.mem_iff_exists.mp ((hcoherent.policy_iff _).mpr
      ⟨BTreeMap.mem_of_lookup hdigest.symm, name, resourceKind_policyAddress⟩)
    rw [h.bindings bindings hbindings entry hentry] at hbound
    exact ⟨hdigest.symm, bindings, hbindings, hbound⟩
  · rintro ⟨hdigest, bindings, hbindings, hbound⟩
    obtain ⟨entry, hentry, hsame⟩ := map_eq_some_iff.mp (h.digest.trans hdigest)
    refine ⟨entry, hentry, ?_, hsame⟩
    rw [h.bindings bindings hbindings entry hentry]
    exact hbound

lemma dependsOn_mono {graphs graphs' : List String} (h : ∀ graph ∈ graphs, graph ∈ graphs')
    {resource : String} (hdepends : dependsOn dependencies graphs resource = true) :
    dependsOn dependencies graphs' resource = true := by
  simp only [dependsOn, List.any_eq_true, Bool.and_eq_true, decide_eq_true_eq, Option.any_eq_true]
    at hdepends ⊢
  obtain ⟨dep, hdep, hdependent, graph, hgraph, hmem⟩ := hdepends
  exact ⟨dep, hdep, hdependent, graph, hgraph, h graph hmem⟩

lemma demoteReason_policy {failed : FailedGraphs} :
    demoteReason failed dependencies (policyAddress name) = none ↔
      dependsOn dependencies failed.keys (policyAddress name) = false := by
  simp only [demoteReason, resourceKind_policyAddress]
  cases dependsOn dependencies failed.keys (policyAddress name) <;> simp [dependencyNotApplied]

section Policies

variable {planned : Planned} {changes : List PlanChange} {deletes : Deletes} {u : World}
  (hran : Ran hasher engine store env desired planned changes deletes w u)

lemma lookup_settle_policyAddress (name : String) :
    (settle hasher env desired planned.sweep.state changes deletes.executed).resources.lookup
      (policyAddress name) =
        (changes.foldl (applyChange desired) planned.sweep.state).resources.lookup
          (policyAddress name) := by
  rw [lookup_settle_of_not_declared, partsAfter, lookup_recordDeletes_of_not_inSubtree]
  · exact fun deleted _ => not_inSubtree_policyAddress deleted.1 name
  · exact fun graphId _ haddress => not_inSubtree_policyAddress graphId name (.inl haddress)

include hran

variable {change : PlanChange}

/-- The change of a policy that does not wait is applied. -/
lemma applied_of_policy
    (hheld : policyHeld desired planned.sweep.pendingGraphs deletes.moves.failed name = false)
    (hchange : change ∈ changes) (hresource : change.resource = policyAddress name) :
    change.disposition = some .applied := by
  have hplan := hran.moved.isPlan hran.prepared
  obtain ⟨c, hc, hsame⟩ := exists_change (hplan.said change hchange).unsettled
  rw [hresource] at hsame
  rw [policyHeld, Bool.or_eq_false_iff] at hheld
  have hclassified : planned.classified desired c ∈ changes := by
    refine hran.moved.mem_of_classified hran.prepared hc fun failed hfailed => ?_
    rw [hsame, demoteReason_policy, ← Bool.not_eq_true]
    intro hdepends
    exact absurd (dependsOn_mono hfailed hdepends) (ne_true_of_eq_false hheld.2)
  have heq : change = planned.classified desired c :=
    List.inj_on_of_nodup_map hplan.nodup hchange hclassified (hresource.trans hsame.symm)
  rw [heq]
  refine congrArg some ?_
  simp only [classifyChange, hsame, resourceKind_policyAddress]
  have hsaid := (says_of_mem hc).delete_iff
  rw [hsame] at hsaid
  cases hoperation : c.operation with
  | delete => rfl
  | create | update =>
    have hdeclared : policyAddress name ∈ desired.resourceDigests := by
      by_contra hnot
      cases hoperation.symm.trans (hsaid.mpr hnot)
    have hfree := hheld.1
    rw [decide_eq_true hdeclared, Bool.true_and] at hfree
    rw [classifyPolicy, hfree]
    rfl

/-- The change of a policy that waits is not applied. -/
lemma not_applied_of_policy
    (hheld : policyHeld desired planned.sweep.pendingGraphs deletes.moves.failed name = true)
    (hchange : change ∈ changes) (hresource : change.resource = policyAddress name) :
    change.disposition ≠ some .applied := by
  intro happlied
  obtain ⟨⟨c, hc, rfl⟩, hreason⟩ := hran.moved.of_applied hran.prepared hchange happlied
  have hsame : c.resource = policyAddress name := hresource
  rw [hresource, demoteReason_policy] at hreason
  rw [policyHeld, hreason, Bool.or_false, Bool.and_eq_true, decide_eq_true_eq] at hheld
  have hdelete : c.operation ≠ .delete := by
    rw [Ne, (says_of_mem hc).delete_iff, hsame, not_not]
    exact hheld.1
  have hclassified := Option.some.inj happlied
  simp only [classifyChange, hsame, resourceKind_policyAddress] at hclassified
  cases hoperation : c.operation with
  | delete => exact hdelete hoperation
  | create | update =>
    rw [hoperation, classifyPolicy, hheld.2] at hclassified
    cases hclassified

/-- A policy that waits is recorded as it was. -/
lemma lookup_settle_of_held
    (hheld : policyHeld desired planned.sweep.pendingGraphs deletes.moves.failed name = true) :
    (settle hasher env desired planned.sweep.state changes deletes.executed).resources.lookup
      (policyAddress name) = planned.before.resources.lookup (policyAddress name) := by
  have hplan := hran.moved.isPlan hran.prepared
  have hswept : planned.sweep.state.resources.lookup (policyAddress name) =
      planned.before.resources.lookup (policyAddress name) := by
    rw [hran.prepared.sweep]
    exact sweep_lookup (fun graphId => not_inSubtree_policyAddress graphId name) _
  rw [lookup_settle_policyAddress, ← hswept]
  by_cases hchange : ∃ change ∈ changes, change.resource = policyAddress name
  · obtain ⟨change, hmem, hresource⟩ := hchange
    rw [← hresource, lookup_applyChanges desired hplan.nodup hmem]
    exact PlanChange.outcome_of_not_applied (not_applied_of_policy hran hheld hmem hresource) _
  · exact lookup_applyChanges_of_forall_ne desired
      (fun change hmem hresource => hchange ⟨change, hmem, hresource⟩) _

/-- A policy that does not wait is recorded as it is declared. -/
lemma asDeclared_settle_of_not_held
    (hheld : policyHeld desired planned.sweep.pendingGraphs deletes.moves.failed name = false) :
    AsDeclared desired
      (settle hasher env desired planned.sweep.state changes deletes.executed).resources
      (policyAddress name) := by
  have hplan := hran.moved.isPlan hran.prepared
  refine asDeclared_congr (lookup_settle_policyAddress name) ?_
  by_cases hchange : ∃ change ∈ changes, change.resource = policyAddress name
  · obtain ⟨change, hmem, hresource⟩ := hchange
    rw [← hresource]
    exact asDeclared_of_applied (hplan.said change hmem)
      (applied_of_policy hran hheld hmem hresource) (lookup_applyChanges desired hplan.nodup hmem _)
  · refine asDeclared_congr (lookup_applyChanges_of_forall_ne desired
      (fun change hmem hresource => hchange ⟨change, hmem, hresource⟩) _) ?_
    by_contra hnot
    exact hchange (hplan.covers _ hnot)

end Policies

/-! ### Entries of graphs and providers -/

include hcoherent in
lemma providerProfile_of_asDeclared
    (h : AsDeclared desired resources (embeddingProviderAddress name)) :
    providerProfile hasher resources (embeddingProviderAddress name) =
      desired.embeddingProviders.lookup (embeddingProviderAddress name) := by
  simp only [providerProfile, resourceKind_embeddingProviderAddress, servingProfile]
  cases hprofile : desired.embeddingProviders.lookup (embeddingProviderAddress name) with
  | none =>
    have hnot : embeddingProviderAddress name ∉ desired.resourceDigests := by
      intro hmem
      refine BTreeMap.lookup_eq_none_iff.mp hprofile
        ((hcoherent.profile_iff _).mpr ⟨hmem, name, ?_⟩)
      exact resourceKind_embeddingProviderAddress
    have hnone := h.digest
    rw [BTreeMap.lookup_eq_none_iff.mpr hnot, digestAt, map_eq_none_iff] at hnone
    rw [hnone, bind_none]
  | some profile =>
    have hdigest := h.digest.trans (hcoherent.profile_digest _ _ hprofile)
    obtain ⟨entry, hentry, hsame⟩ := map_eq_some_iff.mp hdigest
    rw [hentry, bind_some, h.profile profile hprofile entry hentry, filter_some,
      decide_eq_true hsame.symm, if_pos rfl]

section Graphs

variable {planned : Planned} {changes : List PlanChange} {deletes : Deletes} {u : World}
  (hcoherent : Coherent hasher desired)
  (hran : Ran hasher engine store env desired planned changes deletes w u)

include hcoherent hran

/-- The profiles of the providers are served as they are declared. -/
lemma providerProfile_settle (name : String) :
    providerProfile hasher
      (settle hasher env desired planned.sweep.state changes deletes.executed).resources
      (embeddingProviderAddress name) =
        desired.embeddingProviders.lookup (embeddingProviderAddress name) := by
  apply providerProfile_of_asDeclared hcoherent
  refine asDeclared_congr ?_ (asDeclared_partsAfter_provider hran name)
  exact lookup_settle_of_not_declared fun graphId _ =>
    embeddingProviderAddress_ne_graphAddress graphId name

/-- The entry of a declared graph is not changed, or it is created without a policy. -/
lemma stateGraphExternalBlobPolicy_partsAfter (hdeclares : desired.Declares graphId) :
    stateGraphExternalBlobPolicy
      (partsAfter env desired planned.sweep.state changes deletes.executed).resources graphId =
        stateGraphExternalBlobPolicy planned.sweep.state.resources graphId := by
  have hplan := hran.moved.isPlan hran.prepared
  have hother : ∀ deleted ∈ deletes.executed, ¬ InSubtree deleted.1 (graphAddress graphId) := by
    intro deleted hdeleted hin
    rw [inSubtree_graphAddress_iff.mp hin] at hdeclares
    exact hran.moved.not_declared hcoherent hplan deleted hdeleted hdeclares
  rw [stateGraphExternalBlobPolicy, stateGraphExternalBlobPolicy, partsAfter,
    lookup_recordDeletes_of_not_inSubtree env hother]
  by_cases hchange : ∃ change ∈ changes, change.resource = graphAddress graphId
  · obtain ⟨change, hmem, hresource⟩ := hchange
    have hsaid := hplan.said change hmem
    rw [← hresource, lookup_applyChanges desired hplan.nodup hmem]
    by_cases happlied : change.disposition = some .applied
    · cases hoperation : change.operation with
      | delete =>
        have hnot := hsaid.delete_iff.mp hoperation
        rw [hresource, hcoherent.graph_iff] at hnot
        exact absurd hdeclares hnot
      | create =>
        rw [BTreeMap.lookup_eq_none_iff.mpr (hsaid.create_iff.mp hoperation), PlanChange.outcome,
          happlied, hoperation]
        rfl
      | update =>
        obtain ⟨⟨c, hc, rfl⟩, -⟩ := hran.moved.of_applied hran.prepared hmem happlied
        have hkind : resourceKind c.resource = .graph graphId := by
          rw [← resourceKind_graphAddress, ← hresource]
          rfl
        -- the update of a graph follows from other changes
        have hclassified := Option.some.inj happlied
        have hupdate : c.operation = .update := hoperation
        simp only [classifyChange, hkind, hupdate, classifyGraph] at hclassified
        split_ifs at hclassified
    · rw [PlanChange.outcome_of_not_applied happlied]
  · rw [lookup_applyChanges_of_forall_ne desired
      fun change hmem hresource => hchange ⟨change, hmem, hresource⟩]

/-- The entry of a declared graph: the declared provider, and the policy that is declared unless
the change of the graph is blocked. -/
lemma settle_declared {graph : DesiredGraph} (hgraph : graph ∈ desired.graphs)
    (hrecorded : graphAddress graph.id ∈
      (settle hasher env desired planned.sweep.state changes deletes.executed).resources) :
    stateGraphEmbeddingProvider
      (settle hasher env desired planned.sweep.state changes deletes.executed).resources graph.id =
        graph.embeddingProvider ∧
    stateGraphExternalBlobPolicy
      (settle hasher env desired planned.sweep.state changes deletes.executed).resources graph.id =
        if graphChangeBlocked changes graph.id then
          stateGraphExternalBlobPolicy planned.sweep.state.resources graph.id
        else graph.externalBlobPolicy := by
  have hmem := (mem_recomputeGraphs hasher).mp hrecorded
  rw [stateGraphEmbeddingProvider, stateGraphExternalBlobPolicy,
    @lookup_settle hasher env desired _ changes _ hcoherent _ hgraph hmem, bind_some,
    bind_some, graphEntry, getD_persistedExternalBlobPolicy, settledPolicy,
    stateGraphExternalBlobPolicy_partsAfter hcoherent hran ⟨graph, hgraph, rfl⟩]
  exact ⟨rfl, rfl⟩

/-- The entry of a graph that is not declared stays. -/
lemma settle_undeclared (hnot : ¬ desired.Declares graphId)
    (hrecorded : graphAddress graphId ∈
      (settle hasher env desired planned.sweep.state changes deletes.executed).resources) :
    stateGraphEmbeddingProvider
      (settle hasher env desired planned.sweep.state changes deletes.executed).resources graphId =
        stateGraphEmbeddingProvider planned.sweep.state.resources graphId ∧
    stateGraphExternalBlobPolicy
      (settle hasher env desired planned.sweep.state changes deletes.executed).resources graphId =
        stateGraphExternalBlobPolicy planned.sweep.state.resources graphId := by
  obtain ⟨entry, hentry⟩ := BTreeMap.mem_iff_exists.mp hrecorded
  have hold := (settle_lookup_undeclared hcoherent hran hnot hentry).2
  simp only [stateGraphEmbeddingProvider, stateGraphExternalBlobPolicy, hentry, hold, and_self]

end Graphs

/-! ### Graphs that are held back -/

/-- The change of the graph or of its schema is blocked in the run, or a recovery of the graph is
pending. -/
def HeldBack (output : ApplyOutput) (graphId : String) : Prop :=
  graphChangeBlocked output.changes graphId = true ∨ graphId ∈ output.pendingGraphs

/-- A run keeps what is derived for a graph: the declared metadata that is written is as recorded,
where nothing is written no sidecar drops recorded metadata, the profile of the provider is as
declared, and so is every policy that does not wait. -/
structure KeepsAuthority (hasher : Hasher) (store : ClusterStore) (env : Env) (w : World)
    (desired : DesiredCluster) (output : ApplyOutput) (before : Resources) (graphId : String) :
    Prop where
  declared_provider : ∀ graph ∈ desired.graphs, graph.id = graphId →
    graph.embeddingProvider = stateGraphEmbeddingProvider before graphId
  declared_policy : ∀ graph ∈ desired.graphs, graph.id = graphId →
    graphChangeBlocked output.changes graphId = false →
      graph.externalBlobPolicy = stateGraphExternalBlobPolicy before graphId
  dropped_provider : ¬ desired.Declares graphId → sweepDrops store env w graphId = true →
    stateGraphEmbeddingProvider before graphId = none
  dropped_policy : (desired.Declares graphId → graphChangeBlocked output.changes graphId = true) →
    sweepDrops store env w graphId = true → stateGraphExternalBlobPolicy before graphId = .deny
  profile : ∀ name, stateGraphEmbeddingProvider before graphId =
    some (embeddingProviderAddress name) →
      desired.embeddingProviders.lookup (embeddingProviderAddress name) =
        providerProfile hasher before (embeddingProviderAddress name)
  policies : ∀ name, policyHeld desired output.pendingGraphs output.failedGraphs name = false →
    ∀ digest, desired.BindsPolicy graphId name digest ↔
      (name, digest) ∈ servingPolicies before graphId

section HeldBack

variable {planned : Planned} {changes : List PlanChange} {deletes : Deletes}
  {output : ApplyOutput} {u t : World}

lemma providerProfile_of_not_provider {provider : String}
    (h : ∀ name, provider ≠ embeddingProviderAddress name) :
    providerProfile hasher resources provider = none := by
  unfold providerProfile
  split
  · next name hkind => exact absurd (resourceKind_eq_embeddingProvider_iff.mp hkind) (h name)
  · rfl

variable (hran : Ran hasher engine store env desired planned changes deletes w u)

include hran hcoherent in
lemma profiles_settle_iff :
    (∀ provider ∈ stateGraphEmbeddingProvider before graphId,
      providerProfile hasher (settle hasher env desired planned.sweep.state changes
        deletes.executed).resources provider = providerProfile hasher before provider) ↔
    ∀ name, stateGraphEmbeddingProvider before graphId = some (embeddingProviderAddress name) →
      desired.embeddingProviders.lookup (embeddingProviderAddress name) =
        providerProfile hasher before (embeddingProviderAddress name) := by
  constructor
  · intro h name hname
    rw [← providerProfile_settle hcoherent hran name]
    exact h _ hname
  · intro h provider hprovider
    by_cases hname : ∃ name, provider = embeddingProviderAddress name
    · obtain ⟨name, rfl⟩ := hname
      rw [providerProfile_settle hcoherent hran name]
      exact h name hprovider
    · rw [not_exists] at hname
      rw [providerProfile_of_not_provider hname, providerProfile_of_not_provider hname]

include hran hcoherent in
lemma policies_settle_iff :
    (∀ policy, policy ∈ servingPolicies (settle hasher env desired planned.sweep.state changes
        deletes.executed).resources graphId ↔
      policy ∈ servingPolicies planned.before.resources graphId) ↔
    ∀ name, policyHeld desired planned.sweep.pendingGraphs deletes.moves.failed name = false →
      ∀ digest, desired.BindsPolicy graphId name digest ↔
        (name, digest) ∈ servingPolicies planned.before.resources graphId := by
  constructor
  · intro h name hheld digest
    rw [← h, mem_servingPolicies_of_asDeclared hcoherent (asDeclared_settle_of_not_held hran hheld)]
  · intro h policy
    obtain ⟨name, digest⟩ := policy
    cases hheld : policyHeld desired planned.sweep.pendingGraphs deletes.moves.failed name with
    | true => rw [mem_servingPolicies, mem_servingPolicies, lookup_settle_of_held hran hheld]
    | false =>
      rw [← h name hheld, mem_servingPolicies_of_asDeclared hcoherent
        (asDeclared_settle_of_not_held hran hheld)]

include hran hcoherent in
/-- What the entry of a graph says of its policy and its provider is as it was. -/
lemma metadata_settle_iff
    (hrecorded : graphAddress graphId ∈ (settle hasher env desired
      planned.sweep.state changes deletes.executed).resources) :
    (stateGraphExternalBlobPolicy (settle hasher env desired planned.sweep.state changes
        deletes.executed).resources graphId = stateGraphExternalBlobPolicy before graphId ∧
      stateGraphEmbeddingProvider (settle hasher env desired planned.sweep.state changes
        deletes.executed).resources graphId = stateGraphEmbeddingProvider before graphId) ↔
    (∀ graph ∈ desired.graphs, graph.id = graphId →
      graph.embeddingProvider = stateGraphEmbeddingProvider before graphId) ∧
    (∀ graph ∈ desired.graphs, graph.id = graphId → graphChangeBlocked changes graphId = false →
      graph.externalBlobPolicy = stateGraphExternalBlobPolicy before graphId) ∧
    (¬ desired.Declares graphId →
      stateGraphEmbeddingProvider planned.sweep.state.resources graphId =
      stateGraphEmbeddingProvider before graphId) ∧
    ((desired.Declares graphId → graphChangeBlocked changes graphId = true) →
      stateGraphExternalBlobPolicy planned.sweep.state.resources graphId =
        stateGraphExternalBlobPolicy before graphId) := by
  by_cases hdeclares : desired.Declares graphId
  · obtain ⟨graph, hgraph, rfl⟩ := hdeclares
    have hunique : ∀ other ∈ desired.graphs, other.id = graph.id → other = graph :=
      fun other hother hid => List.inj_on_of_nodup_map hcoherent.graphs_nodup hother hgraph hid
    obtain ⟨hprovider, hpolicy⟩ := settle_declared hcoherent hran hgraph hrecorded
    rw [hprovider, hpolicy]
    constructor
    · rintro ⟨hpolicies, hproviders⟩
      refine ⟨fun other hother hid => ?_, fun other hother hid hfree => ?_,
        fun hnot => absurd ⟨graph, hgraph, rfl⟩ hnot, fun hblocked => ?_⟩
      · rw [hunique other hother hid, hproviders]
      · rw [hunique other hother hid, ← hpolicies, hfree, if_neg Bool.false_ne_true]
      · rw [← hpolicies, hblocked ⟨graph, hgraph, rfl⟩, if_pos rfl]
    · rintro ⟨hproviders, hdeclared, -, hswept⟩
      refine ⟨?_, hproviders graph hgraph rfl⟩
      split_ifs with hblocked
      · exact hswept fun _ => hblocked
      · exact hdeclared graph hgraph rfl (Bool.not_eq_true _ ▸ hblocked)
  · obtain ⟨hprovider, hpolicy⟩ := settle_undeclared hcoherent hran hdeclares hrecorded
    rw [hprovider, hpolicy]
    constructor
    · rintro ⟨hpolicies, hproviders⟩
      exact ⟨fun graph hgraph hid => absurd ⟨graph, hgraph, hid⟩ hdeclares,
        fun graph hgraph hid => absurd ⟨graph, hgraph, hid⟩ hdeclares, fun _ => hproviders,
        fun _ => hpolicies⟩
    · rintro ⟨-, -, hproviders, hpolicies⟩
      exact ⟨hpolicies fun hdecl => absurd hdecl hdeclares, hproviders hdeclares⟩

include hcoherent in
/-- What is derived for a recorded graph is as it was exactly if the run keeps it. -/
theorem Applied.keepsAuthority_iff
    (happlied : Applied hasher engine store env desired planned changes deletes output w u t)
    {after : ClusterState} (hwritten : output.stateWriteFailed = false)
    (hafter : t.ledger = some after) (hrecorded : graphAddress graphId ∈ planned.before.resources)
    (hrecorded' : graphAddress graphId ∈ after.resources) :
    SameAuthority hasher planned.before.resources after.resources graphId ↔
      KeepsAuthority hasher store env w desired output planned.before.resources graphId := by
  obtain ⟨revision, hledger⟩ := happlied.finished.ledger hwritten
  have hresources : after.resources = (settle hasher env desired planned.sweep.state changes
      deletes.executed).resources := by
    rw [hafter] at hledger
    rw [Option.some.inj hledger, settled, converge]
    split_ifs <;> rfl
  have hran := happlied.toRan
  have hfinished := happlied.finished
  rw [sameAuthority_iff hrecorded hrecorded', hresources, ← and_assoc]
  rw [hresources] at hrecorded'
  rw [metadata_settle_iff hcoherent hran hrecorded', profiles_settle_iff hcoherent hran,
    policies_settle_iff hcoherent hran, hran.prepared.sweep, provider_sweep_iff, policy_sweep_iff,
    ← hran.prepared.sweep, ← hfinished.changes_eq, ← hfinished.pending, ← hfinished.failed]
  constructor
  · rintro ⟨⟨hprovider, hpolicy, hdropped, hdropped'⟩, hprofile, hpolicies⟩
    exact ⟨hprovider, hpolicy, hdropped, hdropped', hprofile, hpolicies⟩
  · rintro ⟨hprovider, hpolicy, hdropped, hdropped', hprofile, hpolicies⟩
    exact ⟨⟨hprovider, hpolicy, hdropped, hdropped'⟩, hprofile, hpolicies⟩

end HeldBack

section Main

variable {loader : Loader} {raw : RawClusterConfig}

/-- A graph that a run holds back keeps its authority exactly under the conditions of
`KeepsAuthority`. -/
theorem held_back_graphs_keep_authority_iff
    (hclean : hasErrors (loadDesired hasher loader raw).2 = false) {output : ApplyOutput}
    (hresult : (applyConfigDir hasher engine store env (loadDesired hasher loader raw).1 w).result =
      .ok output) (hwritten : output.stateWriteFailed = false) {before after : ClusterState}
    (hbefore : w.ledger = some before)
    (hafter : (applyConfigDir hasher engine store env
      (loadDesired hasher loader raw).1 w).final.ledger = some after) :
    ∀ graphId, graphAddress graphId ∈ before.resources → graphAddress graphId ∈ after.resources →
      HeldBack output graphId →
        (SameAuthority hasher before.resources after.resources graphId ↔
          KeepsAuthority hasher store env w (loadDesired hasher loader raw).1 output
            before.resources graphId) := by
  intro graphId hrecorded hrecorded' _
  obtain ⟨planned, changes, deletes, u, happlied⟩ :=
    (@applyConfigDir_wp _ engine _ env _ w).2.2 output hresult
  have hsame : before = planned.before :=
    Option.some.inj (hbefore.symm.trans happlied.prepared.ledger)
  rw [hsame] at hrecorded ⊢
  exact happlied.keepsAuthority_iff (coherent_of_clean hclean) hwritten hafter hrecorded hrecorded'

end Main

/-! ### A graph that is not declared any more -/

/-- What an apply of a configuration of graphs does. -/
def applyGraphs (env : Env) (graphs : List (String × GraphConfig)) (w : World) :
    Outcome World ApplyOutput ApplyOutput :=
  applyConfigDir plainHasher plainEngine localStore env
    (loadDesired plainHasher plainLoader (configOf graphs)).1 w

/-- A run that ended and wrote the ledger, with the ledgers before and after it. -/
structure Wrote (run : Outcome World ApplyOutput ApplyOutput) (w : World)
    (output : ApplyOutput) (before after : ClusterState) : Prop where
  result : run.result = .ok output
  written : output.stateWriteFailed = false
  ledger : w.ledger = some before
  ledger' : run.final.ledger = some after

/-- The graph is held back in the run, and both ledgers have it. -/
def HeldBackIn (output : ApplyOutput) (before after : ClusterState) (graphId : String) : Prop :=
  graphAddress graphId ∈ before.resources ∧ graphAddress graphId ∈ after.resources ∧
    HeldBack output graphId

instance (output : ApplyOutput) (before after : ClusterState) (graphId : String) :
    Decidable (HeldBackIn output before after graphId) :=
  inferInstanceAs (Decidable (_ ∧ _ ∧ (_ ∨ _)))

/-- A test of a run and its ledgers. -/
def wroteWith (run : Outcome World ApplyOutput ApplyOutput) (w : World)
    (test : ApplyOutput → ClusterState → ClusterState → Bool) : Bool :=
  match run.result, w.ledger, run.final.ledger with
  | .ok output, some before, some after => !output.stateWriteFailed && test output before after
  | _, _, _ => false

lemma exists_of_wroteWith {run : Outcome World ApplyOutput ApplyOutput} {w : World}
    {test : ApplyOutput → ClusterState → ClusterState → Bool}
    (h : wroteWith run w test = true) : ∃ output before after,
      Wrote run w output before after ∧ test output before after = true := by
  unfold wroteWith at h
  split at h
  · next output before after hresult hbefore hafter =>
    rw [Bool.and_eq_true, Bool.not_eq_true'] at h
    exact ⟨output, before, after, ⟨hresult, h.1, hbefore, hafter⟩, h.2⟩
  · cases h

/-- A graph of which only the schema is recorded. -/
def plainRecorded : World :=
  { emptyWorld with ledger := some (recordedGraph "g" none
      ((∅ : Resources).insert "schema.g" { digest := "g.pg" })) }

/-- The delete of a graph without an approval is blocked, and nothing was bound to the graph. -/
theorem held_back_graphs_keep_authority_iff_plain : ∃ output before after,
    Wrote (applyGraphs plainEnv [] plainRecorded) plainRecorded output before after ∧
      HeldBackIn output before after "g" ∧
      (SameAuthority plainHasher before.resources after.resources "g" ↔
        KeepsAuthority plainHasher localStore plainEnv plainRecorded
          (loadDesired plainHasher plainLoader (configOf [])).1 output before.resources "g") := by
  obtain ⟨output, before, after, hwrote, hheld⟩ := @exists_of_wroteWith
    (applyGraphs plainEnv [] plainRecorded) plainRecorded
    (fun output before after => decide (HeldBackIn output before after "g")) (by decide +kernel)
  have hheld' := of_decide_eq_true hheld
  exact ⟨output, before, after, hwrote, hheld', held_back_graphs_keep_authority_iff
    (by decide +kernel) hwrote.result hwrote.written hwrote.ledger hwrote.ledger' "g" hheld'.1
    hheld'.2.1 hheld'.2.2⟩

/-- The same graph with a policy that is bound to it. -/
def governedGraph : World :=
  { emptyWorld with ledger := some (recordedGraph "g" none
      (((∅ : Resources).insert "schema.g" { digest := "g.pg" }).insert "policy.p"
        { digest := "p.yaml", appliesTo := some ["graph.g"] })) }

/-- A graph with a provider, and a schema before the declared one. -/
def embeddedGraph : World :=
  { emptyWorld with ledger := some (recordedGraph "g" (some "provider.embedding.p")
      (((∅ : Resources).insert "schema.g" { digest := "old.pg" }).insert "provider.embedding.p"
        { digest := "p", embeddingProfile := some ⟨none, none, some "p", none⟩ })) }

/-- The graph cannot be opened. -/
def unopenedEnv : Env := { plainEnv with ok := fun call => call ≠ .openForUpdate "g" }

/-- A graph whose delete is blocked loses the policy that is bound to it, and a graph whose schema
apply failed loses its provider. -/
theorem held_back_graphs_lose_authority :
    (∃ output before after,
      Wrote (applyGraphs plainEnv [] governedGraph) governedGraph output before after ∧
        HeldBackIn output before after "g" ∧
        ¬ SameAuthority plainHasher before.resources after.resources "g") ∧
    ∃ output before after,
      Wrote (applyGraphs unopenedEnv [plainGraph "g"] embeddedGraph) embeddedGraph output before
          after ∧
        HeldBackIn output before after "g" ∧
        ¬ SameAuthority plainHasher before.resources after.resources "g" := by
  constructor
  · obtain ⟨output, before, after, hwrote, htest⟩ := @exists_of_wroteWith
      (applyGraphs plainEnv [] governedGraph) governedGraph
      (fun output before after => decide (HeldBackIn output before after "g" ∧
        ("p", "p.yaml") ∈ servingPolicies before.resources "g" ∧
        ("p", "p.yaml") ∉ servingPolicies after.resources "g")) (by decide +kernel)
    obtain ⟨hheld, hbefore, hafter⟩ := of_decide_eq_true htest
    exact ⟨output, before, after, hwrote, hheld, fun h => hafter ((h.policies _).mpr hbefore)⟩
  · obtain ⟨output, before, after, hwrote, htest⟩ := @exists_of_wroteWith
      (applyGraphs unopenedEnv [plainGraph "g"] embeddedGraph) embeddedGraph
      (fun output before after => decide (HeldBackIn output before after "g" ∧
        servingAuthority plainHasher after.resources "g" ≠
          servingAuthority plainHasher before.resources "g")) (by decide +kernel)
    obtain ⟨hheld, hlost⟩ := of_decide_eq_true htest
    exact ⟨output, before, after, hwrote, hheld, fun h => hlost h.authority⟩

end Omnigraph.Cluster
