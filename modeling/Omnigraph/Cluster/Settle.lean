import Omnigraph.Cluster.Changes

/-!
# What an apply records

The ledger an apply ends with is computed from the ledger after the sweep: the changes of the plan
one after the other, then the subtrees of the graphs that were removed, then the entries of the
declared graphs. A change acts on its own address, and the entry of a graph is computed from
entries that are not entries of graphs.
-/

namespace Omnigraph.Cluster

open List BTreeMap

variable (hasher : Hasher) (env : Env) (desired : DesiredCluster)

/-! ### Changes -/

/-- The entry after a change of its address. -/
def PlanChange.outcome (change : PlanChange) (entry : Option StateResource) :
    Option StateResource :=
  match change.disposition, change.operation with
  | some .applied, .delete => none
  | some .applied, _ => some
      { digest := change.afterDigest.getD ""
        appliesTo := desired.policyBindings.lookup change.resource
        embeddingProfile := desired.embeddingProviders.lookup change.resource }
  | _, _ => entry

lemma lookup_applyChange (state : ClusterState) (change : PlanChange) (address : String) :
    (applyChange desired state change).resources.lookup address =
      if address = change.resource then change.outcome desired (state.resources.lookup address)
      else state.resources.lookup address := by
  unfold applyChange PlanChange.outcome
  cases change.disposition with
  | none => exact (ite_self _).symm
  | some disposition =>
    cases disposition with
    | applied =>
      cases change.operation with
      | delete => exact lookup_erase _ _ _
      | create => exact lookup_insert _ _ _ _
      | update => exact lookup_insert _ _ _ _
    | blocked =>
      dsimp only
      rw [ite_self]
      split_ifs <;> rfl
    | derived => exact (ite_self _).symm
    | deferred => exact (ite_self _).symm

variable {address : String} {changes : List PlanChange}

lemma lookup_applyChanges_of_forall_ne (h : ∀ change ∈ changes, change.resource ≠ address)
    (state : ClusterState) :
    (changes.foldl (applyChange desired) state).resources.lookup address =
      state.resources.lookup address :=
  lookup_foldl_of_forall_ne (lookup_applyChange desired) h state

lemma lookup_applyChanges (hnodup : (changes.map PlanChange.resource).Nodup) {change : PlanChange}
    (hchange : change ∈ changes) (state : ClusterState) :
    (changes.foldl (applyChange desired) state).resources.lookup change.resource =
      change.outcome desired (state.resources.lookup change.resource) :=
  lookup_foldl_of_mem (lookup_applyChange desired) hnodup hchange state

/-! ### Removed graphs -/

/-- The address is the one of the graph, of its schema or of one of its queries. -/
def InSubtree (graphId address : String) : Prop :=
  address = graphAddress graphId ∨ address = schemaAddress graphId ∨
    ∃ name, address = queryPrefix graphId ++ name

variable {graphId : String} {executed : List (String × Option String)}

lemma lookup_tombstoneResources_of_inSubtree (h : InSubtree graphId address)
    (resources : Resources) :
    (tombstoneResources resources graphId).lookup address = none := by
  rw [tombstoneResources, lookup_retain]
  rcases h with rfl | rfl | ⟨name, rfl⟩
  · simp only [lookup_erase, ite_self, if_true]
  · simp only [lookup_erase_self, ite_self]
  · rw [Prefixed.strip_append, Option.isNone_some, if_neg Bool.false_ne_true]

lemma lookup_tombstoneResources_of_not_inSubtree (h : ¬ InSubtree graphId address)
    (resources : Resources) :
    (tombstoneResources resources graphId).lookup address = resources.lookup address := by
  rw [InSubtree, not_or, not_or, not_exists] at h
  have hquery : Prefixed.strip (queryPrefix graphId) address = none := by
    rw [Option.eq_none_iff_forall_not_mem]
    exact fun name hname => h.2.2 name (Prefixed.strip_eq_some_iff.mp hname)
  rw [tombstoneResources, lookup_retain, hquery, Option.isNone_none, if_pos rfl,
    lookup_erase_ne _ h.2.1, lookup_erase_ne _ h.1]

lemma resources_recordDelete (state : ClusterState) (deleted : String × Option String) :
    (recordDelete env state deleted).resources =
      tombstoneResources state.resources deleted.1 := by
  unfold recordDelete
  cases deleted.2 <;> rfl

/-- Removing the subtrees of graphs removes what is in one of them. -/
lemma lookup_recordDeletes_of_inSubtree {deleted : String × Option String}
    (hdeleted : deleted ∈ executed) (h : InSubtree deleted.1 address) (state : ClusterState) :
    (executed.foldl (recordDelete env) state).resources.lookup address = none := by
  induction executed using List.reverseRecOn with
  | nil => cases hdeleted
  | append_singleton executed last ih =>
    rw [foldl_append, foldl_cons, foldl_nil, resources_recordDelete]
    by_cases hlast : InSubtree last.1 address
    · exact lookup_tombstoneResources_of_inSubtree hlast _
    · rw [lookup_tombstoneResources_of_not_inSubtree hlast]
      rcases mem_append.mp hdeleted with hmem | hmem
      · exact ih hmem
      · rw [mem_singleton] at hmem
        exact absurd (hmem ▸ h) hlast

lemma lookup_recordDeletes_of_not_inSubtree
    (h : ∀ deleted ∈ executed, ¬ InSubtree deleted.1 address) (state : ClusterState) :
    (executed.foldl (recordDelete env) state).resources.lookup address =
      state.resources.lookup address := by
  induction executed generalizing state with
  | nil => rfl
  | cons deleted executed ih =>
    rw [foldl_cons, ih (fun d hd => h d (by simp [hd])), resources_recordDelete,
      lookup_tombstoneResources_of_not_inSubtree (h deleted (by simp))]

/-! ### Entries of graphs -/

/-- The same is recorded of everything but graphs. -/
def SameParts (resources resources' : Resources) : Prop :=
  ∀ address, (∀ graphId, address ≠ graphAddress graphId) →
    resources'.lookup address = resources.lookup address

lemma SameParts.refl (resources : Resources) : SameParts resources resources := fun _ _ => rfl

lemma sameParts_insert (resources : Resources) (graphId : String) (entry : StateResource) :
    SameParts resources (resources.insert (graphAddress graphId) entry) :=
  fun _ hne => lookup_insert_ne _ _ (hne graphId)

variable {resources resources' : Resources}

/-- The digest of a graph depends on the parts only. -/
lemma SameParts.compositeDigest (h : SameParts resources resources') (graphId : String)
    {embeddingProvider : Option String}
    (hprovider : ∀ provider ∈ embeddingProvider, ∀ other, provider ≠ graphAddress other)
    (externalBlobPolicy : ExternalBlobPolicy) :
    compositeDigest hasher resources' graphId embeddingProvider externalBlobPolicy =
      compositeDigest hasher resources graphId embeddingProvider externalBlobPolicy := by
  apply compositeDigest_congr
  · rw [digestAt, digestAt, h _ (schemaAddress_ne_graphAddress graphId)]
  · intro name
    rw [digestAt, digestAt, h _ fun other => query_ne_graphAddress graphId other name]
  · intro provider hmem
    rw [digestAt, digestAt, h _ (hprovider provider hmem)]

/-- The policy that is recorded of a declared graph: while its change is blocked, the one that
was recorded. -/
def settledPolicy (changes : List PlanChange) (resources : Resources) (graph : DesiredGraph) :
    ExternalBlobPolicy :=
  if graphChangeBlocked changes graph.id then stateGraphExternalBlobPolicy resources graph.id
  else graph.externalBlobPolicy

/-- The entry of a declared graph. -/
def graphEntry (changes : List PlanChange) (resources : Resources) (graph : DesiredGraph) :
    StateResource where
  digest := compositeDigest hasher resources graph.id graph.embeddingProvider
    (settledPolicy changes resources graph)
  embeddingProvider := graph.embeddingProvider
  externalBlobPolicy := persistedExternalBlobPolicy (settledPolicy changes resources graph)

variable {graph : DesiredGraph} {state : ClusterState} {graphs : List DesiredGraph}

lemma recomputeGraph_of_mem (h : graphAddress graph.id ∈ state.resources) :
    recomputeGraph hasher changes state graph = state.setResources (state.resources.insert
      (graphAddress graph.id) (graphEntry hasher changes state.resources graph)) :=
  if_neg (not_not.mpr h)

lemma recomputeGraph_of_not_mem (h : graphAddress graph.id ∉ state.resources) :
    recomputeGraph hasher changes state graph = state := if_pos h

lemma sameParts_recomputeGraph (changes : List PlanChange) (state : ClusterState)
    (graph : DesiredGraph) :
    SameParts state.resources (recomputeGraph hasher changes state graph).resources := by
  by_cases h : graphAddress graph.id ∈ state.resources
  · rw [recomputeGraph_of_mem hasher h]
    exact sameParts_insert _ _ _
  · rw [recomputeGraph_of_not_mem hasher h]
    exact .refl _

lemma lookup_recomputeGraph_ne (changes : List PlanChange) (state : ClusterState)
    (h : address ≠ graphAddress graph.id) :
    (recomputeGraph hasher changes state graph).resources.lookup address =
      state.resources.lookup address := by
  by_cases hmem : graphAddress graph.id ∈ state.resources
  · rw [recomputeGraph_of_mem hasher hmem]
    exact lookup_insert_ne _ _ h
  · rw [recomputeGraph_of_not_mem hasher hmem]

lemma lookup_recomputeGraphs_of_forall_ne (h : ∀ graph ∈ graphs, address ≠ graphAddress graph.id)
    (state : ClusterState) :
    (graphs.foldl (recomputeGraph hasher changes) state).resources.lookup address =
      state.resources.lookup address := by
  induction graphs generalizing state with
  | nil => rfl
  | cons graph graphs ih =>
    rw [foldl_cons, ih (fun g hg => h g (by simp [hg])),
      lookup_recomputeGraph_ne hasher changes state (h graph (by simp))]

lemma sameParts_recomputeGraphs (changes : List PlanChange) (graphs : List DesiredGraph)
    (state : ClusterState) :
    SameParts state.resources
      (graphs.foldl (recomputeGraph hasher changes) state).resources :=
  fun _ hne => lookup_recomputeGraphs_of_forall_ne hasher (fun graph _ => hne graph.id) state

/-- Only graphs that are recorded are computed. -/
lemma mem_recomputeGraphs :
    address ∈ (graphs.foldl (recomputeGraph hasher changes) state).resources ↔
      address ∈ state.resources := by
  induction graphs generalizing state with
  | nil => exact Iff.rfl
  | cons graph graphs ih =>
    rw [foldl_cons, ih]
    by_cases hmem : graphAddress graph.id ∈ state.resources
    · rw [recomputeGraph_of_mem hasher hmem]
      show address ∈ state.resources.insert _ _ ↔ _
      rw [mem_insert]
      exact or_iff_right_of_imp fun heq => heq ▸ hmem
    · rw [recomputeGraph_of_not_mem hasher hmem]

/-- The provider of a graph is not a graph. -/
def DesiredGraph.ProviderIsPart (graph : DesiredGraph) : Prop :=
  ∀ provider ∈ graph.embeddingProvider, ∀ other, provider ≠ graphAddress other

lemma graphEntry_congr (hprovider : graph.ProviderIsPart) (hparts : SameParts resources resources')
    (hself : resources'.lookup (graphAddress graph.id) = resources.lookup (graphAddress graph.id)) :
    graphEntry hasher changes resources' graph = graphEntry hasher changes resources graph := by
  have hpolicy : settledPolicy changes resources' graph =
      settledPolicy changes resources graph := by
    rw [settledPolicy, settledPolicy, stateGraphExternalBlobPolicy, stateGraphExternalBlobPolicy,
      hself]
  rw [graphEntry, graphEntry, hpolicy, hparts.compositeDigest hasher graph.id hprovider]

/-- The recomputed entry of a declared graph is that of its recorded parts. -/
lemma lookup_recomputeGraphs (hnodup : (graphs.map DesiredGraph.id).Nodup)
    (hprovider : ∀ g ∈ graphs, g.ProviderIsPart) (hgraph : graph ∈ graphs)
    (hmem : graphAddress graph.id ∈ state.resources) :
    (graphs.foldl (recomputeGraph hasher changes) state).resources.lookup
      (graphAddress graph.id) = some (graphEntry hasher changes state.resources graph) := by
  induction graphs generalizing state with
  | nil => cases hgraph
  | cons g graphs ih =>
    rw [map_cons, nodup_cons] at hnodup
    have hne : ∀ g' ∈ graphs, graphAddress g.id ≠ graphAddress g'.id := by
      intro g' hg' haddress
      have hid : g.id = g'.id := Prefixed.append_inj haddress
      exact hnodup.1 (hid ▸ List.mem_map_of_mem hg')
    rw [foldl_cons]
    rcases mem_cons.mp hgraph with rfl | hgraph
    · rw [lookup_recomputeGraphs_of_forall_ne hasher hne, recomputeGraph_of_mem hasher hmem]
      exact lookup_insert_self _ _ _
    · -- the entry of another graph is neither read nor changed
      have hself := lookup_recomputeGraph_ne hasher changes state (Ne.symm (hne graph hgraph))
      have hmem' : graphAddress graph.id ∈ (recomputeGraph hasher changes state g).resources := by
        rw [mem_iff_exists, hself]
        exact mem_iff_exists.mp hmem
      rw [ih hnodup.2 (fun g' hg' => hprovider g' (by simp [hg'])) hgraph hmem',
        graphEntry_congr hasher (hprovider graph (by simp [hgraph]))
          (sameParts_recomputeGraph hasher changes state g) hself]

/-- Entries that are as they are computed stay. -/
lemma recomputeGraphs_eq_self
    (h : ∀ graph ∈ graphs, graphAddress graph.id ∈ state.resources →
      state.resources.lookup (graphAddress graph.id) =
        some (graphEntry hasher changes state.resources graph)) :
    graphs.foldl (recomputeGraph hasher changes) state = state := by
  induction graphs with
  | nil => rfl
  | cons g graphs ih =>
    have hstep : recomputeGraph hasher changes state g = state := by
      by_cases hmem : graphAddress g.id ∈ state.resources
      · rw [recomputeGraph_of_mem hasher hmem, insert_eq_self (h g (by simp) hmem)]
        rfl
      · exact recomputeGraph_of_not_mem hasher hmem
    rw [foldl_cons, hstep, ih fun graph hgraph => h graph (by simp [hgraph])]

/-! ### The settled ledger -/

/-- The resources after the changes and the deletes, before the entries of graphs are computed. -/
def partsAfter (state : ClusterState) (changes : List PlanChange)
    (executed : List (String × Option String)) : ClusterState :=
  executed.foldl (recordDelete env) (changes.foldl (applyChange desired) state)

lemma settle_eq (state : ClusterState) (changes : List PlanChange)
    (executed : List (String × Option String)) :
    settle hasher env desired state changes executed =
      desired.graphs.foldl (recomputeGraph hasher changes)
        (partsAfter env desired state changes executed) := rfl

end Omnigraph.Cluster
