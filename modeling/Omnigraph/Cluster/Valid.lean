import Omnigraph.Cluster.Converge

/-!
# Valid ledgers

A ledger is valid if the digest of every recorded graph binds its entry and its parts. A command
that changes a part of a graph has to compute the entry of the graph again; the sweep does, and the
other commands do for the graphs that are declared.
-/

namespace Omnigraph.Cluster

open Option BTreeMap

variable {hasher : Hasher} {engine : Engine} {store : ClusterStore} {env : Env}
  {desired : DesiredCluster} {w : World}

/-! ### Parts -/

/-- The recorded graphs have ids without dots, and their providers are embedding providers. -/
structure Regular (resources : Resources) : Prop where
  graph_id : ∀ graphId, graphAddress graphId ∈ resources → '.' ∉ graphId.toList
  provider : ∀ graphId, ∀ entry ∈ resources.lookup (graphAddress graphId),
    ∀ provider ∈ entry.embeddingProvider, ∃ name, provider = embeddingProviderAddress name

variable {resources' : Resources} {name other : String}

lemma Regular.mono {resources : Resources} (h : Regular resources)
    (hsub : ∀ graphId, ∀ entry ∈ resources'.lookup (graphAddress graphId),
      ∃ entry' ∈ resources.lookup (graphAddress graphId),
        entry.embeddingProvider = entry'.embeddingProvider) : Regular resources' := by
  constructor
  · intro graphId hmem
    obtain ⟨entry, hentry⟩ := mem_iff_exists.mp hmem
    obtain ⟨entry', hentry', -⟩ := hsub graphId entry hentry
    exact h.graph_id graphId (mem_of_lookup hentry')
  · intro graphId entry hentry provider hprovider
    obtain ⟨entry', hentry', heq⟩ := hsub graphId entry hentry
    exact h.provider graphId entry' hentry' provider (heq ▸ hprovider)

/-- A graph stays bound if neither its entry nor a digest of its parts changes. -/
lemma Bound.congr {resources : Resources} {graphId : String} (h : Bound hasher resources graphId)
    (hentry : resources'.lookup (graphAddress graphId) = resources.lookup (graphAddress graphId))
    (hschema : digestAt resources' (schemaAddress graphId) =
      digestAt resources (schemaAddress graphId))
    (hquery : ∀ name, digestAt resources' (queryPrefix graphId ++ name) =
      digestAt resources (queryPrefix graphId ++ name))
    (hprovider : ∀ entry ∈ resources.lookup (graphAddress graphId),
      ∀ provider ∈ entry.embeddingProvider, digestAt resources' provider =
        digestAt resources provider) : Bound hasher resources' graphId := by
  intro entry hmem
  rw [hentry] at hmem
  rw [← h entry hmem]
  exact compositeDigest_congr hasher _ hschema hquery (hprovider entry hmem)

lemma bound_of_not_mem {resources : Resources} {graphId : String}
    (h : resources.lookup (graphAddress graphId) = none) : Bound hasher resources graphId := by
  intro entry hentry
  rw [h] at hentry
  cases hentry

lemma queryPrefix_inj {graphId name' : String} (hdot : '.' ∉ graphId.toList)
    (hdot' : '.' ∉ other.toList) (h : queryPrefix graphId ++ name = queryPrefix other ++ name') :
    graphId = other := by
  have hkind := congrArg resourceKind h
  change resourceKind (queryAddress graphId name) = resourceKind (queryAddress other name') at hkind
  rw [resourceKind_queryAddress hdot, resourceKind_queryAddress hdot'] at hkind
  cases hkind
  rfl

lemma schemaAddress_inj {graphId : String} (h : schemaAddress graphId = schemaAddress other) :
    graphId = other := Prefixed.append_inj h

lemma graphAddress_inj {graphId : String} (h : graphAddress graphId = graphAddress other) :
    graphId = other := Prefixed.append_inj h

lemma not_inSubtree_embeddingProviderAddress (graphId name : String) :
    ¬ InSubtree graphId (embeddingProviderAddress name) := by
  rintro (haddress | haddress | ⟨name', haddress⟩)
  · exact embeddingProviderAddress_ne_graphAddress _ _ haddress
  · simpa using congrArg resourceKind haddress
  · exact query_ne_embeddingProviderAddress _ _ _ haddress.symm

lemma inSubtree_graphAddress_iff {graphId : String} :
    InSubtree other (graphAddress graphId) ↔ graphId = other := by
  constructor
  · rintro (haddress | haddress | ⟨name, haddress⟩)
    · exact graphAddress_inj haddress
    · exact absurd haddress.symm (schemaAddress_ne_graphAddress _ _)
    · exact absurd haddress.symm (query_ne_graphAddress _ _ _)
  · rintro rfl
    exact .inl rfl

/-- The entry and the parts of a graph. -/
inductive IsPartOf (resources : Resources) (graphId : String) : String → Prop
  | self : IsPartOf resources graphId (graphAddress graphId)
  | schema : IsPartOf resources graphId (schemaAddress graphId)
  | query (name : String) : IsPartOf resources graphId (queryPrefix graphId ++ name)
  | provider (entry : StateResource) (hentry : entry ∈ resources.lookup (graphAddress graphId))
      (provider : String) (hprovider : provider ∈ entry.embeddingProvider) :
      IsPartOf resources graphId provider

/-- A graph stays bound if nothing changes at its parts. -/
lemma Bound.of_parts {resources : Resources} {graphId : String} (h : Bound hasher resources graphId)
    (hparts : ∀ address, IsPartOf resources graphId address →
      resources'.lookup address = resources.lookup address) : Bound hasher resources' graphId := by
  have hdigest : ∀ address, IsPartOf resources graphId address →
      digestAt resources' address = digestAt resources address := by
    intro address haddress
    rw [digestAt, digestAt, hparts address haddress]
  exact h.congr (hparts _ .self) (hdigest _ .schema) (fun name => hdigest _ (.query name))
    fun entry hentry provider hprovider => hdigest _ (.provider entry hentry provider hprovider)

variable {address : String}

/-- The parts of a graph are not in the subtree of another graph. -/
lemma Regular.not_inSubtree {resources : Resources} (h : Regular resources) {graphId : String}
    (hmem : graphAddress graphId ∈ resources) (hdot : '.' ∉ other.toList) (hne : graphId ≠ other)
    (hpart : IsPartOf resources graphId address) : ¬ InSubtree other address := by
  rcases hpart with _ | _ | ⟨name⟩ | ⟨entry, hentry, _, hprovider⟩
  · exact mt inSubtree_graphAddress_iff.mp hne
  · rintro (haddress | haddress | ⟨name, haddress⟩)
    · exact schemaAddress_ne_graphAddress _ _ haddress
    · exact hne (schemaAddress_inj haddress)
    · exact query_ne_schemaAddress _ _ _ haddress.symm
  · rintro (haddress | haddress | ⟨name', haddress⟩)
    · exact query_ne_graphAddress _ _ _ haddress
    · exact query_ne_schemaAddress _ _ _ haddress
    · exact hne (queryPrefix_inj (h.graph_id graphId hmem) hdot haddress)
  · obtain ⟨name, rfl⟩ := h.provider graphId entry hentry _ hprovider
    exact not_inSubtree_embeddingProviderAddress other name

/-- A valid ledger of the shape the commands write. -/
structure Sound (hasher : Hasher) (resources : Resources) : Prop where
  valid : Valid hasher resources
  regular : Regular resources

/-- Changing the subtree of one graph keeps another graph bound. -/
lemma Regular.bound_of_ne {resources : Resources} (h : Regular resources) {graphId : String}
    (hbound : Bound hasher resources graphId) (hdot : '.' ∉ other.toList) (hne : graphId ≠ other)
    (hsame : ∀ address, ¬ InSubtree other address →
      resources'.lookup address = resources.lookup address) : Bound hasher resources' graphId := by
  have hself : ¬ InSubtree other (graphAddress graphId) := mt inSubtree_graphAddress_iff.mp hne
  by_cases hmem : graphAddress graphId ∈ resources
  · apply hbound.of_parts
    intro address hpart
    exact hsame address (h.not_inSubtree hmem hdot hne hpart)
  · apply bound_of_not_mem
    rw [hsame _ hself]
    exact lookup_eq_none_iff.mpr hmem

/-! ### The sweep -/

section Sweep

variable {resources : Resources} {graphId : String}

lemma lookup_recordLiveSchema (digest : String) (h : ¬ InSubtree graphId address) :
    (recordLiveSchema hasher resources graphId digest).lookup address =
      resources.lookup address := by
  rw [InSubtree, not_or, not_or] at h
  rw [recordLiveSchema, lookup_insert_ne _ _ h.1, lookup_insert_ne _ _ h.2.1]

lemma stateGraphEmbeddingProvider_insert (entry : StateResource) :
    stateGraphEmbeddingProvider (resources.insert (schemaAddress graphId) entry) graphId =
      stateGraphEmbeddingProvider resources graphId := by
  rw [stateGraphEmbeddingProvider, stateGraphEmbeddingProvider,
    lookup_insert_ne _ _ (schemaAddress_ne_graphAddress graphId graphId).symm]

lemma Regular.provider_of_state (h : Regular resources) {provider : String}
    (hprovider : stateGraphEmbeddingProvider resources graphId = some provider) :
    ∃ name, provider = embeddingProviderAddress name := by
  obtain ⟨entry, hentry, hsome⟩ := bind_eq_some_iff.mp hprovider
  exact h.provider graphId entry hentry provider hsome

lemma lookup_recordLiveSchema_self (digest : String) :
    ∃ resources', SameParts resources' (recordLiveSchema hasher resources graphId digest) ∧
      stateGraphEmbeddingProvider resources' graphId =
        stateGraphEmbeddingProvider resources graphId ∧
      (recordLiveSchema hasher resources graphId digest).lookup (graphAddress graphId) = some
        { digest := compositeDigest hasher resources' graphId
            (stateGraphEmbeddingProvider resources' graphId)
            (stateGraphExternalBlobPolicy resources' graphId)
          embeddingProvider := stateGraphEmbeddingProvider resources' graphId
          externalBlobPolicy :=
            persistedExternalBlobPolicy (stateGraphExternalBlobPolicy resources' graphId) } :=
  ⟨resources.insert (schemaAddress graphId) { digest := digest }, sameParts_insert _ _ _,
    stateGraphEmbeddingProvider_insert _, lookup_insert_self _ _ _⟩

lemma lookup_recordLiveSchema_graph (digest : String) (h : other ≠ graphId) :
    (recordLiveSchema hasher resources graphId digest).lookup (graphAddress other) =
      resources.lookup (graphAddress other) := by
  exact lookup_recordLiveSchema digest (mt inSubtree_graphAddress_iff.mp h)

/-- The entry of the graph is computed from its parts. -/
lemma Regular.bound_recordLiveSchema (h : Regular resources) (digest : String) :
    Bound hasher (recordLiveSchema hasher resources graphId digest) graphId := by
  obtain ⟨resources', hparts, hprovider, hself⟩ :=
    @lookup_recordLiveSchema_self hasher resources graphId digest
  intro entry hentry
  rw [hself] at hentry
  cases hentry
  rw [expectedStateGraphResourceDigest, getD_persistedExternalBlobPolicy]
  refine hparts.compositeDigest hasher graphId ?_ _
  intro provider hmem other
  rw [hprovider] at hmem
  obtain ⟨name, rfl⟩ := h.provider_of_state hmem
  exact embeddingProviderAddress_ne_graphAddress other name

lemma Regular.recordLiveSchema (h : Regular resources) (hdot : '.' ∉ graphId.toList)
    (digest : String) : Regular (recordLiveSchema hasher resources graphId digest) := by
  obtain ⟨resources', -, hprovider, hself⟩ :=
    @lookup_recordLiveSchema_self hasher resources graphId digest
  refine ⟨fun other hmem => ?_, fun other entry hentry => ?_⟩
  · by_cases hother : other = graphId
    · rwa [hother]
    · rw [mem_iff_exists, lookup_recordLiveSchema_graph digest hother] at hmem
      exact h.graph_id other (mem_iff_exists.mpr hmem)
  · by_cases hother : other = graphId
    · rw [hother, hself] at hentry
      cases hentry
      intro provider hmem
      rw [hprovider] at hmem
      exact h.provider_of_state hmem
    · rw [lookup_recordLiveSchema_graph digest hother] at hentry
      exact h.provider other entry hentry

lemma sound_recordLiveSchema (h : Sound hasher resources) (hdot : '.' ∉ graphId.toList)
    (digest : String) : Sound hasher (recordLiveSchema hasher resources graphId digest) := by
  refine ⟨fun other => ?_, h.regular.recordLiveSchema hdot digest⟩
  by_cases hother : other = graphId
  · rw [hother]
    exact h.regular.bound_recordLiveSchema digest
  · exact h.regular.bound_of_ne (h.valid other) hdot hother fun _ => lookup_recordLiveSchema digest

lemma sound_tombstoneResources (h : Sound hasher resources) (hdot : '.' ∉ graphId.toList) :
    Sound hasher (tombstoneResources resources graphId) := by
  constructor
  · intro other
    by_cases hother : other = graphId
    · exact bound_of_not_mem (lookup_tombstoneResources_of_inSubtree (.inl (by rw [hother])) _)
    · exact h.regular.bound_of_ne (h.valid other) hdot hother fun _ hnot =>
        lookup_tombstoneResources_of_not_inSubtree hnot _
  · apply h.regular.mono
    intro other entry hentry
    refine ⟨entry, ?_, rfl⟩
    by_cases hin : InSubtree graphId (graphAddress other)
    · rw [lookup_tombstoneResources_of_inSubtree hin] at hentry
      cases hentry
    · rwa [lookup_tombstoneResources_of_not_inSubtree hin] at hentry

lemma sound_sweepSidecar {s : Sweep} (h : Sound hasher s.state.resources)
    {entry : String × RecoverySidecar} (hdot : '.' ∉ entry.2.graphId.toList) :
    Sound hasher (sweepSidecar hasher store env w s entry).state.resources := by
  rcases @sweepStep_sweepSidecar hasher _ _ _ s entry with
    ⟨-, -, -, hstate⟩ | ⟨_, -, -, -, -, -, -, hresources⟩ | ⟨-, -, -, -, -, -, hresources⟩ |
      ⟨-, -, -, hresources⟩
  · rwa [hstate]
  · rw [hresources]
    exact sound_recordLiveSchema h hdot _
  · rw [hresources]
    exact sound_tombstoneResources h hdot
  · rwa [hresources]

/-- The sidecars name graphs by ids without dots. -/
def RegularSidecars (w : World) : Prop :=
  ∀ entry ∈ w.sidecars.entries, '.' ∉ entry.2.graphId.toList

/-- The sweep keeps the ledger valid. -/
theorem sound_sweep {state : ClusterState} (h : Sound hasher state.resources)
    (hsidecars : RegularSidecars w) :
    Sound hasher (sweepRecoverySidecars hasher store env w state).state.resources := by
  have hfold : ∀ (entries : List (String × RecoverySidecar)) (s : Sweep),
      (∀ entry ∈ entries, '.' ∉ entry.2.graphId.toList) → Sound hasher s.state.resources →
        Sound hasher (entries.foldl (sweepSidecar hasher store env w) s).state.resources := by
    intro entries
    induction entries with
    | nil => exact fun s _ hs => hs
    | cons entry entries ih =>
      intro s hentries hs
      exact ih _ (fun e he => hentries e (by simp [he]))
        (sound_sweepSidecar hs (hentries entry (by simp)))
  refine hfold _ _ ?_ h
  unfold listRecoverySidecars
  split_ifs
  · exact hsidecars
  · exact fun entry hentry => absurd hentry List.not_mem_nil

end Sweep

/-! ### Refresh -/

section Refresh

variable {state : ClusterState}

lemma recordFinding_lookup (found : String × PayloadFinding) (address : String)
    (h : found.1 = address → found.2 = .readError) :
    (recordFinding state found).resources.lookup address = state.resources.lookup address := by
  unfold recordFinding
  cases hfinding : found.2 with
  | missing =>
    refine lookup_erase_ne _ fun heq => ?_
    cases (h heq.symm).symm.trans hfinding
  | mismatch =>
    refine lookup_erase_ne _ fun heq => ?_
    cases (h heq.symm).symm.trans hfinding
  | readError => rfl

lemma recordFindings_lookup {findings : List (String × PayloadFinding)}
    (h : ∀ found ∈ findings, found.1 = address → found.2 = .readError) :
    (findings.foldl recordFinding state).resources.lookup address =
      state.resources.lookup address := by
  induction findings generalizing state with
  | nil => rfl
  | cons found findings ih =>
    rw [List.foldl_cons, ih fun f hf => h f (by simp [hf]),
      recordFinding_lookup found address (h found (by simp))]

/-- Only queries and policies have payloads. -/
lemma payloadFinding_kind {entry : String × StateResource} {finding : PayloadFinding}
    (h : payloadFinding hasher env w entry = some finding) :
    (∃ graphId name, resourceKind entry.1 = .query graphId name) ∨
      ∃ name, resourceKind entry.1 = .policy name := by
  unfold payloadFinding payloadRelative at h
  cases hkind : resourceKind entry.1 with
  | query graphId name => exact .inl ⟨graphId, name, rfl⟩
  | policy name => exact .inr ⟨name, rfl⟩
  | graph _ | schema _ | embeddingProvider _ | unknown =>
    rw [hkind] at h
    cases h

lemma verifyCatalogPayloads_kind {found : String × PayloadFinding}
    (h : found ∈ verifyCatalogPayloads hasher env w state) :
    (∃ graphId name, resourceKind found.1 = .query graphId name) ∨
      ∃ name, resourceKind found.1 = .policy name := by
  obtain ⟨entry, -, hfound⟩ := List.mem_filterMap.mp h
  obtain ⟨finding, hfinding, rfl⟩ := map_eq_some_iff.mp hfound
  exact payloadFinding_kind hfinding

/-- A payload of a query of the graph is lost. -/
def LosesPayload (hasher : Hasher) (env : Env) (w : World) (state : ClusterState)
    (graphId : String) : Prop :=
  ∃ found ∈ verifyCatalogPayloads hasher env w state,
    found.2 ≠ .readError ∧ ∃ name, found.1 = queryPrefix graphId ++ name

/-- Every graph that loses a payload is declared, and looking at it does not fail. -/
def RefreshCovers (hasher : Hasher) (store : ClusterStore) (env : Env) (desired : DesiredCluster)
    (w : World) (state : ClusterState) : Prop :=
  ∀ graphId, graphAddress graphId ∈ state.resources → LosesPayload hasher env w state graphId →
    desired.Declares graphId ∧ observeGraph store env w graphId ≠ .failed

/-- The ledger without the lost payloads. -/
def dropped (hasher : Hasher) (env : Env) (w : World) (state : ClusterState) : ClusterState :=
  (verifyCatalogPayloads hasher env w state).foldl recordFinding state

lemma dropped_lookup_of_not_payload
    (hquery : ∀ graphId name, resourceKind address ≠ .query graphId name)
    (hpolicy : ∀ name, resourceKind address ≠ .policy name) :
    (dropped hasher env w state).resources.lookup address = state.resources.lookup address := by
  apply recordFindings_lookup
  rintro found hfound rfl
  rcases verifyCatalogPayloads_kind hfound with ⟨graphId, name, hkind⟩ | ⟨name, hkind⟩
  · exact absurd hkind (hquery graphId name)
  · exact absurd hkind (hpolicy name)

lemma dropped_lookup_graph (graphId : String) :
    (dropped hasher env w state).resources.lookup (graphAddress graphId) =
      state.resources.lookup (graphAddress graphId) := by
  apply dropped_lookup_of_not_payload <;> simp

lemma regular_dropped (h : Regular state.resources) :
    Regular (dropped hasher env w state).resources := by
  apply h.mono
  intro graphId entry hentry
  rw [dropped_lookup_graph] at hentry
  exact ⟨entry, hentry, rfl⟩

/-- A graph that loses no payload stays bound. -/
lemma bound_dropped (h : Sound hasher state.resources) {graphId : String}
    (hkeeps : ¬ LosesPayload hasher env w state graphId) :
    Bound hasher (dropped hasher env w state).resources graphId := by
  apply (h.valid graphId).of_parts
  rintro _ (_ | _ | ⟨name⟩ | ⟨entry, hentry, _, hprovider⟩)
  · exact dropped_lookup_graph graphId
  · apply dropped_lookup_of_not_payload <;> simp
  · apply recordFindings_lookup
    intro found hfound haddress
    by_contra hread
    exact hkeeps ⟨found, hfound, hread, name, haddress⟩
  · obtain ⟨name, rfl⟩ := h.regular.provider graphId entry hentry _ hprovider
    apply dropped_lookup_of_not_payload <;> simp

lemma resources_recordObserved (graph : DesiredGraph) (finding : GraphFinding) :
    (recordObserved hasher store env graph finding state).resources =
      observedResources hasher state.resources graph.id finding := by
  unfold recordObserved
  cases finding with
  | missing => rfl
  | failed => rfl
  | live source =>
    dsimp only
    split_ifs <;> rfl

/-- The graph is bound, or it is one of these and looking at it does not fail. -/
def BoundOr (hasher : Hasher) (store : ClusterStore) (env : Env) (w : World)
    (resources : Resources) (pending : List DesiredGraph) (graphId : String) : Prop :=
  Bound hasher resources graphId ∨
    (∃ graph ∈ pending, graph.id = graphId) ∧ observeGraph store env w graphId ≠ .failed

lemma observedResources_lookup {resources : Resources} {graphId : String}
    (h : ¬ InSubtree graphId address) (finding : GraphFinding) :
    (observedResources hasher resources graphId finding).lookup address =
      resources.lookup address := by
  cases finding with
  | missing =>
    rw [InSubtree, not_or, not_or] at h
    rw [observedResources, lookup_erase_ne _ h.2.1, lookup_erase_ne _ h.1]
  | live source => exact lookup_recordLiveSchema _ h
  | failed => rfl

lemma regular_observed {resources : Resources} (h : Regular resources) {graphId : String}
    (hdot : '.' ∉ graphId.toList) (finding : GraphFinding) :
    Regular (observedResources hasher resources graphId finding) := by
  cases finding with
  | missing =>
    apply h.mono
    intro other entry hentry
    refine ⟨entry, ?_, rfl⟩
    rw [observedResources, lookup_erase, lookup_erase] at hentry
    split_ifs at hentry with hschema hgraph
    · cases hentry
    · cases hentry
    · exact hentry
  | live source => exact h.recordLiveSchema hdot _
  | failed => exact h

/-- Looking at a graph leaves it bound unless that fails. -/
lemma bound_observed {resources : Resources} (h : Regular resources) {graphId : String}
    {finding : GraphFinding} (hfinding : finding ≠ .failed) :
    Bound hasher (observedResources hasher resources graphId finding) graphId := by
  cases finding with
  | missing =>
    apply bound_of_not_mem
    rw [observedResources, lookup_erase_ne _ (schemaAddress_ne_graphAddress _ _).symm,
      lookup_erase_self]
  | live source => exact h.bound_recordLiveSchema _
  | failed => exact absurd rfl hfinding

lemma boundOr_observe {resources : Resources} (h : Regular resources) {graph : DesiredGraph}
    (hdot : '.' ∉ graph.id.toList) {pending : List DesiredGraph} {graphId : String}
    (hbound : BoundOr hasher store env w resources (graph :: pending) graphId) :
    BoundOr hasher store env w
      (observedResources hasher resources graph.id (observeGraph store env w graph.id)) pending
      graphId := by
  by_cases hid : graphId = graph.id
  · subst hid
    by_cases hfailed : observeGraph store env w graph.id = .failed
    · rw [hfailed]
      exact .inl (hbound.resolve_right fun hpending => hpending.2 hfailed)
    · exact .inl (bound_observed h hfailed)
  · rcases hbound with hbound | ⟨⟨g, hg, hgid⟩, hfinding⟩
    · exact .inl (h.bound_of_ne hbound hdot hid fun _ hnot => observedResources_lookup hnot _)
    · rcases List.mem_cons.mp hg with rfl | hg
      · exact absurd hgid.symm hid
      · exact .inr ⟨⟨g, hg, hgid⟩, hfinding⟩

lemma sound_observe {graphs : List DesiredGraph} (hdot : ∀ graph ∈ graphs, '.' ∉ graph.id.toList)
    (h : Regular state.resources)
    (hbound : ∀ graphId, BoundOr hasher store env w state.resources graphs graphId) :
    Sound hasher (graphs.foldl (fun state graph =>
      recordObserved hasher store env graph (observeGraph store env w graph.id) state)
        state).resources := by
  induction graphs generalizing state with
  | nil =>
    refine ⟨fun graphId => (hbound graphId).resolve_right ?_, h⟩
    rintro ⟨⟨graph, hgraph, -⟩, -⟩
    cases hgraph
  | cons graph graphs ih =>
    rw [List.foldl_cons]
    apply ih (fun g hg => hdot g (by simp [hg]))
    · rw [resources_recordObserved]
      exact regular_observed h (hdot graph (by simp)) _
    · intro graphId
      rw [resources_recordObserved]
      exact boundOr_observe h (hdot graph (by simp)) (hbound graphId)

/-- A refresh that covers what it drops writes a valid ledger. -/
theorem sound_refreshed (hcoherent : Coherent hasher desired) {sweep : Sweep}
    (h : Sound hasher sweep.state.resources)
    (hcovers : RefreshCovers hasher store env desired w sweep.state) :
    Sound hasher (refreshed hasher store env desired w sweep).resources := by
  apply sound_observe
  · exact fun graph hgraph => hcoherent.graph_id graph.id ⟨graph, hgraph, rfl⟩
  · exact regular_dropped h.regular
  · intro graphId
    by_cases hloses : LosesPayload hasher env w sweep.state graphId
    · by_cases hmem : graphAddress graphId ∈ sweep.state.resources
      · exact .inr (hcovers graphId hmem hloses)
      · refine .inl (bound_of_not_mem ?_)
        exact (dropped_lookup_graph graphId).trans (lookup_eq_none_iff.mpr hmem)
    · exact .inl (bound_dropped h hloses)

end Refresh

/-! ### Apply -/

section Apply

variable {planned : Planned} {changes : List PlanChange} {deletes : Deletes} {u : World}

/-- The kinds of a graph, its schema and its queries. -/
def ResourceKind.OfGraph (graphId : String) (kind : ResourceKind) : Prop :=
  kind = .graph graphId ∨ kind = .schema graphId ∨ ∃ name, kind = .query graphId name

/-- What is deleted of a graph that is deleted rides on the approved delete of the graph. -/
lemma rides_of_applied {changes : List PlanChange} {dependencies : List Dependency}
    {pendingRecovery approved : List String} {change : PlanChange} {graphId : String}
    (hkind : (resourceKind change.resource).OfGraph graphId)
    (hdelete : change.operation = .delete)
    (hgraph : hasChange changes .delete (.graph graphId) = true)
    (happlied : (classifyChange changes dependencies pendingRecovery approved change).1 =
      .applied) : ridesApprovedDelete changes pendingRecovery approved graphId = true := by
  unfold classifyChange at happlied
  rcases hkind with hkind | hkind | ⟨name, hkind⟩
  · simp only [hkind, hdelete, classifyGraph] at happlied
    split_ifs at happlied with _ hrides
    exact hrides
  · simp only [hkind, hdelete, classifySchema, hgraph, if_true] at happlied
    split_ifs at happlied with hrides
    exact hrides
  · simp only [hkind, hdelete, classifyQuery, hgraph, if_true] at happlied
    split_ifs at happlied with hrides
    exact hrides

variable {change : PlanChange} {dependencies : List Dependency}

lemma classifyGraph_of_rides {changes : List PlanChange} {pendingRecovery approved : List String}
    {graphId : String}
    (hrides : ridesApprovedDelete changes pendingRecovery approved graphId = true)
    (hresource : resourceKind change.resource = .graph graphId)
    (hdelete : change.operation = .delete) :
    (classifyChange changes dependencies pendingRecovery approved change).1 = .applied := by
  have hpending : graphId ∉ pendingRecovery := by
    simp only [ridesApprovedDelete, Bool.and_eq_true, decide_eq_true_eq] at hrides
    exact hrides.2
  simp only [classifyChange, hresource, hdelete, classifyGraph, if_neg hpending, hrides, if_true]

lemma demoteReason_ofGraph {failed : FailedGraphs} {resource graphId : String}
    (hkind : (resourceKind resource).OfGraph graphId)
    (h : demoteReason failed dependencies resource = none) : graphId ∉ failed := by
  unfold demoteReason at h
  rcases hkind with hkind | hkind | ⟨name, hkind⟩
  · simpa only [hkind, map_eq_none_iff, lookup_eq_none_iff] using h
  · simpa only [hkind, map_eq_none_iff, lookup_eq_none_iff] using h
  · intro hmem
    simp [hkind, hmem, dependencyNotApplied] at h

variable (hprepared : Prepared hasher store env desired w planned)

variable (hmoved : Moved desired planned changes deletes w u)

include hmoved hprepared in
/-- A change that is still applied after the demotions was classified so. -/
lemma Moved.of_applied (hchange : change ∈ changes)
    (happlied : change.disposition = some .applied) :
    (∃ c ∈ planChanges desired planned.sweep.state, planned.classified desired c = change) ∧
      demoteReason deletes.moves.failed desired.dependencies change.resource = none := by
  obtain ⟨failed, -, hdemoted⟩ := hmoved.demoted
  rw [hdemoted] at hchange
  obtain ⟨change₁, hchange₁, rfl⟩ := List.mem_map.mp hchange
  obtain ⟨heq₁, hreason₁⟩ := demote_applied happlied
  rw [heq₁] at happlied ⊢
  obtain ⟨change₀, hchange₀, rfl⟩ := List.mem_map.mp hchange₁
  obtain ⟨heq₀, -⟩ := demote_applied happlied
  rw [heq₀] at hreason₁ ⊢
  rw [hprepared.changes_eq] at hchange₀
  obtain ⟨c, hc, rfl⟩ := List.mem_map.mp hchange₀
  exact ⟨⟨c, hc, rfl⟩, hreason₁⟩

include hmoved hprepared in
/-- A classified change that no failed graph demotes stays as it is. -/
lemma Moved.mem_of_classified {c : PlanChange} (hc : c ∈ planChanges desired planned.sweep.state)
    (hreason : ∀ failed : FailedGraphs, (∀ id ∈ failed, id ∈ deletes.moves.failed) →
      demoteReason failed desired.dependencies c.resource = none) :
    planned.classified desired c ∈ changes := by
  obtain ⟨failed, hfailed, hdemoted⟩ := hmoved.demoted
  have hkept : ∀ failed : FailedGraphs, (∀ id ∈ failed, id ∈ deletes.moves.failed) →
      Cluster.demote failed desired.dependencies (planned.classified desired c) =
        planned.classified desired c :=
    fun failed hfailed => demote_of_reason_eq_none (hreason failed hfailed)
  have hmem : planned.classified desired c ∈ planned.changes := by
    rw [hprepared.changes_eq]
    exact List.mem_map_of_mem hc
  rw [hdemoted, ← hkept _ fun _ h => h, ← hkept failed hfailed]
  exact List.mem_map_of_mem (List.mem_map_of_mem hmem)

include hmoved hprepared in
/-- The subtree of a graph is deleted with the graph only. -/
lemma Moved.executed_of_applied {graphId : String}
    (hrecorded : graphAddress graphId ∈ planned.sweep.state.resources)
    (hnot : graphAddress graphId ∉ desired.resourceDigests) (hchange : change ∈ changes)
    (happlied : change.disposition = some .applied) (hdelete : change.operation = .delete)
    (hkind : (resourceKind change.resource).OfGraph graphId) :
    graphId ∈ deletes.executed.map Prod.fst := by
  obtain ⟨⟨c, hc, rfl⟩, hreason⟩ := hmoved.of_applied hprepared hchange happlied
  -- the graph is recorded and not declared, so its delete is in the plan
  have hunsettled : ¬ AsDeclared desired planned.sweep.state.resources (graphAddress graphId) := by
    intro hdeclared
    have hdigest := hdeclared.digest
    rw [lookup_eq_none_iff.mpr hnot, digestAt, map_eq_none_iff,
      lookup_eq_none_iff] at hdigest
    exact hdigest hrecorded
  obtain ⟨d, hd, hresource⟩ := exists_change hunsettled
  have hd_delete : d.operation = .delete := by
    rw [(says_of_mem hd).delete_iff, hresource]
    exact hnot
  have hd_kind : resourceKind d.resource = .graph graphId := by
    rw [hresource, resourceKind_graphAddress]
  have hrides := @rides_of_applied _ desired.dependencies _ _ c graphId hkind hdelete
    (by simpa [hasChange] using ⟨d, hd, hd_delete, hd_kind⟩) (Option.some.inj happlied)
  have hunfailed := demoteReason_ofGraph hkind hreason
  refine (hmoved.executed_iff graphId).mpr ⟨planned.classified desired d,
    hmoved.mem_of_classified hprepared hd ?_, ?_, hd_delete, hresource⟩
  · intro failed hfailed
    rw [hresource]
    exact demoteReason_graph.mpr fun hmem => hunfailed (hfailed graphId hmem)
  · exact congrArg some (classifyGraph_of_rides hrides hd_kind hd_delete)

lemma PlanChange.outcome_of_not_applied (h : change.disposition ≠ some .applied)
    (entry : Option StateResource) : change.outcome desired entry = entry := by
  unfold PlanChange.outcome
  split
  · next hdisposition _ => exact absurd hdisposition h
  · next hdisposition _ => exact absurd hdisposition h
  · rfl

lemma ofGraph_of_inSubtree {graphId : String} (hdot : '.' ∉ graphId.toList)
    (h : InSubtree graphId address) : (resourceKind address).OfGraph graphId := by
  rcases h with rfl | rfl | ⟨name, rfl⟩
  · exact .inl resourceKind_graphAddress
  · exact .inr (.inl resourceKind_schemaAddress)
  · exact .inr (.inr ⟨name, resourceKind_queryAddress hdot⟩)

/-- What is deleted was recorded. -/
lemma PlanChange.Says.mem_of_delete {resources : Resources} (h : change.Says desired resources)
    (hdelete : change.operation = .delete) : change.resource ∈ resources := by
  by_contra hnot
  exact h.unsettled (asDeclared_of_none (lookup_eq_none_iff.mpr hnot)
    (h.delete_iff.mp hdelete))

variable (hcoherent : Coherent hasher desired)
  (hran : Ran hasher engine store env desired planned changes deletes w u)
  (hregular : Regular planned.sweep.state.resources)

include hran

/-- The change of an embedding provider is applied. -/
lemma applied_of_provider (hchange : change ∈ changes)
    (hresource : change.resource = embeddingProviderAddress name) :
    change.disposition = some .applied := by
  have hreason : ∀ failed, demoteReason failed desired.dependencies
      (embeddingProviderAddress name) = none := by
    intro failed
    simp only [demoteReason, resourceKind_embeddingProviderAddress]
  obtain ⟨failed, -, hdemoted⟩ := hran.moved.demoted
  rw [hdemoted] at hchange
  obtain ⟨change₁, hchange₁, rfl⟩ := List.mem_map.mp hchange
  obtain ⟨change₀, hchange₀, rfl⟩ := List.mem_map.mp hchange₁
  rw [resource_demote, resource_demote] at hresource
  have hkept : ∀ failed, Cluster.demote failed desired.dependencies change₀ = change₀ := by
    intro failed
    exact demote_of_reason_eq_none (by rw [hresource]; exact hreason failed)
  rw [hkept, hkept]
  rw [hran.prepared.changes_eq] at hchange₀
  obtain ⟨c, -, rfl⟩ := List.mem_map.mp hchange₀
  have hkind : resourceKind c.resource = .embeddingProvider name := by
    rw [show c.resource = embeddingProviderAddress name from hresource,
      resourceKind_embeddingProviderAddress]
  show some (classifyChange _ _ _ _ c).1 = _
  simp only [classifyChange, hkind]

/-- An embedding provider is recorded as it is declared. -/
lemma asDeclared_partsAfter_provider (name : String) :
    AsDeclared desired
      (partsAfter env desired planned.sweep.state changes deletes.executed).resources
      (embeddingProviderAddress name) := by
  have hplan := hran.moved.isPlan hran.prepared
  have hother : ∀ deleted ∈ deletes.executed,
      ¬ InSubtree deleted.1 (embeddingProviderAddress name) :=
    fun deleted _ => not_inSubtree_embeddingProviderAddress deleted.1 name
  refine asDeclared_congr (lookup_recordDeletes_of_not_inSubtree env hother _) ?_
  by_cases hchange : ∃ change ∈ changes, change.resource = embeddingProviderAddress name
  · obtain ⟨change, hmem, hresource⟩ := hchange
    rw [← hresource]
    exact asDeclared_of_applied (hplan.said change hmem) (applied_of_provider hran hmem hresource)
      (lookup_applyChanges desired hplan.nodup hmem _)
  · refine asDeclared_congr (lookup_applyChanges_of_forall_ne desired
      (fun change hmem hresource => hchange ⟨change, hmem, hresource⟩) _) ?_
    by_contra hnot
    exact hchange (hplan.covers _ hnot)

include hregular

/-- A graph that is removed has an id without dots. -/
lemma dot_of_executed {deleted : String × Option String} (h : deleted ∈ deletes.executed) :
    '.' ∉ deleted.1.toList := by
  obtain ⟨change, hchange, -, hdelete, hresource⟩ :=
    (hran.moved.executed_iff deleted.1).mp (List.mem_map_of_mem h)
  have hmem := ((hran.moved.isPlan hran.prepared).said change hchange).mem_of_delete hdelete
  rw [hresource] at hmem
  exact hregular.graph_id deleted.1 hmem

include hcoherent

/-- Nothing changes in the subtree of a graph that is neither declared nor removed. -/
lemma partsAfter_lookup_kept {graphId : String}
    (hrecorded : graphAddress graphId ∈ planned.sweep.state.resources)
    (hnot : ¬ desired.Declares graphId) (hkept : graphId ∉ deletes.executed.map Prod.fst)
    (hin : InSubtree graphId address) :
    (partsAfter env desired planned.sweep.state changes deletes.executed).resources.lookup address =
      planned.sweep.state.resources.lookup address := by
  have hdot := hregular.graph_id graphId hrecorded
  have hplan := hran.moved.isPlan hran.prepared
  have hother : ∀ deleted ∈ deletes.executed, ¬ InSubtree deleted.1 address := by
    intro deleted hdeleted hin'
    have hne : graphId ≠ deleted.1 := by
      rintro rfl
      exact hkept (List.mem_map_of_mem hdeleted)
    refine hregular.not_inSubtree hrecorded
      (dot_of_executed hran hregular hdeleted) hne ?_ hin'
    rcases hin with rfl | rfl | ⟨name, rfl⟩
    · exact .self
    · exact .schema
    · exact .query name
  rw [partsAfter, lookup_recordDeletes_of_not_inSubtree env hother]
  by_cases hchange : ∃ change ∈ changes, change.resource = address
  · obtain ⟨change, hmem, rfl⟩ := hchange
    rw [lookup_applyChanges desired hplan.nodup hmem]
    apply PlanChange.outcome_of_not_applied
    intro happlied
    have hdelete : change.operation = .delete :=
      (hplan.said change hmem).delete_iff.mpr (hcoherent.not_mem_of_inSubtree hnot hin)
    have hundeclared : graphAddress graphId ∉ desired.resourceDigests :=
      fun h => hnot ((hcoherent.graph_iff graphId).mp h)
    exact hkept (hran.moved.executed_of_applied hran.prepared hrecorded hundeclared hmem happlied
      hdelete (ofGraph_of_inSubtree hdot hin))
  · exact lookup_applyChanges_of_forall_ne desired
      (fun change hmem hresource => hchange ⟨change, hmem, hresource⟩) _

end Apply

/-- A graph that is neither declared nor removed by the run uses no provider that the run
changes. -/
def ApplyCovers (desired : DesiredCluster) (planned : Planned) (deletes : Deletes) : Prop :=
  ∀ graphId, ∀ entry ∈ planned.sweep.state.resources.lookup (graphAddress graphId),
    ¬ desired.Declares graphId → graphId ∉ deletes.executed.map Prod.fst →
      ∀ provider ∈ entry.embeddingProvider,
        digestAt planned.sweep.state.resources provider = desired.resourceDigests.lookup provider

section Settle

variable {planned : Planned} {changes : List PlanChange} {deletes : Deletes} {u : World}

lemma lookup_settle_graph {graphId : String} (hnot : ¬ desired.Declares graphId) :
    (settle hasher env desired planned.sweep.state changes deletes.executed).resources.lookup
      (graphAddress graphId) =
        (partsAfter env desired planned.sweep.state changes deletes.executed).resources.lookup
          (graphAddress graphId) := by
  apply lookup_settle_of_not_declared
  intro other hother heq
  exact hnot (graphAddress_inj heq ▸ hother)

variable (hcoherent : Coherent hasher desired)
  (hran : Ran hasher engine store env desired planned changes deletes w u)

include hcoherent hran

/-- What is recorded of a graph that is not declared was recorded before. -/
lemma settle_lookup_undeclared {graphId : String} (hnot : ¬ desired.Declares graphId)
    {entry : StateResource}
    (hentry : (settle hasher env desired planned.sweep.state changes
      deletes.executed).resources.lookup (graphAddress graphId) = some entry) :
    graphId ∉ deletes.executed.map Prod.fst ∧
      planned.sweep.state.resources.lookup (graphAddress graphId) = some entry := by
  rw [lookup_settle_graph hnot] at hentry
  have hkept : graphId ∉ deletes.executed.map Prod.fst := by
    intro hmem
    obtain ⟨deleted, hdeleted, rfl⟩ := List.mem_map.mp hmem
    have hnone : (partsAfter env desired planned.sweep.state changes
        deletes.executed).resources.lookup (graphAddress deleted.1) = none :=
      lookup_recordDeletes_of_inSubtree env hdeleted (.inl rfl) _
    rw [hnone] at hentry
    cases hentry
  refine ⟨hkept, ?_⟩
  have hplan := hran.moved.isPlan hran.prepared
  have hother : ∀ deleted ∈ deletes.executed,
      ¬ InSubtree deleted.1 (graphAddress graphId) := by
    intro deleted hdeleted hin
    exact hkept (inSubtree_graphAddress_iff.mp hin ▸ List.mem_map_of_mem hdeleted)
  rw [partsAfter, lookup_recordDeletes_of_not_inSubtree env hother] at hentry
  by_cases hchange : ∃ change ∈ changes, change.resource = graphAddress graphId
  · obtain ⟨change, hmem, hresource⟩ := hchange
    have hdelete : change.operation = .delete := by
      rw [(hplan.said change hmem).delete_iff, hresource, hcoherent.graph_iff]
      exact hnot
    -- a delete that is applied removes the graph
    have hunapplied : change.disposition ≠ some .applied := fun happlied =>
      hkept ((hran.moved.executed_iff graphId).mpr ⟨change, hmem, happlied, hdelete, hresource⟩)
    rwa [← hresource, lookup_applyChanges desired hplan.nodup hmem,
      PlanChange.outcome_of_not_applied hunapplied, hresource] at hentry
  · rwa [lookup_applyChanges_of_forall_ne desired
      fun change hmem hresource => hchange ⟨change, hmem, hresource⟩] at hentry

variable (hsound : Sound hasher planned.sweep.state.resources)

include hsound

/-- An apply that covers the graphs it keeps writes a valid ledger. -/
theorem sound_settle (hcovers : ApplyCovers desired planned deletes) :
    Sound hasher
      (settle hasher env desired planned.sweep.state changes deletes.executed).resources := by
  have hparts : SameParts
      (partsAfter env desired planned.sweep.state changes deletes.executed).resources
      (settle hasher env desired planned.sweep.state changes deletes.executed).resources :=
    sameParts_recomputeGraphs hasher _ _ _
  have hdeclared : ∀ graph ∈ desired.graphs, ∀ entry ∈ (settle hasher env desired
      planned.sweep.state changes deletes.executed).resources.lookup (graphAddress graph.id),
      entry = graphEntry hasher changes (partsAfter env desired planned.sweep.state changes
        deletes.executed).resources graph := by
    intro graph hgraph entry hentry
    by_cases hmem : graphAddress graph.id ∈ (partsAfter env desired planned.sweep.state changes
        deletes.executed).resources
    · rw [lookup_settle hcoherent hgraph hmem] at hentry
      exact (Option.some.inj hentry).symm
    · have hsettled := mem_of_lookup hentry
      exact absurd ((mem_recomputeGraphs hasher).mp hsettled) hmem
  -- a declared graph was computed again, another one is as it was with all its parts
  refine ⟨fun graphId => ?_, fun graphId hmem => ?_, fun graphId entry hentry => ?_⟩
  · by_cases hdecl : desired.Declares graphId
    · obtain ⟨graph, hgraph, rfl⟩ := hdecl
      intro entry hentry
      rw [hdeclared graph hgraph entry hentry, expectedStateGraphResourceDigest, graphEntry,
        getD_persistedExternalBlobPolicy]
      exact hparts.compositeDigest hasher graph.id (hcoherent.providerIsPart hgraph) _
    · intro entry hentry
      obtain ⟨hkept, hold⟩ := settle_lookup_undeclared hcoherent hran hdecl hentry
      have hrecorded := mem_of_lookup hold
      have hsame : ∀ address, InSubtree graphId address →
          (∀ other, desired.Declares other → address ≠ graphAddress other) →
          digestAt (settle hasher env desired planned.sweep.state changes
            deletes.executed).resources address =
              digestAt planned.sweep.state.resources address := by
        intro address hin hne
        rw [digestAt, digestAt, lookup_settle_of_not_declared hne,
          partsAfter_lookup_kept hcoherent hran hsound.regular hrecorded hdecl hkept hin]
      refine (hsound.valid graphId).congr (hentry.trans hold.symm)
        (hsame _ (.inr (.inl rfl)) fun _ _ => schemaAddress_ne_graphAddress _ _)
        (fun name => hsame _ (.inr (.inr ⟨name, rfl⟩)) fun _ _ => query_ne_graphAddress _ _ _)
        ?_ entry hentry
      intro entry' hentry' provider hprovider
      obtain ⟨name, rfl⟩ := hsound.regular.provider graphId entry' hentry' provider hprovider
      rw [hcovers graphId entry' hentry' hdecl hkept _ hprovider,
        ← (asDeclared_partsAfter_provider hran name).digest, digestAt, digestAt,
        hparts _ fun _ => embeddingProviderAddress_ne_graphAddress _ _]
  · by_cases hdecl : desired.Declares graphId
    · exact hcoherent.graph_id graphId hdecl
    · obtain ⟨entry, hentry⟩ := mem_iff_exists.mp hmem
      exact hsound.regular.graph_id graphId (mem_of_lookup
        (settle_lookup_undeclared hcoherent hran hdecl hentry).2)
  · by_cases hdecl : desired.Declares graphId
    · obtain ⟨graph, hgraph, rfl⟩ := hdecl
      intro provider hprovider
      rw [hdeclared graph hgraph entry hentry] at hprovider
      obtain ⟨name, hname, -⟩ := hcoherent.provider graph hgraph provider hprovider
      exact ⟨name, hname⟩
    · exact hsound.regular.provider graphId entry
        (settle_lookup_undeclared hcoherent hran hdecl hentry).2

end Settle

/-! ### Runs of commands -/

section Runs

open Durable

/-- The ledger is the old one, or the one a refresh computes. -/
def Refreshed (hasher : Hasher) (store : ClusterStore) (env : Env) (desired : DesiredCluster)
    (w t : World) : Prop :=
  t.ledger = w.ledger ∨ ∃ state, syncedState hasher env desired .refresh w = .ok state ∧
    t.ledger = some (nextRevision .refresh (refreshed hasher store env desired w
      (sweepRecoverySidecars hasher store env w state)))

lemma finishSync_wp (sweep : Sweep) (diagnostics : List Diagnostic) (next : ClusterState)
    (w : World) : (finishSync env sweep diagnostics next).wp
      (fun t => t.ledger = some next)
      (fun _ t => t.ledger = w.ledger ∨ t.ledger = some next) w := by
  unfold finishSync
  split
  · rw [wp_bind, wp_write, then_ok, wp_bind]
    have hcleaned : ∀ t, Cleaned sweep.completedSidecars { w with ledger := some next } t →
        t.ledger = some next := by
      intro t ht
      rw [ht.only]
    refine ⟨rfl, wp_mono (cleanSidecars_wp sweep.completedSidecars _) hcleaned ?_⟩
    rintro r t ⟨rfl, ht, -⟩
    have hmarked : ∀ u, OnlyApprovals t u → u.ledger = some next := by
      intro u hu
      rw [hu]
      exact hcleaned t ht
    rw [then_ok, wp_bind]
    refine wp_mono (onlyApprovals_markApprovalsConsumed sweep.consumedApprovals t) hmarked ?_
    rintro r u ⟨⟨_, rfl⟩, hu⟩
    rw [then_ok, wp_pure]
    exact .inr (hmarked u hu)
  · rw [wp_pure]
    exact .inl rfl

lemma refresh_wp (w : World) : (syncConfigDir hasher store env desired .refresh).wp
    (Refreshed hasher store env desired w) (fun _ => Refreshed hasher store env desired w) w := by
  rw [syncConfigDir, wp_bind, wp_read]
  cases hstate : syncedState hasher env desired .refresh w with
  | error output => exact .inl rfl
  | ok state =>
    rw [then_ok, wp_bind, wp_read, then_ok]
    refine wp_mono (finishSync_wp _ _ _ w) ?_ ?_
    · intro t ht
      exact .inr ⟨state, hstate, ht⟩
    · rintro r t (ht | ht)
      · exact .inl ht
      · exact .inr ⟨state, hstate, ht⟩

/-- A refresh or an apply under some configuration, or anything else that happens to the store
between them. -/
inductive LedgerCommand
  | refresh (env : Env) (loader : Loader) (raw : RawClusterConfig)
  | apply (env : Env) (loader : Loader) (raw : RawClusterConfig)
  | outside

namespace LedgerCommand

/-- What a command, stopped anywhere, leaves. The configurations have no errors. -/
def Leaves (hasher : Hasher) (engine : Engine) (store : ClusterStore) (w : World) :
    LedgerCommand → World → Prop
  | refresh env loader raw, t => hasErrors (loadDesired hasher loader raw).2 = false ∧
      Durable.Leaves (syncConfigDir hasher store env (loadDesired hasher loader raw).1 .refresh) w t
  | apply env loader raw, t => hasErrors (loadDesired hasher loader raw).2 = false ∧
      Durable.Leaves (applyConfigDir hasher engine store env (loadDesired hasher loader raw).1) w t
  | outside, t => t.ledger = w.ledger

/-- A refresh drops no payload of a graph that it does not compute again, and an apply changes no
provider of a graph that it does not compute again. -/
def Covers (hasher : Hasher) (engine : Engine) (store : ClusterStore) (w : World) :
    LedgerCommand → Prop
  | refresh env loader raw => RegularSidecars w ∧ ∀ state,
      syncedState hasher env (loadDesired hasher loader raw).1 .refresh w = .ok state →
        RefreshCovers hasher store env (loadDesired hasher loader raw).1 w
          (sweepRecoverySidecars hasher store env w state).state
  | apply env loader raw => RegularSidecars w ∧ ∀ planned moved,
      (prepareApply hasher store env (loadDesired hasher loader raw).1 w).result = .ok planned →
      (moveGraphs hasher engine store env (loadDesired hasher loader raw).1 planned w).result =
        .ok moved → ApplyCovers (loadDesired hasher loader raw).1 planned moved.2
  | outside => True

end LedgerCommand

/-- The worlds that commands lead to, each of which covers what it changes. -/
inductive LedgerRun (hasher : Hasher) (engine : Engine) (store : ClusterStore) (start : World) :
    World → Prop
  | start : LedgerRun hasher engine store start start
  | step {w t : World} (command : LedgerCommand) (run : LedgerRun hasher engine store start w)
      (covers : command.Covers hasher engine store w)
      (leaves : command.Leaves hasher engine store w t) : LedgerRun hasher engine store start t

/-- The ledger of a world is valid and has the shape the commands write. -/
def SoundWorld (hasher : Hasher) (w : World) : Prop :=
  ∀ state ∈ w.ledger, Sound hasher state.resources

variable {t : World}

lemma soundWorld_of_ledger_eq {w : World} (h : SoundWorld hasher w) (heq : t.ledger = w.ledger) :
    SoundWorld hasher t := by
  intro state hstate
  rw [heq] at hstate
  exact h state hstate

lemma syncedState_ledger {state : ClusterState}
    (h : syncedState hasher env desired .refresh w = .ok state) : w.ledger = some state := by
  unfold syncedState at h
  split_ifs at h
  split at h
  · next hledger =>
    split_ifs at h
    cases h
    exact hledger
  · cases h
  · next hoperation _ => cases hoperation
  · next hoperation _ => cases hoperation

lemma soundWorld_refreshed (hcoherent : Coherent hasher desired) (h : SoundWorld hasher w)
    (hsidecars : RegularSidecars w)
    (hcovers : ∀ state, syncedState hasher env desired .refresh w = .ok state →
      RefreshCovers hasher store env desired w
        (sweepRecoverySidecars hasher store env w state).state)
    (ht : Refreshed hasher store env desired w t) : SoundWorld hasher t := by
  rcases ht with heq | ⟨state, hstate, hledger⟩
  · exact soundWorld_of_ledger_eq h heq
  · intro state' hstate'
    rw [hledger] at hstate'
    cases hstate'
    exact sound_refreshed hcoherent
      (sound_sweep (h state (syncedState_ledger hstate)) hsidecars) (hcovers state hstate)

lemma soundWorld_rewritten (hcoherent : Coherent hasher desired) (h : SoundWorld hasher w)
    (hsidecars : RegularSidecars w)
    (hcovers : ∀ planned moved, (prepareApply hasher store env desired w).result = .ok planned →
      (moveGraphs hasher engine store env desired planned w).result = .ok moved →
        ApplyCovers desired planned moved.2)
    (ht : t.ledger = w.ledger ∨ Rewritten hasher engine store env desired w t) :
    SoundWorld hasher t := by
  rcases ht with heq | ⟨planned, changes, deletes, u, hran, revision, hledger⟩
  · exact soundWorld_of_ledger_eq h heq
  · intro state' hstate'
    have hswept : Sound hasher planned.sweep.state.resources := by
      rw [hran.prepared.sweep]
      exact sound_sweep (h planned.before hran.prepared.ledger) hsidecars
    have hsettled := sound_settle hcoherent hran hswept
      (hcovers planned _ hran.planned_eq hran.moved_eq)
    rw [hledger] at hstate'
    cases hstate'
    show Sound hasher (settled hasher env desired planned changes deletes).1.resources
    rw [settled, converge]
    split_ifs
    · exact hsettled
    · exact hsettled

/-- Every ledger that is written is valid, as long as the commands cover what they change. -/
theorem ledger_stays_valid {start : World} (hstart : SoundWorld hasher start) {w : World}
    (hrun : LedgerRun hasher engine store start w) {state : ClusterState}
    (hstate : w.ledger = some state) : Valid hasher state.resources := by
  have hsound : SoundWorld hasher w := by
    clear hstate
    induction hrun with
    | start => exact hstart
    | @step w t command run covers leaves ih =>
      cases command with
      | refresh env loader raw =>
        obtain ⟨hclean, hleaves⟩ := leaves
        exact soundWorld_refreshed (coherent_of_clean hclean) ih covers.1 covers.2
          (hleaves.of_wp (refresh_wp w) (.inl rfl))
      | apply env loader raw =>
        obtain ⟨hclean, hleaves⟩ := leaves
        have hwp := wp_mono (@applyConfigDir_wp hasher engine store env
          (loadDesired hasher loader raw).1 w)
          (fun _ h => h) fun _ _ h => h.1
        exact soundWorld_rewritten (coherent_of_clean hclean) ih covers.1 covers.2
          (hleaves.of_wp hwp (Or.inl rfl))
      | outside => exact soundWorld_of_ledger_eq ih leaves
  exact (hsound state hstate).valid

/-- A ledger with a graph, and the digest that binds it. -/
def recordedGraph (graphId : String) (embeddingProvider : Option String) (parts : Resources) :
    ClusterState :=
  emptyState.setResources (parts.insert (graphAddress graphId)
    { digest := compositeDigest plainHasher parts graphId embeddingProvider .deny
      embeddingProvider := embeddingProvider })

/-- A graph with a query whose payload is not in the catalog. -/
def lostPayload : World :=
  { emptyWorld with ledger := some (recordedGraph "g" none
      (((∅ : Resources).insert "schema.g" { digest := "g.pg" }).insert "query.g.q"
        { digest := "q.gq" })) }

def ledgerAccepted (w : World) : Bool :=
  w.ledger.any fun state => validateStateGraphResourceDigests plainHasher state = []

lemma ledgerAccepted_iff {w : World} : ledgerAccepted w = true ↔
    ∃ state, w.ledger = some state ∧ Valid plainHasher state.resources := by
  simp only [ledgerAccepted, Option.any_eq_true, decide_eq_true_eq, validate_eq_nil_iff]

lemma graphId_of_recorded {graphId : String}
    (h : graphAddress graphId ∈ (recordedGraph "g" none (((∅ : Resources).insert "schema.g"
      { digest := "g.pg" }).insert "query.g.q" { digest := "q.gq" })).resources) :
    graphId = "g" := by
  rcases mem_insert.mp h with h | h
  · exact graphAddress_inj h
  · rcases mem_insert.mp h with h | h
    · exact absurd h.symm (query_ne_graphAddress "g" graphId "q")
    · rcases mem_insert.mp h with h | h
      · exact absurd h.symm (schemaAddress_ne_graphAddress "g" graphId)
      · cases h

/-- A refresh drops the payload of a graph that is declared, and binds the graph again. -/
theorem ledger_stays_valid_one_graph : ∃ state,
    (syncConfigDir plainHasher localStore plainEnv
      (loadDesired plainHasher plainLoader (configOf [plainGraph "g"])).1 .refresh
        lostPayload).final.ledger = some state ∧
      "query.g.q" ∉ state.resources ∧ Valid plainHasher state.resources := by
  have hwritten : ((syncConfigDir plainHasher localStore plainEnv
      (loadDesired plainHasher plainLoader (configOf [plainGraph "g"])).1 .refresh
      lostPayload).final.ledger).any (fun state => "query.g.q" ∉ state.resources) = true := by
    decide +kernel
  obtain ⟨state, hstate, hdropped⟩ := (any_eq_true _ _).mp hwritten
  have hstart : SoundWorld plainHasher lostPayload := by
    rintro _ ⟨⟩
    refine ⟨?_, fun graphId hmem => ?_, fun graphId entry hentry => ?_⟩
    · obtain ⟨_, ⟨⟩, hvalid⟩ := ledgerAccepted_iff.mp
        (by decide +kernel : ledgerAccepted lostPayload = true)
      exact hvalid
    · rw [graphId_of_recorded hmem]
      decide
    · cases graphId_of_recorded (mem_of_lookup hentry)
      cases hentry
      rintro _ ⟨⟩
  have hcovers : LedgerCommand.Covers plainHasher plainEngine localStore lostPayload
      (.refresh plainEnv plainLoader (configOf [plainGraph "g"])) := by
    refine ⟨fun _ hmem => absurd hmem List.not_mem_nil, fun state hsynced graphId hmem _ => ?_⟩
    cases syncedState_ledger hsynced
    rw [graphId_of_recorded hmem]
    refine ⟨?_, fun h => ?_⟩
    · unfold DesiredCluster.Declares
      decide +kernel
    · cases h
  have hrun : LedgerRun plainHasher plainEngine localStore lostPayload
      (syncConfigDir plainHasher localStore plainEnv
        (loadDesired plainHasher plainLoader (configOf [plainGraph "g"])).1 .refresh
        lostPayload).final :=
    .step _ .start hcovers ⟨by decide +kernel, .inr (.inr rfl)⟩
  exact ⟨state, hstate, of_decide_eq_true hdropped, ledger_stays_valid hstart hrun hstate⟩

/-- A graph with an embedding provider. -/
def usedProvider : World :=
  { emptyWorld with ledger := some (recordedGraph "g" (some "provider.embedding.p")
      (((∅ : Resources).insert "schema.g" { digest := "g.pg" }).insert "provider.embedding.p"
        { digest := "p" })) }

/-- A refresh drops the query of a graph that is not declared any more, and an apply drops the
provider of a graph whose delete is not approved. Both write a ledger that is refused. -/
theorem ledger_not_always_valid :
    (∃ state, lostPayload.ledger = some state ∧ Valid plainHasher state.resources) ∧
    (¬ ∃ state, (syncConfigDir plainHasher localStore plainEnv
      (loadDesired plainHasher plainLoader (configOf [])).1 .refresh lostPayload).final.ledger =
        some state ∧ Valid plainHasher state.resources) ∧
    (∃ state, usedProvider.ledger = some state ∧ Valid plainHasher state.resources) ∧
    ¬ ∃ state, (applyConfigDir plainHasher plainEngine localStore plainEnv
      (loadDesired plainHasher plainLoader (configOf [])).1 usedProvider).final.ledger =
        some state ∧ Valid plainHasher state.resources := by
  simp only [← ledgerAccepted_iff]
  decide +kernel

end Runs

end Omnigraph.Cluster
