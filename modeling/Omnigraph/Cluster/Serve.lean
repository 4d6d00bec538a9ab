import Omnigraph.Cluster.Valid

/-!
# The serving snapshot

A server boots from the ledger and the catalog: the graphs that are recorded, each with its
embedding profile and its external Blob policy, their queries, and the policies with what they are
bound to. A graph with a sidecar is left out.
-/

namespace Omnigraph.Cluster

open List Option

variable (hasher : Hasher) (store : ClusterStore) (env : Env)

structure ServingGraph where
  graphId : String
  root : String
  embedding : Option EmbeddingProviderConfig
  externalBlobPolicy : ExternalBlobPolicy

structure ServingQuery where
  graphId : String
  name : String
  source : String

structure ServingPolicy where
  name : String
  source : String
  appliesTo : List String

structure ServingSnapshot where
  graphs : List ServingGraph
  queries : List ServingQuery
  policies : List ServingPolicy
  diagnostics : List Diagnostic

/-! ### Graphs -/

/-- The profile of an embedding provider, if its recorded digest binds it. -/
def servingProfile (resources : Resources) (address : String) : Option EmbeddingProviderConfig :=
  (resources.lookup address).bind fun entry => entry.embeddingProfile.filter fun profile =>
    embeddingProviderDigest hasher profile = entry.digest

/-- The profile of the provider of a graph. -/
def servingEmbedding (resources : Resources) (address : String) (entry : StateResource) :
    Except Diagnostic (Option EmbeddingProviderConfig) :=
  match entry.embeddingProvider with
  | none => .ok none
  | some provider => match resourceKind provider with
    | .embeddingProvider _ => match servingProfile hasher resources provider with
      | some profile => .ok (some profile)
      | none => .error (.error "embedding_provider_missing" address)
    | _ => .error (.error "wrong_kind_reference" address)

def servingExternalBlobPolicy (entry : StateResource) : ExternalBlobPolicy :=
  entry.externalBlobPolicy.getD .deny

/-- The graph under an address, and what is wrong with it. -/
def servingGraph (resources : Resources) (quarantined : List String)
    (e : String × StateResource) : Option ServingGraph × List Diagnostic :=
  match resourceKind e.1 with
  | .graph graphId =>
    if graphId ∈ quarantined then (none, [])
    else
      let embedding := servingEmbedding hasher resources e.1 e.2
      let wrong := match embedding with
        | .error diagnostic => [diagnostic]
        | .ok _ => []
      if expectedStateGraphResourceDigest hasher resources graphId e.2 ≠ e.2.digest then
        (none, wrong ++ [.error "external_blob_policy_digest_mismatch" e.1])
      else (some ⟨graphId, store.graphRoot graphId, embedding.toOption.join,
        servingExternalBlobPolicy e.2⟩, wrong)
  | _ => (none, [])

/-- The providers that graphs use. -/
def requiredProviders (resources : Resources) (quarantined : List String) : List String :=
  resources.entries.filterMap fun e => match resourceKind e.1 with
    | .graph graphId => if graphId ∈ quarantined then none else e.2.embeddingProvider
    | _ => none

def profileDiagnostics (resources : Resources) (quarantined : List String)
    (e : String × StateResource) : List Diagnostic :=
  match resourceKind e.1 with
  | .embeddingProvider _ =>
    if e.1 ∉ requiredProviders resources quarantined then []
    else match e.2.embeddingProfile with
      | none => [.error "embedding_provider_profile_missing" e.1]
      | some profile =>
        if embeddingProviderDigest hasher profile ≠ e.2.digest then
          [.error "embedding_provider_digest_mismatch" e.1]
        else []
  | _ => []

/-! ### Payloads -/

def readVerifiedPayload (w : World) (e : String × StateResource) : Except Diagnostic String :=
  match payloadRelative (resourceKind e.1) e.2.digest with
  | none => .error (.error "catalog_payload_missing" e.1)
  | some path =>
    if env.ok (.readPayload e.1) = false then .error (.error "catalog_payload_missing" e.1)
    else match w.payloads.lookup path with
      | none => .error (.error "catalog_payload_missing" e.1)
      | some text =>
        if hasher.sha256Hex text ≠ e.2.digest then
          .error (.error "catalog_payload_digest_mismatch" e.1)
        else .ok text

def servingQuery (w : World) (quarantined : List String) (e : String × StateResource) :
    Except Diagnostic (Option ServingQuery) :=
  match resourceKind e.1 with
  | .query graphId name =>
    if graphId ∈ quarantined then .ok none
    else (readVerifiedPayload hasher env w e).map fun source => some ⟨graphId, name, source⟩
  | _ => .ok none

/-- The bindings of a policy to graphs that are served, and to the cluster. -/
def servingBindings (quarantined : List String) (appliesTo : List String) : List String :=
  appliesTo.filter fun binding =>
    (Prefixed.strip "graph." binding).all fun graphId => graphId ∉ quarantined

def servingPolicy (w : World) (quarantined : List String) (e : String × StateResource) :
    Except Diagnostic (Option ServingPolicy) :=
  match resourceKind e.1 with
  | .policy name => match e.2.appliesTo with
    | none => .error (.error "policy_bindings_missing" e.1)
    | some appliesTo =>
      if servingBindings quarantined appliesTo = [] then .ok none
      else (readVerifiedPayload hasher env w e).map fun source =>
        some ⟨name, source, servingBindings quarantined appliesTo⟩
  | _ => .ok none

/-! ### The snapshot -/

def exceptErrors {α : Type} (results : List (Except Diagnostic α)) : List Diagnostic :=
  results.filterMap fun
    | .error diagnostic => some diagnostic
    | .ok _ => none

def exceptValues {α : Type} (results : List (Except Diagnostic (Option α))) : List α :=
  results.filterMap fun
    | .error _ => none
    | .ok value => value

/-- The graphs with a sidecar, and the errors about sidecars. -/
def quarantinedGraphs (w : World) : List String × List Diagnostic :=
  let listed := listRecoverySidecars env w
  let attributed := listed.1.filter fun entry => !entry.2.graphId.toList.all Schema.isWhiteSpace
  let unattributed := listed.1.filter fun entry => entry.2.graphId.toList.all Schema.isWhiteSpace
  (attributed.map fun entry => entry.2.graphId,
    listed.2.map (fun diagnostic => { diagnostic with severity := .error }) ++
      unattributed.map fun entry => .error "cluster_recovery_unattributed" entry.1)

def serveState (w : World) (quarantined : List String) (resources : Resources) :
    ServingSnapshot :=
  let graphs := resources.entries.map (servingGraph hasher store resources quarantined)
  let queries := resources.entries.map (servingQuery hasher env w quarantined)
  let policies := resources.entries.map (servingPolicy hasher env w quarantined)
  { graphs := graphs.filterMap Prod.fst
    queries := exceptValues queries
    policies := exceptValues policies
    diagnostics := resources.entries.flatMap (profileDiagnostics hasher resources quarantined) ++
      graphs.flatMap Prod.snd ++ exceptErrors policies ++ exceptErrors queries }

def readSnapshot (w : World) : Except (List Diagnostic) ServingSnapshot :=
  let quarantined := quarantinedGraphs env w
  let warnings := quarantined.1.map fun graphId =>
    .warning "cluster_recovery_pending" (graphAddress graphId)
  if hasErrors quarantined.2 then .error quarantined.2
  else if env.ok .readState = false then
    .error (.error "state_read_error" "__cluster/state.json" :: warnings)
  else match w.ledger with
    | none => .error (.error "cluster_state_missing" "__cluster/state.json" :: warnings)
    | some state =>
      let snapshot := serveState hasher store env w quarantined.1 state.resources
      let sawGraph := state.resources.entries.any fun e => match resourceKind e.1 with
        | .graph _ => true
        | _ => false
      let empty := if snapshot.graphs ≠ [] then []
        else if sawGraph && decide (quarantined.1 ≠ []) then
          [.error "cluster_no_healthy_graphs" "__cluster/recoveries"]
        else [.error "cluster_empty" "__cluster/state.json"]
      let diagnostics := snapshot.diagnostics ++ empty
      if hasErrors diagnostics then .error (diagnostics ++ warnings)
      else .ok { snapshot with diagnostics := warnings }

/-! ### What is derived for one graph -/

/-- The external Blob policy of a graph, its provider and its profile. -/
structure ServingAuthority where
  externalBlobPolicy : ExternalBlobPolicy
  embeddingProvider : Option String
  embedding : Option EmbeddingProviderConfig
deriving DecidableEq

def servingAuthority (resources : Resources) (graphId : String) : Option ServingAuthority :=
  (resources.lookup (graphAddress graphId)).map fun entry =>
    ⟨servingExternalBlobPolicy entry, entry.embeddingProvider,
      (servingEmbedding hasher resources (graphAddress graphId) entry).toOption.join⟩

/-- The policies bound to a graph, with the digests of their contents. -/
def servingPolicies (resources : Resources) (graphId : String) : List (String × String) :=
  resources.entries.filterMap fun e => match resourceKind e.1 with
    | .policy name =>
      if graphAddress graphId ∈ e.2.appliesTo.getD [] then some (name, e.2.digest) else none
    | _ => none

variable {graph : ServingGraph} {diagnostic : Diagnostic}

/-- A served graph has what is derived for it. -/
lemma mem_graphs_serveState {w : World} {quarantined : List String} {resources : Resources}
    (h : graph ∈ (serveState hasher store env w quarantined resources).graphs) :
    ∃ authority, servingAuthority hasher resources graph.graphId = some authority ∧
      graph.externalBlobPolicy = authority.externalBlobPolicy ∧
      graph.embedding = authority.embedding := by
  obtain ⟨_, hmem, hsome⟩ := mem_filterMap.mp h
  obtain ⟨e, he, rfl⟩ := List.mem_map.mp hmem
  unfold servingGraph at hsome
  cases hkind : resourceKind e.1 with
  | graph graphId =>
    rw [hkind] at hsome
    dsimp only at hsome
    split_ifs at hsome
    cases hsome
    have haddress := resourceKind_eq_graph_iff.mp hkind
    have hlookup : resources.lookup (graphAddress graphId) = some e.2 := by
      rw [← haddress]
      exact BTreeMap.lookup_eq_some_iff.mpr he
    refine ⟨_, by rw [servingAuthority, hlookup, map_some], rfl, ?_⟩
    rw [haddress]
  | schema _ | query _ _ | policy _ | embeddingProvider _ | unknown =>
    rw [hkind] at hsome
    cases hsome

lemma readVerifiedPayload_eq_ok {w : World} {e : String × StateResource} {text : String}
    (h : readVerifiedPayload hasher env w e = .ok text) : hasher.sha256Hex text = e.2.digest := by
  unfold readVerifiedPayload at h
  split at h
  · cases h
  · split_ifs at h
    split at h
    · cases h
    · split_ifs at h with hdigest
      cases h
      exact not_not.mp hdigest

lemma mem_exceptValues {α : Type} {results : List (Except Diagnostic (Option α))} {a : α} :
    a ∈ exceptValues results ↔ .ok (some a) ∈ results := by
  rw [exceptValues, mem_filterMap]
  constructor
  · rintro ⟨_ | value, hmem, hvalue⟩
    · cases hvalue
    · cases hvalue
      exact hmem
  · exact fun h => ⟨_, h, rfl⟩

lemma mem_servingPolicies {resources : Resources} {graphId name digest : String} :
    (name, digest) ∈ servingPolicies resources graphId ↔
      ∃ entry, resources.lookup (policyAddress name) = some entry ∧
        graphAddress graphId ∈ entry.appliesTo.getD [] ∧ entry.digest = digest := by
  rw [servingPolicies, mem_filterMap]
  constructor
  · rintro ⟨e, he, hsome⟩
    cases hkind : resourceKind e.1 with
    | policy name' =>
      rw [hkind] at hsome
      dsimp only at hsome
      split_ifs at hsome with hbound
      cases hsome
      refine ⟨e.2, ?_, hbound, rfl⟩
      rw [← resourceKind_eq_policy_iff.mp hkind]
      exact BTreeMap.lookup_eq_some_iff.mpr he
    | graph _ | schema _ | query _ _ | embeddingProvider _ | unknown =>
      rw [hkind] at hsome
      cases hsome
  · rintro ⟨entry, hentry, hbound, rfl⟩
    refine ⟨_, BTreeMap.lookup_eq_some_iff.mp hentry, ?_⟩
    rw [resourceKind_policyAddress]
    exact if_pos hbound

/-- A served policy is bound to the graphs it is derived to be bound to. -/
lemma mem_policies_serveState {w : World} {quarantined : List String} {resources : Resources}
    {policy : ServingPolicy} {graphId : String}
    (h : policy ∈ (serveState hasher store env w quarantined resources).policies)
    (hbound : graphAddress graphId ∈ policy.appliesTo) :
    (policy.name, hasher.sha256Hex policy.source) ∈ servingPolicies resources graphId := by
  obtain ⟨e, he, hserved⟩ := List.mem_map.mp (mem_exceptValues.mp h)
  unfold servingPolicy at hserved
  cases hkind : resourceKind e.1 with
  | policy name =>
    rw [hkind] at hserved
    dsimp only at hserved
    split at hserved
    · cases hserved
    · next appliesTo happlies =>
      split_ifs at hserved with hempty
      · cases hserved
      · cases hread : readVerifiedPayload hasher env w e with
        | error diagnostic =>
          rw [hread] at hserved
          cases hserved
        | ok source =>
          rw [hread] at hserved
          cases hserved
          refine mem_servingPolicies.mpr ⟨e.2, ?_, ?_, (readVerifiedPayload_eq_ok hasher env
            hread).symm⟩
          · rw [← resourceKind_eq_policy_iff.mp hkind]
            exact BTreeMap.lookup_eq_some_iff.mpr he
          · rw [happlies]
            exact (mem_filter.mp hbound).1
  | graph _ | schema _ | query _ _ | embeddingProvider _ | unknown =>
    rw [hkind] at hserved
    cases hserved

/-! ### What a server boots with -/

lemma severity_ne_error {diagnostics : List Diagnostic} (h : hasErrors diagnostics = false)
    (hmem : diagnostic ∈ diagnostics) : diagnostic.severity ≠ .error :=
  of_decide_eq_false (Bool.eq_false_of_not_eq_true (List.any_eq_false.mp h diagnostic hmem))

/-- The graphs that are left out are those with a sidecar. -/
lemma quarantinedGraphs_eq {w : World} (h : hasErrors (quarantinedGraphs env w).2 = false) :
    (quarantinedGraphs env w).1 = w.sidecars.entries.map fun e => e.2.graphId := by
  unfold quarantinedGraphs listRecoverySidecars at h ⊢
  cases hlist : env.ok .listSidecars with
  | true =>
    simp only [hlist, if_true, map_nil, nil_append] at h ⊢
    rw [filter_eq_self.mpr]
    intro e he
    by_contra hblank
    refine severity_ne_error h (List.mem_map.mpr ⟨e, mem_filter.mpr ⟨he, ?_⟩, rfl⟩) rfl
    simpa using hblank
  | false =>
    simp only [hlist] at h
    cases h

section Boots

variable {hasher store env} {w : World} {quarantined : List String} {resources : Resources}
  {e : String × StateResource} {graphId name : String}

lemma servingGraph_eq_some
    (h : (servingGraph hasher store resources quarantined e).1 = some graph) :
    e.1 = graphAddress graph.graphId ∧ graph.graphId ∉ quarantined ∧
      expectedStateGraphResourceDigest hasher resources graph.graphId e.2 = e.2.digest := by
  unfold servingGraph at h
  split at h
  · next kind hkind =>
    split_ifs at h with hpending hdigest
    cases h
    exact ⟨resourceKind_eq_graph_iff.mp hkind, hpending, not_not.mp hdigest⟩
  · cases h

lemma servingGraph_served (hkind : resourceKind e.1 = .graph graphId)
    (hpending : graphId ∉ quarantined)
    (h : hasErrors (servingGraph hasher store resources quarantined e).2 = false) :
    ∃ graph, (servingGraph hasher store resources quarantined e).1 = some graph ∧
      graph.graphId = graphId := by
  unfold servingGraph at h ⊢
  rw [hkind] at h ⊢
  simp only [if_neg hpending] at h ⊢
  split_ifs at h ⊢ with hdigest
  · rw [hasErrors_append, Bool.or_eq_false_iff] at h
    cases h.2
  · exact ⟨_, rfl, rfl⟩

/-- A profile that is served is the recorded one of the recorded provider. -/
lemma servingEmbedding_eq_ok {address : String} {entry : StateResource}
    {embedding : Option EmbeddingProviderConfig}
    (h : servingEmbedding hasher resources address entry = .ok embedding) :
    (entry.embeddingProvider = none → embedding = none) ∧
      ∀ provider ∈ entry.embeddingProvider, ∃ record profile,
        resources.lookup provider = some record ∧ record.embeddingProfile = some profile ∧
          embeddingProviderDigest hasher profile = record.digest ∧ embedding = some profile := by
  unfold servingEmbedding at h
  split at h
  · next hnone =>
    cases h
    rw [hnone]
    exact ⟨fun _ => rfl, fun provider hmem => absurd hmem (not_mem_none provider)⟩
  · next provider hprovider =>
    split at h
    · split at h
      · next profile hprofile =>
        cases h
        obtain ⟨record, hrecord, hfiltered⟩ := bind_eq_some_iff.mp hprofile
        obtain ⟨hrecorded, hdigest⟩ := filter_eq_some_iff.mp hfiltered
        rw [hprovider]
        refine ⟨fun hnone => absurd hnone (some_ne_none provider), ?_⟩
        rintro _ ⟨⟩
        exact ⟨record, profile, hrecord, hrecorded, of_decide_eq_true hdigest, rfl⟩
      · cases h
    · cases h

lemma servingGraph_recorded (h : (servingGraph hasher store resources quarantined e).1 = some graph)
    (hclean : hasErrors (servingGraph hasher store resources quarantined e).2 = false) :
    graph.externalBlobPolicy = e.2.externalBlobPolicy.getD .deny ∧
      servingEmbedding hasher resources e.1 e.2 = .ok graph.embedding := by
  unfold servingGraph at h hclean
  split at h
  · next kind hkind =>
    rw [hkind] at hclean
    split_ifs at h with hpending hdigest
    cases h
    simp only [if_neg hpending, if_neg hdigest] at hclean
    cases hembedding : servingEmbedding hasher resources e.1 e.2 with
    | ok embedding => exact ⟨rfl, rfl⟩
    | error diagnostic =>
      rw [hembedding] at hclean
      refine absurd ?_ (severity_ne_error hclean mem_cons_self)
      unfold servingEmbedding at hembedding
      split at hembedding
      · cases hembedding
      · split at hembedding
        · split at hembedding
          · cases hembedding
          · cases hembedding
            rfl
        · cases hembedding
          rfl
  · cases h

lemma severity_of_readVerifiedPayload (h : readVerifiedPayload hasher env w e = .error diagnostic) :
    diagnostic.severity = .error := by
  unfold readVerifiedPayload at h
  split at h
  · cases h
    rfl
  · split_ifs at h
    · cases h
      rfl
    · split at h
      · cases h
        rfl
      · split_ifs at h
        cases h
        rfl

lemma servingQuery_served (hkind : resourceKind e.1 = .query graphId name)
    (hpending : graphId ∉ quarantined) (he : e ∈ resources.entries)
    (h : hasErrors (exceptErrors (resources.entries.map (servingQuery hasher env w quarantined))) =
      false) :
    ∃ source, servingQuery hasher env w quarantined e = .ok (some ⟨graphId, name, source⟩) ∧
      hasher.sha256Hex source = e.2.digest := by
  have hquery : servingQuery hasher env w quarantined e =
      (readVerifiedPayload hasher env w e).map fun source => some ⟨graphId, name, source⟩ := by
    rw [servingQuery, hkind]
    exact if_neg hpending
  cases hread : readVerifiedPayload hasher env w e with
  | ok source =>
    exact ⟨source, by rw [hquery, hread]; rfl, readVerifiedPayload_eq_ok hasher env hread⟩
  | error diagnostic =>
    refine absurd (severity_of_readVerifiedPayload hread) (severity_ne_error h ?_)
    refine mem_filterMap.mpr ⟨_, List.mem_map_of_mem he, ?_⟩
    rw [hquery, hread]
    rfl

/-- The graphs that are served without an error are those recorded and not left out. -/
lemma exists_graph_serveState
    (h : hasErrors (serveState hasher store env w quarantined resources).diagnostics = false) :
    (∃ graph ∈ (serveState hasher store env w quarantined resources).graphs,
      graph.graphId = graphId) ↔ graphId ∉ quarantined ∧ graphAddress graphId ∈ resources := by
  simp only [serveState, hasErrors_append, Bool.or_eq_false_iff, hasErrors_flatMap,
    List.forall_mem_map] at h
  constructor
  · rintro ⟨graph, hmem, rfl⟩
    obtain ⟨_, hserved, hsome⟩ := mem_filterMap.mp hmem
    obtain ⟨e, he, rfl⟩ := List.mem_map.mp hserved
    obtain ⟨haddress, hout, -⟩ := servingGraph_eq_some hsome
    refine ⟨hout, BTreeMap.mem_iff_exists.mpr ⟨e.2, ?_⟩⟩
    rw [← haddress]
    exact BTreeMap.lookup_eq_some_iff.mpr he
  · rintro ⟨hout, hrecorded⟩
    obtain ⟨entry, hentry⟩ := BTreeMap.mem_iff_exists.mp hrecorded
    have he := BTreeMap.lookup_eq_some_iff.mp hentry
    obtain ⟨graph, hgraph, hid⟩ := servingGraph_served resourceKind_graphAddress hout
      (h.1.1.2 _ he)
    exact ⟨graph, mem_filterMap.mpr ⟨_, List.mem_map_of_mem he, hgraph⟩, hid⟩

/-- A server boots with what the state serves, and only if there is no error in it. -/
lemma readSnapshot_eq_ok {snapshot : ServingSnapshot}
    (h : readSnapshot hasher store env w = .ok snapshot) :
    ∃ state served warnings, w.ledger = some state ∧
      serveState hasher store env w (w.sidecars.entries.map fun e => e.2.graphId)
        state.resources = served ∧
      hasErrors served.diagnostics = false ∧
        { served with diagnostics := warnings } = snapshot := by
  have hbranch : ∀ {c : Bool} {errors : List Diagnostic} {served : ServingSnapshot},
      (if c then .error errors else .ok served) = Except.ok (ε := List Diagnostic) snapshot →
        c = false ∧ served = snapshot := by
    intro c errors served h
    cases c <;> simp_all
  unfold readSnapshot at h
  dsimp only at h
  split_ifs at h with hpending hread
  split at h
  · cases h
  · next state hledger =>
    rw [quarantinedGraphs_eq env (Bool.eq_false_of_not_eq_true hpending)] at h
    obtain ⟨hclean, hsnapshot⟩ := hbranch h
    rw [hasErrors_append, Bool.or_eq_false_iff] at hclean
    exact ⟨state, _, _, hledger, rfl, hclean.1, hsnapshot⟩

/-- A server boots only with exactly the recorded graphs without a sidecar, each bound by its
digest, and with all their queries as they are recorded; a policy is bound to no other graph. -/
theorem readSnapshot_exact {snapshot : ServingSnapshot}
    (h : readSnapshot hasher store env w = .ok snapshot) :
    ∃ state, w.ledger = some state ∧
      (∀ graphId, (∃ graph ∈ snapshot.graphs, graph.graphId = graphId) ↔
        graphId ∉ w.sidecars.entries.map (fun e => e.2.graphId) ∧
          graphAddress graphId ∈ state.resources) ∧
      (∀ graph ∈ snapshot.graphs, ∃ entry,
        state.resources.lookup (graphAddress graph.graphId) = some entry ∧
          graph.externalBlobPolicy = entry.externalBlobPolicy.getD .deny ∧
          (entry.embeddingProvider = none → graph.embedding = none) ∧
          ∀ provider ∈ entry.embeddingProvider, ∃ record profile,
            state.resources.lookup provider = some record ∧
              record.embeddingProfile = some profile ∧
              embeddingProviderDigest hasher profile = record.digest ∧
              graph.embedding = some profile) ∧
      (∀ e ∈ state.resources.entries, ∀ graphId name, resourceKind e.1 = .query graphId name →
        graphId ∉ w.sidecars.entries.map (fun e => e.2.graphId) →
        ∃ source, ⟨graphId, name, source⟩ ∈ snapshot.queries ∧
          hasher.sha256Hex source = e.2.digest) ∧
      ∀ policy ∈ snapshot.policies, ∀ graphId, graphAddress graphId ∈ policy.appliesTo →
        ∃ entry, state.resources.lookup (policyAddress policy.name) = some entry ∧
          graphAddress graphId ∈ entry.appliesTo.getD [] ∧
          entry.digest = hasher.sha256Hex policy.source := by
  obtain ⟨state, _, _, hledger, rfl, hclean, rfl⟩ := readSnapshot_eq_ok h
  refine ⟨state, hledger, fun graphId => exists_graph_serveState hclean, fun graph hmem => ?_,
    fun e he graphId name hkind hout => ?_, fun policy hpolicy graphId hbound =>
      mem_servingPolicies.mp (mem_policies_serveState hasher store env hpolicy hbound)⟩
  all_goals simp only [serveState, hasErrors_append, Bool.or_eq_false_iff, hasErrors_flatMap,
    List.forall_mem_map] at hclean
  · obtain ⟨_, hserved, hsome⟩ := mem_filterMap.mp hmem
    obtain ⟨e, he, rfl⟩ := List.mem_map.mp hserved
    obtain ⟨hpolicy, hembedding⟩ := servingGraph_recorded hsome (hclean.1.1.2 e he)
    refine ⟨e.2, ?_, hpolicy, servingEmbedding_eq_ok hembedding⟩
    rw [← (servingGraph_eq_some hsome).1]
    exact BTreeMap.lookup_eq_some_iff.mpr he
  · obtain ⟨source, hsource, hdigest⟩ := servingQuery_served hkind hout he hclean.2
    exact ⟨source, mem_exceptValues.mpr (hsource ▸ List.mem_map_of_mem he), hdigest⟩

end Boots

/-- A graph of which only the schema is recorded. -/
def servedWorld : World :=
  { emptyWorld with ledger := some (recordedGraph "g" none
      ((∅ : Resources).insert "schema.g" { digest := "g.pg" })) }

theorem readSnapshot_exact_plain : ∃ snapshot,
    readSnapshot plainHasher localStore plainEnv servedWorld = .ok snapshot ∧
      ∃ graph ∈ snapshot.graphs, graph.graphId = "g" := by
  have hboots : (readSnapshot plainHasher localStore plainEnv servedWorld).toOption.isSome ∧
      ∀ state, servedWorld.ledger = some state → graphAddress "g" ∈ state.resources := by
    decide +kernel
  obtain ⟨snapshot, hsnapshot⟩ := isSome_iff_exists.mp hboots.1
  have hread : readSnapshot plainHasher localStore plainEnv servedWorld = .ok snapshot := by
    generalize readSnapshot plainHasher localStore plainEnv servedWorld = result at hsnapshot
    cases result with
    | error diagnostics => cases hsnapshot
    | ok served =>
      cases hsnapshot
      rfl
  obtain ⟨state, hledger, hgraphs, -⟩ := readSnapshot_exact hread
  exact ⟨snapshot, hread, (hgraphs "g").mpr ⟨not_mem_nil, hboots.2 state hledger⟩⟩

end Omnigraph.Cluster
