import Omnigraph.Cluster.Desired

/-!
# What an error-free configuration declares

The digest of a graph is computed by the loader from the declarations and by the other commands
from recorded entries. `Coherent` says what the two have in common; a configuration without errors
has it.
-/

namespace Omnigraph.Cluster

open List Option BTreeMap

variable (hasher : Hasher) (loader : Loader)

/-- The graph is declared. -/
def DesiredCluster.Declares (desired : DesiredCluster) (graphId : String) : Prop :=
  ∃ graph ∈ desired.graphs, graph.id = graphId

/-- The declared digests fit together, and what is declared besides digests fits them. -/
structure Coherent (desired : DesiredCluster) : Prop where
  graphs_nodup : (desired.graphs.map DesiredGraph.id).Nodup
  graph_id : ∀ graphId, desired.Declares graphId → '.' ∉ graphId.toList
  graph_iff : ∀ graphId, graphAddress graphId ∈ desired.resourceDigests ↔ desired.Declares graphId
  composite : ∀ graph ∈ desired.graphs, ∃ queries : BTreeMap String String,
    (∀ name, queries.lookup name =
      desired.resourceDigests.lookup (queryPrefix graph.id ++ name)) ∧
    desired.resourceDigests.lookup (graphAddress graph.id) =
      some (graphDigestWithExternalBlobPolicy hasher graph.id
        (desired.resourceDigests.lookup (schemaAddress graph.id)) queries graph.embeddingProvider
        (graph.embeddingProvider.bind desired.resourceDigests.lookup) graph.externalBlobPolicy)
  schema : ∀ graph ∈ desired.graphs,
    desired.resourceDigests.lookup (schemaAddress graph.id) = some graph.schemaDigest
  schema_declared : ∀ graphId, schemaAddress graphId ∈ desired.resourceDigests →
    desired.Declares graphId
  provider : ∀ graph ∈ desired.graphs, ∀ address ∈ graph.embeddingProvider,
    ∃ name, address = embeddingProviderAddress name ∧ address ∈ desired.resourceDigests
  query : ∀ graphId name, queryAddress graphId name ∈ desired.resourceDigests →
    '.' ∉ graphId.toList → desired.Declares graphId ∧ '.' ∉ name.toList
  policy_iff : ∀ address, address ∈ desired.policyBindings ↔
    address ∈ desired.resourceDigests ∧ ∃ name, resourceKind address = .policy name
  profile_iff : ∀ address, address ∈ desired.embeddingProviders ↔
    address ∈ desired.resourceDigests ∧ ∃ name, resourceKind address = .embeddingProvider name
  profile_digest : ∀ address profile, desired.embeddingProviders.lookup address = some profile →
    desired.resourceDigests.lookup address = some (embeddingProviderDigest hasher profile)
  known : ∀ address ∈ desired.resourceDigests, resourceKind address ≠ .unknown

/-! ### Error-free diagnostics -/

@[simp] lemma hasErrors_append (l r : List Diagnostic) :
    hasErrors (l ++ r) = (hasErrors l || hasErrors r) :=
  any_append

lemma hasErrors_flatMap {α : Type*} {f : α → List Diagnostic} {l : List α} :
    hasErrors (l.flatMap f) = false ↔ ∀ a ∈ l, hasErrors (f a) = false := by
  rw [hasErrors, any_flatMap, List.any_eq_false]
  simp only [Bool.not_eq_true, hasErrors]

variable {value : String}

lemma not_mem_of_validId (h : validId value = true) : '.' ∉ value.toList := by
  unfold validId at h
  cases hvalue : value.toList with
  | nil => exact not_mem_nil
  | cons c rest =>
    rw [hvalue, Bool.and_eq_true] at h
    intro hmem
    rcases mem_cons.mp hmem with rfl | hmem
    · exact absurd h.1 (by decide)
    · exact absurd (List.all_eq_true.mp h.2 _ hmem) (by decide)

lemma not_mem_of_validateId {path : String} (h : hasErrors (validateId path value) = false) :
    '.' ∉ value.toList := by
  unfold validateId at h
  split_ifs at h with hvalid
  · exact not_mem_of_validId hvalid
  · cases h

/-! ### The digest declared under an address -/

/-- The digest declared for a kind of resource. -/
def declaredDigest (raw : RawClusterConfig) : ResourceKind → Option String
  | .graph graphId => (raw.graphs.lookup graphId).map fun graph =>
      (loadGraph hasher loader raw (graphId, graph)).digest
  | .schema graphId => (raw.graphs.lookup graphId).bind fun graph =>
      (loader.read graph.schema).map hasher.sha256Hex
  | .query graphId name => (raw.graphs.lookup graphId).bind fun graph =>
      ((resolveQueryDecls loader graphId graph.queries).1.lookup name).bind fun file =>
        (loader.read file).map hasher.sha256Hex
  | .policy name => (raw.policies.lookup name).bind fun policy =>
      (loader.read policy.file).map hasher.sha256Hex
  | .embeddingProvider name => (raw.embedding.lookup name).map (embeddingProviderDigest hasher)
  | .unknown => none

variable {hasher loader} {raw : RawClusterConfig}

variable {owned : List String} {policy : LoadedPolicy} {declared : String × GraphConfig}
  {r : ResourceSummary} {address graphId : String}

lemma mem_loadPolicies {declared : List (String × PolicyFileConfig)}
    (h : policy ∈ loadPolicies hasher loader raw owned declared) :
    ∃ owned', ∃ d ∈ declared, policy = loadPolicy hasher loader raw owned' d := by
  induction declared generalizing owned with
  | nil => cases h
  | cons d declared ih =>
    rcases mem_cons.mp h with rfl | h
    · exact ⟨owned, d, by simp, rfl⟩
    · obtain ⟨owned', d', hd', heq⟩ := ih h
      exact ⟨owned', d', by simp [hd'], heq⟩

lemma exists_loadPolicies (owned : List String) {declared : List (String × PolicyFileConfig)}
    {d : String × PolicyFileConfig} (h : d ∈ declared) :
    ∃ owned', loadPolicy hasher loader raw owned' d ∈
      loadPolicies hasher loader raw owned declared := by
  induction declared generalizing owned with
  | nil => cases h
  | cons d' declared ih =>
    rcases mem_cons.mp h with rfl | h
    · exact ⟨owned, mem_cons_self⟩
    · obtain ⟨owned', hmem⟩ := ih _ h
      exact ⟨owned', mem_cons_of_mem _ hmem⟩

lemma mem_parts :
    r ∈ (loadGraph hasher loader raw declared).parts ↔
      (∃ source ∈ loader.read declared.2.schema,
        r = ⟨schemaAddress declared.1, "schema", hasher.sha256Hex source,
          some declared.2.schema⟩) ∨
      ∃ query ∈ (resolveQueryDecls loader declared.1 declared.2.queries).1.entries,
        ∃ source ∈ loader.read query.2,
          r = ⟨queryAddress declared.1 query.1, "query", hasher.sha256Hex source,
            some query.2⟩ := by
  simp only [loadGraph, mem_append, mem_toList, Option.map_map, mem_filterMap,
    querySummary, map_eq_some_iff, mem_def, Function.comp_apply]
  simp only [eq_comm]

lemma summary_loadPolicy {declared : String × PolicyFileConfig} :
    (loadPolicy hasher loader raw owned declared).summary =
      (loader.read declared.2.file).map fun source =>
        ⟨policyAddress declared.1, "policy", hasher.sha256Hex source, some declared.2.file⟩ := rfl

/-- Every resource has the digest declared for its kind. -/
lemma declaredDigest_of_mem (hid : ∀ graph ∈ raw.graphs.entries, '.' ∉ graph.1.toList)
    (h : r ∈ loadedResources hasher loader raw) :
    declaredDigest hasher loader raw (resourceKind r.address) = some r.digest := by
  simp only [loadedResources, mem_append, List.mem_map, mem_flatMap,
    mem_filterMap] at h
  rcases h with ((⟨provider, hprovider, rfl⟩ | ⟨_, ⟨graph, hgraph, rfl⟩, hpart⟩) |
    ⟨_, ⟨graph, hgraph, rfl⟩, rfl⟩) | ⟨policy, hpolicy, hsummary⟩
  · have hlookup := BTreeMap.lookup_eq_some_iff.mpr hprovider
    simp only [providerSummary, resourceKind_embeddingProviderAddress, declaredDigest, hlookup,
      map_some]
  · have hlookup := BTreeMap.lookup_eq_some_iff.mpr hgraph
    rcases mem_parts.mp hpart with ⟨source, hsource, rfl⟩ | ⟨query, hquery, source, hsource, rfl⟩
    · simp only [resourceKind_schemaAddress, declaredDigest, hlookup, bind_some]
      rw [mem_def.mp hsource, map_some]
    · have hname := BTreeMap.lookup_eq_some_iff.mpr hquery
      simp only [resourceKind_queryAddress (hid graph hgraph), declaredDigest, hlookup,
        bind_some, hname]
      rw [mem_def.mp hsource, map_some]
  · have hlookup := BTreeMap.lookup_eq_some_iff.mpr hgraph
    have hkind : resourceKind (graphSummary (loadGraph hasher loader raw graph)).address =
        .graph graph.1 := resourceKind_graphAddress
    rw [hkind, declaredDigest, hlookup, map_some]
    rfl
  · obtain ⟨owned, declared, hdeclared, rfl⟩ := mem_loadPolicies hpolicy
    have hlookup := BTreeMap.lookup_eq_some_iff.mpr hdeclared
    rw [summary_loadPolicy, map_eq_some_iff] at hsummary
    obtain ⟨source, hsource, rfl⟩ := hsummary
    simp only [resourceKind_policyAddress, declaredDigest, hlookup, bind_some, hsource,
      map_some]

/-- Every digest declared is the digest of a resource. -/
lemma exists_of_declaredDigest {digest : String}
    (h : declaredDigest hasher loader raw (resourceKind address) = some digest) :
    ∃ r ∈ loadedResources hasher loader raw, r.address = address ∧ r.digest = digest := by
  have hread := readFrom_resourceKind address
  simp only [loadedResources, mem_append, List.mem_map, mem_flatMap,
    mem_filterMap]
  cases hkind : resourceKind address with
  | graph graphId =>
    rw [hkind] at h hread
    obtain ⟨graph, hgraph, rfl⟩ := map_eq_some_iff.mp h
    exact ⟨_, .inl (.inr ⟨_, ⟨_, BTreeMap.lookup_eq_some_iff.mp hgraph, rfl⟩, rfl⟩), hread.symm,
      rfl⟩
  | schema graphId =>
    rw [hkind] at h hread
    obtain ⟨graph, hgraph, hschema⟩ := bind_eq_some_iff.mp h
    obtain ⟨source, hsource, rfl⟩ := map_eq_some_iff.mp hschema
    exact ⟨_, .inl (.inl (.inr ⟨_, ⟨_, BTreeMap.lookup_eq_some_iff.mp hgraph, rfl⟩,
      mem_parts.mpr (.inl ⟨source, hsource, rfl⟩)⟩)), hread.symm, rfl⟩
  | query graphId name =>
    rw [hkind] at h hread
    obtain ⟨graph, hgraph, hquery⟩ := bind_eq_some_iff.mp h
    obtain ⟨file, hfile, hsource⟩ := bind_eq_some_iff.mp hquery
    obtain ⟨source, hread', rfl⟩ := map_eq_some_iff.mp hsource
    exact ⟨_, .inl (.inl (.inr ⟨_, ⟨_, BTreeMap.lookup_eq_some_iff.mp hgraph, rfl⟩,
      mem_parts.mpr (.inr ⟨_, BTreeMap.lookup_eq_some_iff.mp hfile, source, hread', rfl⟩)⟩)),
      hread.2.symm, rfl⟩
  | policy name =>
    rw [hkind] at h hread
    obtain ⟨policy, hpolicy, hsource⟩ := bind_eq_some_iff.mp h
    obtain ⟨source, hread', rfl⟩ := map_eq_some_iff.mp hsource
    obtain ⟨owned, hmem⟩ := @exists_loadPolicies hasher loader raw [] _ _
      (BTreeMap.lookup_eq_some_iff.mp hpolicy)
    refine ⟨⟨policyAddress name, "policy", hasher.sha256Hex source, some policy.file⟩,
      .inr ⟨_, hmem, ?_⟩, hread.symm, rfl⟩
    rw [summary_loadPolicy, hread', map_some]
  | embeddingProvider name =>
    rw [hkind] at h hread
    obtain ⟨profile, hprofile, rfl⟩ := map_eq_some_iff.mp h
    exact ⟨_, .inl (.inl (.inl ⟨_, BTreeMap.lookup_eq_some_iff.mp hprofile, rfl⟩)), hread.symm,
      rfl⟩
  | unknown =>
    rw [hkind] at h
    cases h

/-- The digests that are loaded are the ones declared. -/
lemma lookup_resourceDigests (hid : ∀ graph ∈ raw.graphs.entries, '.' ∉ graph.1.toList)
    (address : String) : (loadDesired hasher loader raw).1.resourceDigests.lookup address =
      declaredDigest hasher loader raw (resourceKind address) := by
  show (mapValues ResourceSummary.digest _).lookup address = _
  rw [lookup_mapValues]
  cases hdeclared : declaredDigest hasher loader raw (resourceKind address) with
  | none =>
    rw [lookup_insertAll_of_forall_ne, map_none]
    rintro r hr rfl
    rw [declaredDigest_of_mem hid hr] at hdeclared
    cases hdeclared
  | some digest =>
    obtain ⟨r, hr, haddress, -⟩ := exists_of_declaredDigest hdeclared
    have hmem : address ∈ (∅ : BTreeMap String ResourceSummary).insertAll
        (fun resource => (resource.address, resource)) (loadedResources hasher loader raw) :=
      mem_insertAll.mpr (.inr ⟨r, hr, haddress⟩)
    obtain ⟨r', hlookup⟩ := mem_iff_exists.mp hmem
    rcases lookup_insertAll hlookup with hempty | ⟨r'', hr'', heq⟩
    · cases hempty
    · cases heq
      rw [hlookup, map_some, ← declaredDigest_of_mem hid hr'', hdeclared]

/-! ### Configurations without errors -/

/-- The query digests of a graph. -/
lemma lookup_queryDigests (queries : BTreeMap String String) (name : String) :
    (queryDigests hasher loader queries).lookup name =
      (queries.lookup name).bind fun file => (loader.read file).map hasher.sha256Hex := by
  set l := queries.entries.filterMap fun query =>
    (loader.read query.2).map fun source => (query.1, hasher.sha256Hex source) with hl
  have hmem : ∀ name digest, (name, digest) ∈ l ↔
      ((queries.lookup name).bind fun file => (loader.read file).map hasher.sha256Hex) =
        some digest := by
    intro name digest
    simp only [hl, mem_filterMap, map_eq_some_iff, bind_eq_some_iff,
      BTreeMap.lookup_eq_some_iff]
    constructor
    · rintro ⟨query, hquery, source, hsource, heq⟩
      cases heq
      exact ⟨query.2, hquery, source, hsource, rfl⟩
    · rintro ⟨file, hfile, source, hsource, rfl⟩
      exact ⟨_, hfile, source, hsource, rfl⟩
  have hinj : ∀ a ∈ l, ∀ b ∈ l, a.1 = b.1 → a.2 = b.2 := by
    intro a ha b hb hab
    have ha' := (hmem a.1 a.2).mp ha
    rw [hab, (hmem b.1 b.2).mp hb] at ha'
    exact (Option.some.inj ha').symm
  apply Option.ext
  intro digest
  exact (lookup_insertAll_id hinj).trans (hmem name digest)

lemma embeddingProviderAddress_inj {name name' : String}
    (h : embeddingProviderAddress name = embeddingProviderAddress name') : name = name' :=
  Prefixed.append_inj h

lemma lookup_embeddingProviderDigests (name : String) :
    (embeddingProviderDigests hasher raw).lookup (embeddingProviderAddress name) =
      (raw.embedding.lookup name).map (embeddingProviderDigest hasher) := by
  cases hlookup : raw.embedding.lookup name with
  | none =>
    apply lookup_insertAll_of_forall_ne
    intro provider hprovider haddress
    rw [← embeddingProviderAddress_inj haddress, BTreeMap.lookup_eq_some_iff.mpr hprovider]
      at hlookup
    cases hlookup
  | some profile =>
    apply lookup_insertAll_of_mem (a := (name, profile))
      (f := fun provider : String × EmbeddingProviderConfig =>
        (embeddingProviderAddress provider.1, embeddingProviderDigest hasher provider.2))
    · intro a ha b hb hab
      rw [raw.embedding.eq_of_key_eq ha hb (embeddingProviderAddress_inj hab)]
    · exact BTreeMap.lookup_eq_some_iff.mp hlookup

/-- A provider that is resolved is declared. -/
lemma resolveEmbeddingProvider_eq_some {reference : Option String}
    (h : (resolveEmbeddingProvider raw graphId reference).1 = some address) :
    ∃ name, address = embeddingProviderAddress name ∧ name ∈ raw.embedding := by
  unfold resolveEmbeddingProvider at h
  split at h
  · cases h
  · next name _ =>
    split_ifs at h with hname
    · cases h
      exact ⟨name, rfl, hname⟩
  · cases h

section Clean

variable (hclean : hasErrors (loadDesired hasher loader raw).2 = false)

include hclean

variable (h : declared ∈ raw.graphs.entries)

include h in
lemma graph_clean : hasErrors (loadGraph hasher loader raw declared).diagnostics = false := by
  simp only [loadDesired, hasErrors_append, Bool.or_eq_false_iff, hasErrors_flatMap] at hclean
  exact hclean.1.2 _ (List.mem_map_of_mem h)

lemma policy_clean (h : policy ∈ loadPolicies hasher loader raw [] raw.policies.entries) :
    hasErrors policy.diagnostics = false := by
  simp only [loadDesired, hasErrors_append, Bool.or_eq_false_iff, hasErrors_flatMap] at hclean
  exact hclean.2 _ h

include h in
lemma graphId_clean : '.' ∉ declared.1.toList := by
  have := graph_clean hclean h
  simp only [loadGraph, hasErrors_append, Bool.or_eq_false_iff] at this
  exact not_mem_of_validateId this.1.1.1.1.1

include h in
lemma exists_schema : ∃ source, loader.read declared.2.schema = some source := by
  have := graph_clean hclean h
  simp only [loadGraph, hasErrors_append, Bool.or_eq_false_iff] at this
  have hschema := this.1.1.2
  cases hread : loader.read declared.2.schema with
  | none =>
    rw [hread] at hschema
    cases hschema
  | some source => exact ⟨source, rfl⟩

include h in
lemma queryName_clean {query : String × String}
    (hquery : query ∈ (resolveQueryDecls loader declared.1 declared.2.queries).1.entries) :
    '.' ∉ query.1.toList := by
  have := graph_clean hclean h
  simp only [loadGraph, hasErrors_append, Bool.or_eq_false_iff, hasErrors_flatMap] at this
  have hquery' := this.2 query hquery
  simp only [queryDiagnostics, hasErrors_append, Bool.or_eq_false_iff] at hquery'
  exact not_mem_of_validateId hquery'.1

lemma exists_policy {declared : String × PolicyFileConfig} (h : declared ∈ raw.policies.entries) :
    ∃ source, loader.read declared.2.file = some source := by
  obtain ⟨owned, hmem⟩ := @exists_loadPolicies hasher loader raw [] _ _ h
  have := policy_clean hclean hmem
  simp only [loadPolicy, hasErrors_append, Bool.or_eq_false_iff] at this
  have hfile := this.2
  cases hread : loader.read declared.2.file with
  | none =>
    rw [hread] at hfile
    cases hfile
  | some source => exact ⟨source, rfl⟩

lemma lookup_desired (address : String) :
    (loadDesired hasher loader raw).1.resourceDigests.lookup address =
      declaredDigest hasher loader raw (resourceKind address) :=
  lookup_resourceDigests (fun _ hgraph => graphId_clean hclean hgraph) address

omit hclean in
lemma declares_iff :
    (loadDesired hasher loader raw).1.Declares graphId ↔ ∃ graph, (graphId, graph) ∈
      raw.graphs.entries := by
  show (∃ graph ∈ (raw.graphs.entries.map (loadGraph hasher loader raw)).map LoadedGraph.graph,
    graph.id = graphId) ↔ _
  simp only [List.mem_map, exists_exists_and_eq_and]
  constructor
  · rintro ⟨declared, hdeclared, rfl⟩
    exact ⟨declared.2, hdeclared⟩
  · rintro ⟨graph, hgraph⟩
    exact ⟨_, hgraph, rfl⟩

include h in
/-- The digest of a declared graph is over its declared parts. -/
lemma desired_composite :
    ∃ queries : BTreeMap String String,
      (∀ name, queries.lookup name = (loadDesired hasher loader raw).1.resourceDigests.lookup
        (queryPrefix declared.1 ++ name)) ∧
      (loadGraph hasher loader raw declared).digest =
        graphDigestWithExternalBlobPolicy hasher declared.1
          ((loadDesired hasher loader raw).1.resourceDigests.lookup (schemaAddress declared.1))
          queries (loadGraph hasher loader raw declared).graph.embeddingProvider
          ((loadGraph hasher loader raw declared).graph.embeddingProvider.bind
            (loadDesired hasher loader raw).1.resourceDigests.lookup)
          (loadGraph hasher loader raw declared).graph.externalBlobPolicy := by
  have hlookup := BTreeMap.lookup_eq_some_iff.mpr h
  refine ⟨queryDigests hasher loader
    (resolveQueryDecls loader declared.1 declared.2.queries).1, fun name => ?_, ?_⟩
  · rw [lookup_desired hclean, show queryPrefix declared.1 ++ name =
      queryAddress declared.1 name from rfl, resourceKind_queryAddress (graphId_clean hclean h),
      declaredDigest, hlookup, bind_some, lookup_queryDigests]
  · have hschema : (loadDesired hasher loader raw).1.resourceDigests.lookup
        (schemaAddress declared.1) = (loader.read declared.2.schema).map hasher.sha256Hex := by
      rw [lookup_desired hclean, resourceKind_schemaAddress, declaredDigest, hlookup,
        bind_some]
    have hprovider : (loadGraph hasher loader raw declared).graph.embeddingProvider.bind
          (loadDesired hasher loader raw).1.resourceDigests.lookup =
        (loadGraph hasher loader raw declared).graph.embeddingProvider.bind
          (embeddingProviderDigests hasher raw).lookup := by
      cases hresolved : (loadGraph hasher loader raw declared).graph.embeddingProvider with
      | none => rfl
      | some address =>
        obtain ⟨name, rfl, -⟩ := resolveEmbeddingProvider_eq_some hresolved
        rw [bind_some, bind_some, lookup_desired hclean,
          resourceKind_embeddingProviderAddress, declaredDigest, lookup_embeddingProviderDigests]
    rw [hschema, hprovider]
    rfl

omit hclean in
lemma mem_policyBindings :
    address ∈ (loadDesired hasher loader raw).1.policyBindings ↔
      ∃ policy ∈ raw.policies.entries, policyAddress policy.1 = address := by
  show address ∈ (∅ : BTreeMap String (List String)).insertAll _ _ ↔ _
  rw [mem_insertAll]
  constructor
  · rintro (hempty | ⟨policy, hpolicy, rfl⟩)
    · cases hempty
    · obtain ⟨owned, declared, hdeclared, rfl⟩ := mem_loadPolicies hpolicy
      exact ⟨declared, hdeclared, rfl⟩
  · rintro ⟨declared, hdeclared, rfl⟩
    obtain ⟨owned, hmem⟩ := @exists_loadPolicies hasher loader raw [] _ _ hdeclared
    exact .inr ⟨_, hmem, rfl⟩

omit hclean in
lemma mem_embeddingProviders :
    address ∈ (loadDesired hasher loader raw).1.embeddingProviders ↔
      ∃ provider ∈ raw.embedding.entries, embeddingProviderAddress provider.1 = address := by
  show address ∈ (∅ : BTreeMap String EmbeddingProviderConfig).insertAll _ _ ↔ _
  rw [mem_insertAll]
  refine or_iff_right fun hempty => ?_
  cases hempty

/-- What a configuration without errors declares fits together. -/
theorem coherent_of_clean : Coherent hasher (loadDesired hasher loader raw).1 := by
  -- an address has a digest exactly if the resource it names is declared
  have hmem : ∀ address, address ∈ (loadDesired hasher loader raw).1.resourceDigests ↔
      ∃ digest, declaredDigest hasher loader raw (resourceKind address) = some digest := by
    intro address
    rw [mem_iff_exists, lookup_desired hclean]
  refine {
    graphs_nodup := ?_, graph_id := ?_, graph_iff := ?_, composite := ?_, schema := ?_,
    schema_declared := ?_, provider := ?_, query := ?_, policy_iff := ?_, profile_iff := ?_,
    profile_digest := ?_, known := ?_ }
  · have hnodup := raw.graphs.sorted.nodup_map
    show (((raw.graphs.entries.map (loadGraph hasher loader raw)).map LoadedGraph.graph).map
      DesiredGraph.id).Nodup
    rw [List.map_map, List.map_map]
    exact hnodup
  · intro graphId hdeclares
    obtain ⟨graph, hgraph⟩ := declares_iff.mp hdeclares
    exact graphId_clean hclean hgraph
  · intro graphId
    rw [hmem, resourceKind_graphAddress, declaredDigest, declares_iff]
    simp only [map_eq_some_iff, BTreeMap.lookup_eq_some_iff]
    constructor
    · rintro ⟨digest, graph, hgraph, -⟩
      exact ⟨graph, hgraph⟩
    · rintro ⟨graph, hgraph⟩
      exact ⟨_, graph, hgraph, rfl⟩
  · intro graph hgraph
    obtain ⟨_, hloaded, rfl⟩ := List.mem_map.mp hgraph
    obtain ⟨declared, hdeclared, rfl⟩ := List.mem_map.mp hloaded
    obtain ⟨queries, hqueries, hdigest⟩ := desired_composite hclean hdeclared
    refine ⟨queries, hqueries, ?_⟩
    rw [lookup_desired hclean, resourceKind_graphAddress, declaredDigest]
    have hlookup : raw.graphs.lookup (loadGraph hasher loader raw declared).graph.id =
        some declared.2 := BTreeMap.lookup_eq_some_iff.mpr hdeclared
    rw [hlookup]
    exact congrArg some hdigest
  · intro graph hgraph
    obtain ⟨_, hloaded, rfl⟩ := List.mem_map.mp hgraph
    obtain ⟨declared, hdeclared, rfl⟩ := List.mem_map.mp hloaded
    have hlookup : raw.graphs.lookup (loadGraph hasher loader raw declared).graph.id =
        some declared.2 := BTreeMap.lookup_eq_some_iff.mpr hdeclared
    obtain ⟨source, hsource⟩ := exists_schema hclean hdeclared
    rw [lookup_desired hclean, resourceKind_schemaAddress, declaredDigest, hlookup,
      bind_some, hsource]
    show _ = some (((loader.read declared.2.schema).map hasher.sha256Hex).getD "")
    rw [hsource]
    rfl
  · intro graphId
    rw [hmem, resourceKind_schemaAddress, declaredDigest, declares_iff]
    rintro ⟨digest, hdigest⟩
    obtain ⟨graph, hgraph, -⟩ := bind_eq_some_iff.mp hdigest
    exact ⟨graph, BTreeMap.lookup_eq_some_iff.mp hgraph⟩
  · intro graph hgraph address haddress
    obtain ⟨_, hloaded, rfl⟩ := List.mem_map.mp hgraph
    obtain ⟨declared, hdeclared, rfl⟩ := List.mem_map.mp hloaded
    obtain ⟨name, rfl, hname⟩ := resolveEmbeddingProvider_eq_some haddress
    obtain ⟨profile, hprofile⟩ := mem_iff_exists.mp hname
    refine ⟨name, rfl, (hmem _).mpr ?_⟩
    rw [resourceKind_embeddingProviderAddress, declaredDigest, hprofile]
    exact ⟨_, rfl⟩
  · intro graphId name hquery hdot
    rw [hmem, resourceKind_queryAddress hdot, declaredDigest] at hquery
    obtain ⟨digest, hdigest⟩ := hquery
    obtain ⟨graph, hgraph, hrest⟩ := bind_eq_some_iff.mp hdigest
    obtain ⟨file, hfile, -⟩ := bind_eq_some_iff.mp hrest
    have hgraph' := BTreeMap.lookup_eq_some_iff.mp hgraph
    exact ⟨declares_iff.mpr ⟨graph, hgraph'⟩,
      queryName_clean hclean hgraph' (BTreeMap.lookup_eq_some_iff.mp hfile)⟩
  · intro address
    rw [mem_policyBindings, hmem]
    constructor
    · rintro ⟨declared, hdeclared, rfl⟩
      obtain ⟨source, hsource⟩ := exists_policy hclean hdeclared
      rw [resourceKind_policyAddress]
      refine ⟨?_, declared.1, rfl⟩
      rw [declaredDigest, BTreeMap.lookup_eq_some_iff.mpr hdeclared, bind_some, hsource]
      exact ⟨_, rfl⟩
    · rintro ⟨⟨digest, hdigest⟩, name, hkind⟩
      rw [hkind, declaredDigest] at hdigest
      obtain ⟨policy, hpolicy, -⟩ := bind_eq_some_iff.mp hdigest
      exact ⟨_, BTreeMap.lookup_eq_some_iff.mp hpolicy,
        (resourceKind_eq_policy_iff.mp hkind).symm⟩
  · intro address
    rw [mem_embeddingProviders, hmem]
    constructor
    · rintro ⟨provider, hprovider, rfl⟩
      rw [resourceKind_embeddingProviderAddress]
      refine ⟨?_, provider.1, rfl⟩
      rw [declaredDigest, BTreeMap.lookup_eq_some_iff.mpr hprovider]
      exact ⟨_, rfl⟩
    · rintro ⟨⟨digest, hdigest⟩, name, hkind⟩
      rw [hkind, declaredDigest] at hdigest
      obtain ⟨profile, hprofile, -⟩ := map_eq_some_iff.mp hdigest
      exact ⟨_, BTreeMap.lookup_eq_some_iff.mp hprofile,
        (resourceKind_eq_embeddingProvider_iff.mp hkind).symm⟩
  · intro address profile hprofile
    rcases lookup_insertAll hprofile with hempty | ⟨provider, hprovider, heq⟩
    · cases hempty
    · obtain ⟨rfl, rfl⟩ := Prod.mk.inj heq
      rw [lookup_desired hclean, resourceKind_embeddingProviderAddress, declaredDigest,
        BTreeMap.lookup_eq_some_iff.mpr hprovider]
      rfl
  · intro address haddress hkind
    obtain ⟨digest, hdigest⟩ := (hmem address).mp haddress
    rw [hkind] at hdigest
    cases hdigest

end Clean

end Omnigraph.Cluster
