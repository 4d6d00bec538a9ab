import Omnigraph.Cluster.Apply
import Omnigraph.Cluster.Coherent

/-!
# What is in a plan

A plan has at most one change for each address. It has none exactly if the address is recorded as
it is declared; otherwise the change says what is recorded and what is declared.
-/

namespace Omnigraph.Cluster

open List PlanChange BTreeMap

/-! ### Changes of digests -/

variable {address : String} {changes : List PlanChange}

section Diff

variable {prior desired : BTreeMap String String} {change : PlanChange}

lemma mem_sortChanges :
    change ∈ sortChanges changes ↔ change ∈ changes := Sorted.mem_sortOn _

lemma declaredChange_eq_some {declared : String × String}
    (h : declaredChange prior declared = some change) :
    change.resource = declared.1 ∧ change.operation ≠ .delete ∧
      (change.operation = .create ↔ change.beforeDigest = none) ∧
      change.beforeDigest = prior.lookup declared.1 ∧ change.afterDigest = some declared.2 ∧
      prior.lookup declared.1 ≠ some declared.2 := by
  unfold declaredChange at h
  split at h
  · next hprior =>
    cases h
    exact ⟨rfl, by simp, by simp, hprior.symm, rfl, by simp [hprior]⟩
  · next before hprior =>
    split_ifs at h with hne
    cases h
    exact ⟨rfl, by simp, by simp, hprior.symm, rfl, by simpa [hprior] using hne⟩

lemma exists_declaredChange {declared : String × String}
    (h : prior.lookup declared.1 ≠ some declared.2) :
    ∃ change, declaredChange prior declared = some change := by
  unfold declaredChange
  split
  · exact ⟨_, rfl⟩
  · next before hprior =>
    rw [hprior] at h
    rw [if_pos (by simpa using h)]
    exact ⟨_, rfl⟩

lemma droppedChange_eq_some {recorded : String × String}
    (h : droppedChange desired recorded = some change) :
    change.resource = recorded.1 ∧ change.operation = .delete ∧
      change.beforeDigest = some recorded.2 ∧ change.afterDigest = none ∧
      recorded.1 ∉ desired := by
  unfold droppedChange at h
  split_ifs at h with hdesired
  cases h
  exact ⟨rfl, rfl, rfl, rfl, hdesired⟩

/-- A change of a digest: the address is declared with another digest, or it is not declared. -/
lemma mem_diffResources (h : change ∈ diffResources prior desired) :
    change.beforeDigest = prior.lookup change.resource ∧
      change.afterDigest = desired.lookup change.resource ∧
      (change.operation = .create ↔ change.beforeDigest = none) ∧
      (change.operation = .delete ↔ change.afterDigest = none) ∧
      change.beforeDigest ≠ change.afterDigest := by
  rw [diffResources, mem_sortChanges, mem_append, mem_filterMap, mem_filterMap] at h
  rcases h with ⟨declared, hdeclared, hchange⟩ | ⟨recorded, hrecorded, hchange⟩
  · obtain ⟨hresource, hoperation, hcreate, hbefore, hafter, hne⟩ := declaredChange_eq_some hchange
    have hlookup := lookup_eq_some_iff.mpr hdeclared
    refine ⟨by rw [hbefore, hresource], by rw [hafter, hresource, hlookup], hcreate, ?_, ?_⟩
    · rw [hafter]
      exact iff_of_false hoperation (by simp)
    · rwa [hbefore, hafter]
  · obtain ⟨hresource, hoperation, hbefore, hafter, hnot⟩ := droppedChange_eq_some hchange
    have hlookup := lookup_eq_some_iff.mpr hrecorded
    refine ⟨by rw [hbefore, hresource, hlookup], ?_, by simp [hoperation, hbefore],
      iff_of_true hoperation hafter, ?_⟩
    · rw [hafter, hresource, BTreeMap.lookup_eq_none_iff.mpr hnot]
    · rw [hbefore, hafter]
      simp

/-- An address without a change is recorded as it is declared. -/
lemma exists_diffResources (h : prior.lookup address ≠ desired.lookup address) :
    ∃ change ∈ diffResources prior desired, change.resource = address := by
  simp only [diffResources, mem_sortChanges, mem_append, mem_filterMap]
  cases hdesired : desired.lookup address with
  | some digest =>
    rw [hdesired] at h
    obtain ⟨change, hchange⟩ := @exists_declaredChange _ (address, digest) h
    exact ⟨change, .inl ⟨_, lookup_eq_some_iff.mp hdesired, hchange⟩,
      (declaredChange_eq_some hchange).1⟩
  | none =>
    rw [hdesired] at h
    obtain ⟨before, hbefore⟩ := Option.ne_none_iff_exists'.mp h
    have hchange : droppedChange desired (address, before) = some {
        resource := address, operation := .delete, beforeDigest := some before,
        afterDigest := none } := by
      rw [droppedChange, if_neg (BTreeMap.lookup_eq_none_iff.mp hdesired)]
    exact ⟨_, .inr ⟨_, lookup_eq_some_iff.mp hbefore, hchange⟩, rfl⟩

/-- Changes made from the entries of a map have different addresses. -/
lemma nodup_filterMap_entries {m : BTreeMap String String}
    {f : String × String → Option PlanChange}
    (hf : ∀ e change, f e = some change → change.resource = e.1) :
    ((m.entries.filterMap f).map resource).Nodup := by
  rw [List.Nodup, pairwise_map, pairwise_filterMap]
  refine (Sorted.increasing_iff_pairwise.mp m.sorted).imp ?_
  intro e e' hlt change hchange change' hchange'
  rw [hf e change hchange, hf e' change' hchange']
  exact ne_of_lt hlt

lemma nodup_diffResources : ((diffResources prior desired).map resource).Nodup := by
  have hperm := (Sorted.sortOn_perm resource
    (desired.entries.filterMap (declaredChange prior) ++
      prior.entries.filterMap (droppedChange desired))).map resource
  rw [diffResources, sortChanges, hperm.nodup_iff, map_append, nodup_append]
  refine ⟨nodup_filterMap_entries fun e change h => (declaredChange_eq_some h).1,
    nodup_filterMap_entries fun e change h => (droppedChange_eq_some h).1, ?_⟩
  intro address haddress address' haddress' heq
  obtain ⟨change, hchange, rfl⟩ := List.mem_map.mp haddress
  obtain ⟨change', hchange', rfl⟩ := List.mem_map.mp haddress'
  obtain ⟨declared, hdeclared, hchange⟩ := mem_filterMap.mp hchange
  obtain ⟨recorded, hrecorded, hchange'⟩ := mem_filterMap.mp hchange'
  -- one address is declared, the other is not
  obtain ⟨hresource', -, -, -, hnot⟩ := droppedChange_eq_some hchange'
  rw [(declaredChange_eq_some hchange).1, hresource'] at heq
  rw [← heq] at hnot
  exact hnot (mem_of_lookup (lookup_eq_some_iff.mpr hdeclared))

end Diff

/-! ### Changes of metadata -/

section Metadata

variable {α : Type} [DecidableEq α] (kind : PlanMetadataChange)
  (recorded : StateResource → Option α) (resources : Resources)

/-- The change of what is recorded beside a digest. -/
def metadataChange (kind : PlanMetadataChange) (address : String) (entry : StateResource) :
    PlanChange where
  resource := address
  operation := .update
  beforeDigest := some entry.digest
  afterDigest := some entry.digest
  bindingChange := kind = .policyBindings
  metadataChange := some kind

/-- A step changes nothing, or adds the update of a record that differs. -/
lemma metadataStep_cases (changes : List PlanChange) (declared : String × α) :
    metadataStep kind recorded resources changes declared = changes ∧
        ((∃ change ∈ changes, change.resource = declared.1) ∨
          ∀ entry, resources.lookup declared.1 = some entry →
            recorded entry = some declared.2) ∨
      ∃ entry, resources.lookup declared.1 = some entry ∧ recorded entry ≠ some declared.2 ∧
        (∀ change ∈ changes, change.resource ≠ declared.1) ∧
        metadataStep kind recorded resources changes declared =
          changes ++ [metadataChange kind declared.1 entry] := by
  unfold metadataStep
  split_ifs with hany
  · obtain ⟨change, hchange, hresource⟩ := List.any_eq_true.mp hany
    exact .inl ⟨rfl, .inl ⟨change, hchange, by simpa using hresource⟩⟩
  · have hne : ∀ change ∈ changes, change.resource ≠ declared.1 := by
      intro change hchange hresource
      exact hany (List.any_eq_true.mpr ⟨change, hchange, by simpa using hresource⟩)
    split
    · next hlookup => exact .inl ⟨rfl, .inr fun entry hentry => by simp [hlookup] at hentry⟩
    · next entry hlookup =>
      split_ifs with hsame
      · refine .inl ⟨rfl, .inr fun entry' hentry' => ?_⟩
        cases hlookup.symm.trans hentry'
        exact hsame
      · exact .inr ⟨entry, hlookup, hsame, hne, rfl⟩

/-- What a pass over declared metadata does to a plan. -/
structure MetadataPass (kind : PlanMetadataChange) (recorded : StateResource → Option α)
    (resources : Resources) (changes : List PlanChange) (declared : List (String × α))
    (result : List PlanChange) : Prop where
  subset : ∀ change ∈ changes, change ∈ result
  added : ∀ change ∈ result, change ∈ changes ∨ ∃ d ∈ declared, ∃ entry,
    resources.lookup d.1 = some entry ∧ recorded entry ≠ some d.2 ∧
      (∀ c ∈ changes, c.resource ≠ d.1) ∧ change = metadataChange kind d.1 entry
  covered : ∀ d ∈ declared, (∃ change ∈ result, change.resource = d.1) ∨
    ∀ entry, resources.lookup d.1 = some entry → recorded entry = some d.2
  nodup : (changes.map resource).Nodup → (result.map resource).Nodup

/-- Stepping through the declared metadata is a pass. -/
lemma metadataPass_foldl (changes : List PlanChange) (declared : List (String × α)) :
    MetadataPass kind recorded resources changes declared
      (declared.foldl (metadataStep kind recorded resources) changes) := by
  induction declared generalizing changes with
  | nil =>
    exact ⟨fun _ h => h, fun _ h => .inl h, fun _ h => absurd h not_mem_nil, fun h => h⟩
  | cons d declared ih =>
    rw [foldl_cons]
    rcases metadataStep_cases kind recorded resources changes d
      with ⟨hstep, hcovered⟩ | ⟨entry, hlookup, hne, hnone, hstep⟩
    · rw [hstep]
      obtain ⟨hsubset, hadded, hcov, hnodup⟩ := ih changes
      refine ⟨hsubset, fun change hchange => ?_, fun d' hd' => ?_, hnodup⟩
      · rcases hadded change hchange with hold | ⟨d', hd', hrest⟩
        · exact .inl hold
        · exact .inr ⟨d', by simp [hd'], hrest⟩
      · rcases mem_cons.mp hd' with rfl | hd'
        · refine hcovered.imp_left ?_
          rintro ⟨change, hchange, hresource⟩
          exact ⟨change, hsubset change hchange, hresource⟩
        · exact hcov d' hd'
    · rw [hstep]
      obtain ⟨hsubset, hadded, hcov, hnodup⟩ := ih (changes ++ [metadataChange kind d.1 entry])
      refine ⟨fun change h => hsubset change (by simp [h]), fun change hchange => ?_,
        fun d' hd' => ?_, fun h => hnodup ?_⟩
      · rcases hadded change hchange with hold | ⟨d', hd', entry', hlookup', hne', hnone', rfl⟩
        · rcases mem_append.mp hold with hold | hnew
          · exact .inl hold
          · rw [mem_singleton] at hnew
            exact .inr ⟨d, by simp, entry, hlookup, hne, hnone, hnew⟩
        · exact .inr ⟨d', by simp [hd'], entry', hlookup', hne',
            fun c hc => hnone' c (by simp [hc]), rfl⟩
      · rcases mem_cons.mp hd' with rfl | hd'
        · exact .inl ⟨_, hsubset (metadataChange kind d'.1 entry) (by simp), rfl⟩
        · exact hcov d' hd'
      · rw [map_append, nodup_append]
        refine ⟨h, by simp, ?_⟩
        intro address haddress address' haddress' heq
        obtain ⟨change, hchange, rfl⟩ := List.mem_map.mp haddress
        have hsingle : address' = d.1 := by simpa [metadataChange] using haddress'
        exact hnone change hchange (heq.trans hsingle)

lemma metadataPass_append (changes : List PlanChange) (declared : BTreeMap String α) :
    MetadataPass kind recorded resources changes declared.entries
      (appendMetadataChanges kind recorded resources changes declared) := by
  obtain ⟨hsubset, hadded, hcov, hnodup⟩ :=
    metadataPass_foldl kind recorded resources changes declared.entries
  have hperm := Sorted.sortOn_perm resource
    (declared.entries.foldl (metadataStep kind recorded resources) changes)
  refine ⟨fun change h => mem_sortChanges.mpr (hsubset change h),
    fun change h => hadded change (mem_sortChanges.mp h), fun d hd => ?_, fun h => ?_⟩
  · refine (hcov d hd).imp_left ?_
    rintro ⟨change, hchange, hresource⟩
    exact ⟨change, mem_sortChanges.mpr hchange, hresource⟩
  · exact (hperm.map resource).nodup_iff.mpr (hnodup h)

end Metadata

/-! ### Plans -/

section Plans

variable {hasher : Hasher} {desired : DesiredCluster} {state : ClusterState}

lemma nodup_planChanges : ((planChanges desired state).map resource).Nodup :=
  (metadataPass_append _ _ _ _ _).nodup
    ((metadataPass_append _ _ _ _ _).nodup nodup_diffResources)

/-- The ledger records an address as it is declared. -/
structure AsDeclared (desired : DesiredCluster) (resources : Resources) (address : String) :
    Prop where
  digest : digestAt resources address = desired.resourceDigests.lookup address
  bindings : ∀ bindings, desired.policyBindings.lookup address = some bindings →
    ∀ entry, resources.lookup address = some entry → entry.appliesTo = some bindings
  profile : ∀ profile, desired.embeddingProviders.lookup address = some profile →
    ∀ entry, resources.lookup address = some entry → entry.embeddingProfile = some profile

/-- What a change of a plan says. -/
structure PlanChange.Says (desired : DesiredCluster) (resources : Resources)
    (change : PlanChange) : Prop where
  before : change.beforeDigest = digestAt resources change.resource
  after : change.afterDigest = desired.resourceDigests.lookup change.resource
  create_iff : change.operation = .create ↔ change.resource ∉ resources
  delete_iff : change.operation = .delete ↔ change.resource ∉ desired.resourceDigests
  unsettled : ¬ AsDeclared desired resources change.resource

lemma says_of_metadata {α : Type} {kind : PlanMetadataChange} {d : String × α}
    {entry : StateResource}
    (hchanges : ∀ change ∈ diffResources (stateResourceDigests state) desired.resourceDigests,
      change ∈ changes) (hlookup : state.resources.lookup d.1 = some entry)
    (hnone : ∀ c ∈ changes, c.resource ≠ d.1)
    (hunsettled : ¬ AsDeclared desired state.resources d.1) :
    (metadataChange kind d.1 entry).Says desired state.resources := by
  have hdigest : digestAt state.resources d.1 = some entry.digest := by
    rw [digestAt, hlookup, Option.map_some]
  have hsame : digestAt state.resources d.1 = desired.resourceDigests.lookup d.1 := by
    by_contra hne
    rw [← lookup_stateResourceDigests] at hne
    obtain ⟨change, hchange, hresource⟩ := exists_diffResources hne
    exact hnone change (hchanges change hchange) hresource
  refine ⟨hdigest.symm, hdigest.symm.trans hsame, iff_of_false (by simp [metadataChange]) ?_,
    iff_of_false (by simp [metadataChange]) ?_, hunsettled⟩
  · exact not_not.mpr (mem_of_lookup hlookup)
  show ¬ d.1 ∉ desired.resourceDigests
  rw [not_not]
  exact mem_of_lookup (hsame.symm.trans hdigest)

/-- The members of a plan. -/
lemma says_of_mem {change : PlanChange} (h : change ∈ planChanges desired state) :
    change.Says desired state.resources := by
  have hpolicy := metadataPass_append .policyBindings StateResource.appliesTo state.resources
    (diffResources (stateResourceDigests state) desired.resourceDigests) desired.policyBindings
  have hprofile := metadataPass_append .embeddingProfile StateResource.embeddingProfile
    state.resources
    (appendMetadataChanges .policyBindings StateResource.appliesTo state.resources
      (diffResources (stateResourceDigests state) desired.resourceDigests) desired.policyBindings)
    desired.embeddingProviders
  rcases hprofile.added change h with hold | ⟨d, hd, entry, hlookup, hne, hnone, rfl⟩
  · rcases hpolicy.added change hold with hold | ⟨d, hd, entry, hlookup, hne, hnone, rfl⟩
    · obtain ⟨hbefore, hafter, hcreate, hdelete, hne⟩ := mem_diffResources hold
      rw [lookup_stateResourceDigests] at hbefore
      refine ⟨hbefore, hafter, ?_, ?_, fun hsettled => hne ?_⟩
      · rw [hcreate, hbefore, digestAt, Option.map_eq_none_iff, BTreeMap.lookup_eq_none_iff]
      · rw [hdelete, hafter, BTreeMap.lookup_eq_none_iff]
      · rw [hbefore, hafter, hsettled.digest]
    · refine says_of_metadata (fun _ h => h) hlookup hnone fun hsettled => hne ?_
      exact hsettled.bindings d.2 (lookup_eq_some_iff.mpr hd) entry hlookup
  · refine says_of_metadata hpolicy.subset hlookup hnone fun hsettled => hne ?_
    exact hsettled.profile d.2 (lookup_eq_some_iff.mpr hd) entry hlookup

/-- An address that is not recorded as it is declared has a change. -/
lemma exists_change (h : ¬ AsDeclared desired state.resources address) :
    ∃ change ∈ planChanges desired state, change.resource = address := by
  have hpolicy := metadataPass_append .policyBindings StateResource.appliesTo state.resources
    (diffResources (stateResourceDigests state) desired.resourceDigests) desired.policyBindings
  have hprofile := metadataPass_append .embeddingProfile StateResource.embeddingProfile
    state.resources
    (appendMetadataChanges .policyBindings StateResource.appliesTo state.resources
      (diffResources (stateResourceDigests state) desired.resourceDigests) desired.policyBindings)
    desired.embeddingProviders
  by_contra hnone
  apply h
  constructor
  · by_contra hne
    rw [← lookup_stateResourceDigests] at hne
    obtain ⟨change, hchange, hresource⟩ := exists_diffResources hne
    exact hnone ⟨change, hprofile.subset _ (hpolicy.subset _ hchange), hresource⟩
  · intro bindings hbindings
    rcases hpolicy.covered _ (lookup_eq_some_iff.mp hbindings) with
      ⟨change, hchange, hresource⟩ | hsame
    · exact absurd ⟨change, hprofile.subset _ hchange, hresource⟩ hnone
    · exact hsame
  · intro profile hlookup
    rcases hprofile.covered _ (lookup_eq_some_iff.mp hlookup) with hchange | hsame
    · exact absurd hchange hnone
    · exact hsame

/-- Nothing is left to change exactly if everything is recorded as it is declared. -/
lemma planChanges_eq_nil_iff :
    planChanges desired state = [] ↔ ∀ address, AsDeclared desired state.resources address := by
  constructor
  · intro hnil address
    by_contra h
    obtain ⟨change, hchange, -⟩ := exists_change h
    rw [hnil] at hchange
    cases hchange
  · intro h
    rw [eq_nil_iff_forall_not_mem]
    intro change hchange
    exact (says_of_mem hchange).unsettled (h change.resource)

end Plans

/-! ### Classified and demoted plans -/

/-- The same change, perhaps with another disposition. -/
structure PlanChange.Same (change change' : PlanChange) : Prop where
  resource : change'.resource = change.resource
  operation : change'.operation = change.operation
  before : change'.beforeDigest = change.beforeDigest
  after : change'.afterDigest = change.afterDigest

lemma demote_same (failed : FailedGraphs) (dependencies : List Dependency) (change : PlanChange) :
    change.Same (demote failed dependencies change) := by
  unfold demote
  split_ifs
  · exact ⟨rfl, rfl, rfl, rfl⟩
  · split <;> exact ⟨rfl, rfl, rfl, rfl⟩

@[simp] lemma resource_demote (failed : FailedGraphs) (dependencies : List Dependency)
    (change : PlanChange) : (demote failed dependencies change).resource = change.resource :=
  (demote_same failed dependencies change).resource

lemma map_resource_demote (changes : List PlanChange) (failed : FailedGraphs)
    (dependencies : List Dependency) :
    (demoteDependentsOfFailedGraphs changes failed dependencies).map resource =
      changes.map resource := by
  rw [demoteDependentsOfFailedGraphs, List.map_map]
  exact map_congr_left fun change _ => resource_demote failed dependencies change

lemma PlanChange.Same.said {change change' : PlanChange} {desired : DesiredCluster}
    {resources : Resources} (h : change.Same change') (hsaid : change.Says desired resources) :
    change'.Says desired resources where
  before := by rw [h.before, h.resource, hsaid.before]
  after := by rw [h.after, h.resource, hsaid.after]
  create_iff := by rw [h.operation, h.resource, hsaid.create_iff]
  delete_iff := by rw [h.operation, h.resource, hsaid.delete_iff]
  unsettled := by rw [h.resource]; exact hsaid.unsettled

variable {dependencies : List Dependency}

/-- A change follows from others only if it updates a graph. -/
lemma classifyChange_derived {pendingRecovery approved : List String} {change : PlanChange}
    (h : (classifyChange changes dependencies pendingRecovery approved change).1 = .derived) :
    ∃ graphId, change.resource = graphAddress graphId ∧ change.operation = .update := by
  unfold classifyChange at h
  cases hkind : resourceKind change.resource with
  | graph graphId =>
    refine ⟨graphId, resourceKind_eq_graph_iff.mp hkind, ?_⟩
    rw [hkind] at h
    dsimp only at h
    cases hoperation : change.operation with
    | update => rfl
    | create =>
      simp only [hoperation, classifyGraph] at h
      split_ifs at h
    | delete =>
      simp only [hoperation, classifyGraph] at h
      split_ifs at h
  | schema graphId =>
    simp only [hkind, classifySchema] at h
    split at h <;> split_ifs at h
  | query graphId name =>
    simp only [hkind, classifyQuery] at h
    split at h <;> split_ifs at h
  | policy name =>
    simp only [hkind, classifyPolicy] at h
    split at h
    · cases h
    · split_ifs at h
    · split_ifs at h
  | embeddingProvider name =>
    rw [hkind] at h
    cases h
  | unknown =>
    rw [hkind] at h
    cases h

/-- The changes to a declared cluster, whatever became of them. -/
structure IsPlan (desired : DesiredCluster) (state : ClusterState) (changes : List PlanChange) :
    Prop where
  nodup : (changes.map resource).Nodup
  said : ∀ change ∈ changes, change.Says desired state.resources
  covers : ∀ address, ¬ AsDeclared desired state.resources address →
    ∃ change ∈ changes, change.resource = address
  derived : ∀ change ∈ changes, change.disposition = some .derived →
    ∃ graphId, change.resource = graphAddress graphId ∧ change.operation = .update

lemma isPlan_classify (desired : DesiredCluster) (state : ClusterState)
    (dependencies : List Dependency) (pendingRecovery approved : List String) :
    IsPlan desired state
      (classifyChanges (planChanges desired state) dependencies pendingRecovery approved) := by
  refine ⟨?_, ?_, ?_, ?_⟩
  · rw [classifyChanges, List.map_map]
    exact nodup_planChanges
  · intro change hchange
    obtain ⟨change, hmem, rfl⟩ := List.mem_map.mp hchange
    refine PlanChange.Same.said ?_ (says_of_mem hmem)
    exact ⟨rfl, rfl, rfl, rfl⟩
  · intro address h
    obtain ⟨change, hmem, hresource⟩ := exists_change h
    exact ⟨_, List.mem_map_of_mem hmem, hresource⟩
  · intro change hchange hderived
    obtain ⟨change, hmem, rfl⟩ := List.mem_map.mp hchange
    exact classifyChange_derived (Option.some.inj hderived)

lemma demote_derived {failed : FailedGraphs} {change : PlanChange}
    (h : (demote failed dependencies change).disposition = some .derived) :
    change.disposition = some .derived := by
  unfold demote at h
  split_ifs at h with happlied
  · exact h
  · split at h
    · cases h
    · exact h

lemma IsPlan.demote {desired : DesiredCluster} {state : ClusterState}
    (h : IsPlan desired state changes) (failed : FailedGraphs) (dependencies : List Dependency) :
    IsPlan desired state (demoteDependentsOfFailedGraphs changes failed dependencies) := by
  refine ⟨?_, ?_, ?_, ?_⟩
  · rw [map_resource_demote]
    exact h.nodup
  · intro change hchange
    obtain ⟨change, hmem, rfl⟩ := List.mem_map.mp hchange
    exact (demote_same failed dependencies change).said (h.said change hmem)
  · intro address haddress
    obtain ⟨change, hmem, hresource⟩ := h.covers address haddress
    exact ⟨_, List.mem_map_of_mem hmem, (resource_demote _ _ _).trans hresource⟩
  · intro change hchange hderived
    obtain ⟨change, hmem, rfl⟩ := List.mem_map.mp hchange
    obtain ⟨graphId, hresource, hoperation⟩ := h.derived change hmem (demote_derived hderived)
    exact ⟨graphId, (resource_demote _ _ _).trans hresource,
      (demote_same failed dependencies change).operation.trans hoperation⟩

end Omnigraph.Cluster
