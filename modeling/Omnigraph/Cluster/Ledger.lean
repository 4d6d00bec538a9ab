import Omnigraph.Cluster.Address
import Omnigraph.Lib.BTreeMap

/-!
# The cluster ledger

The ledger records the digest of every applied resource. The entry of a graph also records which
embedding provider and which external Blob policy it was applied with, and its digest binds them
together with the digests of its schema, its queries and its provider.
-/

namespace Omnigraph.Cluster

/-! ### Diagnostics -/

inductive DiagnosticSeverity
  | error
  | warning
deriving DecidableEq

structure Diagnostic where
  code : String
  severity : DiagnosticSeverity
  path : String

def Diagnostic.error (code path : String) : Diagnostic := ⟨code, .error, path⟩

def Diagnostic.warning (code path : String) : Diagnostic := ⟨code, .warning, path⟩

def hasErrors (diagnostics : List Diagnostic) : Bool :=
  diagnostics.any fun diagnostic => diagnostic.severity = .error

/-! ### Resources -/

inductive ExternalBlobExecutionScope
  | serverSafe
  | embeddedOnly
deriving DecidableEq, Repr

structure ExternalBlobBase where
  uri : String
  scope : ExternalBlobExecutionScope
deriving DecidableEq, Repr

inductive ExternalBlobPolicy
  | deny
  | allow (bases : List ExternalBlobBase)
deriving DecidableEq

structure EmbeddingProviderConfig where
  kind : Option String
  baseUrl : Option String
  model : Option String
  apiKey : Option String
deriving DecidableEq

/-- What the ledger records of a resource: the bindings of a policy, the provider and the external
Blob policy of a graph, the profile of an embedding provider. -/
structure StateResource where
  digest : String
  appliesTo : Option (List String) := none
  embeddingProvider : Option String := none
  embeddingProfile : Option EmbeddingProviderConfig := none
  externalBlobPolicy : Option ExternalBlobPolicy := none
deriving DecidableEq

inductive ResourceLifecycleStatus
  | pending
  | planned
  | applying
  | applied
  | drifted
  | blocked
  | error
deriving DecidableEq

structure ResourceStatusRecord where
  status : ResourceLifecycleStatus
  conditions : List String
  message : Option String
deriving DecidableEq

inductive RecoverySidecarKind
  | graphCreate
  | schemaApply
  | graphDelete
deriving DecidableEq

structure ApprovalRecord where
  consumedAt : String
  consumedByOperation : String
deriving DecidableEq

structure RecoveryRecord where
  kind : RecoverySidecarKind
  graphId : String
  outcome : String
  recoveredAt : String
  actor : Option String
deriving DecidableEq

/-- What was last seen of a graph. -/
inductive Observation
  | tombstone (deletedAt : String) (approvalId actor : Option String)
  | graph (address graphUri observedAt : String) (present : Bool) (manifestVersion : Option ℕ)
      (schemaDigest : Option String) (desiredSchemaDigest : String)
      (schemaMatchesDesired : Option Bool) (error : Option String)
deriving DecidableEq

abbrev Resources := BTreeMap String StateResource

structure AppliedRevisionState where
  configDigest : Option String
  resources : Resources
deriving DecidableEq

structure ClusterState where
  version : ℕ
  stateRevision : ℕ
  appliedRevision : AppliedRevisionState
  resourceStatuses : BTreeMap String ResourceStatusRecord
  approvalRecords : BTreeMap String ApprovalRecord
  recoveryRecords : BTreeMap String RecoveryRecord
  observations : BTreeMap String Observation
deriving DecidableEq

namespace ClusterState

def resources (state : ClusterState) : Resources := state.appliedRevision.resources

def setResources (state : ClusterState) (resources : Resources) : ClusterState :=
  { state with appliedRevision := { state.appliedRevision with resources := resources } }

/-- The ledger with the next revision. -/
def advanced (state : ClusterState) : ClusterState :=
  { state with stateRevision := min (state.stateRevision + 1) (2 ^ 64 - 1) }

def setStatus (state : ClusterState) (address : String) (record : ResourceStatusRecord) :
    ClusterState :=
  { state with resourceStatuses := state.resourceStatuses.insert address record }

end ClusterState

def setResourceStatusApplied (state : ClusterState) (address : String) : ClusterState :=
  state.setStatus address ⟨.applied, [], none⟩

def setResourceStatus (state : ClusterState) (address : String) (status : ResourceLifecycleStatus)
    (condition message : String) : ClusterState :=
  state.setStatus address ⟨status, [condition], some message⟩

/-! ### Digests -/

/-- SHA-256 in hexadecimal, and the texts that are hashed. -/
structure Hasher where
  sha256Hex : String → String
  policyJson : ExternalBlobPolicy → String
  profileJson : EmbeddingProviderConfig → String

variable (hasher : Hasher)

def queryDigestText (digests : BTreeMap String String) : String :=
  digests.entries.foldl
    (fun input e => input ++ "query\x00" ++ e.1 ++ "\x00" ++ e.2 ++ "\x00") ""

/-- The text whose hash is the digest of a graph. -/
def graphDigestText (graphId : String) (schemaDigest : Option String)
    (queryDigests : BTreeMap String String) (embeddingProvider : Option String)
    (embeddingProviderDigest : Option String) (externalBlobPolicy : ExternalBlobPolicy) : String :=
  "graph\x00" ++ graphId ++ "\x00schema\x00" ++ schemaDigest.getD "" ++ "\x00" ++
    queryDigestText queryDigests ++
    (match embeddingProvider with
      | some provider => "embedding_provider\x00" ++ provider ++ "\x00" ++
          embeddingProviderDigest.getD "" ++ "\x00"
      | none => "") ++
    (match externalBlobPolicy with
      | .deny => ""
      | .allow _ => "external_blob_policy\x00" ++ hasher.policyJson externalBlobPolicy ++ "\x00")

def graphDigestWithExternalBlobPolicy (graphId : String) (schemaDigest : Option String)
    (queryDigests : BTreeMap String String) (embeddingProvider : Option String)
    (embeddingProviderDigest : Option String) (externalBlobPolicy : ExternalBlobPolicy) : String :=
  hasher.sha256Hex (graphDigestText hasher graphId schemaDigest queryDigests embeddingProvider
    embeddingProviderDigest externalBlobPolicy)

def embeddingProviderDigest (profile : EmbeddingProviderConfig) : String :=
  hasher.sha256Hex ("embedding-provider\x00" ++ hasher.profileJson profile)

/-- The policy as the ledger records it. -/
def persistedExternalBlobPolicy (policy : ExternalBlobPolicy) : Option ExternalBlobPolicy :=
  match policy with
  | .deny => none
  | .allow bases => some (.allow bases)

@[simp] lemma getD_persistedExternalBlobPolicy (policy : ExternalBlobPolicy) :
    (persistedExternalBlobPolicy policy).getD .deny = policy := by
  cases policy <;> rfl

/-! ### Reading the ledger -/

def stateResourceDigests (state : ClusterState) : BTreeMap String String :=
  state.resources.mapValues StateResource.digest

/-- The digest recorded under an address. -/
def digestAt (resources : Resources) (address : String) : Option String :=
  (resources.lookup address).map StateResource.digest

def stateQueryDigestsForGraph (resources : Resources) (graphId : String) :
    BTreeMap String String :=
  (∅ : BTreeMap String String).insertAll id (resources.entries.filterMap fun e =>
    (Prefixed.strip (queryPrefix graphId) e.1).map fun name => (name, e.2.digest))

def stateGraphEmbeddingProvider (resources : Resources) (graphId : String) : Option String :=
  (resources.lookup (graphAddress graphId)).bind StateResource.embeddingProvider

def stateGraphExternalBlobPolicy (resources : Resources) (graphId : String) :
    ExternalBlobPolicy :=
  ((resources.lookup (graphAddress graphId)).bind StateResource.externalBlobPolicy).getD .deny

def stateEmbeddingProviderDigest (resources : Resources) (embeddingProvider : Option String) :
    Option String :=
  embeddingProvider.bind (digestAt resources)

/-- The digest of a graph with this provider and policy, from what is recorded of its schema, its
queries and the provider. -/
def compositeDigest (resources : Resources) (graphId : String) (embeddingProvider : Option String)
    (externalBlobPolicy : ExternalBlobPolicy) : String :=
  graphDigestWithExternalBlobPolicy hasher graphId (digestAt resources (schemaAddress graphId))
    (stateQueryDigestsForGraph resources graphId) embeddingProvider
    (stateEmbeddingProviderDigest resources embeddingProvider) externalBlobPolicy

def expectedStateGraphResourceDigest (resources : Resources) (graphId : String)
    (graphResource : StateResource) : String :=
  compositeDigest hasher resources graphId graphResource.embeddingProvider
    (graphResource.externalBlobPolicy.getD .deny)

/-- One error for each graph whose entry is not bound by its digest. -/
def validateStateGraphResourceDigests (state : ClusterState) : List Diagnostic :=
  state.resources.entries.filterMap fun e =>
    match resourceKind e.1 with
    | .graph graphId =>
      if expectedStateGraphResourceDigest hasher state.resources graphId e.2 ≠ e.2.digest then
        some (.error "external_blob_policy_digest_mismatch" e.1)
      else none
    | _ => none

/-- The digest of a graph's entry binds it. -/
def Bound (resources : Resources) (graphId : String) : Prop :=
  ∀ entry ∈ resources.lookup (graphAddress graphId),
    expectedStateGraphResourceDigest hasher resources graphId entry = entry.digest

/-- Every graph recorded is bound. -/
def Valid (resources : Resources) : Prop := ∀ graphId, Bound hasher resources graphId

/-! ### Lookups -/

lemma lookup_stateResourceDigests (state : ClusterState) (address : String) :
    (stateResourceDigests state).lookup address = digestAt state.resources address :=
  BTreeMap.lookup_mapValues _ _ _

lemma lookup_stateQueryDigestsForGraph (resources : Resources) (graphId name : String) :
    (stateQueryDigestsForGraph resources graphId).lookup name =
      digestAt resources (queryPrefix graphId ++ name) := by
  set l := resources.entries.filterMap fun e =>
    (Prefixed.strip (queryPrefix graphId) e.1).map fun name => (name, e.2.digest) with hl
  have hmem : ∀ name digest, (name, digest) ∈ l ↔
      digestAt resources (queryPrefix graphId ++ name) = some digest := by
    intro name digest
    simp only [hl, List.mem_filterMap, Option.map_eq_some_iff, Prefixed.strip_eq_some_iff,
      digestAt, BTreeMap.lookup_eq_some_iff]
    constructor
    · rintro ⟨e, he, _, hname, heq⟩
      cases heq
      exact ⟨e.2, by rw [← hname]; exact he, rfl⟩
    · rintro ⟨entry, he, rfl⟩
      exact ⟨_, he, name, rfl, rfl⟩
  have hinj : ∀ a ∈ l, ∀ b ∈ l, a.1 = b.1 → a.2 = b.2 := by
    intro a ha b hb hab
    have ha' := (hmem a.1 a.2).mp ha
    rw [hab, (hmem b.1 b.2).mp hb] at ha'
    exact (Option.some.inj ha').symm
  apply Option.ext
  intro digest
  rw [← hmem]
  exact BTreeMap.lookup_insertAll_id hinj

/-- The digest of a graph depends on the digests recorded for its parts. -/
lemma compositeDigest_congr {resources resources' : Resources} {graphId : String}
    {embeddingProvider : Option String} (externalBlobPolicy : ExternalBlobPolicy)
    (hschema : digestAt resources' (schemaAddress graphId) =
      digestAt resources (schemaAddress graphId))
    (hquery : ∀ name, digestAt resources' (queryPrefix graphId ++ name) =
      digestAt resources (queryPrefix graphId ++ name))
    (hprovider : ∀ provider ∈ embeddingProvider,
      digestAt resources' provider = digestAt resources provider) :
    compositeDigest hasher resources' graphId embeddingProvider externalBlobPolicy =
      compositeDigest hasher resources graphId embeddingProvider externalBlobPolicy := by
  have hqueries : stateQueryDigestsForGraph resources' graphId =
      stateQueryDigestsForGraph resources graphId := by
    ext1 name
    rw [lookup_stateQueryDigestsForGraph, lookup_stateQueryDigestsForGraph, hquery]
  have hdigest : stateEmbeddingProviderDigest resources' embeddingProvider =
      stateEmbeddingProviderDigest resources embeddingProvider := by
    cases embeddingProvider with
    | none => rfl
    | some provider => exact hprovider provider rfl
  rw [compositeDigest, compositeDigest, hschema, hqueries, hdigest]

lemma validate_eq_nil_iff {state : ClusterState} :
    validateStateGraphResourceDigests hasher state = [] ↔ Valid hasher state.resources := by
  rw [validateStateGraphResourceDigests, List.filterMap_eq_nil_iff]
  constructor
  · intro h graphId entry hentry
    have := h _ (BTreeMap.lookup_eq_some_iff.mp hentry)
    simpa using this
  · rintro h ⟨address, entry⟩ hmem
    dsimp only
    split
    · next graphId hkind =>
      cases resourceKind_eq_graph_iff.mp hkind
      rw [if_neg (not_not.mpr (h graphId entry (BTreeMap.lookup_eq_some_iff.mpr hmem)))]
    · rfl

end Omnigraph.Cluster
