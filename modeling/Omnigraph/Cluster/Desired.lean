import Mathlib.Data.List.DropRight
import Omnigraph.Cluster.Ledger
import Omnigraph.Schema.Syntax

/-!
# The declared cluster

`cluster.yaml` declares graphs with their schemas and queries, embedding providers and policies.
Loading it reads the files it names and gives the digest of every resource, the dependencies
between resources, and what the ledger has to record besides digests.
-/

namespace Omnigraph.Cluster

open Schema (isWhiteSpace isBlank)

/-! ### The configuration file -/

inductive QueriesDecl
  | discover (path : String)
  | discoverMany (paths : List String)
  | explicit (queries : BTreeMap String String)

structure ExternalBlobBaseConfig where
  base : String
  scope : ExternalBlobExecutionScope

structure GraphConfig where
  schema : String
  queries : QueriesDecl
  embeddingProvider : Option String
  externalBlobs : List ExternalBlobBaseConfig

structure PolicyFileConfig where
  file : String
  appliesTo : List String

structure RawClusterConfig where
  version : ℕ
  metadataName : Option String
  storage : Option String
  stateBackend : Option String
  stateLock : Option Bool
  embedding : BTreeMap String EmbeddingProviderConfig
  graphs : BTreeMap String GraphConfig
  policies : BTreeMap String PolicyFileConfig

/-! ### The working tree -/

inductive DirListing
  | notADirectory
  | unreadable
  /-- The `.gq` files, in order. -/
  | entries (paths : List String)

/-- The runtime kind a policy bundle is checked for. -/
inductive PolicyBinding
  | server
  | graph (graphId : String)
  | unbound

/-- The files of the working tree, and the compilers that check them. -/
structure Loader where
  read : String → Option String
  listing : String → DirListing
  /-- The queries declared in a file. -/
  parseQuery : String → Option (List String)
  /-- The code of the error of a schema file, if there is one. -/
  schemaError : String → Option String
  /-- The query of this name in the second file is well typed for the schema in the first. -/
  typechecks : String → String → String → Bool
  policyValid : String → PolicyBinding → Bool
  providerErrors : String → EmbeddingProviderConfig → List Diagnostic
  normalizeBase : ExternalBlobBaseConfig → Option ExternalBlobBase
  allowPolicy : List ExternalBlobBase → Option ExternalBlobPolicy
  configJson : RawClusterConfig → String

variable (hasher : Hasher) (loader : Loader)

/-! ### What is declared -/

structure ResourceSummary where
  address : String
  kind : String
  digest : String
  path : Option String

structure Dependency where
  dependent : String
  target : String
deriving DecidableEq

structure DesiredGraph where
  id : String
  schemaDigest : String
  embeddingProvider : Option String
  externalBlobPolicy : ExternalBlobPolicy

structure DesiredCluster where
  configDigest : String
  stateLock : Bool
  embeddingProviders : BTreeMap String EmbeddingProviderConfig
  graphs : List DesiredGraph
  resourceDigests : BTreeMap String String
  resources : List ResourceSummary
  dependencies : List Dependency
  policyBindings : BTreeMap String (List String)

/-! ### Ids and the header -/

def validId (value : String) : Bool :=
  match value.toList with
  | [] => false
  | c :: rest => (c.isAlpha || c = '_') && rest.all fun c => c.isAlphanum || c = '_' || c = '-'

def validateId (path value : String) : List Diagnostic :=
  if validId value then [] else [.error "invalid_resource_id" path]

/-- The text of a storage root without the white space around it. -/
def trimmedRoot (s : String) : String :=
  String.ofList ((s.toList.dropWhile isWhiteSpace).rdropWhile isWhiteSpace)

def validateClusterHeader (raw : RawClusterConfig) : List Diagnostic :=
  (if raw.version ≠ 1 then [.error "unsupported_cluster_config_version" "version"] else []) ++
  (if raw.metadataName.any isBlank then
    [.error "empty_metadata_name" "metadata.name"] else []) ++
  (if raw.stateBackend.any fun backend => backend ≠ "cluster" then
    [.error "unsupported_state_backend" "state.backend"] else []) ++
  (match raw.storage.map trimmedRoot with
    | none => []
    | some trimmed =>
      if trimmed = "" then [.error "invalid_storage_root" "storage"]
      else match Prefixed.strip "s3://" trimmed with
        | some rest =>
          if rest.toList.all (· = '/') then [.error "invalid_storage_root" "storage"] else []
        | none => [])

/-! ### Graphs -/

def embeddingProviderDigests (raw : RawClusterConfig) : BTreeMap String String :=
  (∅ : BTreeMap String String).insertAll (fun provider => (embeddingProviderAddress provider.1,
    embeddingProviderDigest hasher provider.2)) raw.embedding.entries

/-- Where a graph's embedding provider is declared. -/
def normalizeEmbeddingProviderTarget (value : String) : Except String String :=
  match Prefixed.strip "provider.embedding." value with
  | some name => .ok name
  | none => if '.' ∈ value.toList then .error value else .ok value

def resolveEmbeddingProvider (raw : RawClusterConfig) (graphId : String)
    (reference : Option String) : Option String × List Diagnostic :=
  match reference.map normalizeEmbeddingProviderTarget with
  | none => (none, [])
  | some (.ok name) =>
    if name ∈ raw.embedding then (some (embeddingProviderAddress name), [])
    else (none, [.error "dangling_embedding_provider_reference"
      s!"graphs.{graphId}.embedding_provider"])
  | some (.error _) =>
    (none, [.error "wrong_kind_reference" s!"graphs.{graphId}.embedding_provider"])

def validateExternalBlobPolicy (graphId : String) (allow : List ExternalBlobBaseConfig) :
    ExternalBlobPolicy × List Diagnostic :=
  if allow = [] then (.deny, [])
  else
    let invalid := allow.zipIdx.filter fun configured =>
      (loader.normalizeBase configured.1).isNone
    if invalid ≠ [] then
      (.deny, invalid.map fun configured => .error "invalid_external_blob_base"
        s!"graphs.{graphId}.external_blobs.allow[{configured.2}].base")
    else match loader.allowPolicy (allow.filterMap loader.normalizeBase) with
      | some policy => (policy, [])
      | none => (.deny,
          [.error "invalid_external_blob_policy" s!"graphs.{graphId}.external_blobs.allow"])

/-- The files a query declaration stands for. -/
def queryFiles (graphId : String) (paths : List String) : List String × List Diagnostic :=
  paths.foldl (fun acc path => match loader.listing path with
    | .notADirectory => (acc.1 ++ [path], acc.2)
    | .unreadable =>
      (acc.1, acc.2 ++ [.error "query_dir_unreadable" s!"graphs.{graphId}.queries"])
    | .entries files => (acc.1 ++ files, acc.2 ++
        if files = [] then [.warning "query_dir_empty" s!"graphs.{graphId}.queries"] else []))
    ([], [])

def registerQuery (graphId file : String) (acc : BTreeMap String String × List Diagnostic)
    (name : String) : BTreeMap String String × List Diagnostic :=
  if name ∈ acc.1 then
    (acc.1, acc.2 ++ [.error "duplicate_query_name" s!"graphs.{graphId}.queries.{name}"])
  else (acc.1.insert name file, acc.2)

def discoverFile (graphId : String) (acc : BTreeMap String String × List Diagnostic)
    (file : String) : BTreeMap String String × List Diagnostic :=
  match loader.read file with
  | none => (acc.1, acc.2 ++ [.error "query_file_missing" s!"graphs.{graphId}.queries"])
  | some source => match loader.parseQuery source with
    | none => (acc.1, acc.2 ++ [.error "query_parse_error" s!"graphs.{graphId}.queries"])
    | some names => names.foldl (registerQuery graphId file) acc

/-- The file of each query of a graph. -/
def resolveQueryDecls (graphId : String) (decl : QueriesDecl) :
    BTreeMap String String × List Diagnostic :=
  match decl with
  | .explicit queries => (queries, [])
  | .discover path =>
    let files := queryFiles loader graphId [path]
    files.1.foldl (discoverFile loader graphId) (∅, files.2)
  | .discoverMany paths =>
    let files := queryFiles loader graphId paths
    files.1.foldl (discoverFile loader graphId) (∅, files.2)

/-- `schema` is the text of a schema without errors. -/
def validateQuerySource (graphId queryName source : String) (schema : Option String) :
    List Diagnostic :=
  let path := s!"graphs.{graphId}.queries.{queryName}"
  match loader.parseQuery source with
  | none => [.error "query_parse_error" path]
  | some names =>
    if queryName ∉ names then [.error "query_key_mismatch" path]
    else match schema with
      | none => [.warning "query_typecheck_skipped" path]
      | some schema =>
        if loader.typechecks schema queryName source then []
        else [.error "query_typecheck_error" path]

/-- The digest of each query whose file can be read. -/
def queryDigests (queries : BTreeMap String String) : BTreeMap String String :=
  (∅ : BTreeMap String String).insertAll id (queries.entries.filterMap fun query =>
    (loader.read query.2).map fun source => (query.1, hasher.sha256Hex source))

def querySummary (graphId : String) (query : String × String) : Option ResourceSummary :=
  (loader.read query.2).map fun source =>
    ⟨queryAddress graphId query.1, "query", hasher.sha256Hex source, some query.2⟩

def queryDiagnostics (graphId : String) (schema : Option String) (query : String × String) :
    List Diagnostic :=
  validateId s!"graphs.{graphId}.queries.{query.1}" query.1 ++
  match loader.read query.2 with
  | some source => validateQuerySource loader graphId query.1 source schema
  | none => [.error "query_file_missing" s!"graphs.{graphId}.queries.{query.1}.file"]

/-- What is loaded of one graph. -/
structure LoadedGraph where
  graph : DesiredGraph
  digest : String
  parts : List ResourceSummary
  dependencies : List Dependency
  diagnostics : List Diagnostic

def schemaDiagnostics (graphId : String) (source : Option String) : List Diagnostic :=
  match source with
  | none => [.error "schema_file_missing" s!"graphs.{graphId}.schema"]
  | some source => match loader.schemaError source with
    | some code => [.error code s!"graphs.{graphId}.schema"]
    | none => []

def loadGraph (raw : RawClusterConfig) (declared : String × GraphConfig) : LoadedGraph :=
  let graphId := declared.1
  let graph := declared.2
  let policy := validateExternalBlobPolicy loader graphId graph.externalBlobs
  let provider := resolveEmbeddingProvider raw graphId graph.embeddingProvider
  let source := loader.read graph.schema
  let schemaDigest := source.map hasher.sha256Hex
  let schema := source.filter fun source => (loader.schemaError source).isNone
  let queries := resolveQueryDecls loader graphId graph.queries
  { graph :=
      { id := graphId
        schemaDigest := schemaDigest.getD ""
        embeddingProvider := provider.1
        externalBlobPolicy := policy.1 }
    digest := graphDigestWithExternalBlobPolicy hasher graphId schemaDigest
      (queryDigests hasher loader queries.1) provider.1
      (provider.1.bind (embeddingProviderDigests hasher raw).lookup) policy.1
    parts := (schemaDigest.map fun digest =>
        ⟨schemaAddress graphId, "schema", digest, some graph.schema⟩).toList ++
      queries.1.entries.filterMap (querySummary hasher loader graphId)
    dependencies := ⟨schemaAddress graphId, graphAddress graphId⟩ ::
      (provider.1.map fun address => ⟨graphAddress graphId, address⟩).toList ++
      queries.1.entries.flatMap fun query =>
        [⟨queryAddress graphId query.1, graphAddress graphId⟩,
          ⟨queryAddress graphId query.1, schemaAddress graphId⟩]
    diagnostics := validateId s!"graphs.{graphId}" graphId ++ policy.2 ++ provider.2 ++
      schemaDiagnostics loader graphId source ++ queries.2 ++
      queries.1.entries.flatMap (queryDiagnostics loader graphId schema) }

/-! ### Policies -/

inductive PolicyTarget
  | cluster
  | graph (graphId : String)
  | wrongKind (kind : String)

def normalizePolicyTarget (value : String) : PolicyTarget :=
  if value = "cluster" then .cluster
  else match Prefixed.strip "graph." value with
    | some graphId => .graph graphId
    | none => if '.' ∈ value.toList then .wrongKind value else .graph value

/-- The binding a target stands for. -/
def PolicyTarget.binding : PolicyTarget → Option String
  | .cluster => some "cluster"
  | .graph graphId => some (graphAddress graphId)
  | .wrongKind _ => none

def PolicyTarget.graphId : PolicyTarget → Option String
  | .graph graphId => some graphId
  | _ => none

def normalizedBindings (policy : PolicyFileConfig) : List String :=
  Sorted.canonical id ((policy.appliesTo.map normalizePolicyTarget).filterMap
    PolicyTarget.binding)

def targetDiagnostics (raw : RawClusterConfig) (policyName : String)
    (target : PolicyTarget × ℕ) : List Diagnostic :=
  let path := s!"policies.{policyName}.applies_to[{target.2}]"
  match target.1 with
  | .cluster => []
  | .graph graphId =>
    if graphId ∈ raw.graphs then [] else [.error "dangling_graph_reference" path]
  | .wrongKind _ => [.error "wrong_kind_reference" path]

/-- The runtime kind a bundle with these targets is checked for. -/
def policyBinding (targets : List PolicyTarget) : PolicyBinding :=
  match decide (some "cluster" ∈ targets.map PolicyTarget.binding),
    (targets.filterMap PolicyTarget.graphId).head? with
  | true, none => .server
  | false, some graphId => .graph graphId
  | _, _ => .unbound

/-- What is loaded of one policy. -/
structure LoadedPolicy where
  address : String
  bindings : List String
  summary : Option ResourceSummary
  dependencies : List Dependency
  diagnostics : List Diagnostic

/-- A policy, where `owned` are the bindings of the policies before it. -/
def loadPolicy (raw : RawClusterConfig) (owned : List String)
    (declared : String × PolicyFileConfig) : LoadedPolicy :=
  let policyName := declared.1
  let policy := declared.2
  let targets := policy.appliesTo.map normalizePolicyTarget
  let bindings := normalizedBindings policy
  let binding := policyBinding targets
  { address := policyAddress policyName
    bindings := bindings
    summary := (loader.read policy.file).map fun source =>
      ⟨policyAddress policyName, "policy", hasher.sha256Hex source, some policy.file⟩
    dependencies := (targets.filterMap PolicyTarget.graphId).filterMap fun graphId =>
      if graphId ∈ raw.graphs then some ⟨policyAddress policyName, graphAddress graphId⟩ else none
    diagnostics := validateId s!"policies.{policyName}" policyName ++
      (if policy.appliesTo = [] then
        [.error "policy_missing_applies_to" s!"policies.{policyName}.applies_to"] else []) ++
      targets.zipIdx.flatMap (targetDiagnostics raw policyName) ++
      (if "cluster" ∈ bindings ∧ (targets.filterMap PolicyTarget.graphId) ≠ [] then
        [.error "policy_mixed_binding_kinds" s!"policies.{policyName}.applies_to"] else []) ++
      (bindings.filter fun b => b ∈ owned).map (fun _ =>
        .error "duplicate_policy_binding" s!"policies.{policyName}.applies_to") ++
      match loader.read policy.file with
      | none => [.error "policy_file_missing" s!"policies.{policyName}.file"]
      | some source =>
        if loader.policyValid source binding then []
        else [.error "policy_invalid" s!"policies.{policyName}.file"] }

def loadPolicies (raw : RawClusterConfig) :
    List String → List (String × PolicyFileConfig) → List LoadedPolicy
  | _, [] => []
  | owned, declared :: rest =>
    let policy := loadPolicy hasher loader raw owned declared
    policy :: loadPolicies raw (owned ++ policy.bindings) rest

/-! ### Everything that is declared -/

def providerSummary (provider : String × EmbeddingProviderConfig) : ResourceSummary :=
  ⟨embeddingProviderAddress provider.1, "embedding_provider",
    embeddingProviderDigest hasher provider.2, none⟩

def providerDiagnostics (provider : String × EmbeddingProviderConfig) : List Diagnostic :=
  validateId s!"providers.embedding.{provider.1}" provider.1 ++
    loader.providerErrors s!"providers.embedding.{provider.1}" provider.2

def graphSummary (graph : LoadedGraph) : ResourceSummary :=
  ⟨graphAddress graph.graph.id, "graph", graph.digest, none⟩

def desiredConfigDigest (raw : RawClusterConfig) (resourceDigests : BTreeMap String String) :
    String :=
  hasher.sha256Hex ("cluster-config\x00" ++ loader.configJson raw ++ "\x00" ++
    resourceDigests.entries.foldl
      (fun input e => input ++ e.1 ++ "\x00" ++ e.2 ++ "\x00") "")

/-- Every declared resource, in the order in which they are added. -/
def loadedResources (raw : RawClusterConfig) : List ResourceSummary :=
  let graphs := raw.graphs.entries.map (loadGraph hasher loader raw)
  raw.embedding.entries.map (providerSummary hasher) ++ graphs.flatMap LoadedGraph.parts ++
    graphs.map graphSummary ++
    (loadPolicies hasher loader raw [] raw.policies.entries).filterMap LoadedPolicy.summary

def loadDesired (raw : RawClusterConfig) : DesiredCluster × List Diagnostic :=
  let graphs := raw.graphs.entries.map (loadGraph hasher loader raw)
  let policies := loadPolicies hasher loader raw [] raw.policies.entries
  let resources := (∅ : BTreeMap String ResourceSummary).insertAll
    (fun resource => (resource.address, resource)) (loadedResources hasher loader raw)
  let resourceDigests := resources.mapValues ResourceSummary.digest
  ({ configDigest := desiredConfigDigest hasher loader raw resourceDigests
     stateLock := raw.stateLock.getD true
     embeddingProviders := (∅ : BTreeMap String EmbeddingProviderConfig).insertAll
      (fun provider => (embeddingProviderAddress provider.1, provider.2)) raw.embedding.entries
     graphs := graphs.map LoadedGraph.graph
     resourceDigests := resourceDigests
     resources := resources.entries.map Prod.snd
     dependencies := Sorted.canonical (fun d => toLex (d.dependent, d.target))
      (graphs.flatMap LoadedGraph.dependencies ++ policies.flatMap LoadedPolicy.dependencies)
     policyBindings := (∅ : BTreeMap String (List String)).insertAll
      (fun policy => (policy.address, policy.bindings)) policies },
    validateClusterHeader raw ++ raw.embedding.entries.flatMap (providerDiagnostics loader) ++
      graphs.flatMap LoadedGraph.diagnostics ++ policies.flatMap LoadedPolicy.diagnostics)

end Omnigraph.Cluster
