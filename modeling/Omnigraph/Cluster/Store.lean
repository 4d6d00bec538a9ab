import Omnigraph.Cluster.Plan
import Omnigraph.Lib.Crash

/-!
# What a cluster stores

The ledger, the recovery sidecars of operations that are under way, the approvals, the catalog
payloads and the graph roots. Each command is a program over them, and says which of its calls to
the storage and to the engine succeed.
-/

namespace Omnigraph.Cluster

/-! ### Roots -/

/-- The objects under a graph root, right under it and deeper, and the source of the live schema if
the graph can be opened. -/
structure GraphRoot where
  files : List String
  nested : List String
  schema : Option String

/-- The intent of an operation on a graph. -/
structure RecoverySidecar where
  operationId : String
  actor : Option String
  kind : RecoverySidecarKind
  graphId : String
  graphUri : String
  desiredSchemaDigest : String
  approvalId : Option String
deriving DecidableEq

inductive StorageKind
  | localFiles
  | s3

/-- The sidecars by the name of their file, the approvals by id, the payloads by path and the roots
by uri. -/
structure World where
  ledger : Option ClusterState
  sidecars : BTreeMap String RecoverySidecar
  approvals : BTreeMap String ApprovalArtifact
  payloads : BTreeMap String String
  roots : BTreeMap String GraphRoot

/-- Where the cluster is stored. -/
structure ClusterStore where
  kind : StorageKind
  root : String

def ClusterStore.graphRoot (store : ClusterStore) (graphId : String) : String :=
  store.root ++ "/graphs/" ++ graphId ++ ".omni"

/-! ### Calls that may fail -/

/-- A call of a command to the storage or to the engine. -/
inductive Io
  | acquireLock
  | readState
  | listSidecars
  /-- The listing of a root, for the sidecar in a file. -/
  | probeRoot (file : String)
  | openSwept (file : String)
  | listApprovals
  | writeApproval
  | writeSidecar (kind : RecoverySidecarKind) (graphId : String)
  /-- The second write of a sidecar, with the version that was reached. -/
  | pinSidecar (kind : RecoverySidecarKind) (graphId : String)
  | readSchemaSource (graphId : String)
  | initGraph (graphId : String)
  | openForUpdate (graphId : String)
  | previewUpdate (graphId : String)
  | applySchema (graphId : String)
  | confirmUnmoved (graphId : String)
  | dropSidecar (graphId : String)
  | excludeExport (graphId : String)
  | removeRoot (graphId : String)
  | writePayload (resource : String)
  | writeState
  | cleanSidecar (file : String)
  | listConsumed
  | markConsumed (approvalId : String)
  | readPayload (resource : String)
  | probeDeclared (graphId : String)
  | observe (graphId : String)
deriving DecidableEq

/-- The circumstances of one run of a command: which calls succeed, and what is drawn or read from
outside the store. -/
structure Env where
  ok : Io → Bool
  now : String
  actor : Option String
  operationId : RecoverySidecarKind → String → String
  /-- The text of the schema file of a graph when it is read again. -/
  schemaSource : String → String
  /-- The text of the file of a query or a policy when it is read again. -/
  payloadSource : String → String
  /-- The objects that `init` makes before the graph can be opened, and the ones it ends with. -/
  partialObjects : String → Option (List String × List String)
  nestedObjects : String → List String
  /-- The engine call had moved the graph when it failed. -/
  movedOnFailure : String → Bool
  /-- The order in which the objects of a root are removed. -/
  removalOrder : String → List String → List String
  /-- How many objects are removed before a removal fails. -/
  removedBeforeFailure : String → ℕ
  /-- A root that has lost this many objects can still be opened. -/
  survives : String → ℕ → Bool
  manifestVersion : String → ℕ
  observationError : String → String

/-- What the engine does with two schema sources. -/
structure Engine where
  /-- The migration plan from the first to the second has no steps. -/
  planIsEmpty : String → String → Bool

section Reading

variable (store : ClusterStore) (env : Env) (w : World)

/-- Whether a root is there, as far as a listing that succeeds or fails tells. -/
def graphRootExists (listed : Bool) (graphUri : String) : Bool :=
  match store.kind with
  | .localFiles => decide (graphUri ∈ w.roots)
  | .s3 => listed && (w.roots.lookup graphUri).any fun root => root.files ≠ []

/-- The source of the live schema of a graph that can be opened. -/
def liveSchema (graphUri : String) : Option String :=
  (w.roots.lookup graphUri).bind GraphRoot.schema

/-- What opening a graph gives. -/
def openReadOnly (call : Io) (graphUri : String) : Option String :=
  if env.ok call then liveSchema w graphUri else none

def listRecoverySidecars : List (String × RecoverySidecar) × List Diagnostic :=
  if env.ok .listSidecars then (w.sidecars.entries, [])
  else ([], [.warning "recovery_sidecar_read_error" "__cluster/recoveries"])

def listApprovalArtifacts (call : Io) : List ApprovalArtifact × List Diagnostic :=
  if env.ok call then (w.approvals.entries.map Prod.snd, [])
  else ([], [.warning "approval_read_error" "__cluster/approvals"])

/-- The catalog path of the payload of a query or a policy. -/
def payloadRelative (kind : ResourceKind) (digest : String) : Option String :=
  match kind with
  | .query graph name => some s!"__cluster/resources/query/{graph}/{name}/{digest}.gq"
  | .policy name => some s!"__cluster/resources/policy/{name}/{digest}.yaml"
  | _ => none

end Reading

end Omnigraph.Cluster
