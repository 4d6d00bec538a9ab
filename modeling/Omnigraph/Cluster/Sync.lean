import Omnigraph.Cluster.Apply

/-!
# Refresh, import and approve

`cluster refresh` sweeps, drops the digests of payloads that are lost, looks at every declared
graph and writes what it found. `cluster import` does the same for a ledger that is not there yet.
`cluster approve` writes an approval for a change that needs one.
-/

namespace Omnigraph.Cluster

open Durable (read write fail)

variable (hasher : Hasher) (store : ClusterStore) (env : Env) (desired : DesiredCluster)

/-! ### Payloads -/

inductive PayloadFinding
  | missing
  | mismatch
  | readError
deriving DecidableEq

/-- What is wrong with the payload of a resource. -/
def payloadFinding (w : World) (entry : String × StateResource) : Option PayloadFinding :=
  match payloadRelative (resourceKind entry.1) entry.2.digest with
  | none => none
  | some path =>
    if env.ok (.readPayload entry.1) = false then some .readError
    else match w.payloads.lookup path with
      | none => some .missing
      | some text => if hasher.sha256Hex text ≠ entry.2.digest then some .mismatch else none

def verifyCatalogPayloads (w : World) (state : ClusterState) : List (String × PayloadFinding) :=
  state.resources.entries.filterMap fun entry =>
    (payloadFinding hasher env w entry).map fun finding => (entry.1, finding)

def payloadFindingDiagnostic (found : String × PayloadFinding) : Diagnostic :=
  match found.2 with
  | .missing => .warning "catalog_payload_missing" found.1
  | .mismatch => .warning "catalog_payload_mismatch" found.1
  | .readError => .error "catalog_payload_read_error" found.1

/-- A lost payload is not recorded any more, so that the next apply publishes it again. -/
def recordFinding (state : ClusterState) (found : String × PayloadFinding) : ClusterState :=
  match found.2 with
  | .missing => setResourceStatus (state.setResources (state.resources.erase found.1)) found.1
      .drifted "payload_missing"
      "catalog payload blob is missing; re-run `cluster apply` to republish"
  | .mismatch => setResourceStatus (state.setResources (state.resources.erase found.1)) found.1
      .drifted "payload_mismatch"
      ("catalog payload blob does not match the recorded digest; " ++
        "re-run `cluster apply` to republish")
  | .readError => setResourceStatus state found.1 .error "payload_read_error"
      "could not read catalog payload"

/-! ### Declared graphs -/

/-- What is found of a declared graph: nothing, its schema, or a root that does not open. -/
inductive GraphFinding
  | missing
  | live (source : String)
  | failed

def observeGraph (w : World) (graphId : String) : GraphFinding :=
  let graphUri := store.graphRoot graphId
  if graphRootExists store w (env.ok (.probeDeclared graphId)) graphUri = false then .missing
  else match openReadOnly env w (.observe graphId) graphUri with
    | some source => .live source
    | none => .failed

/-- Sets the status of a graph and of its schema. -/
def setGraphStatuses (state : ClusterState) (graphId : String) (status : ResourceLifecycleStatus)
    (condition message : String) : ClusterState :=
  setResourceStatus (setResourceStatus state (graphAddress graphId) status condition message)
    (schemaAddress graphId) status condition message

def setObservation (state : ClusterState) (address : String) (observation : Observation) :
    ClusterState :=
  { state with observations := state.observations.insert address observation }

/-- The entries after a declared graph was looked at. -/
def observedResources (resources : Resources) (graphId : String) :
    GraphFinding → Resources
  | .missing => (resources.erase (graphAddress graphId)).erase (schemaAddress graphId)
  | .live source => recordLiveSchema hasher resources graphId (hasher.sha256Hex source)
  | .failed => resources

def recordObserved (graph : DesiredGraph) (finding : GraphFinding) (state : ClusterState) :
    ClusterState :=
  let address := graphAddress graph.id
  let graphUri := store.graphRoot graph.id
  let state := state.setResources (observedResources hasher state.resources graph.id finding)
  match finding with
  | .missing =>
    setGraphStatuses (setObservation state address (.graph address graphUri env.now false none none
      graph.schemaDigest (some false) (some "derived graph root is missing"))) graph.id .drifted
      "graph_missing" "derived graph root is missing"
  | .live source =>
    let live := hasher.sha256Hex source
    let state := setObservation state address (.graph address graphUri env.now true
      (some (env.manifestVersion graph.id)) (some live) graph.schemaDigest
      (some (live = graph.schemaDigest)) none)
    if live = graph.schemaDigest then
      setResourceStatusApplied (setResourceStatusApplied state address) (schemaAddress graph.id)
    else setGraphStatuses state graph.id .drifted "schema_mismatch"
      "live schema digest differs from desired schema digest"
  | .failed =>
    setGraphStatuses (setObservation state address (.graph address graphUri env.now true none none
      graph.schemaDigest none (some (env.observationError graph.id)))) graph.id .error
      "graph_observation_error" (env.observationError graph.id)

def observeDeclaredGraphs (w : World) (state : ClusterState) : ClusterState :=
  desired.graphs.foldl (fun state graph =>
    recordObserved hasher store env graph (observeGraph store env w graph.id) state) state

def graphErrorCount (w : World) : ℕ :=
  desired.graphs.countP fun graph => match observeGraph store env w graph.id with
    | .failed => true
    | _ => false

/-! ### Refresh and import -/

inductive StateSyncOperation
  | refresh
  | imported
deriving DecidableEq

structure StateSyncOutput where
  diagnostics : List Diagnostic
  state : Option ClusterState := none

abbrev Sync (α : Type) := Durable World StateSyncOutput α

def initialImportState : ClusterState where
  version := 1
  stateRevision := 0
  appliedRevision := ⟨some desired.configDigest, ∅⟩
  resourceStatuses := ∅
  approvalRecords := ∅
  recoveryRecords := ∅
  observations := ∅

/-- The ledger that is synchronised. -/
def syncedState (operation : StateSyncOperation) (w : World) :
    Except StateSyncOutput ClusterState :=
  if desired.stateLock && !env.ok .acquireLock then
    .error { diagnostics := [.error "state_lock_held" "__cluster/lock.json"] }
  else if env.ok .readState = false then
    .error { diagnostics := [.error "state_read_error" "__cluster/state.json"] }
  else match operation, w.ledger with
    | .refresh, some state =>
      if validateStateGraphResourceDigests hasher state ≠ [] then
        .error { diagnostics := validateStateGraphResourceDigests hasher state, state := state }
      else .ok state
    | .refresh, none =>
      .error { diagnostics := [.error "state_missing" "__cluster/state.json"] }
    | .imported, some state =>
      .error { diagnostics := [.error "state_already_exists" "__cluster/state.json"]
               state := state }
    | .imported, none => .ok (initialImportState desired)

/-- The ledger after the sweep, the check of the payloads and the observation of the graphs. -/
def refreshed (w : World) (sweep : Sweep) : ClusterState :=
  observeDeclaredGraphs hasher store env desired w
    ((verifyCatalogPayloads hasher env w sweep.state).foldl recordFinding sweep.state)

def syncDiagnostics (w : World) (sweep : Sweep) : List Diagnostic :=
  sweep.diagnostics ++
    (verifyCatalogPayloads hasher env w sweep.state).map payloadFindingDiagnostic ++
    if graphErrorCount store env desired w > 0 then
      [.error "graph_observation_error" "graphs"] else []

def nextRevision (operation : StateSyncOperation) (state : ClusterState) : ClusterState :=
  match operation with
  | .imported => { state with stateRevision := 1 }
  | .refresh => state.advanced

/-- Writes the ledger, and retires what it records. -/
def finishSync (sweep : Sweep) (diagnostics : List Diagnostic) (next : ClusterState) :
    Sync StateSyncOutput := do
  if env.ok .writeState then
    write fun w => { w with ledger := some next }
    cleanSidecars env sweep.completedSidecars
    markApprovalsConsumed env sweep.consumedApprovals
    return { diagnostics := diagnostics, state := some next }
  else
    let error := .error "state_write_error" "__cluster/state.json"
    return { diagnostics := diagnostics ++ [error], state := some next }

def syncConfigDir (operation : StateSyncOperation) : Sync StateSyncOutput := do
  let state ← read (syncedState hasher env desired operation)
  let w ← read .ok
  let sweep := sweepRecoverySidecars hasher store env w state
  let diagnostics := syncDiagnostics hasher store env desired w sweep
  let next := refreshed hasher store env desired w sweep
  if operation = .imported && hasErrors diagnostics then
    fail { diagnostics := diagnostics, state := some next }
  else finishSync env sweep diagnostics (nextRevision operation next)

/-! ### Plan and approve -/

structure PlanOutput where
  changes : List PlanChange
  approvalsRequired : List ApprovalRequirement
  diagnostics : List Diagnostic

/-- What is reported before the ledger is compared. -/
def planDiagnostics (w : World) : List Diagnostic :=
  let locked := if desired.stateLock && !env.ok .acquireLock then
    [.error "state_lock_held" "__cluster/lock.json"] else []
  let listed := listRecoverySidecars env w
  let pending := listed.1.map fun entry => .warning "cluster_recovery_pending" entry.1
  let unread := if env.ok .readState = false ∧ hasErrors locked = false then
    [.error "state_read_error" "__cluster/state.json"] else []
  locked ++ listed.2 ++ pending ++ unread

/-- The changes to the declared cluster, with the dispositions an apply would give them if no
recovery were pending. -/
def planConfigDir (w : World) : PlanOutput :=
  let diagnostics := planDiagnostics env desired w
  let changes := if hasErrors diagnostics then [] else match w.ledger with
    | some state => planChanges desired state
    | none => diffResources ∅ desired.resourceDigests
  let artifacts := listApprovalArtifacts env w .listApprovals
  let approved := approvedResources artifacts.1 changes desired.configDigest
  let changes := classifyChanges changes desired.dependencies [] approved.1
  { changes := changes
    approvalsRequired := computeApprovals changes approved.1
    diagnostics := diagnostics ++ artifacts.2 ++ approved.2 }

abbrev Approve (α : Type) := Durable World (List Diagnostic) α

/-- The change of a resource that needs an approval. -/
def gatedChange (state : ClusterState) (resource : String) : Option PlanChange :=
  let changes := diffResources (stateResourceDigests state) desired.resourceDigests
  let gates := computeApprovals changes []
  changes.find? fun change => change.resource = resource &&
    gates.any fun gate => gate.resource = resource

def approvableState (w : World) : Except (List Diagnostic) ClusterState :=
  if env.ok .readState = false then .error [.error "state_read_error" "__cluster/state.json"]
  else match w.ledger with
    | none => .error [.error "state_missing" "__cluster/state.json"]
    | some state => .ok state

/-- Writes the approval `approvalId` for the change of a resource. -/
def approveConfigDir (approvalId resource : String) : Approve ApprovalArtifact := do
  if desired.stateLock && !env.ok .acquireLock then
    fail [.error "state_lock_held" "__cluster/lock.json"]
  let state ← read (approvableState env)
  match gatedChange desired state resource with
  | none => fail [.error "approval_not_required" resource]
  | some change =>
    let artifact : ApprovalArtifact := {
      approvalId := approvalId
      resource := change.resource
      boundConfigDigest := desired.configDigest
      boundBeforeDigest := change.beforeDigest
      boundAfterDigest := change.afterDigest
      consumedAt := none }
    if env.ok .writeApproval then
      write fun w => { w with approvals := w.approvals.insert approvalId artifact }
      return artifact
    else fail [.error "approval_write_error" approvalId]

end Omnigraph.Cluster
