import Omnigraph.Cluster.Store

/-!
# The recovery sweep

A command that writes the ledger first looks at the sidecars of interrupted operations. It compares
what each of them intended with what is recorded and with the graph itself, and either rolls the
ledger forward, retires the sidecar, or leaves it pending.
-/

namespace Omnigraph.Cluster

variable (hasher : Hasher)

/-! ### Outcomes -/

structure Sweep where
  state : ClusterState
  diagnostics : List Diagnostic
  /-- The graphs whose sidecar is kept. -/
  pendingGraphs : List String
  /-- The files of the sidecars whose outcome is recorded. -/
  completedSidecars : List String
  consumedApprovals : List String

namespace Sweep

variable (s : Sweep) (file : String) (sidecar : RecoverySidecar)

def complete : Sweep := { s with completedSidecars := s.completedSidecars ++ [file] }

def keepPending : Sweep := { s with pendingGraphs := s.pendingGraphs ++ [sidecar.graphId] }

def warn (code : String) : Sweep :=
  { s with diagnostics := s.diagnostics ++ [.warning code (graphAddress sidecar.graphId)] }

/-- Sets the status of a graph and of its schema. -/
def setStatuses (status : ResourceLifecycleStatus) (condition message : String) : Sweep :=
  { s with state := setResourceStatus (setResourceStatus s.state (graphAddress sidecar.graphId)
      status condition message) (schemaAddress sidecar.graphId) status condition message }

end Sweep

/-! ### Rows -/

/-- The entries of a graph whose live schema has this digest. -/
def recordLiveSchema (resources : Resources) (graphId liveDigest : String) : Resources :=
  let resources := resources.insert (schemaAddress graphId) { digest := liveDigest }
  let embeddingProvider := stateGraphEmbeddingProvider resources graphId
  let externalBlobPolicy := stateGraphExternalBlobPolicy resources graphId
  resources.insert (graphAddress graphId)
    { digest := compositeDigest hasher resources graphId embeddingProvider externalBlobPolicy
      embeddingProvider := embeddingProvider
      externalBlobPolicy := persistedExternalBlobPolicy externalBlobPolicy }

/-- The operation completed on the graph: the ledger is rolled forward. -/
def rollForward (env : Env) (file : String) (sidecar : RecoverySidecar) (liveDigest : String)
    (s : Sweep) : Sweep :=
  let state := s.state.setResources
    (recordLiveSchema hasher s.state.resources sidecar.graphId liveDigest)
  let state := setResourceStatusApplied
    (setResourceStatusApplied state (graphAddress sidecar.graphId)) (schemaAddress sidecar.graphId)
  let state := { state with
    recoveryRecords := state.recoveryRecords.insert sidecar.operationId
      { kind := sidecar.kind, graphId := sidecar.graphId, outcome := "rolled_forward"
        recoveredAt := env.now, actor := sidecar.actor } }
  ({ s with state := state }.warn sidecar "cluster_recovery_rolled_forward").complete file

/-- The live schema is the recorded one, the intended one, or neither. -/
def sweepLiveSchema (env : Env) (file : String) (sidecar : RecoverySidecar) (liveDigest : String)
    (s : Sweep) : Sweep :=
  if digestAt s.state.resources (schemaAddress sidecar.graphId) = some liveDigest then
    s.complete file
  else if liveDigest = sidecar.desiredSchemaDigest then
    rollForward hasher env file sidecar liveDigest s
  else ((s.setStatuses sidecar .drifted "actual_applied_state_pending"
    ("graph state does not match the interrupted operation; " ++
      "run `cluster refresh` and re-plan")).warn sidecar "cluster_recovery_pending").keepPending
        sidecar

def sweepGraphCreateSidecar (store : ClusterStore) (env : Env) (w : World) (file : String)
    (sidecar : RecoverySidecar) (s : Sweep) : Sweep :=
  if graphRootExists store w (env.ok (.probeRoot file)) sidecar.graphUri = false then
    s.complete file
  else match openReadOnly env w (.openSwept file) sidecar.graphUri with
    | some source => sweepLiveSchema hasher env file sidecar (hasher.sha256Hex source) s
    | none =>
      let s := s.setStatuses sidecar .error "graph_create_incomplete"
        ("graph root exists but cannot be opened; " ++
          "remove the graph root and re-run `cluster apply`")
      ({ s with diagnostics := s.diagnostics ++
          [.error "graph_create_incomplete" (graphAddress sidecar.graphId)] } : Sweep).keepPending
        sidecar

def sweepSchemaApplySidecar (env : Env) (w : World) (file : String) (sidecar : RecoverySidecar)
    (s : Sweep) : Sweep :=
  match openReadOnly env w (.openSwept file) sidecar.graphUri with
  | some source => sweepLiveSchema hasher env file sidecar (hasher.sha256Hex source) s
  | none => (s.warn sidecar "cluster_recovery_pending").keepPending sidecar

/-- Removes what is recorded of a graph, its schema and its queries. -/
def tombstoneResources (resources : Resources) (graphId : String) : Resources :=
  ((resources.erase (graphAddress graphId)).erase (schemaAddress graphId)).retain fun address =>
    (Prefixed.strip (queryPrefix graphId) address).isNone

def tombstoneGraphSubtree (env : Env) (state : ClusterState) (graphId : String)
    (approvalId actor : Option String) : ClusterState :=
  let statuses := (state.resourceStatuses.erase (graphAddress graphId)).erase
    (schemaAddress graphId)
  { state.setResources (tombstoneResources state.resources graphId) with
    resourceStatuses := statuses.retain fun address =>
      (Prefixed.strip (queryPrefix graphId) address).isNone
    observations := state.observations.insert (graphAddress graphId)
      (.tombstone env.now approvalId actor) }

def recordApprovalConsumed (env : Env) (state : ClusterState) (approvalId operationId : String) :
    ClusterState :=
  { state with approvalRecords :=
      state.approvalRecords.insert approvalId ⟨env.now, operationId⟩ }

/-- The graph is gone and the ledger does not say so. -/
def rollForwardDelete (env : Env) (file : String) (sidecar : RecoverySidecar) (s : Sweep) :
    Sweep :=
  let state := tombstoneGraphSubtree env s.state sidecar.graphId sidecar.approvalId sidecar.actor
  let state := { state with
    recoveryRecords := state.recoveryRecords.insert sidecar.operationId
      { kind := .graphDelete, graphId := sidecar.graphId, outcome := "rolled_forward"
        recoveredAt := env.now, actor := sidecar.actor } }
  let s := match sidecar.approvalId with
    | some approvalId =>
      { s with
        state := recordApprovalConsumed env state approvalId sidecar.operationId
        consumedApprovals := s.consumedApprovals ++ [approvalId] }
    | none => { s with state := state }
  (s.warn sidecar "cluster_recovery_rolled_forward").complete file

def sweepGraphDeleteSidecar (store : ClusterStore) (env : Env) (w : World) (file : String)
    (sidecar : RecoverySidecar) (s : Sweep) : Sweep :=
  if graphRootExists store w (env.ok (.probeRoot file)) sidecar.graphUri then
    (s.warn sidecar "graph_delete_incomplete").complete file
  else if graphAddress sidecar.graphId ∉ s.state.resources then s.complete file
  else rollForwardDelete env file sidecar s

/-! ### The sweep -/

def sweepSidecar (store : ClusterStore) (env : Env) (w : World) (s : Sweep)
    (entry : String × RecoverySidecar) : Sweep :=
  match entry.2.kind with
  | .graphCreate => sweepGraphCreateSidecar hasher store env w entry.1 entry.2 s
  | .schemaApply => sweepSchemaApplySidecar hasher env w entry.1 entry.2 s
  | .graphDelete => sweepGraphDeleteSidecar store env w entry.1 entry.2 s

def sweepRecoverySidecars (store : ClusterStore) (env : Env) (w : World) (state : ClusterState) :
    Sweep :=
  let listed := listRecoverySidecars env w
  listed.1.foldl (sweepSidecar hasher store env w)
    { state := state, diagnostics := listed.2, pendingGraphs := [], completedSidecars := []
      consumedApprovals := [] }

end Omnigraph.Cluster
