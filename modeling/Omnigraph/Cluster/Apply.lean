import Omnigraph.Cluster.Sweep

/-!
# Apply

`cluster apply` sweeps, plans, and runs the operations on graphs: creates, schema applies and, after
the catalog payloads are written, approved deletes. Each is fenced by a sidecar. Then it writes the
ledger and retires the sidecars and the approvals that were used.
-/

namespace Omnigraph.Cluster

open Durable (read write fail lift)

variable (hasher : Hasher) (engine : Engine) (store : ClusterStore) (env : Env)
  (desired : DesiredCluster)

/-! ### Outcomes -/

structure ApplyOutput where
  diagnostics : List Diagnostic
  changes : List PlanChange := []
  appliedCount : ℕ := 0
  deferredCount : ℕ := 0
  converged : Bool := false
  stateWritten : Bool := false
  stateWriteFailed : Bool := false
  resourceStatuses : BTreeMap String ResourceStatusRecord := ∅
  /-- The graphs with a pending recovery, and the ones an operation failed on. -/
  pendingGraphs : List String := []
  failedGraphs : FailedGraphs := ∅

def ApplyOutput.ok (output : ApplyOutput) : Bool := !hasErrors output.diagnostics

/-- A part of an apply, which ends the run early with an output. -/
abbrev Apply (α : Type) := Durable World ApplyOutput α

/-- What the operations on graphs have come to. -/
structure GraphMoves where
  diagnostics : List Diagnostic := []
  completedSidecars : List String := []
  failed : FailedGraphs := ∅
  aborted : Bool := false

namespace GraphMoves

variable (moves : GraphMoves)

def report (diagnostic : Diagnostic) : GraphMoves :=
  { moves with diagnostics := moves.diagnostics ++ [diagnostic] }

def failWith (code address graphId : String) (origin : FailedGraphOrigin) : GraphMoves :=
  { moves.report (.error code address) with
    failed := moves.failed.insert graphId origin, aborted := true }

def skip (code address graphId : String) (origin : FailedGraphOrigin) : GraphMoves :=
  { moves.report (.warning code address) with failed := moves.failed.insert graphId origin }

def completed (operationId : String) : GraphMoves :=
  { moves with completedSidecars := moves.completedSidecars ++ [operationId] }

end GraphMoves

/-! ### Steps -/

def writeRecoverySidecar (sidecar : RecoverySidecar) : Apply Unit :=
  write fun w => { w with sidecars := w.sidecars.insert sidecar.operationId sidecar }

def deleteSidecar {ε : Type} (operationId : String) : Durable World ε Unit :=
  write fun w => { w with sidecars := w.sidecars.erase operationId }

def setRoot (graphUri : String) (root : GraphRoot) : Apply Unit :=
  write fun w => { w with roots := w.roots.insert graphUri root }

/-- A best-effort step. -/
def attempt {ε : Type} (call : Io) (step : Durable World ε Unit) : Durable World ε Unit :=
  if env.ok call then step else pure ()

def newSidecar (kind : RecoverySidecarKind) (graphId desiredSchemaDigest : String)
    (approvalId : Option String) : RecoverySidecar where
  operationId := env.operationId kind graphId
  actor := env.actor
  kind := kind
  graphId := graphId
  graphUri := store.graphRoot graphId
  desiredSchemaDigest := desiredSchemaDigest
  approvalId := approvalId

def sourcePath (address : String) : Option String :=
  (desired.resources.find? fun resource => resource.address = address).bind ResourceSummary.path

/-- Where the failed write of a sidecar is reported. -/
def sidecarAddress (kind : RecoverySidecarKind) (graphId : String) : String :=
  s!"__cluster/recoveries/{env.operationId kind graphId}.json"

/-- Reads a schema source again; it has to have the digest it was planned with. -/
def verifiedSchemaSource (graph : DesiredGraph) (code address : String) :
    Except (String × String) String :=
  if (sourcePath desired (schemaAddress graph.id)).isNone then .error (code, address)
  else if env.ok (.readSchemaSource graph.id) = false then .error (code, address)
  else if hasher.sha256Hex (env.schemaSource graph.id) = graph.schemaDigest then
    .ok (env.schemaSource graph.id)
  else .error ("resource_content_changed", schemaAddress graph.id)

/-! ### Graph creates -/

/-- The objects that are made before the graph is complete, besides the ones that are there. -/
def beginGraph (graphId source : String) (leftover : List String) : Apply Unit :=
  match env.partialObjects graphId with
  | some objects => setRoot (store.graphRoot graphId) ⟨objects.1, leftover ++ objects.2,
      if !env.ok (.initGraph graphId) && env.movedOnFailure graphId then some source else none⟩
  | none => pure ()

/-- `Omnigraph::init`, which refuses a root with schema files; says whether it succeeded. -/
def initGraph (graphId source : String) : Apply Bool := do
  let root ← read fun w => .ok (w.roots.lookup (store.graphRoot graphId))
  if root.any fun root => root.files ≠ [] then return false
  let leftover := (root.map GraphRoot.nested).getD []
  beginGraph store env graphId source leftover
  if env.ok (.initGraph graphId) then
    setRoot (store.graphRoot graphId)
      ⟨["_schema.pg"], leftover ++ env.nestedObjects graphId, some source⟩
    return true
  else return false

/-- The second write of a sidecar only reports its failure. -/
def pinSidecar (kind : RecoverySidecarKind) (graphId : String) (moves : GraphMoves) : GraphMoves :=
  if env.ok (.pinSidecar kind graphId) then moves
  else moves.report (.error "recovery_sidecar_write_error" (sidecarAddress env kind graphId))

def createFenced (graph : DesiredGraph) (sidecar : RecoverySidecar) (moves : GraphMoves) :
    Apply GraphMoves := do
  writeRecoverySidecar sidecar
  match verifiedSchemaSource hasher env desired graph "graph_create_failed"
    (graphAddress graph.id) with
  | .error (code, address) =>
    attempt env (.dropSidecar graph.id) (deleteSidecar sidecar.operationId)
    return moves.failWith code address graph.id .graphCreate
  | .ok source =>
    let created ← initGraph store env graph.id source
    if created then
      return (pinSidecar env .graphCreate graph.id moves).completed sidecar.operationId
    else return moves.failWith "graph_create_failed" (graphAddress graph.id) graph.id .graphCreate

def createGraph (moves : GraphMoves) (graphId : String) : Apply GraphMoves :=
  if moves.aborted then
    pure (moves.skip "graph_create_skipped" (graphAddress graphId) graphId .graphCreate)
  else match desired.graphs.find? fun graph => graph.id = graphId with
    | none => pure moves
    | some graph =>
      if env.ok (.writeSidecar .graphCreate graphId) then
        createFenced hasher store env desired graph
          (newSidecar store env .graphCreate graphId graph.schemaDigest none) moves
      else pure (moves.failWith "recovery_sidecar_write_error"
        (sidecarAddress env .graphCreate graphId) graphId .graphCreate)

/-! ### Schema applies -/

def moveSchema (graphUri source : String) : Apply Unit :=
  write fun w => match w.roots.lookup graphUri with
    | some root => { w with roots := w.roots.insert graphUri { root with schema := some source } }
    | none => w

/-- The graph is found as it was before the apply failed. -/
def foundUnmoved (recorded : Option String) (sidecar : RecoverySidecar) (w : World) : Bool :=
  let live := (openReadOnly env w (.confirmUnmoved sidecar.graphId) sidecar.graphUri).map
    hasher.sha256Hex
  live.isSome && live = recorded && !env.movedOnFailure sidecar.graphId

/-- A sidecar is dropped if nothing has moved. -/
def dropUnmoved (recorded : Option String) (sidecar : RecoverySidecar) (moves : GraphMoves) :
    Apply GraphMoves := do
  let unmoved ← read fun w => .ok (foundUnmoved hasher env recorded sidecar w)
  if unmoved = false then return moves
  else if env.ok (.dropSidecar sidecar.graphId) then
    deleteSidecar sidecar.operationId
    return moves
  else
    let warning := .warning "recovery_sidecar_cleanup_failed" (schemaAddress sidecar.graphId)
    return moves.report warning

/-- What `apply_schema_as` does to a graph with the schema `live`; a plan without steps changes
nothing. -/
def applySchema (live source : String) (sidecar : RecoverySidecar) : Apply Unit :=
  if env.ok (.applySchema sidecar.graphId) then
    if engine.planIsEmpty live source then pure () else moveSchema sidecar.graphUri source
  else if env.movedOnFailure sidecar.graphId then moveSchema sidecar.graphUri source
  else pure ()

def updateFenced (recorded : Option String) (live source : String) (sidecar : RecoverySidecar)
    (moves : GraphMoves) : Apply GraphMoves := do
  writeRecoverySidecar sidecar
  applySchema engine env live source sidecar
  if env.ok (.applySchema sidecar.graphId) then
    return (pinSidecar env .schemaApply sidecar.graphId moves).completed sidecar.operationId
  else
    let moves ← dropUnmoved hasher env recorded sidecar moves
    let address := schemaAddress sidecar.graphId
    return moves.failWith "schema_apply_failed" address sidecar.graphId .schemaApply

/-- A schema apply on a graph that was opened with the schema `opened`. -/
def updateOpened (resources : Resources) (graph : DesiredGraph) (moves : GraphMoves)
    (opened : Option String) : Apply GraphMoves :=
  let address := schemaAddress graph.id
  let failed (code address : String) : Apply GraphMoves :=
    pure (moves.failWith code address graph.id .schemaApply)
  match opened, verifiedSchemaSource hasher env desired graph "schema_apply_failed" address with
  | none, _ => failed "schema_apply_failed" address
  | some _, .error (code, address) => failed code address
  | some live, .ok source =>
    if env.ok (.previewUpdate graph.id) = false then failed "schema_apply_failed" address
    else if env.ok (.writeSidecar .schemaApply graph.id) = false then
      failed "recovery_sidecar_write_error" (sidecarAddress env .schemaApply graph.id)
    else updateFenced hasher engine env (digestAt resources (schemaAddress graph.id)) live source
      (newSidecar store env .schemaApply graph.id graph.schemaDigest none) moves

def updateSchema (resources : Resources) (moves : GraphMoves) (graphId : String) :
    Apply GraphMoves :=
  if moves.aborted then
    pure (moves.skip "schema_apply_skipped" (schemaAddress graphId) graphId .schemaApply)
  else match desired.graphs.find? fun graph => graph.id = graphId with
    | none => pure moves
    | some graph => do
      let opened ← read fun w =>
        .ok (openReadOnly env w (.openForUpdate graphId) (store.graphRoot graphId))
      updateOpened hasher engine store env desired resources graph moves opened

/-! ### Graph deletes -/

/-- The root without one of its objects. -/
def GraphRoot.without (root : GraphRoot) (object : String) (survives : Bool) : GraphRoot where
  files := root.files.erase object
  nested := root.nested.erase object
  schema := if survives && decide (root.files.erase object ≠ []) then root.schema else none

def removeObject (graphUri object : String) (survives : Bool) : Apply Unit :=
  write fun w => match w.roots.lookup graphUri with
    | some root => { w with roots := w.roots.insert graphUri (root.without object survives) }
    | none => w

def removeObjects (graphId graphUri : String) (objects : List String × ℕ) : Apply Unit :=
  (objects.1.zipIdx.take objects.2).forM fun object =>
    removeObject graphUri object.1 (env.survives graphId object.2)

/-- `delete_prefix`, which removes the objects one after the other; says whether it succeeded. -/
def deleteGraphRoot (graphId : String) : Apply Bool := do
  let graphUri := store.graphRoot graphId
  let root ← read fun w => .ok (w.roots.lookup graphUri)
  let objects := env.removalOrder graphId
    ((root.map fun root => root.files ++ root.nested).getD [])
  if env.ok (.removeRoot graphId) then
    removeObjects env graphId graphUri (objects, objects.length)
    write fun w => { w with roots := w.roots.erase graphUri }
    return true
  else
    removeObjects env graphId graphUri (objects, env.removedBeforeFailure graphId)
    return false

/-- The graphs that were removed, with the approvals that were found for them. -/
structure Deletes where
  moves : GraphMoves
  executed : List (String × Option String) := []

/-- The approval that a delete is recorded to consume. -/
def consumableApproval (approvals : List ApprovalArtifact) (graphId : String) : Option String :=
  (approvals.find? fun artifact => artifact.pendingFor (graphAddress graphId) &&
    artifact.boundConfigDigest = desired.configDigest).map ApprovalArtifact.approvalId

def Deletes.failWith (deletes : Deletes) (code address graphId : String) : Deletes :=
  { deletes with
    moves := deletes.moves.failWith code address graphId .graphDelete }

def deleteFenced (sidecar : RecoverySidecar) (deletes : Deletes) : Apply Deletes := do
  writeRecoverySidecar sidecar
  let removed ← deleteGraphRoot store env sidecar.graphId
  if removed then
    let moves := deletes.moves.completed sidecar.operationId
    return ⟨moves, deletes.executed ++ [(sidecar.graphId, sidecar.approvalId)]⟩
  else return deletes.failWith "graph_delete_failed" (graphAddress sidecar.graphId) sidecar.graphId

def deleteGraph (approvals : List ApprovalArtifact) (deletes : Deletes) (graphId : String) :
    Apply Deletes :=
  if deletes.moves.aborted then
    pure { deletes with moves :=
      deletes.moves.skip "graph_delete_skipped" (graphAddress graphId) graphId .graphDelete }
  else if env.ok (.excludeExport graphId) = false then
    pure (deletes.failWith "graph_delete_export_in_progress" (graphAddress graphId) graphId)
  else if env.ok (.writeSidecar .graphDelete graphId) = false then
    pure (deletes.failWith "recovery_sidecar_write_error"
      (sidecarAddress env .graphDelete graphId) graphId)
  else deleteFenced store env (newSidecar store env .graphDelete graphId ""
    (consumableApproval desired approvals graphId)) deletes

/-! ### Payloads -/

/-- Writes one payload of the catalog, and gives the error if that fails. -/
def writeResourcePayload (path digest resource : String) : Apply (List Diagnostic) := do
  let present ← read fun w => .ok (decide (path ∈ w.payloads))
  if present then return []
  else if hasher.sha256Hex (env.payloadSource resource) ≠ digest then
    return [.error "resource_content_changed" resource]
  else if env.ok (.writePayload resource) then
    write fun w => { w with payloads := w.payloads.insert path (env.payloadSource resource) }
    return []
  else return [.error "resource_payload_write_error" resource]

def writePayload (change : PlanChange) : Apply (List Diagnostic) :=
  let digest := change.afterDigest.getD ""
  if change.disposition ≠ some .applied ∨ change.operation = .delete then pure []
  else match payloadRelative (resourceKind change.resource) digest with
    | none => pure []
    | some path =>
      if (sourcePath desired change.resource).isNone then
        pure [.error "resource_payload_write_error" change.resource]
      else writeResourcePayload hasher env path digest change.resource

def writePayloads (changes : List PlanChange) : Apply (List Diagnostic) :=
  changes.foldlM (fun diagnostics change => do
    let errors ← writePayload hasher env desired change
    return diagnostics ++ errors) []

/-! ### The new ledger -/

def applyChange (state : ClusterState) (change : PlanChange) : ClusterState :=
  match change.disposition, change.operation with
  | some .applied, .delete =>
    { state.setResources (state.resources.erase change.resource) with
      resourceStatuses := state.resourceStatuses.erase change.resource }
  | some .applied, _ =>
    setResourceStatusApplied (state.setResources (state.resources.insert change.resource
      { digest := change.afterDigest.getD ""
        appliesTo := desired.policyBindings.lookup change.resource
        embeddingProfile := desired.embeddingProviders.lookup change.resource })) change.resource
  | some .blocked, _ =>
    if change.reason = recoveryPending then state
    else setResourceStatus state change.resource .blocked
      (change.reason.getD "dependency_not_applied")
      "waiting on an unapplied or missing dependency"
  | _, _ => state

/-- What was removed is recorded, with the approval that is consumed. -/
def recordDelete (state : ClusterState) (deleted : String × Option String) : ClusterState :=
  let state := tombstoneGraphSubtree env state deleted.1 deleted.2 env.actor
  match deleted.2 with
  | some approvalId => recordApprovalConsumed env state approvalId "apply"
  | none => state

/-- The change of the graph, or of its schema, is blocked. -/
def graphChangeBlocked (changes : List PlanChange) (graphId : String) : Bool :=
  changes.any fun change => change.disposition = some .blocked &&
    (resourceKind change.resource = .graph graphId ||
      resourceKind change.resource = .schema graphId)

/-- The entry of one declared graph, from what is recorded of its parts. -/
def recomputeGraph (changes : List PlanChange) (state : ClusterState) (graph : DesiredGraph) :
    ClusterState :=
  if graphAddress graph.id ∉ state.resources then state
  else
    let externalBlobPolicy := if graphChangeBlocked changes graph.id then
      stateGraphExternalBlobPolicy state.resources graph.id else graph.externalBlobPolicy
    state.setResources (state.resources.insert (graphAddress graph.id)
      { digest := compositeDigest hasher state.resources graph.id graph.embeddingProvider
          externalBlobPolicy
        embeddingProvider := graph.embeddingProvider
        externalBlobPolicy := persistedExternalBlobPolicy externalBlobPolicy })

def recomputeStateGraphDigests (state : ClusterState) (changes : List PlanChange) :
    ClusterState :=
  desired.graphs.foldl (recomputeGraph hasher changes) state

/-- The ledger after the changes and the deletes of a run. -/
def settle (state : ClusterState) (changes : List PlanChange)
    (executed : List (String × Option String)) : ClusterState :=
  recomputeStateGraphDigests hasher desired
    (executed.foldl (recordDelete env) (changes.foldl (applyChange desired) state)) changes

/-- Every change from a ledger to the declared cluster. -/
def planChanges (state : ClusterState) : List PlanChange :=
  appendEmbeddingProfileChanges (appendPolicyBindingChanges
    (diffResources (stateResourceDigests state) desired.resourceDigests) (some state) desired)
    (some state) desired

/-- The ledger that a run ends with, and whether nothing is left to change. -/
def converge (state : ClusterState) : ClusterState × Bool :=
  if planChanges desired state = [] then
    ({ state with appliedRevision :=
        { state.appliedRevision with configDigest := some desired.configDigest } }, true)
  else (state, false)

/-! ### The run -/

def operationsOf (operation : PlanOperation) (pre : String) (changes : List PlanChange) :
    List String :=
  (changes.filter fun change => change.disposition = some .applied ∧
    change.operation = operation).filterMap fun change => Prefixed.strip pre change.resource

/-- Something that needs an approval is about to be applied without one. -/
def approvalViolation (changes : List PlanChange) (approvals : List ApprovalRequirement) : Bool :=
  changes.any fun change => change.disposition = some .applied &&
    approvals.any fun approval => approval.resource = change.resource && !approval.satisfied

def changeWarning (change : PlanChange) : Option Diagnostic :=
  match change.disposition with
  | some .deferred => some (.warning "apply_unsupported_change" change.resource)
  | some .blocked => some (.warning "apply_dependency_blocked" change.resource)
  | _ => none

/-- Writes the ledger if it changed; says whether it was written and whether that failed. -/
def writeState (before after : ClusterState) : Apply (Bool × Bool) := do
  if after = before then return (false, false)
  else if env.ok .writeState then
    write fun w => { w with ledger := some after.advanced }
    return (true, false)
  else return (false, true)

def markApproval {ε : Type} (approvalIds : List String) (artifact : ApprovalArtifact) :
    Durable World ε Unit :=
  if artifact.approvalId ∈ approvalIds ∧ artifact.consumedAt = none then
    let consumed := { artifact with consumedAt := some env.now }
    attempt env (.markConsumed artifact.approvalId)
      (write fun w => { w with approvals := w.approvals.insert artifact.approvalId consumed })
  else pure ()

def markApprovalsConsumed {ε : Type} (approvalIds : List String) : Durable World ε Unit :=
  if approvalIds = [] then pure ()
  else do
    let artifacts ← read fun w => .ok (listApprovalArtifacts env w .listConsumed).1
    artifacts.forM (markApproval env approvalIds)

def cleanSidecars {ε : Type} (operationIds : List String) : Durable World ε Unit :=
  operationIds.forM fun operationId =>
    attempt env (.cleanSidecar operationId) (deleteSidecar operationId)

/-- What a run knows when its graph operations begin. -/
structure Planned where
  before : ClusterState
  sweep : Sweep
  approvals : List ApprovalArtifact
  changes : List PlanChange
  diagnostics : List Diagnostic

/-- The ledger under the lock. -/
def appliedState (w : World) : Except ApplyOutput ClusterState :=
  if desired.stateLock && !env.ok .acquireLock then
    .error { diagnostics := [.error "state_lock_held" "__cluster/lock.json"] }
  else if env.ok .readState = false then
    .error { diagnostics := [.error "state_read_error" "__cluster/state.json"] }
  else match w.ledger with
    | none => .error { diagnostics := [.error "state_missing" "__cluster/state.json"] }
    | some state =>
      if validateStateGraphResourceDigests hasher state ≠ [] then
        .error {
          diagnostics := validateStateGraphResourceDigests hasher state
          resourceStatuses := state.resourceStatuses }
      else .ok state

/-- The sweep and the classified plan. -/
def planApply (w : World) (state : ClusterState) : Except ApplyOutput Planned :=
  let sweep := sweepRecoverySidecars hasher store env w state
  let artifacts := listApprovalArtifacts env w .listApprovals
  let changes := planChanges desired sweep.state
  let approved := approvedResources artifacts.1 changes desired.configDigest
  let changes := classifyChanges changes desired.dependencies sweep.pendingGraphs approved.1
  let diagnostics := sweep.diagnostics ++ artifacts.2 ++ approved.2
  if approvalViolation changes (computeApprovals changes approved.1) then
    .error {
      diagnostics := diagnostics ++ [.error "apply_approval_invariant_violation" "changes"]
      changes := changes
      resourceStatuses := sweep.state.resourceStatuses }
  else .ok ⟨state, sweep, artifacts.1, changes, diagnostics⟩

def prepareApply : Apply Planned := read fun w => do
  let state ← appliedState hasher env desired w
  planApply hasher store env desired w state

/-- The graph operations and the payloads; gives the demoted changes. -/
def moveGraphs (planned : Planned) : Apply (List PlanChange × Deletes) := do
  let moves ← (operationsOf .create "graph." planned.changes).foldlM
    (createGraph hasher store env desired) {}
  let moves ← (operationsOf .update "schema." planned.changes).foldlM
    (updateSchema hasher engine store env desired planned.sweep.state.resources) moves
  let changes := demoteDependentsOfFailedGraphs planned.changes moves.failed desired.dependencies
  let diagnostics := planned.diagnostics ++ moves.diagnostics ++ changes.filterMap changeWarning
  let errors ← writePayloads hasher env desired changes
  if errors ≠ [] then
    fail {
      diagnostics := diagnostics ++ errors
      changes := changes
      resourceStatuses := planned.sweep.state.resourceStatuses }
  let deletes ← (operationsOf .delete "graph." changes).foldlM
    (deleteGraph store env desired planned.approvals)
    ⟨{ moves with diagnostics := diagnostics }, []⟩
  return (demoteDependentsOfFailedGraphs changes deletes.moves.failed desired.dependencies, deletes)

/-- Retires what a ledger that was written records. -/
def retire (written : Bool × Bool) (operationIds approvalIds : List String) : Apply Unit :=
  if written.2 then pure ()
  else do
    cleanSidecars env operationIds
    markApprovalsConsumed env approvalIds

/-- Writes the ledger, and retires what it records. -/
def finishApply (planned : Planned) (changes : List PlanChange) (deletes : Deletes) :
    Apply ApplyOutput := do
  let settled := settle hasher env desired planned.sweep.state changes deletes.executed
  let result := converge desired settled
  let written ← writeState env planned.before result.1
  retire env written (planned.sweep.completedSidecars ++ deletes.moves.completedSidecars)
    (planned.sweep.consumedApprovals ++ deletes.executed.filterMap Prod.snd)
  return {
    diagnostics := deletes.moves.diagnostics ++
      if written.2 then [.error "state_write_error" "__cluster/state.json"] else []
    changes := changes
    appliedCount := changes.countP fun change => change.disposition = some .applied
    deferredCount := changes.countP fun change =>
      change.disposition = some .deferred ∨ change.disposition = some .blocked
    converged := result.2
    stateWritten := written.1
    stateWriteFailed := written.2
    resourceStatuses := if written.2 then planned.sweep.state.resourceStatuses
      else result.1.resourceStatuses
    pendingGraphs := planned.sweep.pendingGraphs
    failedGraphs := deletes.moves.failed }

def applyConfigDir : Apply ApplyOutput := do
  let planned ← prepareApply hasher store env desired
  let moved ← moveGraphs hasher engine store env desired planned
  finishApply hasher env desired planned moved.1 moved.2

end Omnigraph.Cluster
