import Omnigraph.Cluster.Desired

/-!
# Plans

A plan is the list of changes from the ledger to the declared cluster. Each change is classified:
it is applied, it follows from others, it is blocked by something that is not applied, or it is
left to a later stage. When an operation on a graph fails, the changes that depend on it are
demoted.
-/

namespace Omnigraph.Cluster

/-! ### Changes -/

inductive PlanOperation
  | create
  | update
  | delete
deriving DecidableEq

inductive ApplyDisposition
  | applied
  | derived
  | deferred
  | blocked
deriving DecidableEq

inductive PlanMetadataChange
  | policyBindings
  | embeddingProfile
deriving DecidableEq

structure PlanChange where
  resource : String
  operation : PlanOperation
  beforeDigest : Option String
  afterDigest : Option String
  disposition : Option ApplyDisposition := none
  reason : Option String := none
  bindingChange : Bool := false
  metadataChange : Option PlanMetadataChange := none

/-- The change to a declared resource, if there is one. -/
def declaredChange (prior : BTreeMap String String) (declared : String × String) :
    Option PlanChange :=
  match prior.lookup declared.1 with
  | none => some {
      resource := declared.1, operation := .create, beforeDigest := none,
      afterDigest := some declared.2 }
  | some before =>
    if before ≠ declared.2 then some {
      resource := declared.1, operation := .update, beforeDigest := some before,
      afterDigest := some declared.2 }
    else none

/-- The removal of a resource that is not declared. -/
def droppedChange (desired : BTreeMap String String) (recorded : String × String) :
    Option PlanChange :=
  if recorded.1 ∈ desired then none
  else some {
    resource := recorded.1, operation := .delete, beforeDigest := some recorded.2,
    afterDigest := none }

def sortChanges (changes : List PlanChange) : List PlanChange :=
  Sorted.sortOn PlanChange.resource changes

def diffResources (prior desired : BTreeMap String String) : List PlanChange :=
  sortChanges (desired.entries.filterMap (declaredChange prior) ++
    prior.entries.filterMap (droppedChange desired))

/-! ### Changes of metadata only -/

section Metadata

variable {α : Type} (kind : PlanMetadataChange) (recorded : StateResource → Option α)
  (resources : Resources)

/-- The change of what is recorded beside the digest, unless there already is a change of the
resource or it is not applied yet. -/
def metadataStep [DecidableEq α] (changes : List PlanChange) (declared : String × α) :
    List PlanChange :=
  if changes.any fun change => change.resource = declared.1 then changes
  else match resources.lookup declared.1 with
    | none => changes
    | some entry =>
      if recorded entry = some declared.2 then changes
      else changes ++ [{
        resource := declared.1, operation := .update, beforeDigest := some entry.digest,
        afterDigest := some entry.digest, bindingChange := kind = .policyBindings,
        metadataChange := some kind }]

def appendMetadataChanges [DecidableEq α] (changes : List PlanChange)
    (declared : BTreeMap String α) : List PlanChange :=
  sortChanges (declared.entries.foldl (metadataStep kind recorded resources) changes)

end Metadata

def appendPolicyBindingChanges (changes : List PlanChange) (priorState : Option ClusterState)
    (desired : DesiredCluster) : List PlanChange :=
  match priorState with
  | none => changes
  | some state => appendMetadataChanges .policyBindings StateResource.appliesTo state.resources
      changes desired.policyBindings

def appendEmbeddingProfileChanges (changes : List PlanChange) (priorState : Option ClusterState)
    (desired : DesiredCluster) : List PlanChange :=
  match priorState with
  | none => changes
  | some state => appendMetadataChanges .embeddingProfile StateResource.embeddingProfile
      state.resources changes desired.embeddingProviders

/-! ### Approvals -/

structure ApprovalArtifact where
  approvalId : String
  resource : String
  boundConfigDigest : String
  boundBeforeDigest : Option String
  boundAfterDigest : Option String
  consumedAt : Option String
deriving DecidableEq

structure ApprovalRequirement where
  resource : String
  satisfied : Bool

def PlanChange.isDelete (change : PlanChange) : Bool := change.operation = .delete

/-- One requirement for each graph that is deleted, and for each schema that is deleted without
its graph. -/
def computeApprovals (changes : List PlanChange) (approved : List String) :
    List ApprovalRequirement :=
  let graphDeletes := (changes.filter PlanChange.isDelete).filterMap fun change =>
    Prefixed.strip "graph." change.resource
  (changes.filter PlanChange.isDelete).filterMap fun change =>
    let gated := match resourceKind change.resource with
      | .graph _ => true
      | .schema graph => graph ∉ graphDeletes
      | _ => false
    if gated then some ⟨change.resource, change.resource ∈ approved⟩ else none

/-- An artifact for the resource that is not consumed. -/
def ApprovalArtifact.pendingFor (artifact : ApprovalArtifact) (resource : String) : Bool :=
  artifact.consumedAt = none && artifact.resource = resource

/-- The artifact is bound to this change of this configuration. -/
def ApprovalArtifact.boundTo (artifact : ApprovalArtifact) (change : PlanChange)
    (configDigest : String) : Bool :=
  artifact.boundConfigDigest = configDigest && artifact.boundBeforeDigest = change.beforeDigest &&
    artifact.boundAfterDigest = change.afterDigest

def isApproved (artifacts : List ApprovalArtifact) (configDigest : String) (change : PlanChange) :
    Bool :=
  artifacts.any fun artifact =>
    artifact.pendingFor change.resource && artifact.boundTo change configDigest

/-- The resources with an approval for their change, and warnings about approvals for another
change. -/
def approvedResources (artifacts : List ApprovalArtifact) (changes : List PlanChange)
    (configDigest : String) : List String × List Diagnostic :=
  ((changes.filter (isApproved artifacts configDigest)).map PlanChange.resource,
    (changes.filter fun change =>
      (artifacts.any fun artifact => artifact.pendingFor change.resource) &&
        !isApproved artifacts configDigest change).map fun change =>
      .warning "approval_stale" change.resource)

/-! ### Classification -/

def recoveryPending : Option String := some "cluster_recovery_pending"

def dependencyNotApplied : Option String := some "dependency_not_applied"

section Classify

variable (changes : List PlanChange) (dependencies : List Dependency)
  (pendingRecovery approved : List String)

/-- Some change of this kind makes, changes or removes a resource of this kind. -/
def hasChange (operation : PlanOperation) (kind : ResourceKind) : Bool :=
  changes.any fun change => change.operation = operation && resourceKind change.resource = kind

/-- The schema of the graph is not applied in this run. -/
def schemaPending (graph : String) : Bool :=
  hasChange changes .delete (.schema graph) ||
    (hasChange changes .create (.schema graph) && !hasChange changes .create (.graph graph))

/-- The subtree of the graph goes with its approved delete. -/
def ridesApprovedDelete (graph : String) : Bool :=
  hasChange changes .delete (.graph graph) && decide (graphAddress graph ∈ approved) &&
    decide (graph ∉ pendingRecovery)

def classifySchema (graph : String) :
    PlanOperation → ApplyDisposition × Option String
  | .create =>
    if hasChange changes .create (.graph graph) && decide (graph ∉ pendingRecovery) then
      (.applied, none)
    else (.blocked, recoveryPending)
  | .update => if graph ∉ pendingRecovery then (.applied, none) else (.blocked, recoveryPending)
  | .delete =>
    if hasChange changes .delete (.graph graph) then
      if ridesApprovedDelete changes pendingRecovery approved graph then (.applied, none)
      else if graph ∈ pendingRecovery then (.blocked, recoveryPending)
      else (.blocked, some "approval_required")
    else (.deferred, some "apply_unsupported_kind")

def classifyGraph (graph : String) : PlanOperation → ApplyDisposition × Option String
  | .create => if graph ∈ pendingRecovery then (.blocked, recoveryPending) else (.applied, none)
  | .update =>
    if schemaPending changes graph then (.deferred, some "apply_unsupported_kind")
    else (.derived, none)
  | .delete =>
    if graph ∈ pendingRecovery then (.blocked, recoveryPending)
    else if ridesApprovedDelete changes pendingRecovery approved graph then (.applied, none)
    else (.blocked, some "approval_required")

def classifyQuery (graph : String) : PlanOperation → ApplyDisposition × Option String
  | .delete =>
    if ridesApprovedDelete changes pendingRecovery approved graph then (.applied, none)
    else if hasChange changes .delete (.graph graph) then (.blocked, some "approval_required")
    else (.applied, none)
  | .create | .update =>
    if graph ∈ pendingRecovery then (.blocked, recoveryPending)
    else if schemaPending changes graph then (.blocked, dependencyNotApplied)
    else (.applied, none)

/-- The resource depends on one of these graphs. -/
def dependsOn (graphs : List String) (resource : String) : Bool :=
  dependencies.any fun dep => dep.dependent = resource &&
    (Prefixed.strip "graph." dep.target).any fun graph => graph ∈ graphs

def classifyPolicy (resource : String) : PlanOperation → ApplyDisposition × Option String
  | .delete => (.applied, none)
  | .create | .update =>
    if dependsOn dependencies pendingRecovery resource then (.blocked, recoveryPending)
    else (.applied, none)

def classifyChange (change : PlanChange) : ApplyDisposition × Option String :=
  match resourceKind change.resource with
  | .schema graph => classifySchema changes pendingRecovery approved graph change.operation
  | .graph graph => classifyGraph changes pendingRecovery approved graph change.operation
  | .query graph _ => classifyQuery changes pendingRecovery approved graph change.operation
  | .policy _ => classifyPolicy dependencies pendingRecovery change.resource change.operation
  | .embeddingProvider _ => (.applied, none)
  | .unknown => (.deferred, some "apply_unsupported_kind")

def classified (change : PlanChange) : PlanChange :=
  { change with
    disposition := some (classifyChange changes dependencies pendingRecovery approved change).1
    reason := (classifyChange changes dependencies pendingRecovery approved change).2 }

def classifyChanges : List PlanChange :=
  changes.map (classified changes dependencies pendingRecovery approved)

end Classify

/-! ### Demotion -/

inductive FailedGraphOrigin
  | graphCreate
  | schemaApply
  | graphDelete
deriving DecidableEq

abbrev FailedGraphs := BTreeMap String FailedGraphOrigin

def demoteReason (failed : FailedGraphs) (dependencies : List Dependency) (resource : String) :
    Option String :=
  match resourceKind resource with
  | .graph graph => (failed.lookup graph).map fun
    | .graphCreate => "graph_create_failed"
    | .graphDelete => "graph_delete_failed"
    | .schemaApply => "dependency_not_applied"
  | .schema graph => (failed.lookup graph).map fun
    | .schemaApply => "schema_apply_failed"
    | .graphCreate | .graphDelete => "dependency_not_applied"
  | .query graph _ => if graph ∈ failed then dependencyNotApplied else none
  | .policy _ =>
    if dependsOn dependencies failed.keys resource then dependencyNotApplied else none
  | _ => none

def demote (failed : FailedGraphs) (dependencies : List Dependency) (change : PlanChange) :
    PlanChange :=
  if change.disposition ≠ some .applied then change
  else match demoteReason failed dependencies change.resource with
    | some reason => { change with disposition := some .blocked, reason := some reason }
    | none => change

def demoteDependentsOfFailedGraphs (changes : List PlanChange) (failed : FailedGraphs)
    (dependencies : List Dependency) : List PlanChange :=
  changes.map (demote failed dependencies)

end Omnigraph.Cluster
