import Omnigraph.Lib.Result
import Omnigraph.Schema.Syntax

/-!
# The policy engine

A policy file grants actions to groups of actors, each rule possibly only on branches that are
protected or only on branches that are not. It is compiled to permits, one for each action of each
rule; a request is allowed if some permit covers it.
-/

namespace Omnigraph.Policy

open List

open Schema (isBlank)

/-! ### The policy file -/

inductive PolicyAction
  | read
  | export
  | change
  | schemaApply
  | branchCreate
  | branchDelete
  | branchMerge
  | admin
  | graphList
  | invokeQuery
deriving DecidableEq

inductive PolicyResourceKind
  | graph
  | server
deriving DecidableEq

namespace PolicyAction

def asStr : PolicyAction → String
  | read => "read"
  | .export => "export"
  | change => "change"
  | schemaApply => "schema_apply"
  | branchCreate => "branch_create"
  | branchDelete => "branch_delete"
  | branchMerge => "branch_merge"
  | admin => "admin"
  | graphList => "graph_list"
  | invokeQuery => "invoke_query"

def usesBranchScope : PolicyAction → Bool
  | read | .export | change => true
  | _ => false

def usesTargetBranchScope : PolicyAction → Bool
  | branchCreate | schemaApply | branchDelete | branchMerge => true
  | _ => false

def resourceKind : PolicyAction → PolicyResourceKind
  | graphList => .server
  | _ => .graph

end PolicyAction

inductive PolicyBranchScope
  | any
  | protectedOnly
  | unprotectedOnly

/-- `allow: { actors: { group }, actions, branch_scope, target_branch_scope }` -/
structure PolicyAllowRule where
  group : String
  actions : List PolicyAction
  branchScope : Option PolicyBranchScope
  targetBranchScope : Option PolicyBranchScope

structure PolicyRule where
  id : String
  allow : PolicyAllowRule

structure PolicyConfig where
  version : ℕ
  groups : HashMap String (List String)
  protectedBranches : List String
  rules : List PolicyRule

abbrev Result := Except String

def ensure (c : Prop) [Decidable c] (message : String) : Result Unit :=
  if c then .ok () else .error message

/-! ### Validation -/

def validateGroup (group : Sigma fun _ : String => List String) : Result Unit := do
  ensure (isBlank group.1 = false) "policy group names must not be blank"
  ensure (group.2 ≠ []) s!"policy group '{group.1}' must not be empty"
  ensure (∀ actor ∈ group.2, isBlank actor = false)
    s!"policy group '{group.1}' contains a blank actor id"

/-- The first action that a scope of the rule does not apply to. -/
def unsupportedAction (applies : PolicyAction → Bool) (rule : PolicyRule) :
    Option PolicyAction :=
  rule.allow.actions.find? fun action => !applies action

def validateScope (label : String) (scope : Option PolicyBranchScope)
    (applies : PolicyAction → Bool) (rule : PolicyRule) : Result Unit :=
  match scope, unsupportedAction applies rule with
  | some _, some action => .error
      s!"policy rule '{rule.id}' uses {label} with unsupported action '{action.asStr}'"
  | _, _ => .ok ()

def hasKind (kind : PolicyResourceKind) (rule : PolicyRule) : Bool :=
  rule.allow.actions.any fun action => action.resourceKind = kind

/-- One rule, after rules with the ids `seen`. -/
def validateRule (groups : HashMap String (List String)) (seen : List String)
    (rule : PolicyRule) : Result (List String) := do
  ensure (isBlank rule.id = false) "policy rule ids must not be blank"
  ensure (rule.id ∉ seen) s!"duplicate policy rule id '{rule.id}'"
  ensure (isBlank rule.allow.group = false)
    s!"policy rule '{rule.id}' must reference a non-blank group"
  ensure (rule.allow.group ∈ groups)
    s!"policy rule '{rule.id}' references unknown group '{rule.allow.group}'"
  ensure (rule.allow.actions ≠ []) s!"policy rule '{rule.id}' must include at least one action"
  ensure (¬ (rule.allow.branchScope.isSome ∧ rule.allow.targetBranchScope.isSome))
    s!"policy rule '{rule.id}' may specify branch_scope or target_branch_scope, not both"
  validateScope "branch_scope" rule.allow.branchScope PolicyAction.usesBranchScope rule
  validateScope "target_branch_scope" rule.allow.targetBranchScope
    PolicyAction.usesTargetBranchScope rule
  ensure (¬ (hasKind .server rule ∧ hasKind .graph rule))
    (s!"policy rule '{rule.id}' mixes the server-scoped action `graph_list` " ++
      "with per-graph actions; split into separate rules")
  ensure (¬ (hasKind .server rule ∧
      (rule.allow.branchScope.isSome ∨ rule.allow.targetBranchScope.isSome)))
    (s!"policy rule '{rule.id}' uses branch_scope/target_branch_scope with a " ++
      "server-scoped action; server-scoped actions have no branch context")
  return rule.id :: seen

def PolicyConfig.validate (config : PolicyConfig) : Result Unit := do
  ensure (config.version = 1) "policy version must be 1"
  config.groups.entries.forM validateGroup
  ensure (∀ branch ∈ config.protectedBranches, isBlank branch = false)
    "protected branch names must not be blank"
  let _ ← config.rules.foldlM (validateRule config.groups) []
  return ()

/-! ### Compilation -/

/-- `permit (principal in group, action, resource) when { scopes }` -/
structure Permit where
  policyId : String
  group : String
  action : PolicyAction
  resource : PolicyResourceKind
  branchScope : Option PolicyBranchScope
  targetBranchScope : Option PolicyBranchScope
  ruleId : String

structure PolicyEngine where
  graphId : String
  protectedBranches : List String
  knownActors : List String
  /-- The groups an actor is in. -/
  memberships : HashMap String (List String)
  policies : List Permit

def permitOf (rule : PolicyRule) (action : PolicyAction) : Permit where
  policyId := s!"{rule.id}:{action.asStr}"
  group := rule.allow.group
  action := action
  resource := action.resourceKind
  branchScope := rule.allow.branchScope
  targetBranchScope := rule.allow.targetBranchScope
  ruleId := rule.id

def compilePolicies (config : PolicyConfig) : Result (List Permit) :=
  let permits := config.rules.flatMap fun rule => rule.allow.actions.map (permitOf rule)
  if (permits.map Permit.policyId).Nodup then .ok permits
  else .error "duplicate policy id"

/-- Adds the members of one group to the groups of each actor. -/
def addMembers (memberships : HashMap String (List String))
    (group : Sigma fun _ : String => List String) : HashMap String (List String) :=
  group.2.foldl (fun m actor => m.insert actor (group.1 :: (m.lookup actor).getD [])) memberships

/-- Compiles a policy file for a graph. -/
def PolicyCompiler.compile (config : PolicyConfig) (graphId : String) : Result PolicyEngine := do
  config.validate
  let policies ← compilePolicies config
  return {
    graphId := graphId
    protectedBranches := config.protectedBranches
    knownActors := config.groups.entries.flatMap Sigma.snd
    memberships := config.groups.entries.foldl addMembers ∅
    policies := policies }

/-! ### Requests -/

structure PolicyRequest where
  action : PolicyAction
  branch : Option String
  targetBranch : Option String

structure PolicyDecision where
  allowed : Bool
  matchedRuleId : Option String
  message : String

/-- `has_branch && branch_is_protected`, and the like. -/
def scopeCondition (protectedBranches : List String) (scope : Option PolicyBranchScope)
    (branch : Option String) : Bool :=
  match scope with
  | none | some .any => true
  | some .protectedOnly => branch.any (· ∈ protectedBranches)
  | some .unprotectedOnly => branch.any (· ∉ protectedBranches)

/-- The permit covers the request of an actor. -/
def PolicyEngine.satisfies (engine : PolicyEngine) (actorId : String) (request : PolicyRequest)
    (permit : Permit) : Bool :=
  permit.group ∈ (engine.memberships.lookup actorId).getD [] && permit.action = request.action &&
    permit.resource = request.action.resourceKind &&
    scopeCondition engine.protectedBranches permit.branchScope request.branch &&
    scopeCondition engine.protectedBranches permit.targetBranchScope request.targetBranch

/-- The least of some rule ids. -/
def minRuleId (ids : List String) : Option String :=
  ids.foldl (fun best id => match best with
    | none => some id
    | some b => if id < b then some id else some b) none

def onBranch (label : String) (branch : Option String) : String :=
  match branch with
  | none => ""
  | some branch => s!" {label} '{branch}'"

def PolicyEngine.authorize (engine : PolicyEngine) (actorId : String) (request : PolicyRequest) :
    PolicyDecision :=
  if actorId ∉ engine.knownActors then
    ⟨false, none, s!"policy denied action '{request.action.asStr}' for unknown actor '{actorId}'"⟩
  else
    let reason := engine.policies.filter (engine.satisfies actorId request)
    let matchedRuleId := minRuleId (reason.map Permit.ruleId)
    if reason ≠ [] then
      ⟨true, matchedRuleId,
        s!"policy allowed action '{request.action.asStr}' for actor '{actorId}'"⟩
    else
      ⟨false, matchedRuleId, s!"policy denied action '{request.action.asStr}'" ++
        onBranch "on branch" request.branch ++ onBranch "targeting branch" request.targetBranch ++
        s!" for actor '{actorId}'"⟩

/-! ### What the engine allows -/

/-- Some rule grants the request to a group of the actor, and its scopes are true of the named
branches. -/
def Grants (config : PolicyConfig) (actorId : String) (request : PolicyRequest) : Prop :=
  ∃ rule ∈ config.rules, request.action ∈ rule.allow.actions ∧
    (∃ members ∈ config.groups.lookup rule.allow.group, actorId ∈ members) ∧
    scopeCondition config.protectedBranches rule.allow.branchScope request.branch = true ∧
    scopeCondition config.protectedBranches rule.allow.targetBranchScope request.targetBranch =
      true

section Compiled

variable {config : PolicyConfig} {graphId actorId : String} {engine : PolicyEngine}
  {request : PolicyRequest}

variable {name : String}

/-- The groups of an actor after one more group. -/
lemma mem_lookup_addMembers (group : Sigma fun _ : String => List String)
    (memberships : HashMap String (List String)) :
    name ∈ ((addMembers memberships group).lookup actorId).getD [] ↔
      name ∈ (memberships.lookup actorId).getD [] ∨ name = group.1 ∧ actorId ∈ group.2 := by
  obtain ⟨group, members⟩ := group
  show name ∈ ((members.foldl (fun m a => m.insert a (group :: (m.lookup a).getD []))
    memberships).lookup actorId).getD [] ↔ _
  induction members generalizing memberships with
  | nil => simp
  | cons member members ih =>
    rw [foldl_cons, ih, HashMap.lookup_insert_ite, mem_cons]
    split_ifs with hmember
    · subst hmember
      simp only [Option.getD_some, mem_cons, true_or, and_true]
      tauto
    · tauto

/-- An actor is in the groups that list it. -/
lemma mem_memberships (groups : List (Sigma fun _ : String => List String))
    (memberships : HashMap String (List String)) :
    name ∈ ((groups.foldl addMembers memberships).lookup actorId).getD [] ↔
      name ∈ (memberships.lookup actorId).getD [] ∨
        ∃ group ∈ groups, name = group.1 ∧ actorId ∈ group.2 := by
  induction groups generalizing memberships with
  | nil => simp
  | cons group groups ih =>
    rw [foldl_cons, ih, mem_lookup_addMembers, or_assoc]
    simp only [mem_cons, exists_eq_or_imp]

/-- What is compiled from a policy file. -/
lemma compile_eq_ok (h : PolicyCompiler.compile config graphId = .ok engine) :
    engine.protectedBranches = config.protectedBranches ∧
      engine.knownActors = config.groups.entries.flatMap Sigma.snd ∧
      engine.memberships = config.groups.entries.foldl addMembers ∅ ∧
      engine.policies =
        config.rules.flatMap fun rule => rule.allow.actions.map (permitOf rule) := by
  simp only [PolicyCompiler.compile, Except.bind_eq_ok_iff] at h
  obtain ⟨-, -, policies, hpolicies, hret⟩ := h
  cases hret
  refine ⟨rfl, rfl, rfl, ?_⟩
  rw [compilePolicies] at hpolicies
  split_ifs at hpolicies
  cases hpolicies
  rfl

/-- A request is allowed exactly if a rule grants it. -/
theorem authorize_iff (h : PolicyCompiler.compile config graphId = .ok engine) :
    (engine.authorize actorId request).allowed = true ↔ Grants config actorId request := by
  obtain ⟨hprotected, hknown, hmembers, hpolicies⟩ := compile_eq_ok h
  have hgroup : ∀ group, group ∈ (engine.memberships.lookup actorId).getD [] ↔
      ∃ members ∈ config.groups.lookup group, actorId ∈ members := by
    intro group
    rw [hmembers, mem_memberships]
    constructor
    · rintro (hnone | ⟨⟨group', members⟩, hmem, rfl, hactor⟩)
      · simp at hnone
      · exact ⟨members, HashMap.lookup_eq_some_iff_mem.mpr hmem, hactor⟩
    · rintro ⟨members, hlookup, hactor⟩
      exact .inr ⟨⟨group, members⟩, HashMap.lookup_eq_some_iff_mem.mp hlookup, rfl, hactor⟩
  have hsatisfied : (∃ permit ∈ engine.policies, engine.satisfies actorId request permit = true) ↔
      Grants config actorId request := by
    simp only [hpolicies, mem_flatMap, List.mem_map, PolicyEngine.satisfies, Bool.and_eq_true,
      decide_eq_true_eq, hgroup, hprotected, Grants]
    constructor
    · rintro ⟨_, ⟨rule, hrule, action, haction, rfl⟩, ⟨⟨⟨hmem, rfl⟩, -⟩, hbranch⟩, htarget⟩
      exact ⟨rule, hrule, haction, hmem, hbranch, htarget⟩
    · rintro ⟨rule, hrule, haction, hmem, hbranch, htarget⟩
      exact ⟨_, ⟨rule, hrule, _, haction, rfl⟩, ⟨⟨⟨hmem, rfl⟩, rfl⟩, hbranch⟩, htarget⟩
  rw [← hsatisfied, PolicyEngine.authorize]
  by_cases hunknown : actorId ∉ engine.knownActors
  · -- an actor that no group lists is in no group
    rw [if_pos hunknown]
    refine iff_of_false (by simp) ?_
    rintro ⟨permit, -, hsat⟩
    simp only [PolicyEngine.satisfies, Bool.and_eq_true, decide_eq_true_eq] at hsat
    obtain ⟨members, hlookup, hactor⟩ := (hgroup _).mp hsat.1.1.1.1
    apply hunknown
    rw [hknown, mem_flatMap]
    exact ⟨_, HashMap.lookup_eq_some_iff_mem.mp hlookup, hactor⟩
  · rw [if_neg hunknown]
    dsimp only
    by_cases hreason : engine.policies.filter (engine.satisfies actorId request) ≠ []
    · rw [if_pos hreason]
      obtain ⟨permit, hpermit⟩ := exists_mem_of_ne_nil _ hreason
      exact iff_of_true rfl ⟨permit, mem_filter.mp hpermit⟩
    · rw [if_neg hreason]
      refine iff_of_false (by simp) ?_
      rintro ⟨permit, hmem, hsat⟩
      exact hreason (ne_nil_of_mem (mem_filter.mpr ⟨hmem, hsat⟩))

end Compiled

end Omnigraph.Policy
