import Mathlib.Data.List.DropRight
import Omnigraph.Error
import Omnigraph.Lib.Crash
import Omnigraph.Policy.Engine

/-!
# The policy gate of the writing calls

A writing call asks the policy for the branch it is called with, screens internal branches and then
works on the normalised name. The three see the name at different stages.
-/

namespace Omnigraph.Policy

open List Durable

open Schema (isWhiteSpace)

/-! ### Branch names -/

/-- `str::trim` -/
def trim (s : String) : String :=
  String.ofList ((s.toList.dropWhile isWhiteSpace).rdropWhile isWhiteSpace)

lemma trim_trim (s : String) : trim (trim s) = trim s := by
  have hhead : ((s.toList.dropWhile isWhiteSpace).rdropWhile isWhiteSpace).dropWhile isWhiteSpace =
      (s.toList.dropWhile isWhiteSpace).rdropWhile isWhiteSpace := by
    rw [dropWhile_eq_self_iff]
    intro hne
    rw [(List.rdropWhile_prefix isWhiteSpace _).getElem hne]
    exact dropWhile_get_zero_not _ _ _
  rw [trim, trim, String.toList_ofList, hhead, rdropWhile_idempotent]

/-- The branch a name stands for; `none` is `main`. -/
def normalizeBranchName (branch : String) : Except OmniError (Option String) :=
  if trim branch = "" then .error (.manifest "branch name cannot be empty")
  else if trim branch = "main" then .ok none
  else .ok (some (trim branch))

def schemaApplyLockBranch : String := "__schema_apply_lock__"

def isSchemaApplyLockBranch (name : String) : Bool :=
  name.toList.dropWhile (· = '/') = schemaApplyLockBranch.toList

def isInternalSystemBranch (name : String) : Bool := isSchemaApplyLockBranch name

def ensurePublicBranchRef (branch operation : String) : Except OmniError Unit :=
  if isInternalSystemBranch branch then
    .error (.manifest s!"{operation} does not allow internal system ref '{branch}'")
  else .ok ()

/-- The name of a normalised branch. -/
def displayBranch (branch : Option String) : String := branch.getD "main"

variable {name branch : String}

lemma displayBranch_normalize {branch : Option String} (h : normalizeBranchName name = .ok branch) :
    displayBranch branch = trim name := by
  unfold normalizeBranchName at h
  split_ifs at h with hempty hmain
  · cases h
    exact hmain.symm
  · cases h
    rfl

lemma ensurePublicBranchRef_eq_ok {operation : String} {u : Unit}
    (h : ensurePublicBranchRef branch operation = .ok u) :
    isInternalSystemBranch branch = false := by
  unfold ensurePublicBranchRef at h
  split_ifs at h with hinternal
  exact Bool.not_eq_true _ ▸ hinternal

/-! ### Consulting the policy -/

inductive ResourceScope
  | graph
  | branch (name : String)
  | targetBranch (name : String)
  | branchTransition (source target : String)

def ResourceScope.toBranchPair : ResourceScope → Option String × Option String
  | .graph => (none, none)
  | .branch name => (some name, none)
  | .targetBranch name => (none, some name)
  | .branchTransition source target => (some source, some target)

/-- What a call does to a branch. -/
structure Effect where
  action : PolicyAction
  branch : String

inductive CallError
  | policy (message : String)
  | engine (e : OmniError)

/-- The requests the policy allowed in a call, and what the call did. -/
structure Done where
  consulted : List PolicyRequest
  effects : List Effect

/-- A call that fails leaves what it did before. -/
abbrev CallM := Durable Done CallError

/-- A step of the engine that changes nothing. -/
def engineResult {α : Type} (result : Except OmniError α) : CallM α :=
  lift (result.mapError .engine)

def requestOf (action : PolicyAction) (scope : ResourceScope) : PolicyRequest :=
  ⟨action, scope.toBranchPair.1, scope.toBranchPair.2⟩

/-- `PolicyChecker::check` of the engine. -/
def check (engine : PolicyEngine) (action : PolicyAction) (scope : ResourceScope)
    (actor : String) : Except CallError Unit :=
  let decision := engine.authorize actor (requestOf action scope)
  if decision.allowed then .ok () else .error (.policy s!"policy denied: {decision.message}")

/-- Asks the installed policy. -/
def enforce (policy : Option PolicyEngine) (action : PolicyAction) (scope : ResourceScope)
    (actor : Option String) : CallM Unit :=
  match policy, actor with
  | none, _ => pure ()
  | some _, none => fail (.policy
      ("no actor for engine-layer policy check (policy is configured but the call site " ++
        "didn't thread an actor through — this is almost certainly a bug, not an " ++
        "intended bypass)"))
  | some engine, some actor => do
    lift (check engine action scope actor)
    write fun done => { done with consulted := done.consulted ++ [requestOf action scope] }

/-! ### The calls -/

/-- The refs besides `main`, the branch that is open, whatever else the calls check before they take
effect, and what may fail after that. -/
structure Graph where
  refs : List String
  activeBranch : Option String
  proceed : Effect → Except OmniError Unit
  finish : Effect → Except OmniError Unit

/-- An effect, which stays if what follows it fails. -/
def Graph.perform (graph : Graph) (e : Effect) : CallM Unit := do
  engineResult (graph.proceed e)
  write fun done => { done with effects := done.effects ++ [e] }
  engineResult (graph.finish e)

def Graph.allBranches (graph : Graph) : List String := "main" :: graph.refs

def Graph.branchList (graph : Graph) : List String :=
  graph.allBranches.filter fun branch => ! isInternalSystemBranch branch

def ensureSchemaApplyNotLocked (graph : Graph) (operation : String) : Except OmniError Unit :=
  if graph.allBranches.any isSchemaApplyLockBranch then
    .error (.manifestConflict s!"{operation} is unavailable while schema apply is in progress")
  else .ok ()

/-- Opens a branch that has to be there. -/
def openBranch (graph : Graph) (branch : Option String) : Except OmniError Unit :=
  if displayBranch branch ∈ graph.allBranches then .ok ()
  else .error (.manifest s!"branch '{displayBranch branch}' not found")

def openWriteTxn (graph : Graph) (branch : Option String) : Except OmniError Unit := do
  ensureSchemaApplyNotLocked graph "write preparation"
  openBranch graph branch

/-- No other branch has this name or shares its path. -/
def ensureBranchCreateNamespaceSafe (target : String) (branches : List String) :
    Except OmniError Unit :=
  if target ∈ branches then .error (.manifestConflict s!"branch '{target}' already exists")
  else
    let shares (candidate : String) : Bool := candidate ≠ "main" &&
      ((target ++ "/").toList.isPrefixOf candidate.toList ||
        (candidate ++ "/").toList.isPrefixOf target.toList)
    match branches.find? shares with
    | some conflicting => .error (.manifestConflict
        (s!"cannot create branch '{target}' while live branch '{conflicting}' shares its " ++
          "physical Lance path; live graph branch names may not be ancestors or descendants"))
    | none => .ok ()

section Calls

variable (policy : Option PolicyEngine) (graph : Graph) (actor : Option String)

/-- Only a named branch is screened, by its normalised name. -/
def ensurePublicRequested (requested : Option String) : Except OmniError Unit :=
  match requested with
  | some name => ensurePublicBranchRef name "mutate"
  | none => .ok ()

def mutateAs (branch : String) : CallM Unit := do
  enforce policy .change (.branch branch) actor
  let requested ← engineResult (normalizeBranchName branch)
  engineResult (ensurePublicRequested requested)
  engineResult (openWriteTxn graph requested)
  graph.perform ⟨.change, displayBranch requested⟩

/-- A branch other than `main`. -/
def namedBranch (message : String) (branch : Option String) : Except OmniError String :=
  match branch with
  | some branch => .ok branch
  | none => .error (.manifest message)

def branchCreateAs (name : String) : CallM Unit := do
  enforce policy .branchCreate (.targetBranch name) actor
  engineResult (ensurePublicBranchRef name "branch_create")
  let normalized ← engineResult (normalizeBranchName name)
  let target ← engineResult (namedBranch "cannot create branch 'main'" normalized)
  engineResult (ensureSchemaApplyNotLocked graph "branch_create")
  engineResult (openBranch graph graph.activeBranch)
  engineResult (ensureBranchCreateNamespaceSafe target graph.allBranches)
  graph.perform ⟨.branchCreate, target⟩

/-- What a branch is made from. -/
inductive ReadTarget
  | branch (name : String)
  | snapshot (id : String)

/-- The name the policy is asked with. -/
def ReadTarget.policyName : ReadTarget → String
  | .branch name => name
  | .snapshot _ => "<snapshot>"

def sourceBranch : ReadTarget → Except OmniError String
  | .branch name => .ok name
  | .snapshot _ => .error (.manifest "branch creation from pinned snapshots is not supported yet")

def branchCreateFromAs (source : ReadTarget) (name : String) : CallM Unit := do
  enforce policy .branchCreate (.branchTransition source.policyName name) actor
  let branchName ← engineResult (sourceBranch source)
  engineResult (ensurePublicBranchRef branchName "branch_create_from")
  engineResult (ensurePublicBranchRef name "branch_create_from")
  let branch ← engineResult (normalizeBranchName branchName)
  let normalized ← engineResult (normalizeBranchName name)
  let target ← engineResult (namedBranch "cannot create branch 'main'" normalized)
  engineResult (ensureSchemaApplyNotLocked graph "branch_create_from")
  engineResult (openBranch graph branch)
  engineResult (ensureBranchCreateNamespaceSafe target graph.allBranches)
  graph.perform ⟨.branchCreate, target⟩

def notFoundUnless (found : Bool) (branch : String) : Except OmniError Unit :=
  if found then .ok () else .error (.manifest s!"branch '{branch}' not found")

def branchDeleteAs (name : String) : CallM Unit := do
  enforce policy .branchDelete (.targetBranch name) actor
  engineResult (ensurePublicBranchRef name "branch_delete")
  let normalized ← engineResult (normalizeBranchName name)
  let branch ← engineResult (namedBranch "cannot delete branch 'main'" normalized)
  engineResult (ensureSchemaApplyNotLocked graph "branch_delete")
  engineResult (notFoundUnless (branch ∈ graph.branchList) branch)
  graph.perform ⟨.branchDelete, branch⟩

def ensurePublicMerge (source target : String) : Except OmniError Unit :=
  if isInternalSystemBranch source || isInternalSystemBranch target then
    .error (.manifest
      s!"branch_merge does not allow internal system refs ('{source}' -> '{target}')")
  else .ok ()

def ensureDistinct (source target : Option String) : Except OmniError Unit :=
  if source = target then
    .error (.manifest "branch_merge requires distinct source and target branches")
  else .ok ()

def branchMergeAs (source target : String) : CallM Unit := do
  enforce policy .branchMerge (.branchTransition source target) actor
  engineResult (ensureSchemaApplyNotLocked graph "branch_merge")
  engineResult (ensurePublicMerge source target)
  let sourceBranch ← engineResult (normalizeBranchName source)
  let targetBranch ← engineResult (normalizeBranchName target)
  engineResult (ensureDistinct sourceBranch targetBranch)
  engineResult (openBranch graph sourceBranch)
  engineResult (openBranch graph targetBranch)
  graph.perform ⟨.branchMerge, displayBranch targetBranch⟩

/-- The branch and the base of a load; the base keeps the name `main`. -/
def normalizeLoadScope (branch : String) (base : Option String) :
    Except OmniError (Option String × Option String) := do
  ensurePublicBranchRef branch "load"
  let requested ← normalizeBranchName branch
  let baseBranch ← base.mapM normalizeBranchName
  return (requested, baseBranch.map displayBranch)

/-- The branch is made from its base if it is not there. -/
def forkIfMissing (requested baseBranch : Option String) : CallM Unit :=
  match requested, baseBranch with
  | some target, some baseName =>
    if target ∈ graph.branchList then pure ()
    else branchCreateFromAs policy graph actor (.branch baseName) target
  | _, _ => pure ()

/-- The graph with the branches that were made. -/
def Graph.withCreated (graph : Graph) (effects : List Effect) : Graph :=
  { graph with refs := effects.map Effect.branch ++ graph.refs }

def loadAs (branch : String) (base : Option String) : CallM Unit := do
  enforce policy .change (.branch branch) actor
  let scope ← engineResult (normalizeLoadScope branch base)
  forkIfMissing policy graph actor scope.1 scope.2
  let current ← read fun done => .ok (graph.withCreated done.effects)
  engineResult (openWriteTxn current scope.1)
  graph.perform ⟨.change, displayBranch scope.1⟩

inductive Call
  | mutate (branch : String)
  | load (branch : String) (base : Option String)
  | branchCreate (name : String)
  | branchCreateFrom (source : ReadTarget) (name : String)
  | branchDelete (name : String)
  | branchMerge (source target : String)

def Call.run : Call → CallM Unit
  | .mutate branch => mutateAs policy graph actor branch
  | .load branch base => loadAs policy graph actor branch base
  | .branchCreate name => branchCreateAs policy graph actor name
  | .branchCreateFrom source name => branchCreateFromAs policy graph actor source name
  | .branchDelete name => branchDeleteAs policy graph actor name
  | .branchMerge source target => branchMergeAs policy graph actor source target

/-- What a call leaves, however it ends. -/
def Call.outcome (call : Call) : Done := (call.run policy graph actor ⟨[], []⟩).final

/-- The argument that names the branch a call acts on. -/
def Call.actedOn : Call → String
  | .mutate branch | .load branch _ => branch
  | .branchCreate name | .branchCreateFrom _ name | .branchDelete name => name
  | .branchMerge _ target => target

def Call.action : Call → PolicyAction
  | .mutate _ | .load _ _ => .change
  | .branchCreate _ | .branchCreateFrom _ _ => .branchCreate
  | .branchDelete _ => .branchDelete
  | .branchMerge _ _ => .branchMerge

/-- The scope a call asks the policy for. -/
def Call.scope : Call → ResourceScope
  | .mutate branch | .load branch _ => .branch branch
  | .branchCreate name | .branchDelete name => .targetBranch name
  | .branchCreateFrom source name => .branchTransition source.policyName name
  | .branchMerge source target => .branchTransition source target

end Calls

/-! ### What the policy was asked for -/

/-- The request names the branch of the effect. -/
structure Names (request : PolicyRequest) (e : Effect) : Prop where
  action : request.action = e.action
  branch : (if e.action.usesTargetBranchScope then request.targetBranch else request.branch) =
    some e.branch

/-- The policy was asked for exactly this branch and grants the effect, and the branch is not
internal. -/
structure Sound (config : PolicyConfig) (actorId : String) (done : Done) (e : Effect) : Prop where
  granted : ∃ request ∈ done.consulted, Names request e ∧ Grants config actorId request
  notInternal : isInternalSystemBranch e.branch = false

lemma names_requestOf {call : Call} :
    Names (requestOf call.action call.scope) ⟨call.action, branch⟩ ↔ call.actedOn = branch := by
  constructor
  · rintro ⟨-, h⟩
    cases call <;> exact Option.some.inj h
  · rintro rfl
    exact ⟨rfl, by cases call <;> rfl⟩

section Run

variable {config : PolicyConfig} {graphId : String} {engine : PolicyEngine} {graph : Graph}
  {actor : Option String} {call : Call} {s t : Done}

/-- With a policy there is an actor, and the request was allowed. -/
def Allowed (engine : PolicyEngine) (actor : Option String) (request : PolicyRequest) : Prop :=
  ∃ actorId, actor = some actorId ∧ (engine.authorize actorId request).allowed = true

/-- What a call other than a load adds once it takes effect. -/
structure Call.Adds (engine : PolicyEngine) (actor : Option String) (call : Call) (s t : Done) :
    Prop where
  allowed : Allowed engine actor (requestOf call.action call.scope)
  consulted : t.consulted = s.consulted ++ [requestOf call.action call.scope]
  effects : t.effects = s.effects ++ [⟨call.action, trim call.actedOn⟩]
  screened : isInternalSystemBranch call.actedOn = false ∨
    isInternalSystemBranch (trim call.actedOn) = false

/-- A call other than a load fails before it takes effect, or it takes its one effect. -/
def Call.Leaves (engine : PolicyEngine) (actor : Option String) (call : Call) (s : Done)
    (r : Except CallError Unit) (t : Done) : Prop :=
  t.effects = s.effects ∧ (∃ e, r = .error e) ∨ call.Adds engine actor s t

/-- A call other than a load, from whatever was done before. -/
def Call.Meets (engine : PolicyEngine) (actor : Option String) (call : Call) (m : CallM Unit) :
    Prop :=
  ∀ s, m.wp (fun _ => True) (call.Leaves engine actor s) s

/-! The rules for the steps of a call -/

section Rules

variable {α β : Type} {f : α → CallM β} {Q : Except CallError β → Done → Prop}

lemma engine_bind {result : Except OmniError α} (herr : ∀ e, Q (.error e) s)
    (h : ∀ a, result = .ok a → (f a).wp (fun _ => True) Q s) :
    (engineResult result >>= f).wp (fun _ => True) Q s := by
  rw [engineResult, wp_bind, wp_lift]
  cases result with
  | error e => exact herr _
  | ok a => exact h a rfl

lemma enforce_bind {action : PolicyAction} {scope : ResourceScope} {f : Unit → CallM β}
    (herr : ∀ e, Q (.error e) s)
    (h : Allowed engine actor (requestOf action scope) →
      (f ()).wp (fun _ => True) Q ⟨s.consulted ++ [requestOf action scope], s.effects⟩) :
    (enforce (some engine) action scope actor >>= f).wp (fun _ => True) Q s := by
  rw [wp_bind]
  cases actor with
  | none => exact wp_fail.mpr (herr _)
  | some actorId =>
    rw [enforce, wp_bind, wp_lift, check]
    split_ifs with hallowed
    · rw [then_ok, wp_write]
      exact ⟨trivial, h ⟨actorId, rfl, hallowed⟩⟩
    · exact herr _

lemma perform_wp {e : Effect} {Q : Except CallError Unit → Done → Prop}
    (herr : ∀ error, Q (.error error) s)
    (h : ∀ r, Q r ⟨s.consulted, s.effects ++ [e]⟩) :
    (graph.perform e).wp (fun _ => True) Q s := by
  refine engine_bind herr fun _ _ => ?_
  rw [wp_bind, wp_write]
  refine ⟨trivial, ?_⟩
  rw [then_ok, engineResult, wp_lift]
  exact h _

end Rules

/-! What each call leaves -/

lemma Call.leaves_error (h : t.effects = s.effects) (error : CallError) :
    call.Leaves engine actor s (.error error) t := .inl ⟨h, error, rfl⟩

lemma leaves_bind {α : Type} {result : Except OmniError α} {f : α → CallM Unit}
    (ht : t.effects = s.effects)
    (h : ∀ a, result = .ok a → (f a).wp (fun _ => True) (call.Leaves engine actor s) t) :
    (engineResult result >>= f).wp (fun _ => True) (call.Leaves engine actor s) t :=
  engine_bind (Call.leaves_error ht) h

lemma namedBranch_eq_ok {message : String} {branch : Option String} {target : String}
    (hname : normalizeBranchName name = .ok branch) (h : namedBranch message branch = .ok target) :
    target = trim name := by
  cases branch with
  | none => cases h
  | some b =>
    cases h
    exact displayBranch_normalize hname

lemma mutateAs_meets (branch : String) :
    (Call.mutate branch).Meets engine actor (mutateAs (some engine) graph actor branch) := by
  intro s
  refine enforce_bind (Call.leaves_error rfl) fun hallowed => ?_
  refine leaves_bind rfl fun requested hrequested => ?_
  refine leaves_bind rfl fun _ hpublic => ?_
  refine leaves_bind rfl fun _ _ => ?_
  have hdisplay := displayBranch_normalize hrequested
  refine perform_wp (Call.leaves_error rfl) fun _ =>
    .inr ⟨hallowed, rfl, by rw [hdisplay]; rfl, .inr ?_⟩
  show isInternalSystemBranch (trim branch) = false
  cases requested with
  | none =>
    rw [← hdisplay]
    decide
  | some name =>
    rw [← hdisplay]
    exact ensurePublicBranchRef_eq_ok hpublic

lemma branchCreateAs_meets (name : String) :
    (Call.branchCreate name).Meets engine actor
      (branchCreateAs (some engine) graph actor name) := by
  intro s
  refine enforce_bind (Call.leaves_error rfl) fun hallowed => ?_
  refine leaves_bind rfl fun _ hpublic => ?_
  refine leaves_bind rfl fun normalized hnormalized => ?_
  refine leaves_bind rfl fun target htarget => ?_
  refine leaves_bind rfl fun _ _ => ?_
  refine leaves_bind rfl fun _ _ => ?_
  refine leaves_bind rfl fun _ _ => ?_
  rw [namedBranch_eq_ok hnormalized htarget]
  exact perform_wp (Call.leaves_error rfl) fun _ =>
    .inr ⟨hallowed, rfl, rfl, .inl (ensurePublicBranchRef_eq_ok hpublic)⟩

lemma branchCreateFromAs_meets (source : ReadTarget) (name : String) :
    (Call.branchCreateFrom source name).Meets engine actor
      (branchCreateFromAs (some engine) graph actor source name) := by
  intro s
  refine enforce_bind (Call.leaves_error rfl) fun hallowed => ?_
  refine leaves_bind rfl fun _ _ => ?_
  refine leaves_bind rfl fun _ _ => ?_
  refine leaves_bind rfl fun _ hpublic => ?_
  refine leaves_bind rfl fun _ _ => ?_
  refine leaves_bind rfl fun normalized hnormalized => ?_
  refine leaves_bind rfl fun target htarget => ?_
  refine leaves_bind rfl fun _ _ => ?_
  refine leaves_bind rfl fun _ _ => ?_
  refine leaves_bind rfl fun _ _ => ?_
  rw [namedBranch_eq_ok hnormalized htarget]
  exact perform_wp (Call.leaves_error rfl) fun _ =>
    .inr ⟨hallowed, rfl, rfl, .inl (ensurePublicBranchRef_eq_ok hpublic)⟩

lemma branchDeleteAs_meets (name : String) :
    (Call.branchDelete name).Meets engine actor
      (branchDeleteAs (some engine) graph actor name) := by
  intro s
  refine enforce_bind (Call.leaves_error rfl) fun hallowed => ?_
  refine leaves_bind rfl fun _ hpublic => ?_
  refine leaves_bind rfl fun normalized hnormalized => ?_
  refine leaves_bind rfl fun target htarget => ?_
  refine leaves_bind rfl fun _ _ => ?_
  refine leaves_bind rfl fun _ _ => ?_
  rw [namedBranch_eq_ok hnormalized htarget]
  exact perform_wp (Call.leaves_error rfl) fun _ =>
    .inr ⟨hallowed, rfl, rfl, .inl (ensurePublicBranchRef_eq_ok hpublic)⟩

lemma branchMergeAs_meets (source target : String) :
    (Call.branchMerge source target).Meets engine actor
      (branchMergeAs (some engine) graph actor source target) := by
  intro s
  refine enforce_bind (Call.leaves_error rfl) fun hallowed => ?_
  refine leaves_bind rfl fun _ _ => ?_
  refine leaves_bind rfl fun _ hpublic => ?_
  refine leaves_bind rfl fun _ _ => ?_
  refine leaves_bind rfl fun targetBranch htarget => ?_
  refine leaves_bind rfl fun _ _ => ?_
  refine leaves_bind rfl fun _ _ => ?_
  refine leaves_bind rfl fun _ _ => ?_
  rw [displayBranch_normalize htarget]
  refine perform_wp (Call.leaves_error rfl) fun _ => .inr ⟨hallowed, rfl, rfl, .inl ?_⟩
  unfold ensurePublicMerge at hpublic
  split_ifs at hpublic with hinternal
  rw [Bool.or_eq_true, not_or] at hinternal
  exact Bool.not_eq_true _ ▸ hinternal.2

/-! A load -/

/-- What a load has done to make its branch: nothing, or what the making of a branch adds. -/
def Forked (engine : PolicyEngine) (actor : Option String) (branch : String) (s t : Done) : Prop :=
  t = s ∨ ∃ source, (Call.branchCreateFrom source (trim branch)).Adds engine actor s t

/-- A load fails before it takes an effect, or it was allowed, and it stops after it made its branch
or after it changed it. -/
def LoadLeaves (engine : PolicyEngine) (actor : Option String) (branch : String) (t : Done) :
    Prop :=
  t.effects = [] ∨
    Allowed engine actor (requestOf .change (.branch branch)) ∧
      isInternalSystemBranch branch = false ∧
      ∃ forked, Forked engine actor branch ⟨[requestOf .change (.branch branch)], []⟩ forked ∧
        (t = forked ∨ t = ⟨forked.consulted, forked.effects ++ [⟨.change, trim branch⟩]⟩)

lemma forkIfMissing_wp {requested baseBranch : Option String}
    (hrequested : normalizeBranchName branch = .ok requested) :
    (forkIfMissing (some engine) graph actor requested baseBranch).wp (fun _ => True)
      (fun r t => t.effects = s.effects ∧ (∃ e, r = .error e) ∨ Forked engine actor branch s t)
      s := by
  unfold forkIfMissing
  split
  · next target baseName =>
    split_ifs with hexists
    · exact wp_pure.mpr (.inr (.inl rfl))
    · have htarget : target = trim branch := displayBranch_normalize hrequested
      refine wp_mono (branchCreateFromAs_meets _ target s) (fun _ h => h) fun r t h => ?_
      rw [htarget] at h
      exact h.imp_right fun hadds => .inr ⟨_, hadds⟩
  · exact wp_pure.mpr (.inr (.inl rfl))

lemma loadAs_leaves (branch : String) (base : Option String) :
    (loadAs (some engine) graph actor branch base).wp (fun _ => True)
      (fun _ t => LoadLeaves engine actor branch t) ⟨[], []⟩ := by
  refine enforce_bind (fun _ => .inl rfl) fun hallowed => ?_
  refine engine_bind (fun _ => .inl rfl) fun scope hscope => ?_
  simp only [normalizeLoadScope, Except.bind_eq_ok_iff] at hscope
  obtain ⟨_, hpublic, requested, hrequested, baseBranch, -, hret⟩ := hscope
  cases hret
  have hinternal := ensurePublicBranchRef_eq_ok hpublic
  rw [wp_bind]
  refine wp_mono (forkIfMissing_wp hrequested) (fun _ h => h) fun r t h => ?_
  cases r with
  | error e =>
    rcases h with ⟨hnone, -⟩ | hforked
    · exact .inl hnone
    · exact .inr ⟨hallowed, hinternal, t, hforked, .inl rfl⟩
  | ok _ =>
    have hforked := h.resolve_left (by rintro ⟨-, e, he⟩; cases he)
    rw [then_ok, wp_bind, wp_read, then_ok]
    have hstopped : ∀ e : CallError, (fun _ t => LoadLeaves engine actor branch t)
        (Except.error e : Except CallError Unit) t := fun _ =>
      .inr ⟨hallowed, hinternal, t, hforked, .inl rfl⟩
    refine engine_bind hstopped fun _ _ => perform_wp hstopped fun _ => ?_
    rw [displayBranch_normalize hrequested]
    exact .inr ⟨hallowed, hinternal, t, hforked, .inr rfl⟩

/-! ### Effects and requests -/

section Sound

variable {done : Done} {actorId : String}

variable (hcompile : PolicyCompiler.compile config graphId = .ok engine)

include hcompile in
/-- The allowed request is granted, and names the branch if that is not trimmed. -/
lemma sound_of_trimmed (hallowed : Allowed engine (some actorId) (requestOf call.action call.scope))
    (hconsulted : requestOf call.action call.scope ∈ done.consulted)
    (hscreened : isInternalSystemBranch call.actedOn = false ∨
      isInternalSystemBranch (trim call.actedOn) = false)
      (htrim : trim call.actedOn = call.actedOn) :
    Sound config actorId done ⟨call.action, trim call.actedOn⟩ := by
  obtain ⟨_, hactor, hgrants⟩ := hallowed
  cases hactor
  refine ⟨⟨_, hconsulted, names_requestOf.mpr htrim.symm, (authorize_iff hcompile).mp hgrants⟩, ?_⟩
  rcases hscreened with hscreened | hscreened
  · show isInternalSystemBranch (trim call.actedOn) = false
    rw [htrim]
    exact hscreened
  · exact hscreened

/-- An effect of the call's own action is sound exactly if the name of its branch is trimmed. -/
lemma sound_iff_trimmed (hcompile : PolicyCompiler.compile config graphId = .ok engine)
    (hallowed : Allowed engine (some actorId) (requestOf call.action call.scope))
    (hconsulted : requestOf call.action call.scope ∈ done.consulted)
    (hothers : ∀ request ∈ done.consulted, request.action = call.action →
      request = requestOf call.action call.scope)
    (hscreened : isInternalSystemBranch call.actedOn = false ∨
      isInternalSystemBranch (trim call.actedOn) = false) :
    Sound config actorId done ⟨call.action, trim call.actedOn⟩ ↔
      trim call.actedOn = call.actedOn := by
  constructor
  · rintro ⟨⟨request, hrequest, hnames, -⟩, -⟩
    rw [hothers request hrequest hnames.action] at hnames
    exact (names_requestOf.mp hnames).symm
  · exact sound_of_trimmed hcompile hallowed hconsulted hscreened

include hcompile in
lemma Call.Meets.sound_iff {m : CallM Unit} (h : call.Meets engine actor m) :
    ∀ e ∈ (m ⟨[], []⟩).final.effects, ∃ actorId, actor = some actorId ∧
      (Sound config actorId (m ⟨[], []⟩).final e ↔
        (e.action = call.action → trim call.actedOn = call.actedOn)) := by
  intro e he
  rcases (h ⟨[], []⟩).2 with ⟨hnone, -⟩ | hadds
  · rw [hnone] at he
    cases he
  · rw [hadds.effects, nil_append, mem_singleton] at he
    obtain ⟨actorId, rfl, -⟩ := id hadds.allowed
    refine ⟨actorId, rfl, ?_⟩
    rw [he, forall_prop_of_true rfl]
    refine sound_iff_trimmed hcompile hadds.allowed ?_ ?_ hadds.screened
    · simp [hadds.consulted]
    · simp [hadds.consulted]

include hcompile in
/-- The fork of a load is sound, and so is its change if the branch's name is trimmed. -/
lemma loadAs_sound_iff {base : Option String} :
    ∀ e ∈ (loadAs (some engine) graph actor branch base ⟨[], []⟩).final.effects,
      ∃ actorId, actor = some actorId ∧
        (Sound config actorId (loadAs (some engine) graph actor branch base ⟨[], []⟩).final e ↔
          (e.action = .change → trim branch = branch)) := by
  intro e he
  have hleaves := (@loadAs_leaves engine graph actor branch base).2
  generalize (loadAs (some engine) graph actor branch base ⟨[], []⟩).final = done at he hleaves ⊢
  rcases hleaves with hnone | ⟨hallowed, hinternal, forked, hforked, hdone⟩
  · rw [hnone] at he
    cases he
  have hconsulted : done.consulted = forked.consulted := by rcases hdone with rfl | rfl <;> rfl
  obtain ⟨actorId, rfl, -⟩ := id hallowed
  refine ⟨actorId, rfl, ?_⟩
  have hmem : e ∈ forked.effects ∨ e = ⟨.change, trim branch⟩ := by
    rcases hdone with rfl | rfl
    · exact .inl he
    · simpa using he
  rcases hforked with rfl | ⟨source, hadds⟩
  · obtain rfl := hmem.resolve_left (by simp)
    rw [forall_prop_of_true rfl]
    refine @sound_iff_trimmed _ _ _ (.load branch base) _ _ hcompile hallowed ?_ ?_ (.inl hinternal)
    · rw [hconsulted]
      exact mem_singleton_self _
    · rw [hconsulted]
      exact fun request hrequest _ => mem_singleton.mp hrequest
  · rw [hadds.effects, nil_append, mem_singleton] at hmem
    rcases hmem with rfl | rfl
    · -- the branch is made under the name that the policy was asked for
      refine iff_of_true ?_ fun h => PolicyAction.noConfusion h
      refine sound_of_trimmed hcompile hadds.allowed ?_ hadds.screened (trim_trim branch)
      rw [hconsulted, hadds.consulted]
      exact mem_append_right _ (mem_singleton_self _)
    · rw [forall_prop_of_true rfl]
      refine @sound_iff_trimmed _ _ _ (.load branch base) _ _ hcompile hallowed ?_ ?_
        (.inl hinternal)
      · rw [hconsulted, hadds.consulted]
        exact mem_append_left _ (mem_singleton_self _)
      · rw [hconsulted, hadds.consulted]
        intro request hrequest haction
        simp only [cons_append, nil_append, mem_cons, not_mem_nil,
          or_false] at hrequest
        rcases hrequest with rfl | rfl
        · rfl
        · cases haction

end Sound

/-- In every run, an effect that a call takes is one the policy was asked for, by the name of the
branch, if and only if it is the branch that a load makes, or the call was given the name of its
branch without white space around it. -/
theorem acted_branch_sound_iff (hcompile : PolicyCompiler.compile config graphId = .ok engine)
    {e : Effect} (h : e ∈ (call.outcome (some engine) graph actor).effects) :
    ∃ actorId, actor = some actorId ∧
      (Sound config actorId (call.outcome (some engine) graph actor) e ↔
        (e.action = call.action → trim call.actedOn = call.actedOn)) := by
  cases call with
  | load branch base => exact loadAs_sound_iff hcompile e h
  | mutate branch => exact (mutateAs_meets branch).sound_iff hcompile e h
  | branchCreate name => exact (branchCreateAs_meets name).sound_iff hcompile e h
  | branchCreateFrom source name =>
    exact (branchCreateFromAs_meets source name).sound_iff hcompile e h
  | branchDelete name => exact (branchDeleteAs_meets name).sound_iff hcompile e h
  | branchMerge source target => exact (branchMergeAs_meets source target).sound_iff hcompile e h

end Run

/-- Ann may change and create branches that are not protected, and `main` is. -/
def devPolicy : PolicyConfig where
  version := 1
  groups := (∅ : HashMap String (List String)).insert "devs" ["ann"]
  protectedBranches := ["main"]
  rules := [
    ⟨"dev-change", ⟨"devs", [.change], some .unprotectedOnly, none⟩⟩,
    ⟨"dev-branch", ⟨"devs", [.branchCreate], none, some .unprotectedOnly⟩⟩]

/-- Changes fail after a branch was made for them. -/
def devGraph : Graph where
  refs := ["feature"]
  activeBranch := none
  proceed
    | ⟨.change, "drafts"⟩ => .error (.manifest "no rows")
    | _ => .ok ()
  finish _ := .ok ()

/-- A load that fails leaves the branch it made, and the policy was asked for that branch. -/
theorem acted_branch_sound_drafts :
    ∃ engine, PolicyCompiler.compile devPolicy "notes" = .ok engine ∧
      ((Call.load "drafts" (some "main")).outcome (some engine) devGraph (some "ann")).effects =
        [⟨.branchCreate, "drafts"⟩] ∧
      ∃ actorId, some "ann" = some actorId ∧
        (Sound devPolicy actorId
            ((Call.load "drafts" (some "main")).outcome (some engine) devGraph (some "ann"))
            ⟨.branchCreate, "drafts"⟩ ↔
          (PolicyAction.branchCreate = .change → trim "drafts" = "drafts")) :=
  have hcompile : PolicyCompiler.compile devPolicy "notes" = .ok _ := rfl
  have heffects : ((Call.load "drafts" (some "main")).outcome (some _) devGraph
    (some "ann")).effects = [⟨.branchCreate, "drafts"⟩] := rfl
  ⟨_, hcompile, heffects, acted_branch_sound_iff hcompile (heffects ▸ mem_singleton_self _)⟩

/-- With a blank before its name the policy does not see that `main` is protected, and the screen
does not see that a branch is internal. -/
theorem acted_branch_not_sound :
    ∃ engine done done', PolicyCompiler.compile devPolicy "notes" = .ok engine ∧
      (Call.mutate " main").outcome (some engine) devGraph (some "ann") = done ∧
      done.effects = [⟨.change, "main"⟩] ∧
      ¬ Grants devPolicy "ann" ⟨.change, some "main", none⟩ ∧
      (Call.branchCreate " __schema_apply_lock__").outcome (some engine) devGraph (some "ann") =
        done' ∧
      done'.effects = [⟨.branchCreate, schemaApplyLockBranch⟩] ∧
      isInternalSystemBranch schemaApplyLockBranch = true ∧
      ¬ (∀ e ∈ done.effects, Sound devPolicy "ann" done e) ∧
      ¬ (∀ e ∈ done'.effects, Sound devPolicy "ann" done' e) := by
  refine ⟨_, _, _, rfl, rfl, rfl, ?_, rfl, rfl, rfl, ?_, ?_⟩
  · rintro ⟨rule, hrule, haction, -, hscope, -⟩
    simp only [devPolicy, mem_cons, not_mem_nil, or_false] at hrule
    rcases hrule with rfl | rfl
    · revert hscope
      decide
    · revert haction
      decide
  · intro h
    obtain ⟨⟨request, hrequest, hnames, -⟩, -⟩ := h _ (mem_singleton_self _)
    obtain rfl : request = requestOf .change (.branch " main") := mem_singleton.mp hrequest
    exact absurd hnames.branch (by decide)
  · intro h
    exact absurd (h _ (mem_singleton_self _)).notInternal (by decide)

end Omnigraph.Policy
