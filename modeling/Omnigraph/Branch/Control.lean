import Mathlib.Data.List.MinMax
import Mathlib.Data.String.Basic
import Omnigraph.Error
import Omnigraph.Lib.Crash
import Omnigraph.Lib.HashMap

/-!
# Branch control

A native branch is a ref and a tree. Creating one clones the tree and then writes the ref; deleting
one removes the ref and then the tree. Each native step may report an error, whether it took effect
or not, and the process may stop after any of them. The controls below classify what is left from
the refs alone: a ref that matches what was asked for is a lost acknowledgement, and a tree without
a ref is garbage.
-/

namespace Omnigraph.BranchControl

open Durable

/-! ### Storage -/

/-- The identifier of a branch: a version and a unique id for each fork on the way from `main`. -/
abbrev VersionMapping := List (ℕ × String)

structure BranchContents where
  parentBranch : Option String
  parentVersion : ℕ
  identifier : VersionMapping

inductive Tree
  | absent
  /-- A clone or a removal that did not get to its end. -/
  | incomplete
  | cloned
deriving DecidableEq

structure Storage where
  refs : HashMap String BranchContents
  trees : String → Tree
  /-- How many unique ids were drawn. -/
  minted : ℕ

/-- `name` lies under the directory of `branch`. -/
def isNested (branch name : String) : Bool := (branch ++ "/").toList.isPrefixOf name.toList

def inDirectory (branch name : String) : Bool := name = branch || isNested branch name

/-- Sets the trees in the directory of a branch that are there. -/
def Storage.setDirectory (s : Storage) (branch : String) (tree : Tree) : Storage :=
  { s with trees := fun name =>
      if inDirectory branch name && s.trees name ≠ .absent then tree else s.trees name }

def Storage.setTree (s : Storage) (branch : String) (tree : Tree) : Storage :=
  { s with trees := fun name => if name = branch then tree else s.trees name }

/-! ### Native calls -/

/-- An error of a native call; `missing` is that of a ref or an object that is not there. -/
structure NativeError where
  missing : Bool
  message : String

/-- An error that a native step reports, before or after its effect. -/
structure Fault where
  afterEffect : Bool
  error : NativeError

/-- The storage and what the next native steps report; no faults are left at the end of the list. -/
structure World where
  storage : Storage
  faults : List (Option Fault)

abbrev Control := Durable World OmniError

/-- One native step. -/
def nativeStep (f : Storage → Storage) : Control (Except NativeError Unit) := fun w =>
  match w.faults with
  | some ⟨false, error⟩ :: faults => ⟨[], ⟨w.storage, faults⟩, .ok (.error error)⟩
  | some ⟨true, error⟩ :: faults =>
    ⟨[⟨f w.storage, faults⟩], ⟨f w.storage, faults⟩, .ok (.error error)⟩
  | none :: faults => ⟨[⟨f w.storage, faults⟩], ⟨f w.storage, faults⟩, .ok (.ok ())⟩
  | [] => ⟨[⟨f w.storage, []⟩], ⟨f w.storage, []⟩, .ok (.ok ())⟩

/-- Native steps up to the first error. -/
def nativeSteps : List (Storage → Storage) → Control (Except NativeError Unit)
  | [] => pure (.ok ())
  | f :: rest => nativeStep f >>= fun
    | .error error => pure (.error error)
    | .ok () => nativeSteps rest

def listBranchContents : Control (HashMap String BranchContents) :=
  read fun w => .ok w.storage.refs

def branchContents (branch : String) : Control (Option BranchContents) :=
  read fun w => .ok (w.storage.refs.lookup branch)

/-- The dataset a create starts from: the branch it is on and its version. -/
structure Source where
  branch : Option String
  version : ℕ

section Native

variable (mint : ℕ → String)

/-- The ref a native create writes. -/
def createdContents (source : Source) (sourceVersion : ℕ) (parent : VersionMapping)
    (minted : ℕ) : BranchContents :=
  { parentBranch := source.branch.filter fun branch => branch ≠ "main"
    parentVersion := sourceVersion
    identifier := parent ++ [(sourceVersion, mint minted)] }

def putRef (source : Source) (branch : String) (sourceVersion : ℕ) (parent : VersionMapping)
    (s : Storage) : Storage :=
  { s with
    refs := s.refs.insert branch (createdContents mint source sourceVersion parent s.minted)
    minted := s.minted + 1 }

/-- The identifier of the branch a dataset is on; `main` has none. -/
def Source.identifier (source : Source) (refs : HashMap String BranchContents) :
    Except OmniError VersionMapping :=
  match source.branch.filter fun branch => branch ≠ "main" with
  | none => .ok []
  | some branch =>
    match refs.lookup branch with
    | some contents => .ok contents.identifier
    | none => .error (.lance s!"branch {branch} does not exist")

/-- Clones the tree and then writes the ref. A ref or a tree that is there already is an error. -/
def nativeCreate (source : Source) (branch : String) (sourceVersion : ℕ)
    (parent : VersionMapping) : Control (Except NativeError Unit) :=
  read (fun w => .ok w.storage) >>= fun s =>
    if branch ∈ s.refs then pure (.error ⟨false, s!"branch {branch} already exists"⟩)
    else if s.trees branch ≠ .absent then
      pure (.error ⟨false, s!"dataset already exists at tree/{branch}"⟩)
    else nativeSteps [(·.setTree branch .incomplete), (·.setTree branch .cloned),
      putRef mint source branch sourceVersion parent]

/-- Removes the directory of a branch. -/
def removeTree (branch : String) : List (Storage → Storage) :=
  [(·.setDirectory branch .incomplete), (·.setDirectory branch .absent)]

def eraseRef (branch : String) (s : Storage) : Storage := { s with refs := s.refs.erase branch }

/-- Removes the ref and then the tree. -/
def nativeDelete (branch : String) : Control (Except NativeError Unit) :=
  branchContents branch >>= fun
    | none => pure (.error ⟨true, s!"branch {branch} does not exist"⟩)
    | some _ => nativeSteps (eraseRef branch :: removeTree branch)

/-- Removes the ref, if there is one, and the tree. -/
def nativeForceDelete (branch : String) : Control (Except NativeError Unit) :=
  nativeSteps (eraseRef branch :: removeTree branch)

end Native

/-! ### Paths -/

def pathDescendant (branches : HashMap String BranchContents) (branch : String) : Option String :=
  (branches.keys.filter fun candidate => isNested branch candidate).min?

def pathCollision (branches : HashMap String BranchContents) (branch : String) : Option String :=
  (branches.keys.filter fun candidate => candidate ≠ branch && candidate ≠ "main" &&
    (isNested branch candidate || isNested candidate branch)).min?

/-! ### Reclaiming -/

def lanceError (error : NativeError) : OmniError := .lance error.message

/-- What is missing already is removed. -/
def forceDeleteBranchTreeUnchecked (branch : String) : Control Unit :=
  nativeForceDelete branch >>= fun
    | .ok () => pure ()
    | .error error => if error.missing then pure () else fail (lanceError error)

section Controls

variable (encodeIdentifier : VersionMapping → String)

def authorityAppearedAfterAbsence (branch : String) : Control OmniError :=
  branchContents branch >>= fun
    | some contents => pure (.manifestReadSetChanged s!"branch_identifier:{branch}" none
        (some (encodeIdentifier contents.identifier)))
    | none => pure (.manifestConflict (s!"branch authority for '{branch}' changed during " ++
        "absent-only reclaim; refusing destructive cleanup"))

def reclaimConflict (branch child : String) : OmniError :=
  .manifestConflict (s!"cannot reclaim absent branch '{branch}' while live branch '{child}' " ++
    "shares its physical Lance path; delete the child branch first")

/-- Reclaims the tree of a branch whose ref is absent. Says whether it was. -/
def reclaimRefAbsentTree (branch : String) : Control Bool :=
  listBranchContents >>= fun branches =>
    if branch ∈ branches then pure false
    else
      match pathDescendant branches branch with
      | some child => fail (reclaimConflict branch child)
      | none => forceDeleteBranchTreeUnchecked branch >>= fun () => pure true

/-- An outcome of a program as a value, so that its error can be handled. -/
def attempt {α : Type} (m : Control α) : Control (Except OmniError α) := fun w =>
  ⟨(m w).trace, (m w).final, .ok (m w).result⟩

/-! ### Creating -/

inductive BranchCreateOutcome
  | created
  | refAlreadyExists

def matchesCreateExpectation (contents : BranchContents) (parentBranch : Option String)
    (parentVersion : ℕ) (parentIdentifier : VersionMapping) : Bool :=
  contents.parentBranch = (parentBranch.filter fun branch => branch ≠ "main") &&
    contents.parentVersion = parentVersion &&
    contents.identifier.length = parentIdentifier.length + 1 &&
    parentIdentifier.isPrefixOf contents.identifier &&
    match contents.identifier.getLast? with
    | some (version, uuid) => version = parentVersion && uuid ≠ ""
    | none => false

/-- The arguments of a create. -/
structure CreateCall where
  source : Source
  branch : String
  sourceVersion : ℕ

/-- A branch dataset opens when its ref and its tree are there. -/
def checkoutBranch (branch : String) (error : NativeError) : Control Unit :=
  read fun w =>
    if branch ∈ w.storage.refs ∧ w.storage.trees branch = .cloned then .ok ()
    else .error (.manifestInternal (s!"branch '{branch}' has matching authoritative metadata " ++
      "after an ambiguous create, but its branch dataset cannot be opened; original native " ++
      s!"error: {error.message}"))

/-- What an ambiguous error left, judged by the ref. `none` asks for another attempt. -/
def classifyCreate (call : CreateCall) (parent : VersionMapping) (error : NativeError) :
    Control (Option BranchCreateOutcome) :=
  branchContents call.branch >>= fun
    | some contents =>
      if matchesCreateExpectation contents call.source.branch call.sourceVersion parent then
        checkoutBranch call.branch error >>= fun () => pure (some .created)
      else fail (.manifestReadSetChanged s!"branch_identifier:{call.branch}" none
        (some (encodeIdentifier contents.identifier)))
    | none => attempt (reclaimRefAbsentTree call.branch) >>= fun
      | .ok true => pure none
      | .ok false => authorityAppearedAfterAbsence encodeIdentifier call.branch >>= fail
      | .error _ => fail (.manifestInternal (s!"native create of branch " ++
          s!"'{call.branch}' failed before authoritative metadata was visible " ++
          s!"({error.message}); clone-only cleanup also failed"))

variable (mint : ℕ → String)

/-- The attempts of a create; the last one reports its error. -/
def createAttempts (call : CreateCall) (parent : VersionMapping) :
    ℕ → Control BranchCreateOutcome
  | 0 => fail (.manifestInternal "bounded native branch-create loop")
  | attempts + 1 =>
    nativeCreate mint call.source call.branch call.sourceVersion parent >>= fun
      | .ok () => pure .created
      | .error error => classifyCreate encodeIdentifier call parent error >>= fun
        | some outcome => pure outcome
        | none =>
          if attempts = 0 then fail (lanceError error)
          else createAttempts call parent attempts

variable (checkValidBranch : String → Except OmniError Unit)

/-- The checks of a create, which read the refs only. Gives the identifier of the parent, or `none`
when the ref is there already. -/
def admitCreate (call : CreateCall) (branches : HashMap String BranchContents) :
    Except OmniError (Option VersionMapping) := do
  checkValidBranch call.branch
  if call.source.version ≠ call.sourceVersion then
    .error (.manifestConflict (s!"branch source moved before native create: expected version " ++
      s!"{call.sourceVersion}, current {call.source.version}"))
  else do
    let parent ← call.source.identifier branches
    if call.branch ∈ branches then .ok none
    else
      match pathCollision branches call.branch with
      | some conflicting => .error (.manifestConflict (s!"cannot create branch " ++
          s!"'{call.branch}' while live branch '{conflicting}' shares its physical Lance path; " ++
          "live graph branch names may not be ancestors or descendants"))
      | none => .ok (some parent)

def createBranchRecoverably (call : CreateCall) : Control BranchCreateOutcome :=
  read (fun w => admitCreate checkValidBranch call w.storage.refs) >>= fun
    | none => pure .refAlreadyExists
    | some parent => reclaimRefAbsentTree call.branch >>= fun
      | false => authorityAppearedAfterAbsence encodeIdentifier call.branch >>= fail
      | true => createAttempts encodeIdentifier mint call parent 2

/-! ### Deleting -/

structure DeleteCall where
  branch : String
  expected : VersionMapping

/-- The ref is gone; its tree is reclaimed if that works. -/
def reclaimDeleted (branch : String) : Control Unit :=
  attempt (reclaimRefAbsentTree branch) >>= fun
    | .ok true => pure ()
    | .ok false => authorityAppearedAfterAbsence encodeIdentifier branch >>= fail
    | .error _ => pure ()

def identifierChanged (call : DeleteCall) (found : VersionMapping) : OmniError :=
  .manifestReadSetChanged s!"branch_identifier:{call.branch}"
    (some (encodeIdentifier call.expected)) (some (encodeIdentifier found))

/-- What an ambiguous error left, judged by the ref. -/
def classifyDelete (call : DeleteCall) (error : NativeError) : Control Unit :=
  branchContents call.branch >>= fun
    | none => reclaimDeleted encodeIdentifier call.branch
    | some contents =>
      if contents.identifier = call.expected then fail (lanceError error)
      else fail (identifierChanged encodeIdentifier call contents.identifier)

def deleteBranchRecoverably (call : DeleteCall) : Control Unit :=
  listBranchContents >>= fun initial =>
    match initial.lookup call.branch with
    | none => reclaimDeleted encodeIdentifier call.branch
    | some contents =>
      if contents.identifier ≠ call.expected then
        fail (identifierChanged encodeIdentifier call contents.identifier)
      else
        match pathDescendant initial call.branch with
        | some child => fail (.manifestConflict (s!"cannot delete branch " ++
            s!"'{call.branch}' while live branch '{child}' shares its physical Lance path; " ++
            "delete the child branch first"))
        | none => nativeDelete call.branch >>= fun
          | .ok () => pure ()
          | .error error => classifyDelete encodeIdentifier call error

end Controls

end Omnigraph.BranchControl
