import Mathlib.Data.Nat.Notation

/-!
# Errors

The errors the modelled code returns, with the texts it gives them.
-/

namespace Omnigraph

inductive ManifestErrorKind
  | badRequest
  | notFound
  | conflict
  | internal
deriving DecidableEq

/-- Structured details of a manifest-level conflict. -/
inductive ManifestConflictDetails
  | expectedVersionMismatch (tableKey : String) (expected actual : ℕ)
  | readSetChanged (member : String) (expected actual : Option String)
  | rowLevelCasContention
deriving DecidableEq

structure ManifestError where
  kind : ManifestErrorKind
  message : String
  details : Option ManifestConflictDetails
deriving DecidableEq

inductive MergeConflictKind
  | divergentInsert
  | divergentUpdate
  | deleteVsUpdate
  | orphanEdge
  | uniqueViolation
  | cardinalityViolation
  | valueConstraintViolation
deriving DecidableEq

structure MergeConflict where
  tableKey : String
  rowId : Option String
  kind : MergeConflictKind
  message : String
deriving DecidableEq

/-- The namespace errors the publisher raises. -/
inductive NamespaceError
  | tableNotFound (message : String)
  | concurrentModification (message : String)
  | invalidInput (message : String)
deriving DecidableEq

inductive OmniError
  | lance (message : String)
  /-- A namespace error in its printed form. -/
  | lanceNamespace (error : NamespaceError)
  | manifestError (error : ManifestError)
  | mergeConflicts (conflicts : List MergeConflict)
  /-- A strict insert of an id that is there already. -/
  | keyConflictError (tableKey : String) (key : Option String)
  | resourceLimitExceeded (resource : String) (limit actual : ℕ)
  /-- A commit Lance refused because of a concurrent one; it may be tried again. -/
  | retryableCommitConflict (message : String)
  /-- An operation has effects that a recovery has to settle first. -/
  | recoveryRequired (operationId reason : String)
  /-- The caller's expected head is not the head of the branch. -/
  | preconditionFailed (branch expected : String) (actual : Option String)
  /-- A cursor that does not belong to the walk it is used for. -/
  | changeCursorRejected (reason : String)
deriving DecidableEq

namespace OmniError

def resourceLimit (resource : String) (limit actual : ℕ) : OmniError :=
  .resourceLimitExceeded resource limit actual

def keyConflict (tableKey key : String) : OmniError := .keyConflictError tableKey (some key)

def manifest (message : String) : OmniError :=
  .manifestError ⟨.badRequest, message, none⟩

def manifestConflict (message : String) : OmniError :=
  .manifestError ⟨.conflict, message, none⟩

def manifestInternal (message : String) : OmniError :=
  .manifestError ⟨.internal, message, none⟩

def manifestExpectedVersionMismatch (tableKey : String) (expected actual : ℕ) : OmniError :=
  .manifestError
    { kind := .conflict
      message := s!"stale view of '{tableKey}': expected manifest table version {expected} " ++
        s!"but current is {actual} — refresh and retry"
      details := some (.expectedVersionMismatch tableKey expected actual) }

def manifestRowLevelCasContention (message : String) : OmniError :=
  .manifestError ⟨.conflict, message, some .rowLevelCasContention⟩

def manifestReadSetChanged (member : String) (expected actual : Option String) : OmniError :=
  let expectedText := expected.getD "<absent>"
  let actualText := actual.getD "<absent>"
  .manifestError
    { kind := .conflict
      message := s!"write authority '{member}' changed during preparation " ++
        s!"(expected {expectedText}, current {actualText}) — " ++
        "reprepare from the current branch state"
      details := some (.readSetChanged member expected actual) }

def isReadSetChanged : OmniError → Bool
  | .manifestError ⟨_, _, some (.readSetChanged _ _ _)⟩ => true
  | _ => false

def isPreconditionFailed : OmniError → Bool
  | .preconditionFailed _ _ _ => true
  | _ => false

/-- The publisher retries a lost row-level race and nothing else. -/
def isRetryablePublishConflict : OmniError → Bool
  | .manifestError error => error.details = some .rowLevelCasContention
  | _ => false

end OmniError

end Omnigraph
