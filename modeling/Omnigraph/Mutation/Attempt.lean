import Mathlib.Data.List.Sort
import Mathlib.Data.String.Basic
import Omnigraph.Error

/-!
# Mutation calls on one branch

Any number of mutation calls work on one branch, in one process. A call captures the branch's
authority and table pins, executes and validates against them, stages one transaction per table,
takes the schema, branch and table gates, and checks under them that the branch has not moved
before it arms its recovery sidecar, moves the tables and publishes. The steps of different calls
interleave in any order.

The branch's storage and the calls are data here. What the query engine computes (the statements of
a call, its validation, the rows a transaction writes) is a parameter.
-/

namespace Omnigraph.Mutation

/-! ### What a branch stores -/

/-- The manifest's entry of a table. An entry that is not owned is inherited: the branch has no
ref of its own for the table yet. -/
structure Pin where
  tableVersion : ℕ
  owned : Bool

/-- A row of the branch's lineage, with the pins the manifest has from that commit on. -/
structure GraphCommitRow (T : Type) where
  graphCommitId : String
  parentCommitId : Option String
  pins : T → Pin

/-- The branch's ref of a table: its HEAD version and the transaction that made it. -/
structure TableRef where
  head : ℕ
  transactionUuid : Option String

structure WriteAuthorityToken where
  branchIdentifier : String
  graphHead : Option String
  schemaIrHash : String
  schemaIdentityDomain : String
  schemaIdentityVersion : ℕ
deriving DecidableEq

structure SidecarTablePin (T : Type) where
  table : T
  expectedVersion : ℕ
  plannedUuid : String

def SidecarTablePin.postCommitPin {T : Type} (pin : SidecarTablePin T) : ℕ :=
  pin.expectedVersion + 1

/-- The durable intent of a mutation: armed before its first effect, confirmed after its last. -/
structure RecoverySidecar (T : Type) where
  operationId : String
  graphCommitId : String
  authority : WriteAuthorityToken
  tables : List (SidecarTablePin T)
  confirmed : Bool

/-- One branch. The content of a table is that of the version the branch sees: the inherited
versions up to the fork and the branch's own ones after it. -/
structure GraphStore (T V : Type) where
  branchIdentifier : String
  schemaIrHash : String
  schemaIdentityDomain : String
  schemaIdentityVersion : ℕ
  /-- The head and the pins the branch was cut at. -/
  inheritedHead : Option String
  inheritedPins : T → Pin
  /-- The branch's own commits, the newest first. -/
  lineage : List (GraphCommitRow T)
  ref : T → Option TableRef
  content : T → ℕ → V
  sidecars : List (RecoverySidecar T)
  /-- A branch below this one by its path keeps Lance from removing the ref. -/
  pathChild : T → Bool

section Lineage

variable {T : Type}

/-- The exact head row of the branch: its newest own commit. -/
def exactHeadOf (lineage : List (GraphCommitRow T)) : Option String :=
  lineage.head?.map GraphCommitRow.graphCommitId

def effectiveHeadOf (inherited : Option String) (lineage : List (GraphCommitRow T)) :
    Option String :=
  exactHeadOf lineage <|> inherited

def pinsOf (inherited : T → Pin) : List (GraphCommitRow T) → T → Pin
  | [] => inherited
  | row :: _ => row.pins

end Lineage

namespace GraphStore

variable {T V : Type}

def graphHead (store : GraphStore T V) : Option String := exactHeadOf store.lineage

def effectiveGraphHead (store : GraphStore T V) : Option String :=
  effectiveHeadOf store.inheritedHead store.lineage

/-- The current snapshot of the manifest. -/
def pins (store : GraphStore T V) : T → Pin := pinsOf store.inheritedPins store.lineage

/-- The graph a snapshot shows. -/
def read (store : GraphStore T V) (pins : T → Pin) (t : T) : V :=
  store.content t (pins t).tableVersion

/-- The pins a commit of the lineage left, or those the branch was cut at. -/
def pinsAt (store : GraphStore T V) (commit : Option String) : Option (T → Pin) :=
  match store.lineage.find? fun row => some row.graphCommitId = commit with
  | some row => some row.pins
  | none => if commit = store.inheritedHead then some store.inheritedPins else none

def authority (store : GraphStore T V) : WriteAuthorityToken where
  branchIdentifier := store.branchIdentifier
  graphHead := store.graphHead
  schemaIrHash := store.schemaIrHash
  schemaIdentityDomain := store.schemaIdentityDomain
  schemaIdentityVersion := store.schemaIdentityVersion

def deleteSidecar (store : GraphStore T V) (operationId : String) : GraphStore T V :=
  { store with sidecars := store.sidecars.filter fun s => s.operationId ≠ operationId }

section Updates

variable [DecidableEq T]

/-- The pins once the updates are published. -/
def updatePins (pins : T → Pin) (updates : List (T × ℕ)) (t : T) : Pin :=
  match updates.lookup t with
  | some version => ⟨version, true⟩
  | none => pins t

/-- The row a publish on top of the current state adds. -/
def nextCommit (store : GraphStore T V) (graphCommitId : String) (updates : List (T × ℕ)) :
    GraphCommitRow T where
  graphCommitId := graphCommitId
  parentCommitId := store.effectiveGraphHead
  pins := updatePins store.pins updates

def publish (store : GraphStore T V) (graphCommitId : String) (updates : List (T × ℕ)) :
    GraphStore T V :=
  { store with lineage := store.nextCommit graphCommitId updates :: store.lineage }

def setRef (store : GraphStore T V) (t : T) (ref : Option TableRef) : GraphStore T V :=
  { store with ref := Function.update store.ref t ref }

/-- The transaction lands as the version after HEAD. -/
def commitTable (store : GraphStore T V) (t : T) (head : ℕ) (uuid : String) (v : V) :
    GraphStore T V where
  __ := store
  ref := Function.update store.ref t (some ⟨head + 1, some uuid⟩)
  content := Function.update store.content t (Function.update (store.content t) (head + 1) v)

end Updates

end GraphStore

/-! ### The engine -/

inductive MutationOpKind
  | insert
  | merge
  | update
  | delete
  | schemaRewrite

def MutationOpKind.strictPreStageVersionCheck : MutationOpKind → Bool
  | .insert | .merge => false
  | .update | .delete | .schemaRewrite => true

/-- A lowered statement: the tables it opens with the strict check, which depend on the rows it
has met, and what it adds to the staging. The ids it mints are new in every attempt. -/
structure MutationOp (T V W : Type) where
  isInsert : Bool
  opens : (T → V) → W → List T
  run : ℕ → (T → V) → W → Except OmniError W

inductive PendingMode
  | strictInsert
  | upsert
  | overwrite

/-- What a touched table has staged: write batches or delete predicates. -/
inductive StagePlan
  | pending (mode : PendingMode)
  | delete

/-- The kind of access staging reopens the table with. -/
def StagePlan.stageKind : StagePlan → MutationOpKind
  | .pending .strictInsert => .insert
  | .pending .upsert => .merge
  | .pending .overwrite => .schemaRewrite
  | .delete => .delete

/-- The calls on the branch and the functions they share. `W` is the staging accumulator. -/
structure Engine (C T V W : Type) where
  branch : String
  tableKey : T → String
  tablePath : T → String
  expectedHead : C → Option String
  lower : C → Except OmniError (List (MutationOp T V W))
  emptyStaging : W
  isEmpty : W → Bool
  /-- Referential integrity and the like read the base, cardinality reads a fresh snapshot. -/
  validate : W → (T → V) → (T → V) → Except OmniError Unit
  touched : W → List T
  touched_nodup : ∀ work, (touched work).Nodup
  plan : W → T → StagePlan
  stageWrite : W → T → V → Except OmniError V
  /-- A delete that matches no row stages nothing. -/
  stageDelete : W → T → V → Except OmniError (Option V)
  firstExistingId : W → T → V → Option String
  /-- Lance either rebases a transaction over the commits it missed or refuses it. -/
  rebase : W → T → V → Option V
  display : OmniError → String
  commitId : C → ℕ → String
  operationId : C → ℕ → String
  plannedUuid : C → ℕ → T → String

section Alone

variable {C T V W : Type} [DecidableEq T] (eng : Engine C T V W)

namespace Engine

/-- The transaction staged for a table, on the content it reads. -/
def stage (work : W) (t : T) (v : V) : Except OmniError (Option V) :=
  match eng.plan work t with
  | .pending _ => some <$> eng.stageWrite work t v
  | .delete => eng.stageDelete work t v

def execute (n : ℕ) (base : T → V) (ops : List (MutationOp T V W)) (work : W) :
    Except OmniError W :=
  ops.foldlM (fun work op => op.run n base work) work

/-- The graph after the staged transactions. -/
def written (work : W) (graph : T → V) (t : T) : V :=
  if t ∈ eng.touched work then
    match eng.stage work t (graph t) with
    | .ok (some v) => v
    | _ => graph t
  else graph t

/-- The call executed alone on a graph: the graph it leaves, or `none` if it has no effect. -/
def alone (c : C) (n : ℕ) (graph : T → V) : Except OmniError (Option (T → V)) := do
  let ops ← eng.lower c
  let work ← execute n graph ops eng.emptyStaging
  if eng.isEmpty work then
    return none
  eng.validate work graph graph
  (eng.touched work).forM fun t => discard (eng.stage work t (graph t))
  return some (eng.written work graph)

/-- Only a call of inserts may be executed again. -/
def insertOnly (c : C) : Bool :=
  match eng.lower c with
  | .ok ops => ops.all MutationOp.isInsert
  | .error _ => false

end Engine

end Alone

/-! ### One attempt -/

structure WriteTxn (T : Type) where
  /-- The base snapshot. -/
  pins : T → Pin
  authority : WriteAuthorityToken
  effectiveGraphHead : Option String
  callerExpectedGraphHead : Option String

/-- A table with its transaction, staged on the version read, or deferred to the fork of an
inherited table. -/
structure StagedTableEntry (T V : Type) where
  table : T
  expectedVersion : ℕ
  deferredFork : Bool
  datasetVersion : ℕ
  stagedWrite : Option V

/-- The process-wide locks, in the order they are taken. -/
inductive Gate (T : Type)
  | schema
  | branch
  | table (t : T)
deriving DecidableEq

/-- Where a call stands. -/
inductive Phase (T V W : Type)
  | recovering
  | capturing
  | executing (txn : WriteTxn T) (ops : List (MutationOp T V W)) (work : W)
  | validating (txn : WriteTxn T) (work : W)
  | staging (txn : WriteTxn T) (work : W) (todo : List T) (staged : List (StagedTableEntry T V))
  | gating (txn : WriteTxn T) (work : W) (staged : List (StagedTableEntry T V))
      (gates : List (Gate T))
  | revalidating (txn : WriteTxn T) (work : W) (staged : List (StagedTableEntry T V))
  | checking (txn : WriteTxn T) (work : W) (snapshot : T → Pin)
      (staged todo : List (StagedTableEntry T V))
  | forking (txn : WriteTxn T) (work : W) (snapshot : T → Pin)
      (forked todo : List (StagedTableEntry T V))
  | committing (txn : WriteTxn T) (work : W) (snapshot : T → Pin) (updates : List (T × ℕ))
      (todo : List (StagedTableEntry T V))
  | publishing (txn : WriteTxn T) (work : W) (updates : List (T × ℕ)) (armed : Bool)
  | retiring (commit : GraphCommitRow T) (armed : Bool)
  /-- The staging is empty and the caller expects a head. -/
  | noEffect (txn : WriteTxn T) (gates : List (Gate T))
  /-- With the receipt's commit, if there is one. -/
  | returned (result : Except OmniError (Option (GraphCommitRow T)))

/-- What a step of a call does. All but `write`, `fail` and `finish` leave the store alone; the
last two end the attempt and drop its gates. -/
inductive Move (T V W : Type)
  | goto (phase : Phase T V W)
  | take (gate : Gate T) (phase : Phase T V W)
  | write (store : GraphStore T V) (phase : Phase T V W)
  | fail (store : GraphStore T V) (e : OmniError)
  | finish (store : GraphStore T V) (result : Option (GraphCommitRow T))

section Capture

variable {T V : Type}

def GraphStore.openWriteTxn (store : GraphStore T V) : WriteTxn T where
  pins := store.pins
  authority := store.authority
  effectiveGraphHead := store.effectiveGraphHead
  callerExpectedGraphHead := none

/-- The caller's head against the captured one. -/
def checkExpectedHead (branch : String) (expected : Option String) (txn : WriteTxn T) :
    Except OmniError (WriteTxn T) :=
  match expected with
  | none => .ok txn
  | some head =>
    if txn.effectiveGraphHead = some head then
      .ok { txn with callerExpectedGraphHead := some head }
    else .error (.preconditionFailed branch head txn.effectiveGraphHead)

/-- A member of the token against its live value. -/
def ensureUnchanged (member : String) (expected actual : Option String) : Except OmniError Unit :=
  if actual = expected then .ok ()
  else .error (.manifestReadSetChanged member expected actual)

/-- The caller's head comes first: a moved one is the caller's to know. -/
def ensureCallerHead (branch : String) (store : GraphStore T V) (txn : WriteTxn T) :
    Except OmniError Unit :=
  match txn.callerExpectedGraphHead with
  | none => .ok ()
  | some expected =>
    if store.effectiveGraphHead = some expected then .ok ()
    else .error (.preconditionFailed branch expected store.effectiveGraphHead)

def revalidateWriteTxn (branch : String) (store : GraphStore T V) (txn : WriteTxn T) :
    Except OmniError (T → Pin) := do
  ensureCallerHead branch store txn
  ensureUnchanged s!"branch_identifier:{branch}" (some txn.authority.branchIdentifier)
    (some store.branchIdentifier)
  ensureUnchanged s!"graph_head:{branch}" txn.authority.graphHead store.graphHead
  ensureUnchanged "schema_ir_hash" (some txn.authority.schemaIrHash) (some store.schemaIrHash)
  ensureUnchanged "schema_identity_domain" (some txn.authority.schemaIdentityDomain)
    (some store.schemaIdentityDomain)
  ensureUnchanged "schema_identity_version" (some (toString txn.authority.schemaIdentityVersion))
    (some (toString store.schemaIdentityVersion))
  return store.pins

end Capture

section Attempt

variable {C T V W : Type} [DecidableEq T] (eng : Engine C T V W)

/-- The error of a ref that is not there. Lance's own text is left out. -/
def refNotFound : OmniError := .lance ""

/-- A strict statement reads HEAD, which has to be the pinned version. An inherited table is read
at its pin. -/
def openStrict (store : GraphStore T V) (txn : WriteTxn T) (t : T) : Except OmniError Unit :=
  if (txn.pins t).owned then
    match store.ref t with
    | none => .error refNotFound
    | some ref =>
      if ref.head = (txn.pins t).tableVersion then .ok ()
      else .error (.manifestReadSetChanged s!"table_head:{eng.tableKey t}"
        (some (toString (txn.pins t).tableVersion)) (some (toString ref.head)))
  else .ok ()

/-- One statement, on the base snapshot. -/
def executeOp (store : GraphStore T V) (n : ℕ) (txn : WriteTxn T) (op : MutationOp T V W)
    (work : W) : Except OmniError W := do
  (op.opens (store.read txn.pins) work).forM (openStrict eng store txn)
  op.run n (store.read txn.pins) work

/-- The version staging reads. Inserts and upserts take HEAD as it is. -/
def reopenForMutation (store : GraphStore T V) (t : T) (expected : ℕ) (kind : MutationOpKind) :
    Except OmniError ℕ :=
  match store.ref t with
  | none => .error refNotFound
  | some ref =>
    if kind.strictPreStageVersionCheck ∧ ref.head ≠ expected then
      .error (.manifestExpectedVersionMismatch (eng.tableKey t) expected ref.head)
    else .ok ref.head

/-- Stage one table. The transaction of an inherited table is left for its fork; a delete there
first looks for a row it matches. -/
def stageTable (store : GraphStore T V) (txn : WriteTxn T) (work : W) (t : T) :
    Except OmniError (Option (StagedTableEntry T V)) := do
  let expected := (txn.pins t).tableVersion
  if (txn.pins t).owned then
    let version ← reopenForMutation eng store t expected (eng.plan work t).stageKind
    let staged ← eng.stage work t (store.content t version)
    return staged.map fun v => ⟨t, expected, false, version, some v⟩
  else
    match eng.plan work t with
    | .pending _ => return some ⟨t, expected, true, expected, none⟩
    | .delete =>
      let probe ← eng.stageDelete work t (store.content t expected)
      return probe.map fun _ => ⟨t, expected, true, expected, none⟩

/-- The check of one entry against the snapshot read under the gates. -/
def checkEntry (store : GraphStore T V) (snapshot : T → Pin) (entry : StagedTableEntry T V) :
    Except OmniError Unit :=
  let current := (snapshot entry.table).tableVersion
  let key := eng.tableKey entry.table
  if entry.expectedVersion ≠ current then
    .error (.manifestReadSetChanged s!"table_head:{key}" (some (toString entry.expectedVersion))
      (some (toString current)))
  else if entry.deferredFork then
    if entry.datasetVersion ≠ current then
      .error (.manifestReadSetChanged s!"table_head:{key}" (some (toString current))
        (some (toString entry.datasetVersion)))
    else .ok ()
  else
    match store.ref entry.table with
    | none => .error refNotFound
    | some ref =>
      if ref.head < current then
        .error (.manifestInternal
          s!"table '{key}' Lance HEAD version {ref.head} is behind manifest version {current}")
      else if ref.head = current then .ok ()
      else
        match store.sidecars.find? fun s => s.tables.any fun pin => pin.table = entry.table with
        | some owner => .error (.recoveryRequired owner.operationId
            (s!"table '{key}' has Lance HEAD version {ref.head} ahead of manifest version " ++
              s!"{current}; the pending recovery operation owns this drift"))
        | none => .error (.manifestConflict
            (s!"table '{key}' has Lance HEAD version {ref.head} ahead of manifest version " ++
              s!"{current}; run `omnigraph repair` before writing"))

/-- The sidecar of an attempt. -/
def newSidecar (c : C) (n : ℕ) (txn : WriteTxn T) (staged : List (StagedTableEntry T V)) :
    RecoverySidecar T where
  operationId := eng.operationId c n
  graphCommitId := eng.commitId c n
  authority := txn.authority
  tables := staged.map fun e => ⟨e.table, e.expectedVersion, eng.plannedUuid c n e.table⟩
  confirmed := false

/-- Remove the forks of the inherited tables; `false` when a path child is in the way. -/
def cleanupUnpublishedForks (snapshot : T → Pin) (operationId : String) :
    List (SidecarTablePin T) → GraphStore T V → GraphStore T V × Except OmniError Bool
  | [], store => (store, .ok true)
  | pin :: pins, store =>
    if (snapshot pin.table).owned then cleanupUnpublishedForks snapshot operationId pins store
    else if store.pathChild pin.table then (store, .ok false)
    else
      match store.ref pin.table with
      | none => cleanupUnpublishedForks snapshot operationId pins store
      | some ref =>
        if ref.head = pin.expectedVersion then
          cleanupUnpublishedForks snapshot operationId pins (store.setRef pin.table none)
        else (store, .error (.manifestInternal
          (s!"OCC recovery sidecar '{operationId}' cannot discard unpublished fork " ++
            s!"'{eng.tablePath pin.table}:{eng.branch}': live HEAD is {ref.head}, expected " ++
            s!"untouched version {pin.expectedVersion}")))

/-- Retire the sidecar of an attempt none of whose transactions landed. -/
def finalizeEffectFree (store : GraphStore T V) (snapshot : T → Pin) (operationId : String) :
    GraphStore T V × Except OmniError Bool :=
  match store.sidecars.find? fun s => s.operationId = operationId with
  | none => (store, .ok false)
  | some sidecar =>
    if sidecar.confirmed then (store, .ok false)
    else if sidecar.tables.any fun pin =>
        (store.ref pin.table).any fun ref => ref.transactionUuid = some pin.plannedUuid then
      (store, .ok false)
    else
      match cleanupUnpublishedForks eng snapshot operationId sidecar.tables store with
      | (store, .ok true) => (store.deleteSidecar operationId, .ok true)
      | outcome => outcome

/-- Fork an inherited table at its pin. A ref the manifest does not know is reclaimed. -/
def forkTable (store : GraphStore T V) (entry : StagedTableEntry T V) :
    Except OmniError (GraphStore T V) :=
  if (store.pins entry.table).owned then
    .error (.manifestReadSetChanged s!"table_head:{eng.tableKey entry.table}"
      (some (toString entry.expectedVersion))
      (some (toString (store.pins entry.table).tableVersion)))
  else .ok (store.setRef entry.table (some ⟨entry.expectedVersion, none⟩))

/-- The deferred transaction, on the fork. -/
def stageDeferredPlan (store : GraphStore T V) (work : W) (entry : StagedTableEntry T V) :
    Except OmniError V := do
  match ← eng.stage work entry.table (store.content entry.table entry.expectedVersion) with
  | some v => return v
  | none => throw (.manifestReadSetChanged "deferred_delete_match"
      (some "matching row at inherited pin") (some "no matching row on exact target fork"))

def isKeyConflict : OmniError → Bool
  | .keyConflictError _ _ => true
  | _ => false

/-- A deferred staging that failed. Only a key conflict whose forks could all be removed is
returned as such. -/
def failDeferred (store : GraphStore T V) (snapshot : T → Pin) (c : C) (n : ℕ) (t : T)
    (e : OmniError) : Move T V W :=
  let required (store : GraphStore T V) (reason : String) : Move T V W :=
    .fail store (.recoveryRequired (eng.operationId c n) reason)
  let staging := s!"staging on deferred table fork '{eng.tableKey t}' failed "
  let armed := staging ++ s!"after recovery intent was armed: {eng.display e}"
  if isKeyConflict e then
    match finalizeEffectFree eng store snapshot (eng.operationId c n) with
    | (store, .ok true) => .fail store e
    | (store, .ok false) => required store armed
    | (store, .error failure) =>
      required store (staging ++ "and the effect-free intent could not be " ++
        s!"finalized: {eng.display e}; finalization: {eng.display failure}")
  else required store armed

def forkStep (store : GraphStore T V) (c : C) (n : ℕ) (txn : WriteTxn T) (work : W)
    (snapshot : T → Pin) (forked : List (StagedTableEntry T V)) (entry : StagedTableEntry T V)
    (todo : List (StagedTableEntry T V)) : Move T V W :=
  if entry.deferredFork then
    match forkTable eng store entry with
    | .error e => .fail store (.recoveryRequired (eng.operationId c n)
        s!"deferred table fork failed after recovery intent was armed: {eng.display e}")
    | .ok store =>
      match stageDeferredPlan eng store work entry with
      | .ok v => .write store (.forking txn work snapshot
          (forked ++ [{ entry with stagedWrite := some v }]) todo)
      | .error e => failDeferred eng store snapshot c n entry.table e
  else .goto (.forking txn work snapshot (forked ++ [entry]) todo)

/-- What a refused commit becomes once the sidecar is retired. -/
def conflictError (store : GraphStore T V) (work : W) (t : T) (e : OmniError) : OmniError :=
  match eng.plan work t with
  | .pending .strictInsert =>
    match eng.firstExistingId work t (store.read store.pins t) with
    | some key => .keyConflict (eng.tableKey t) key
    | none => .manifestReadSetChanged s!"key_fence:{eng.tableKey t}"
        (some "prepared strict exact-id write")
        (some "retryable substrate conflict without a visible exact-id match")
  | .pending .upsert => .manifestReadSetChanged s!"key_fence:{eng.tableKey t}"
      (some "prepared exact-id write") (some "concurrent exact-id write")
  | .pending .overwrite | .delete => e

/-- The error of a commit Lance refuses. Its own text is left out. -/
def commitConflict : OmniError := .retryableCommitConflict ""

def failCommit (store : GraphStore T V) (snapshot : T → Pin) (c : C) (n : ℕ) (work : W) (t : T)
    (updates : List (T × ℕ)) : Move T V W :=
  let required (store : GraphStore T V) (reason : String) : Move T V W :=
    .fail store (.recoveryRequired (eng.operationId c n) reason)
  if updates = [] then
    match finalizeEffectFree eng store snapshot (eng.operationId c n) with
    | (store, .ok true) => .fail store (conflictError eng store work t commitConflict)
    | (store, .ok false) => required store (eng.display commitConflict)
    | (store, .error failure) =>
      required store ("commit failed and the effect-free intent could not " ++
        s!"be finalized: {eng.display commitConflict}; finalization: {eng.display failure}")
  else required store (eng.display commitConflict)

/-- Commit one table. The transaction has to land right after the version it was staged on. -/
def commitStep (store : GraphStore T V) (c : C) (n : ℕ) (txn : WriteTxn T) (work : W)
    (snapshot : T → Pin) (updates : List (T × ℕ)) (entry : StagedTableEntry T V)
    (todo : List (StagedTableEntry T V)) : Move T V W :=
  let t := entry.table
  let uuid := eng.plannedUuid c n t
  match entry.stagedWrite, store.ref t with
  | none, _ => .fail store (.manifestInternal
      s!"table '{eng.tableKey t}' reached commit without a staged transaction")
  | some _, none => .fail store (.recoveryRequired (eng.operationId c n) (eng.display refNotFound))
  | some v, some ref =>
    if ref.head = entry.datasetVersion then
      .write (store.commitTable t ref.head uuid v)
        (.committing txn work snapshot (updates ++ [(t, ref.head + 1)]) todo)
    else
      match eng.rebase work t (store.content t ref.head) with
      | some v => .fail (store.commitTable t ref.head uuid v)
          (.recoveryRequired (eng.operationId c n)
            (s!"table '{eng.tableKey t}' committed a rebased Lance transaction at version " ++
              s!"{ref.head + 1}"))
      | none => failCommit eng store snapshot c n work t updates

/-- The publisher's checks: the exact head of the branch, and the pins of every touched table. -/
def publishPrecondition (store : GraphStore T V) (txn : WriteTxn T) (work : W) :
    Except OmniError Unit := do
  ensureUnchanged s!"branch_identifier:{eng.branch}" (some txn.authority.branchIdentifier)
    (some store.branchIdentifier)
  ensureUnchanged s!"graph_head:{eng.branch}" txn.authority.graphHead store.graphHead
  (eng.touched work).forM fun t =>
    if (store.pins t).tableVersion = (txn.pins t).tableVersion then .ok ()
    else .error (.manifestExpectedVersionMismatch (eng.tableKey t) (txn.pins t).tableVersion
      (store.pins t).tableVersion)

def publishStep (store : GraphStore T V) (c : C) (n : ℕ) (txn : WriteTxn T) (work : W)
    (updates : List (T × ℕ)) (armed : Bool) : Move T V W :=
  match publishPrecondition eng store txn work with
  | .error e =>
    if armed then .fail store (.recoveryRequired (eng.operationId c n) (eng.display e))
    else .fail store e
  | .ok () => .write (store.publish (eng.commitId c n) updates)
      (.retiring (store.nextCommit (eng.commitId c n) updates) armed)

/-- The healer settles a sidecar whose commit is visible or whose confirmed effects can still be
published on the head they were prepared for. It never rolls back. -/
def healSidecar (store : GraphStore T V) (sidecar : RecoverySidecar T) : Option (GraphStore T V) :=
  if store.lineage.any fun row => row.graphCommitId = sidecar.graphCommitId then
    some (store.deleteSidecar sidecar.operationId)
  else if sidecar.confirmed ∧ store.authority = sidecar.authority then
    some ((store.publish sidecar.graphCommitId
      (sidecar.tables.map fun pin => (pin.table, pin.postCommitPin))).deleteSidecar
        sidecar.operationId)
  else none

/-- The recovery barrier. The healer takes the gates first, so it waits for a live owner. -/
def recoverStep (store : GraphStore T V) (idle : Bool) : Option (Move T V W) :=
  match store.sidecars with
  | [] => some (.goto .capturing)
  | sidecar :: _ =>
    if idle then
      match healSidecar store sidecar with
      | some store => some (.write store .recovering)
      | none => some (.fail store (.recoveryRequired sidecar.operationId
          (s!"pending Mutation recovery operation on branch '{eng.branch}' blocks the " ++
            "synchronous write/control recovery barrier (tables " ++
            ", ".intercalate (sidecar.tables.map fun pin => eng.tableKey pin.table) ++
            "); reopen the graph read-write before retrying")))
    else none

end Attempt

/-! ### The calls of a process -/

/-- A call moves on, or stages one of its tables; the tables are staged concurrently. -/
inductive Event (C T : Type)
  | step (c : C)
  | stage (c : C) (t : T)

def Event.call {C T : Type} : Event C T → C
  | .step c => c
  | .stage c _ => c

structure World (C T V W : Type) where
  store : GraphStore T V
  gates : Gate T → Option C
  attempt : C → ℕ
  phase : C → Phase T V W

def maxPreEffectReprepares : ℕ := 32

section Process

variable {C T V W : Type} [DecidableEq C] [LinearOrder T] (eng : Engine C T V W)

/-- The gates of a commit: schema, branch, then the tables in order. -/
def commitGates (staged : List (StagedTableEntry T V)) : List (Gate T) :=
  .schema :: .branch :: ((staged.map StagedTableEntry.table).insertionSort (· ≤ ·)).map .table

/-- The next step of a call in its `n`-th attempt; `none` while it waits or has returned. -/
def nextMove (store : GraphStore T V) (gates : Gate T → Option C) (c : C) (n : ℕ) :
    Phase T V W → Option (Move T V W)
  | .recovering => recoverStep eng store (gates .schema).isNone
  | .capturing => some <|
    match checkExpectedHead eng.branch (eng.expectedHead c) store.openWriteTxn with
    | .error e => .fail store e
    | .ok txn =>
      match eng.lower c with
      | .error e => .fail store e
      | .ok ops => .goto (.executing txn ops eng.emptyStaging)
  | .executing txn (op :: ops) work => some <|
    match executeOp eng store n txn op work with
    | .error e => .fail store e
    | .ok work => .goto (.executing txn ops work)
  | .executing txn [] work => some <|
    if eng.isEmpty work then
      match txn.callerExpectedGraphHead with
      | none => .finish store none
      | some _ => .goto (.noEffect txn [.schema, .branch])
    else .goto (.validating txn work)
  | .validating txn work => some <|
    match eng.validate work (store.read txn.pins) (store.read store.pins) with
    | .error e => .fail store e
    | .ok () => .goto (.staging txn work (eng.touched work) [])
  | .staging txn work [] staged => some (.goto (.gating txn work staged (commitGates staged)))
  | .staging _ _ (_ :: _) _ => none
  | .gating txn work staged (gate :: rest) =>
    if gates gate = none then some (.take gate (.gating txn work staged rest)) else none
  | .gating txn work staged [] => some <|
    match store.sidecars with
    | [] => .goto (.revalidating txn work staged)
    | owner :: _ => .fail store (.recoveryRequired owner.operationId
        s!"pending Mutation recovery operation blocks writes on branch '{eng.branch}'")
  | .revalidating txn work staged => some <|
    match revalidateWriteTxn eng.branch store txn with
    | .error e => .fail store e
    | .ok snapshot => .goto (.checking txn work snapshot staged staged)
  | .checking txn work snapshot staged (entry :: todo) => some <|
    match checkEntry eng store snapshot entry with
    | .error e => .fail store e
    | .ok () => .goto (.checking txn work snapshot staged todo)
  | .checking txn work snapshot staged [] => some <|
    if staged.isEmpty then .goto (.publishing txn work [] false)
    else .write { store with sidecars := store.sidecars ++ [newSidecar eng c n txn staged] }
      (.forking txn work snapshot [] staged)
  | .forking txn work snapshot forked (entry :: todo) =>
    some (forkStep eng store c n txn work snapshot forked entry todo)
  | .forking txn work snapshot forked [] =>
    some (.goto (.committing txn work snapshot [] forked))
  | .committing txn work snapshot updates (entry :: todo) =>
    some (commitStep eng store c n txn work snapshot updates entry todo)
  | .committing txn work _ updates [] => some <|
    .write { store with sidecars := store.sidecars.map fun s =>
        if s.operationId = eng.operationId c n then { s with confirmed := true } else s }
      (.publishing txn work updates true)
  | .publishing txn work updates armed =>
    some (publishStep eng store c n txn work updates armed)
  | .retiring commit armed => some <|
    .finish (if armed then store.deleteSidecar (eng.operationId c n) else store) (some commit)
  | .noEffect txn (gate :: rest) =>
    if gates gate = none then some (.take gate (.noEffect txn rest)) else none
  | .noEffect txn [] => some <|
    match revalidateWriteTxn eng.branch store txn with
    | .error e => .fail store e
    | .ok _ => .finish store none
  | .returned _ => none

/-- One table of a call is staged. -/
def stageMove (store : GraphStore T V) (t : T) : Phase T V W → Option (Move T V W)
  | .staging txn work todo staged =>
    if t ∈ todo then some <|
      match stageTable eng store txn work t with
      | .error e => .fail store e
      | .ok entry => .goto (.staging txn work (todo.erase t) (staged ++ entry.toList))
    else none
  | _ => none

/-- Drop the gates of a call. -/
def releaseGates (gates : Gate T → Option C) (c : C) (gate : Gate T) : Option C :=
  if gates gate = some c then none else gates gate

/-- A failed attempt is prepared again if its call only inserts, if the error says that the read
set changed, and within the budget. -/
def retries (c : C) (n : ℕ) (e : OmniError) : Bool :=
  eng.insertOnly c && e.isReadSetChanged && decide (n < maxPreEffectReprepares)

def World.apply (w : World C T V W) (c : C) : Move T V W → World C T V W
  | .goto phase => { w with phase := Function.update w.phase c phase }
  | .take gate phase => { w with
      gates := Function.update w.gates gate (some c)
      phase := Function.update w.phase c phase }
  | .write store phase => { w with store, phase := Function.update w.phase c phase }
  | .fail store e =>
    if retries eng c (w.attempt c) e then
      { store
        gates := releaseGates w.gates c
        attempt := Function.update w.attempt c (w.attempt c + 1)
        phase := Function.update w.phase c .recovering }
    else { w with
      store
      gates := releaseGates w.gates c
      phase := Function.update w.phase c (.returned (.error e)) }
  | .finish store result => { w with
      store
      gates := releaseGates w.gates c
      phase := Function.update w.phase c (.returned (.ok result)) }

/-- One step; `none` when the call cannot take it. -/
def World.step (w : World C T V W) : Event C T → Option (World C T V W)
  | .step c => (nextMove eng w.store w.gates c (w.attempt c) (w.phase c)).map (w.apply eng c)
  | .stage c t => (stageMove eng w.store t (w.phase c)).map (w.apply eng c)

def World.run (w : World C T V W) (events : List (Event C T)) : Option (World C T V W) :=
  events.foldlM (World.step eng) w

/-- Nobody has started yet. -/
def World.start (store : GraphStore T V) : World C T V W where
  store := store
  gates _ := none
  attempt _ := 0
  phase _ := .recovering

end Process

end Omnigraph.Mutation
