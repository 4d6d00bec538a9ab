import Mathlib.Data.Nat.Notation
import Mathlib.Logic.Function.Basic
import Mathlib.Tactic.SplitIfs

/-!
# The lock of the cluster state

A command creates the lock object if it is absent and deletes it when it ends. An operator deletes
the lock of a command that is gone, by its id. Each of them first reads the object and compares its
id, and deletes whatever is there in a second step.
-/

namespace Omnigraph.Cluster

/-! ### The lock object -/

structure StateLockFile where
  version : ℕ
  lockId : String
  operation : String
  createdAt : String
  pid : ℕ

def lockVersion : ℕ := 1

/-- A text in the shape of a lock file, or any other text. -/
inductive LockObject
  | file (f : StateLockFile)
  | other

inductive StateLockError
  | lockParse
  | lockVersion (version : ℕ)

def StateLockFile.parse : LockObject → Except StateLockError StateLockFile
  | .other => .error .lockParse
  | .file f => if f.version ≠ Cluster.lockVersion then .error (.lockVersion f.version) else .ok f

/-- The object is a lock with this id. -/
def IsLock (object : Option LockObject) (lockId : String) : Prop :=
  ∃ o ∈ object, ∃ f, StateLockFile.parse o = .ok f ∧ f.lockId = lockId

/-- What a party finds when it reads the lock and compares its id. -/
def stillOwned (object : Option LockObject) (lockId : String) : Bool :=
  match object.map StateLockFile.parse with
  | some (.ok f) => f.lockId = lockId
  | _ => false

lemma stillOwned_iff {object : Option LockObject} {lockId : String} :
    stillOwned object lockId = true ↔ IsLock object lockId := by
  unfold stillOwned IsLock
  cases object with
  | none => simp
  | some o => cases hparse : StateLockFile.parse o <;> simp [hparse]

lemma IsLock.unique {object : Option LockObject} {lockId lockId' : String}
    (h : IsLock object lockId) (h' : IsLock object lockId') : lockId = lockId' := by
  obtain ⟨o, ho, f, hf, rfl⟩ := h
  obtain ⟨o', ho', f', hf', rfl⟩ := h'
  cases Option.mem_unique ho ho'
  cases hf.symm.trans hf'
  rfl

/-! ### Parties -/

/-- Where a command or an operator is. -/
inductive LockPhase
  | idle
  /-- The command has the guard. -/
  | holding (lockId : String)
  /-- The guard is dropped and its id was found in the object, which is deleted next. -/
  | releasing (lockId : String)
  /-- `force_unlock` found the id in the object, which is deleted next. -/
  | unlocking (lockId : String)

namespace LockPhase

/-- The id of the lock a command acquired and has not released. -/
def acquired : LockPhase → Option String
  | holding lockId | releasing lockId => some lockId
  | _ => none

/-- The id that was compared, before the delete that comes next. -/
def compared : LockPhase → Option String
  | releasing lockId | unlocking lockId => some lockId
  | _ => none

end LockPhase

/-- The lock object, the parties, the ids drawn so far and those that were force-unlocked. -/
structure LockWorld (P : Type) where
  object : Option LockObject
  phase : P → LockPhase
  minted : List String
  forceUnlocked : List String

/-- One atomic step of a party. A read or a delete that fails is `false`. -/
inductive LockEvent (P : Type)
  | acquire (p : P) (lockId operation createdAt : String) (pid : ℕ)
  | dropRead (p : P) (read : Bool)
  | dropDelete (p : P) (deleted : Bool)
  | unlockRead (p : P) (lockId : String) (read : Bool)
  | unlockDelete (p : P) (deleted : Bool)

namespace LockWorld

variable {P : Type} [DecidableEq P]

def setPhase (w : LockWorld P) (p : P) (phase : LockPhase) : LockWorld P :=
  { w with phase := Function.update w.phase p phase }

/-- `write_text_if_absent`: the object is created, or the lock is held. -/
def acquireStateLock (w : LockWorld P) (p : P) (file : StateLockFile) : LockWorld P :=
  let w := { w with minted := file.lockId :: w.minted }
  match w.object with
  | some _ => w
  | none => { w.setPhase p (.holding file.lockId) with object := some (.file file) }

/-- A delete that fails is ignored. -/
def deleteLock (w : LockWorld P) (deleted : Bool) : LockWorld P :=
  if deleted then { w with object := none } else w

/-- A step is refused where the party is not at it, and ids are drawn once. -/
def step (w : LockWorld P) : LockEvent P → Option (LockWorld P)
  | .acquire p lockId operation createdAt pid =>
    match w.phase p with
    | .idle =>
      if lockId ∈ w.minted then none
      else some (w.acquireStateLock p ⟨lockVersion, lockId, operation, createdAt, pid⟩)
    | _ => none
  | .dropRead p read =>
    match w.phase p with
    | .holding lockId =>
      some (w.setPhase p (if read && stillOwned w.object lockId then .releasing lockId else .idle))
    | _ => none
  | .dropDelete p deleted =>
    match w.phase p with
    | .releasing _ => some ((w.deleteLock deleted).setPhase p .idle)
    | _ => none
  | .unlockRead p lockId read =>
    match w.phase p with
    | .idle =>
      some (w.setPhase p (if read && stillOwned w.object lockId then .unlocking lockId else .idle))
    | _ => none
  | .unlockDelete p deleted =>
    match w.phase p with
    | .unlocking lockId =>
      let w := if deleted then { w with forceUnlocked := lockId :: w.forceUnlocked } else w
      some ((w.deleteLock deleted).setPhase p .idle)
    | _ => none

def run (w : LockWorld P) : List (LockEvent P) → Option (LockWorld P)
  | [] => some w
  | e :: events => (w.step e).bind fun w' => w'.run events

/-- No party has started; the object may be the lock of an earlier command. -/
structure Start (w : LockWorld P) : Prop where
  idle : ∀ p, w.phase p = .idle
  minted : ∀ lockId, IsLock w.object lockId → lockId ∈ w.minted
  forceUnlocked : w.forceUnlocked = []

/-- The command has neither released its lock nor was it force-unlocked. -/
def Holds (w : LockWorld P) (p : P) : Prop :=
  ∃ lockId ∈ (w.phase p).acquired, lockId ∉ w.forceUnlocked

/-- The party whose delete the step makes. -/
def deleter : LockEvent P → Option P
  | .dropDelete p true | .unlockDelete p true => some p
  | _ => none

/-- The step deletes no lock but the one its party compared. -/
def DeletesCompared (w : LockWorld P) (e : LockEvent P) : Prop :=
  ∀ p ∈ deleter e, ∀ lockId ∈ (w.phase p).compared, ∀ o ∈ w.object, IsLock (some o) lockId

/-- A lock is created only while no party is between its comparison and its delete. -/
def Undisturbed (w : LockWorld P) (e : LockEvent P) : Prop :=
  ∀ p lockId operation createdAt pid, e = .acquire p lockId operation createdAt pid →
    w.object = none → ∀ q, (w.phase q).compared = none

/-! ### Exclusion -/

/-- What holds as long as no lock is created under a pending delete. -/
structure Exclusive (w : LockWorld P) : Prop where
  object_minted : ∀ lockId, IsLock w.object lockId → lockId ∈ w.minted
  unlocked_minted : ∀ lockId ∈ w.forceUnlocked, lockId ∈ w.minted
  acquired_minted : ∀ p, ∀ lockId ∈ (w.phase p).acquired, lockId ∈ w.minted
  compared_minted : ∀ p, ∀ lockId ∈ (w.phase p).compared, lockId ∈ w.minted
  distinct : ∀ p q, ∀ lockId ∈ (w.phase p).acquired, lockId ∈ (w.phase q).acquired → p = q
  held : ∀ p, ∀ lockId ∈ (w.phase p).acquired, lockId ∉ w.forceUnlocked → IsLock w.object lockId
  pending : ∀ p, ∀ lockId ∈ (w.phase p).compared, ∀ o ∈ w.object, IsLock (some o) lockId

variable {w w' : LockWorld P} {p q : P} {phase : LockPhase} {lockId : String}

omit [DecidableEq P] in
lemma Start.exclusive (h : w.Start) : w.Exclusive where
  object_minted := h.minted
  unlocked_minted lockId hid := by
    rw [h.forceUnlocked] at hid
    cases hid
  acquired_minted p lockId hid := by
    rw [h.idle] at hid
    cases hid
  compared_minted p lockId hid := by
    rw [h.idle] at hid
    cases hid
  distinct p q lockId hid := by
    rw [h.idle] at hid
    cases hid
  held p lockId hid := by
    rw [h.idle] at hid
    cases hid
  pending p lockId hid := by
    rw [h.idle] at hid
    cases hid

lemma phase_setPhase : (w.setPhase p phase).phase q = if q = p then phase else w.phase q :=
  Function.update_apply _ _ _ _

lemma mem_acquired_setPhase (h : lockId ∈ ((w.setPhase p phase).phase q).acquired) :
    q = p ∧ lockId ∈ phase.acquired ∨ q ≠ p ∧ lockId ∈ (w.phase q).acquired := by
  rw [phase_setPhase] at h
  split_ifs at h with hq
  · exact .inl ⟨hq, h⟩
  · exact .inr ⟨hq, h⟩

lemma mem_compared_setPhase (h : lockId ∈ ((w.setPhase p phase).phase q).compared) :
    q = p ∧ lockId ∈ phase.compared ∨ q ≠ p ∧ lockId ∈ (w.phase q).compared := by
  rw [phase_setPhase] at h
  split_ifs at h with hq
  · exact .inl ⟨hq, h⟩
  · exact .inr ⟨hq, h⟩

/-- A party keeps its lock or gives it up, and compares only what it reads. -/
lemma Exclusive.setPhase (h : w.Exclusive)
    (hacquired : ∀ lockId ∈ phase.acquired, lockId ∈ (w.phase p).acquired)
    (hcompared : ∀ lockId ∈ phase.compared, IsLock w.object lockId) :
    (w.setPhase p phase).Exclusive := by
  have hkeep : ∀ q lockId, lockId ∈ ((w.setPhase p phase).phase q).acquired →
      lockId ∈ (w.phase q).acquired := by
    intro q lockId hid
    rcases mem_acquired_setPhase hid with ⟨rfl, hphase⟩ | ⟨-, hphase⟩
    · exact hacquired lockId hphase
    · exact hphase
  refine ⟨h.object_minted, h.unlocked_minted, ?_, ?_, ?_, ?_, ?_⟩
  · exact fun q lockId hid => h.acquired_minted q lockId (hkeep q lockId hid)
  · intro q lockId hid
    rcases mem_compared_setPhase hid with ⟨-, hphase⟩ | ⟨-, hphase⟩
    · exact h.object_minted lockId (hcompared lockId hphase)
    · exact h.compared_minted q lockId hphase
  · exact fun q r lockId hq hr => h.distinct q r lockId (hkeep q lockId hq) (hkeep r lockId hr)
  · exact fun q lockId hid => h.held q lockId (hkeep q lockId hid)
  · intro q lockId hid o ho
    rcases mem_compared_setPhase hid with ⟨-, hphase⟩ | ⟨-, hphase⟩
    · have hlock := hcompared lockId hphase
      rwa [show w.object = some o from ho] at hlock
    · exact h.pending q lockId hphase o ho

/-- A delete that finds the lock its party compared, or nothing. The lock belongs to that party, or
the id counts as force-unlocked from now on. -/
lemma Exclusive.delete (h : w.Exclusive) {unlocked : List String}
    (hcompared : lockId ∈ (w.phase p).compared)
    (hsub : ∀ id ∈ w.forceUnlocked, id ∈ unlocked) (hminted : ∀ id ∈ unlocked, id ∈ w.minted)
    (hown : lockId ∈ (w.phase p).acquired ∨ lockId ∈ unlocked) :
    ({ w with object := none, forceUnlocked := unlocked }.setPhase p .idle).Exclusive := by
  have hkeep : ∀ q id, id ∈ (({ w with object := none, forceUnlocked := unlocked } :
      LockWorld P).setPhase p .idle |>.phase q).acquired → q ≠ p ∧ id ∈ (w.phase q).acquired := by
    intro q id hid
    rcases mem_acquired_setPhase hid with ⟨-, hphase⟩ | hphase
    · cases hphase
    · exact hphase
  refine ⟨?_, hminted, ?_, ?_, ?_, ?_, ?_⟩
  · rintro id ⟨o, ho, -⟩
    cases ho
  · exact fun q id hid => h.acquired_minted q id (hkeep q id hid).2
  · intro q id hid
    rcases mem_compared_setPhase hid with ⟨-, hphase⟩ | ⟨-, hphase⟩
    · cases hphase
    · exact h.compared_minted q id hphase
  · exact fun q r id hq hr => h.distinct q r id (hkeep q id hq).2 (hkeep r id hr).2
  · -- another command that still holds its lock would have it in the object that was deleted
    intro q id hid hfree
    obtain ⟨hne, hid⟩ := hkeep q id hid
    have hlock := h.held q id hid fun hin => hfree (hsub id hin)
    obtain ⟨o, ho, -⟩ := hlock
    have hlock := h.held q id hid fun hin => hfree (hsub id hin)
    rw [show w.object = some o from ho] at hlock
    obtain rfl := hlock.unique (h.pending p lockId hcompared o ho)
    rcases hown with hown | hown
    · exact absurd (h.distinct q p _ hid hown) hne
    · exact absurd hown hfree
  · intro q id _ o ho
    cases ho

/-- A lock under a new id. -/
lemma Exclusive.acquire (h : w.Exclusive) {file : StateLockFile} (hidle : w.phase p = .idle)
    (hversion : file.version = Cluster.lockVersion) (hnew : file.lockId ∉ w.minted)
    (hquiet : w.object = none → ∀ q, (w.phase q).compared = none) :
    (w.acquireStateLock p file).Exclusive := by
  have hminted : ∀ id ∈ w.minted, id ∈ file.lockId :: w.minted :=
    fun id hid => List.mem_cons_of_mem _ hid
  obtain ⟨object, phases, minted, unlocked⟩ := w
  cases object with
  | some o =>
    exact ⟨fun id hid => hminted id (h.object_minted id hid),
      fun id hid => hminted id (h.unlocked_minted id hid),
      fun q id hid => hminted id (h.acquired_minted q id hid),
      fun q id hid => hminted id (h.compared_minted q id hid), h.distinct, h.held, h.pending⟩
  | none =>
    have hlock : IsLock (some (.file file)) file.lockId := by
      refine ⟨_, rfl, file, ?_, rfl⟩
      rw [StateLockFile.parse, if_neg (not_not.mpr hversion)]
    have hnone : ∀ q, ∀ id ∈ (phases q).acquired, id ∈ unlocked := by
      intro q id hid
      by_contra hfree
      obtain ⟨o, ho, -⟩ := h.held q id hid hfree
      cases ho
    refine ⟨?_, fun id hid => hminted id (h.unlocked_minted id hid), ?_, ?_, ?_, ?_, ?_⟩
    · intro id hid
      rw [hid.unique hlock]
      exact List.mem_cons_self
    · intro q id hid
      rcases mem_acquired_setPhase hid with ⟨-, hphase⟩ | ⟨-, hphase⟩
      · cases hphase
        exact List.mem_cons_self
      · exact hminted id (h.acquired_minted q id hphase)
    · intro q id hid
      rcases mem_compared_setPhase hid with ⟨-, hphase⟩ | ⟨-, hphase⟩
      · cases hphase
      · exact hminted id (h.compared_minted q id hphase)
    · intro q r id hq hr
      rcases mem_acquired_setPhase hq with ⟨hqp, hq⟩ | ⟨-, hq⟩ <;>
        rcases mem_acquired_setPhase hr with ⟨hrp, hr⟩ | ⟨-, hr⟩
      · exact hqp.trans hrp.symm
      · cases hq
        exact absurd (h.acquired_minted r _ hr) hnew
      · cases hr
        exact absurd (h.acquired_minted q _ hq) hnew
      · exact h.distinct q r id hq hr
    · intro q id hid hfree
      rcases mem_acquired_setPhase hid with ⟨-, hphase⟩ | ⟨-, hphase⟩
      · cases hphase
        exact hlock
      · exact absurd (hnone q id hphase) hfree
    · intro q id hid
      rcases mem_compared_setPhase hid with ⟨-, hphase⟩ | ⟨-, hphase⟩
      · cases hphase
      · rw [hquiet rfl q] at hphase
        cases hphase

omit [DecidableEq P] in
/-- A party that reads the lock goes on to its delete only if it found the id it looks for. -/
lemma compared_of_read {read : Bool} {next : LockPhase} (hnext : next.compared = some lockId)
    {id : String} (hid : id ∈ (if read && stillOwned w.object lockId then next
      else .idle).compared) : IsLock w.object id := by
  split_ifs at hid with hread
  · rw [hnext] at hid
    cases hid
    rw [Bool.and_eq_true] at hread
    exact stillOwned_iff.mp hread.2
  · cases hid

/-- No step of the lock lets a second process in. -/
lemma Exclusive.step (h : w.Exclusive) {e : LockEvent P} (hquiet : w.Undisturbed e)
    (hstep : w.step e = some w') : w'.Exclusive := by
  cases e with
  | acquire p lockId operation createdAt pid =>
    simp only [LockWorld.step] at hstep
    cases hphase : w.phase p with
    | idle =>
      rw [hphase] at hstep
      dsimp only at hstep
      split_ifs at hstep with hold
      cases hstep
      exact h.acquire hphase rfl hold (hquiet p lockId operation createdAt pid rfl)
    | holding | releasing | unlocking =>
      rw [hphase] at hstep
      cases hstep
  | dropRead p read =>
    simp only [LockWorld.step] at hstep
    cases hphase : w.phase p with
    | holding lockId =>
      rw [hphase] at hstep
      cases hstep
      refine h.setPhase ?_ fun id hid => compared_of_read rfl hid
      intro id hid
      rw [hphase]
      split_ifs at hid with hread
      · exact hid
      · cases hid
    | idle | releasing | unlocking =>
      rw [hphase] at hstep
      cases hstep
  | dropDelete p deleted =>
    simp only [LockWorld.step] at hstep
    cases hphase : w.phase p with
    | releasing lockId =>
      rw [hphase] at hstep
      cases hstep
      cases deleted with
      | true =>
        have hown : lockId ∈ (w.phase p).acquired := by
          rw [hphase]
          rfl
        have hcompared : lockId ∈ (w.phase p).compared := by
          rw [hphase]
          rfl
        exact h.delete hcompared (fun _ hid => hid) h.unlocked_minted (.inl hown)
      | false => exact h.setPhase (fun _ hid => by cases hid) (fun _ hid => by cases hid)
    | idle | holding | unlocking =>
      rw [hphase] at hstep
      cases hstep
  | unlockRead p lockId read =>
    simp only [LockWorld.step] at hstep
    cases hphase : w.phase p with
    | idle =>
      rw [hphase] at hstep
      cases hstep
      refine h.setPhase ?_ fun id hid => compared_of_read rfl hid
      intro id hid
      split_ifs at hid with hread
      · cases hid
      · cases hid
    | holding | releasing | unlocking =>
      rw [hphase] at hstep
      cases hstep
  | unlockDelete p deleted =>
    simp only [LockWorld.step] at hstep
    cases hphase : w.phase p with
    | unlocking lockId =>
      rw [hphase] at hstep
      cases hstep
      cases deleted with
      | true =>
        have hcompared : lockId ∈ (w.phase p).compared := by
          rw [hphase]
          rfl
        refine h.delete hcompared (fun _ hid => List.mem_cons_of_mem _ hid) ?_
          (.inr List.mem_cons_self)
        intro id hid
        rcases List.mem_cons.mp hid with rfl | hid
        · exact h.compared_minted p id hcompared
        · exact h.unlocked_minted id hid
      | false => exact h.setPhase (fun _ hid => by cases hid) (fun _ hid => by cases hid)
    | idle | holding | releasing =>
      rw [hphase] at hstep
      cases hstep

/-- A run in which no lock is created while a party is between its comparison and its delete. -/
inductive UndisturbedRun (start : LockWorld P) : LockWorld P → Prop
  | start : UndisturbedRun start start
  | step {w w' : LockWorld P} (e : LockEvent P) : UndisturbedRun start w → w.Undisturbed e →
      w.step e = some w' → UndisturbedRun start w'

lemma UndisturbedRun.exclusive {start : LockWorld P} (hstart : start.Start)
    (hrun : UndisturbedRun start w) : w.Exclusive := by
  induction hrun with
  | start => exact hstart.exclusive
  | step e _ hquiet hstep ih => exact ih.step hquiet hstep

/-- In every state of such a run, whatever step comes next deletes no lock but the one its party
compared, and at most one command holds the lock. -/
theorem lock_exclusive {start : LockWorld P} (hstart : start.Start)
    (hrun : UndisturbedRun start w) :
    (∀ e, w.DeletesCompared e) ∧ ∀ p q, w.Holds p → w.Holds q → p = q := by
  have h := hrun.exclusive hstart
  refine ⟨fun e p _ lockId hid => h.pending p lockId hid, ?_⟩
  rintro p q ⟨lockId, hp, hpfree⟩ ⟨lockId', hq, hqfree⟩
  obtain rfl := (h.held p lockId hp hpfree).unique (h.held q lockId' hq hqfree)
  exact h.distinct p q lockId hp hq

end LockWorld

/-! ### Runs -/

/-- No lock, and parties `0`, `1`, `2` and `3` that have not started. -/
def unlocked : LockWorld (Fin 4) := ⟨none, fun _ => .idle, [], []⟩

lemma unlocked_start : unlocked.Start where
  idle _ := rfl
  minted lockId h := by
    obtain ⟨o, ho, -⟩ := h
    cases ho
  forceUnlocked := rfl

def lockBy (p : Fin 4) (lockId : String) : LockEvent (Fin 4) :=
  .acquire p lockId "apply" "2026-08-06T00:00:00Z" 42

/-- A command locks and unlocks, then another one locks. -/
theorem lock_exclusive_handover : ∃ w,
    unlocked.run [lockBy 0 "A", .dropRead 0 true, .dropDelete 0 true, lockBy 2 "B"] = some w ∧
      (∀ e, w.DeletesCompared e) ∧ ∀ p q, w.Holds p → w.Holds q → p = q := by
  refine ⟨_, rfl, LockWorld.lock_exclusive unlocked_start ?_⟩
  refine .step (lockBy 2 "B") (.step (.dropDelete 0 true) (.step (.dropRead 0 true)
    (.step (lockBy 0 "A") .start ?_ rfl) ?_ rfl) ?_ rfl) ?_ rfl
  · intro p lockId operation createdAt pid _ _ q
    rfl
  · intro p lockId operation createdAt pid he
    cases he
  · intro p lockId operation createdAt pid he
    cases he
  · intro p lockId operation createdAt pid _ _ q
    revert q
    decide

/-- The lock of `0` is force-unlocked after `0` found it to be its own, so `0` deletes the lock of
`2`, and `3` gets a lock as well. -/
def stolen : List (LockEvent (Fin 4)) :=
  [lockBy 0 "A", .dropRead 0 true, .unlockRead 1 "A" true, .unlockDelete 1 true, lockBy 2 "B"]

theorem lock_not_exclusive :
    (∃ w, unlocked.run stolen = some w ∧ ¬ w.DeletesCompared (.dropDelete 0 true)) ∧
      ∃ w, unlocked.run (stolen ++ [.dropDelete 0 true, lockBy 3 "C"]) = some w ∧
        w.Holds 2 ∧ w.Holds 3 := by
  refine ⟨⟨_, rfl, fun h => ?_⟩, _, rfl, ⟨"B", rfl, by decide⟩, "C", rfl, by decide⟩
  have hlock : IsLock _ "A" := h 0 rfl "A" rfl _ rfl
  obtain ⟨o, ho, f, hf, hid⟩ := hlock
  cases ho
  cases hf
  exact absurd hid (by decide)

end Omnigraph.Cluster
