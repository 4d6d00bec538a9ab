import Mathlib.Algebra.BigOperators.Ring.Finset
import Mathlib.Algebra.Order.BigOperators.Group.Finset
import Mathlib.Data.Fintype.BigOperators
import Omnigraph.Lib.Word

/-!
# Admission of requests

Every actor has a semaphore that bounds the number of its requests in flight and a counter of the
bytes they are estimated to take. A call takes a permit, adds its estimate to the counter, compares
and takes both back if the sum is too large. Calls and guards interleave at every one of these
steps.
-/

namespace Omnigraph.Server

open Word

/-! ### Calls and guards -/

inductive RejectReason
  | inFlightCountExceeded (cap : ℕ)
  | byteBudgetExceeded (cap attempted : ℕ)

/-- Where a call of `try_admit`, or the guard it returned, is. -/
inductive CallPhase
  | idle
  | rejected (reason : RejectReason)
  /-- The permit is taken. -/
  | permitted (estBytes : ℕ)
  /-- The estimate is added; the sum is compared next. -/
  | added (estBytes attempted : ℕ)
  /-- The sum was too large; the estimate is taken back next. -/
  | exceeded (estBytes attempted : ℕ)
  /-- The estimate is taken back; the permit is released next. -/
  | rolledBack (estBytes attempted : ℕ)
  /-- The guard is live. -/
  | live (estBytes : ℕ)
  /-- The guard is dropped and its estimate taken back; the permit is released next. -/
  | dropped (estBytes : ℕ)

namespace CallPhase

/-- The permits a call holds. -/
def permits : CallPhase → ℕ
  | idle | rejected _ => 0
  | _ => 1

def estimate : CallPhase → ℕ
  | idle | rejected _ => 0
  | permitted estBytes | added estBytes _ | exceeded estBytes _ | rolledBack estBytes _ => estBytes
  | live estBytes | dropped estBytes => estBytes

/-- The bytes of a call between its add and its rollback, or of a live guard. -/
def counted : CallPhase → ℕ
  | added estBytes _ | exceeded estBytes _ | live estBytes => estBytes
  | _ => 0

def guards : CallPhase → ℕ
  | live _ => 1
  | _ => 0

def guardBytes : CallPhase → ℕ
  | live estBytes => estBytes
  | _ => 0

/-- The bytes of a live guard, or of a call that will get one. -/
def granted (byteCap : ℕ) : CallPhase → ℕ
  | live estBytes => estBytes
  | added estBytes attempted => if byteCap < attempted then 0 else estBytes
  | _ => 0

lemma granted_le_counted (byteCap : ℕ) (phase : CallPhase) :
    phase.granted byteCap ≤ phase.counted := by
  cases phase with
  | added estBytes attempted =>
    rw [granted, counted]
    split_ifs
    · exact Nat.zero_le _
    · exact le_rfl
  | live estBytes => exact le_rfl
  | _ => exact Nat.zero_le _

end CallPhase

/-- The counters of an actor. -/
structure ActorState where
  inFlightSem : ℕ
  bytes : ℕ
  byteCap : ℕ
  inflightCap : ℕ

def ActorState.new (inflightCap byteCap : ℕ) : ActorState := ⟨inflightCap, 0, byteCap, inflightCap⟩

namespace ActorState

/-- Addition and subtraction wrap around. -/
def fetchAdd (s : ActorState) (estBytes : ℕ) : ActorState :=
  { s with bytes := (s.bytes + estBytes) % 2 ^ 64 }

def fetchSub (s : ActorState) (estBytes : ℕ) : ActorState :=
  { s with bytes := (s.bytes + 2 ^ 64 - estBytes) % 2 ^ 64 }

-- not by `rfl`, which would compare the counters as well
lemma fetchAdd_others (s : ActorState) (estBytes : ℕ) :
    (s.fetchAdd estBytes).inFlightSem = s.inFlightSem ∧
      (s.fetchAdd estBytes).byteCap = s.byteCap ∧
        (s.fetchAdd estBytes).inflightCap = s.inflightCap := by
  obtain ⟨sem, bytes, byteCap, inflightCap⟩ := s
  show sem = sem ∧ byteCap = byteCap ∧ inflightCap = inflightCap
  exact ⟨rfl, rfl, rfl⟩

lemma fetchSub_others (s : ActorState) (estBytes : ℕ) :
    (s.fetchSub estBytes).inFlightSem = s.inFlightSem ∧
      (s.fetchSub estBytes).byteCap = s.byteCap ∧
        (s.fetchSub estBytes).inflightCap = s.inflightCap := by
  obtain ⟨sem, bytes, byteCap, inflightCap⟩ := s
  show sem = sem ∧ byteCap = byteCap ∧ inflightCap = inflightCap
  exact ⟨rfl, rfl, rfl⟩

def acquire (s : ActorState) : ActorState := { s with inFlightSem := s.inFlightSem - 1 }

def release (s : ActorState) : ActorState := { s with inFlightSem := s.inFlightSem + 1 }

end ActorState

/-! ### Steps -/

/-- An actor and the callers that make requests in its name. -/
structure Workload (P : Type) where
  actor : ActorState
  call : P → CallPhase

/-- A caller starts a call, or takes its next step; the next step of a live guard is its drop. -/
inductive AdmissionEvent (P : Type)
  | tryAdmit (p : P) (estBytes : ℕ)
  | advance (p : P)

namespace Workload

variable {P : Type}

def new (P : Type) (inflightCap byteCap : ℕ) : Workload P :=
  ⟨.new inflightCap byteCap, fun _ => .idle⟩

/-! ### Accounts -/

section Accounts

variable [Fintype P]

/-- A sum over the callers. -/
def total (w : Workload P) (f : CallPhase → ℕ) : ℕ := ∑ p, f (w.call p)

/-- The accounts of an actor whose calls estimate at most `largest` bytes. -/
structure Accounted (inflightCap byteCap largest : ℕ) (w : Workload P) : Prop where
  inflightCap_eq : w.actor.inflightCap = inflightCap
  byteCap_eq : w.actor.byteCap = byteCap
  permits : w.actor.inFlightSem + w.total CallPhase.permits = inflightCap
  counted : w.actor.bytes = w.total CallPhase.counted
  granted : w.total (CallPhase.granted byteCap) ≤ byteCap
  estimate : ∀ p, (w.call p).estimate ≤ largest

variable {inflightCap byteCap largest : ℕ} {w : Workload P}

lemma le_total (w : Workload P) (p : P) (f : CallPhase → ℕ) : f (w.call p) ≤ w.total f :=
  Finset.single_le_sum (f := fun q => f (w.call q)) (fun _ _ => Nat.zero_le _) (Finset.mem_univ p)

lemma total_mono {f g : CallPhase → ℕ} (h : ∀ p, f (w.call p) ≤ g (w.call p)) :
    w.total f ≤ w.total g :=
  Finset.sum_le_sum fun p _ => h p

/-- What is counted belongs to calls and guards that hold permits. -/
lemma total_counted_le (h : ∀ p, (w.call p).estimate ≤ largest) :
    w.total CallPhase.counted ≤ w.total CallPhase.permits * largest := by
  have hphase : ∀ p, (w.call p).counted ≤ (w.call p).permits * largest := by
    intro p
    have hp := h p
    cases hcall : w.call p <;>
      simp_all [CallPhase.counted, CallPhase.permits, CallPhase.estimate]
  calc w.total CallPhase.counted
      ≤ w.total fun phase => phase.permits * largest := total_mono hphase
    _ = w.total CallPhase.permits * largest := (Finset.sum_mul _ _ _).symm

lemma accounted_new (inflightCap byteCap largest : ℕ) :
    Accounted inflightCap byteCap largest (new P inflightCap byteCap) where
  inflightCap_eq := rfl
  byteCap_eq := rfl
  permits := by simp [new, total, CallPhase.permits, ActorState.new]
  counted := by simp [new, total, CallPhase.counted, ActorState.new]
  granted := by simp [new, total, CallPhase.granted]
  estimate p := Nat.zero_le _

/-- The counter does not wrap. -/
lemma Accounted.bytes_lt (h : Accounted inflightCap byteCap largest w)
    (hlargest : inflightCap * largest < 2 ^ 64) : w.actor.bytes < 2 ^ 64 := by
  have hcounted := total_counted_le h.estimate
  have hpermits : w.total CallPhase.permits * largest ≤ inflightCap * largest :=
    Nat.mul_le_mul_right _ (by have := h.permits; omega)
  have := h.counted
  omega

end Accounts

/-! ### Steps of callers -/

variable [DecidableEq P]

def move (w : Workload P) (p : P) (actor : ActorState) (phase : CallPhase) : Workload P :=
  ⟨actor, Function.update w.call p phase⟩

/-- `try_acquire_owned`: the permit, or the rejection of the call. -/
def tryAcquire (w : Workload P) (p : P) (estBytes : ℕ) : Workload P :=
  if w.actor.inFlightSem = 0 then
    w.move p w.actor (.rejected (.inFlightCountExceeded w.actor.inflightCap))
  else w.move p w.actor.acquire (.permitted estBytes)

/-- The next step of a call or of a guard. -/
def advanceFrom (w : Workload P) (p : P) : CallPhase → Workload P
  | .permitted estBytes =>
    w.move p (w.actor.fetchAdd estBytes)
      (.added estBytes (saturatingAdd w.actor.bytes estBytes))
  | .added estBytes attempted =>
    w.move p w.actor
      (if w.actor.byteCap < attempted then .exceeded estBytes attempted else .live estBytes)
  | .exceeded estBytes attempted =>
    w.move p (w.actor.fetchSub estBytes) (.rolledBack estBytes attempted)
  | .rolledBack _ attempted =>
    w.move p w.actor.release (.rejected (.byteBudgetExceeded w.actor.byteCap attempted))
  | .live estBytes => w.move p (w.actor.fetchSub estBytes) (.dropped estBytes)
  | .dropped _ => w.move p w.actor.release .idle
  | .idle | .rejected _ => w

def step (w : Workload P) : AdmissionEvent P → Workload P
  | .tryAdmit p estBytes =>
    match w.call p with
    | .idle | .rejected _ => w.tryAcquire p estBytes
    | _ => w
  | .advance p => w.advanceFrom p (w.call p)

def run (w : Workload P) (events : List (AdmissionEvent P)) : Workload P := events.foldl step w

/-! ### One caller moves -/

variable [Fintype P]

variable {inflightCap byteCap largest : ℕ} {w : Workload P} {p : P}

lemma total_move (w : Workload P) (p : P) (actor : ActorState) (phase : CallPhase)
    (f : CallPhase → ℕ) :
    (w.move p actor phase).total f + f (w.call p) = w.total f + f phase := by
  have hrest : ∑ q ∈ Finset.univ.erase p, f (Function.update w.call p phase q) =
      ∑ q ∈ Finset.univ.erase p, f (w.call q) := by
    refine Finset.sum_congr rfl fun q hq => ?_
    rw [Function.update_of_ne (Finset.ne_of_mem_erase hq)]
  have hnew := Finset.add_sum_erase Finset.univ
    (fun q => f (Function.update w.call p phase q)) (Finset.mem_univ p)
  have hold := Finset.add_sum_erase Finset.univ (fun q => f (w.call q)) (Finset.mem_univ p)
  rw [hrest] at hnew
  simp only [Function.update_self] at hnew
  rw [total, total, move, ← hnew, ← hold]
  omega

variable {phase : CallPhase} {estBytes : ℕ}

/-- A caller moves, and its permit and its estimate move with it. -/
lemma Accounted.move (h : Accounted inflightCap byteCap largest w) {actor : ActorState}
    (hinflightCap : actor.inflightCap = w.actor.inflightCap)
    (hbyteCap : actor.byteCap = w.actor.byteCap)
    (hpermits : actor.inFlightSem + phase.permits = w.actor.inFlightSem + (w.call p).permits)
    (hcounted : actor.bytes + (w.call p).counted = w.actor.bytes + phase.counted)
    (hgranted : w.total (CallPhase.granted byteCap) + phase.granted byteCap ≤
      byteCap + (w.call p).granted byteCap) (hestimate : phase.estimate ≤ largest) :
    Accounted inflightCap byteCap largest (w.move p actor phase) := by
  have htotalPermits := w.total_move p actor phase CallPhase.permits
  have htotalCounted := w.total_move p actor phase CallPhase.counted
  have htotalGranted := w.total_move p actor phase (CallPhase.granted byteCap)
  have hp := h.permits
  have hc := h.counted
  have hactor : (w.move p actor phase).actor = actor := rfl
  refine ⟨hinflightCap.trans h.inflightCap_eq, hbyteCap.trans h.byteCap_eq, ?_, ?_, ?_, ?_⟩
  · rw [hactor]
    omega
  · rw [hactor]
    omega
  · omega
  · intro q
    simp only [Workload.move, Function.update_apply]
    split_ifs
    · exact hestimate
    · exact h.estimate q

/-- A call that has a permit has room in the counter. -/
lemma Accounted.bytes_add_lt (h : Accounted inflightCap byteCap largest w)
    (hlargest : inflightCap * largest < 2 ^ 64) (hcall : w.call p = .permitted estBytes) :
    w.actor.bytes + estBytes < 2 ^ 64 := by
  -- were the estimate added, the sum would still be bounded by the permits
  have hadded : ∀ q, ((w.move p w.actor (.added estBytes 0)).call q).estimate ≤ largest := by
    intro q
    simp only [Workload.move, Function.update_apply]
    split_ifs with hq
    · have := h.estimate p
      rwa [hcall] at this
    · exact h.estimate q
  have hcounted := total_counted_le hadded
  have htotalPermits := w.total_move p w.actor (.added estBytes 0) CallPhase.permits
  have htotalCounted := w.total_move p w.actor (.added estBytes 0) CallPhase.counted
  rw [hcall] at htotalPermits htotalCounted
  simp only [CallPhase.permits, CallPhase.counted] at htotalPermits htotalCounted
  have hpermits : (w.move p w.actor (.added estBytes 0)).total CallPhase.permits * largest ≤
      inflightCap * largest := Nat.mul_le_mul_right _ (by have := h.permits; omega)
  have := h.counted
  omega

lemma wrap_sub {a b m : ℕ} (hle : b ≤ a) (hlt : a < m) : (a + m - b) % m = a - b := by
  have hsplit : a + m - b = a - b + m := by omega
  rw [hsplit, Nat.add_mod_right]
  exact Nat.mod_eq_of_lt (by omega)

/-- What a call or a guard counted is taken back without wrapping. -/
lemma Accounted.takeBack (h : Accounted inflightCap byteCap largest w)
    (hlargest : inflightCap * largest < 2 ^ 64) (hcall : (w.call p).counted = estBytes)
    (hcounted : phase.counted = 0) (hpermits : phase.permits = (w.call p).permits)
    (hgranted : phase.granted byteCap = 0) (hestimate : phase.estimate ≤ largest) :
    Accounted inflightCap byteCap largest (w.move p (w.actor.fetchSub estBytes) phase) := by
  have hlt := h.bytes_lt hlargest
  have hle := w.le_total p CallPhase.counted
  rw [← h.counted, hcall] at hle
  have hbytes : (w.actor.fetchSub estBytes).bytes = w.actor.bytes - estBytes := by
    simp only [ActorState.fetchSub]
    exact wrap_sub hle hlt
  obtain ⟨hsem, hbyteCap, hinflightCap⟩ := w.actor.fetchSub_others estBytes
  refine h.move hinflightCap hbyteCap ?_ ?_ ?_ hestimate
  · rw [hpermits, hsem]
  · rw [hbytes, hcounted, hcall]
    exact Nat.sub_add_cancel hle
  · rw [hgranted]
    exact Nat.le_add_right_of_le h.granted

/-- The estimate of a call with a permit is added without wrapping; if the sum is within the cap,
then so is what is granted. -/
lemma Accounted.add (h : Accounted inflightCap byteCap largest w)
    (hlargest : inflightCap * largest < 2 ^ 64) (hcall : w.call p = .permitted estBytes) :
    Accounted inflightCap byteCap largest (w.move p (w.actor.fetchAdd estBytes)
      (.added estBytes (saturatingAdd w.actor.bytes estBytes))) := by
  have hlt := h.bytes_add_lt hlargest hcall
  have hbytes : (w.actor.fetchAdd estBytes).bytes = w.actor.bytes + estBytes := by
    simp only [ActorState.fetchAdd]
    exact Nat.mod_eq_of_lt hlt
  have hsum := saturatingAdd_of_lt hlt
  have hgranted : w.total (CallPhase.granted byteCap) ≤ w.actor.bytes := by
    rw [h.counted]
    exact total_mono fun q => (w.call q).granted_le_counted byteCap
  have hestimate := h.estimate p
  rw [hcall] at hestimate
  rw [hsum]
  obtain ⟨hsem, hbyteCap, hinflightCap⟩ := w.actor.fetchAdd_others estBytes
  refine h.move hinflightCap hbyteCap ?_ ?_ ?_ hestimate
  · rw [hcall, hsem]
    rfl
  · rw [hbytes, hcall]
    rfl
  · rw [hcall, CallPhase.granted, CallPhase.granted]
    have hcap := h.granted
    split_ifs with hover
    · exact hcap
    · omega
    all_goals simp

/-- A call is rejected for its count, or takes a permit. -/
lemma Accounted.tryAcquire (h : Accounted inflightCap byteCap largest w) {estBytes : ℕ}
    (hestimate : estBytes ≤ largest) (hpermits : (w.call p).permits = 0)
    (hcounted : (w.call p).counted = 0) (hgranted : (w.call p).granted byteCap = 0) :
    Accounted inflightCap byteCap largest (w.tryAcquire p estBytes) := by
  unfold Workload.tryAcquire
  split_ifs with hfree
  · refine h.move rfl rfl ?_ ?_ ?_ (Nat.zero_le _)
    · rw [hpermits]
      rfl
    · rw [hcounted]
      rfl
    · rw [hgranted]
      exact h.granted
  · refine h.move rfl rfl ?_ ?_ ?_ hestimate
    · rw [hpermits]
      exact Nat.sub_add_cancel (Nat.pos_of_ne_zero hfree)
    · rw [hcounted]
      rfl
    · rw [hgranted]
      exact h.granted

/-- A call that compared its sum is granted what the comparison decided. -/
lemma Accounted.compare (h : Accounted inflightCap byteCap largest w) {attempted : ℕ}
    (hcall : w.call p = .added estBytes attempted) :
    Accounted inflightCap byteCap largest (w.move p w.actor
      (if w.actor.byteCap < attempted then .exceeded estBytes attempted else .live estBytes)) := by
  have hestimate := h.estimate p
  rw [hcall] at hestimate
  have hphase : ∀ phase : CallPhase, phase.permits = 1 → phase.counted = estBytes →
      phase.granted byteCap = (w.call p).granted byteCap → phase.estimate = estBytes →
        Accounted inflightCap byteCap largest (w.move p w.actor phase) := by
    intro phase hpermits hcounted hsame hsize
    refine h.move rfl rfl ?_ ?_ ?_ ?_
    · rw [hpermits, hcall]
      rfl
    · rw [hcounted, hcall]
      rfl
    · rw [hsame]
      exact Nat.add_le_add_right h.granted _
    · rw [hsize]
      exact hestimate
  rw [h.byteCap_eq]
  split_ifs with hover
  · exact hphase _ rfl rfl (by rw [hcall]; exact (if_pos hover).symm) rfl
  · exact hphase _ rfl rfl (by rw [hcall]; exact (if_neg hover).symm) rfl

/-- A permit is released by a call that counts nothing. -/
lemma Accounted.release (h : Accounted inflightCap byteCap largest w)
    (hpermits : (w.call p).permits = 1) (hcounted : (w.call p).counted = 0)
    (hphase : phase.permits = 0 ∧ phase.counted = 0 ∧ phase.granted byteCap = 0 ∧
      phase.estimate = 0) :
    Accounted inflightCap byteCap largest (w.move p w.actor.release phase) := by
  obtain ⟨hno, hnone, hnot, hzero⟩ := hphase
  refine h.move rfl rfl ?_ ?_ ?_ ?_
  · rw [hno, hpermits]
    rfl
  · rw [hcounted, hnone]
    rfl
  · rw [hnot]
    exact Nat.le_add_right_of_le h.granted
  · rw [hzero]
    exact Nat.zero_le _

/-- One step keeps the accounts. -/
theorem Accounted.step (h : Accounted inflightCap byteCap largest w)
    (hlargest : inflightCap * largest < 2 ^ 64) {event : AdmissionEvent P}
    (hevent : ∀ p estBytes, event = .tryAdmit p estBytes → estBytes ≤ largest) :
    Accounted inflightCap byteCap largest (w.step event) := by
  cases event with
  | tryAdmit p estBytes =>
    have htry := fun hpermits hcounted hgranted => @Accounted.tryAcquire P _ _ inflightCap byteCap
      largest w p h estBytes (hevent p estBytes rfl) hpermits hcounted hgranted
    rw [Workload.step]
    cases hcall : w.call p with
    | idle =>
      rw [hcall] at htry
      exact htry rfl rfl rfl
    | rejected reason =>
      rw [hcall] at htry
      exact htry rfl rfl rfl
    | _ => exact h
  | advance p =>
    have hestimate := h.estimate p
    rw [Workload.step]
    cases hcall : w.call p with
    | idle => exact h
    | rejected reason => exact h
    | permitted estBytes => exact h.add hlargest hcall
    | added estBytes attempted => exact h.compare hcall
    | exceeded estBytes attempted =>
      rw [hcall] at hestimate
      exact h.takeBack hlargest (by rw [hcall]; rfl) rfl (by rw [hcall]; rfl) rfl hestimate
    | rolledBack estBytes attempted =>
      exact h.release (by rw [hcall]; rfl) (by rw [hcall]; rfl) ⟨rfl, rfl, rfl, rfl⟩
    | live estBytes =>
      rw [hcall] at hestimate
      exact h.takeBack hlargest (by rw [hcall]; rfl) rfl (by rw [hcall]; rfl) rfl hestimate
    | dropped estBytes =>
      exact h.release (by rw [hcall]; rfl) (by rw [hcall]; rfl) ⟨rfl, rfl, rfl, rfl⟩

/-! ### Runs -/

/-- A run keeps the accounts. -/
theorem Accounted.run (h : Accounted inflightCap byteCap largest w)
    (hlargest : inflightCap * largest < 2 ^ 64) {events : List (AdmissionEvent P)}
    (hevents : ∀ event ∈ events, ∀ p estBytes, event = .tryAdmit p estBytes →
      estBytes ≤ largest) : Accounted inflightCap byteCap largest (w.run events) := by
  induction events generalizing w with
  | nil => exact h
  | cons event events ih =>
    exact ih (h.step hlargest (hevents event List.mem_cons_self)) fun e he =>
      hevents e (List.mem_cons_of_mem _ he)

/-- A caller without a call or a guard. -/
def IsDone (phase : CallPhase) : Prop := phase = .idle ∨ ∃ reason, phase = .rejected reason

/-- The calls as they are without one of them. -/
def withdraw (w : Workload P) (p : P) : Workload P := w.move p w.actor .idle

/-- What an actor is promised at every moment of a run. -/
structure Safe (inflightCap byteCap : ℕ) (w : Workload P) : Prop where
  guards : w.total CallPhase.guards ≤ inflightCap
  guardBytes : w.total CallPhase.guardBytes ≤ byteCap
  counted : w.actor.bytes = w.total CallPhase.counted
  covered : ∀ p, (w.call p).counted ≤ w.actor.bytes
  rejected : ∀ p reason, w.call p = .rejected reason →
    w.actor.bytes = (w.withdraw p).total CallPhase.counted ∧
      w.actor.inFlightSem + (w.withdraw p).total CallPhase.permits = inflightCap
  restored : (∀ p, IsDone (w.call p)) → w.actor = .new inflightCap byteCap

/-- A caller that is done holds nothing. -/
lemma IsDone.holds_nothing (h : IsDone phase) : phase.permits = 0 ∧ phase.counted = 0 := by
  rcases h with rfl | ⟨reason, rfl⟩ <;> exact ⟨rfl, rfl⟩

/-- A workload whose guards account for all in flight is safe. -/
lemma Accounted.safe (h : Accounted inflightCap byteCap largest w) :
    Safe inflightCap byteCap w := by
  have hpermits := h.permits
  have hcounted := h.counted
  refine ⟨?_, ?_, hcounted, ?_, ?_, ?_⟩
  · have : w.total CallPhase.guards ≤ w.total CallPhase.permits :=
      total_mono fun p => by cases w.call p <;> simp [CallPhase.guards, CallPhase.permits]
    omega
  · refine le_trans (total_mono fun p => ?_) h.granted
    cases w.call p <;> simp [CallPhase.guardBytes, CallPhase.granted]
  · intro p
    rw [hcounted]
    exact w.le_total p CallPhase.counted
  · intro p reason hcall
    have hdone := IsDone.holds_nothing (.inr ⟨reason, hcall⟩)
    have htotalPermits := w.total_move p w.actor .idle CallPhase.permits
    have htotalCounted := w.total_move p w.actor .idle CallPhase.counted
    rw [hdone.1] at htotalPermits
    rw [hdone.2] at htotalCounted
    simp only [CallPhase.permits, CallPhase.counted, Nat.add_zero] at htotalPermits htotalCounted
    rw [withdraw, htotalPermits, htotalCounted]
    exact ⟨hcounted, hpermits⟩
  · intro hdone
    have hzero : ∀ f : CallPhase → ℕ, (∀ p, f (w.call p) = 0) → w.total f = 0 :=
      fun f hf => Finset.sum_eq_zero fun p _ => hf p
    rw [hzero _ fun p => (hdone p).holds_nothing.1] at hpermits
    rw [hzero _ fun p => (hdone p).holds_nothing.2] at hcounted
    have hinflightCap := h.inflightCap_eq
    have hbyteCap := h.byteCap_eq
    cases hactor : w.actor
    simp only [hactor] at hpermits hcounted hinflightCap hbyteCap
    simp [ActorState.new, hcounted, hinflightCap, hbyteCap, ← hpermits]

/-- Whatever the order of the steps of calls and guards, the guards of an actor are within its caps,
the counter is what they and the calls underway have added, and nothing of a rejected call stays. -/
theorem run_safe (inflightCap byteCap largest : ℕ) (hlargest : inflightCap * largest < 2 ^ 64)
    (events : List (AdmissionEvent P))
    (hevents : ∀ event ∈ events, ∀ p estBytes, event = .tryAdmit p estBytes →
      estBytes ≤ largest) : Safe inflightCap byteCap ((new P inflightCap byteCap).run events) :=
  ((accounted_new inflightCap byteCap largest).run hlargest hevents).safe

/-- Two callers of an actor that may have two requests in flight, of ten bytes together. -/
def twoCallers : List (AdmissionEvent (Fin 2)) :=
  [.tryAdmit 0 7, .tryAdmit 1 4, .advance 0, .advance 1, .advance 0, .advance 1, .advance 1,
    .advance 1]

lemma estimate_twoCallers : ∀ event ∈ twoCallers, ∀ p estBytes,
    event = .tryAdmit p estBytes → estBytes ≤ 7 := by
  simp only [twoCallers, List.mem_cons, List.not_mem_nil, or_false]
  rintro event (rfl | rfl | rfl | rfl | rfl | rfl | rfl | rfl) p estBytes h <;> cases h <;> decide

/-- The second caller adds its bytes, takes them back and is rejected. -/
theorem run_safe_two : ((new (Fin 2) 2 10).run twoCallers).call 1 =
      .rejected (.byteBudgetExceeded 10 11) ∧ Safe 2 10 ((new (Fin 2) 2 10).run twoCallers) :=
  ⟨rfl, run_safe 2 10 7 (by decide) twoCallers estimate_twoCallers⟩

end Workload

end Omnigraph.Server
