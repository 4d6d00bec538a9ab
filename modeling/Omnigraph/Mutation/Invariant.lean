import Omnigraph.Mutation.Branch

/-!
# The invariant of a run of mutation calls

The invariant has a part for each phase of a call (`PhaseHolds`) and says of every published row
whose it is and what it did (`RowHolds`). A step is seen in two halves: `MoveHolds` is what the
move of a call has to establish, and `Serial.apply` says that such a move keeps the invariant. That
the moves of the code are of this kind is shown in `Omnigraph.Mutation.Moves`.
-/

namespace Omnigraph.Mutation

open Function

/-! ### The phases -/

namespace Phase

variable {T V W : Type}

/-- The gates a call is sure to have. -/
def holds : Phase T V W → Gate T → Prop
  | .gating _ _ _ gates, gate | .noEffect _ gates, gate =>
    gate ∉ gates ∧ (gate = .schema ∨ gate = .branch)
  | .revalidating _ _ _, gate | .checking _ _ _ _ _, gate | .forking _ _ _ _ _, gate
  | .committing _ _ _ _ _, gate | .publishing _ _ _ _, gate | .retiring _ _, gate =>
    gate = .schema ∨ gate = .branch
  | _, _ => False

/-- The phases that rely on the store as it is. -/
def gated : Phase T V W → Bool
  | .revalidating _ _ _ | .checking _ _ _ _ _ | .forking _ _ _ _ _ | .committing _ _ _ _ _
  | .publishing _ _ _ _ | .retiring _ _ => true
  | _ => false

/-- The sidecar of the call is there. -/
def armed : Phase T V W → Bool
  | .forking _ _ _ _ _ | .committing _ _ _ _ _ => true
  | .publishing _ _ _ armed | .retiring _ armed => armed
  | _ => false

def running : Phase T V W → Bool
  | .returned _ => false
  | _ => true

/-- The commit the call has published. -/
def published : Phase T V W → Option (GraphCommitRow T)
  | .retiring commit _ => some commit
  | .returned (.ok commit) => commit
  | _ => none

variable {phase : Phase T V W}

lemma holds_schema_of_gated (h : phase.gated) : phase.holds .schema := by
  cases phase with
  | revalidating | checking | forking | committing | publishing | retiring => exact .inl rfl
  | recovering | capturing | executing | validating | staging | gating | noEffect | returned =>
    cases h

lemma gated_of_armed (h : phase.armed) : phase.gated := by
  cases phase with
  | revalidating | checking | forking | committing | publishing | retiring => rfl
  | recovering | capturing | executing | validating | staging | gating | noEffect | returned =>
    cases h

end Phase

section Invariant

variable {C T V W : Type}

/-- The sidecar is the one of the call's attempt. -/
structure OwnSidecar (eng : Engine C T V W) (c : C) (n : ℕ) (sidecar : RecoverySidecar T) :
    Prop where
  operationId : sidecar.operationId = eng.operationId c n
  graphCommitId : sidecar.graphCommitId = eng.commitId c n

/-- What a call knows in its phase. -/
def PhaseHolds (eng : Engine C T V W) (start store : GraphStore T V) (c : C) (n : ℕ) :
    Phase T V W → Prop
  | .recovering | .capturing | .returned _ => True
  | .executing txn ops work => ∃ l, Captured eng start store c txn l ∧
      Executes eng store c n txn ops work
  | .validating txn work => ∃ l, Captured eng start store c txn l ∧
      Executes eng store c n txn [] work ∧ eng.isEmpty work = false
  | .staging txn work todo staged => ∃ l, Prepared eng start store c n txn work l ∧
      StagingHolds eng store txn work todo staged
  | .gating txn work staged _ => ∃ l, Prepared eng start store c n txn work l ∧
      StagingHolds eng store txn work [] staged
  | .revalidating txn work staged => store.sidecars = [] ∧
      ∃ l, Prepared eng start store c n txn work l ∧ StagingHolds eng store txn work [] staged
  | .checking txn work snapshot staged todo => store.sidecars = [] ∧ snapshot = store.pins ∧
      Ready eng store c n txn work ∧
      Cover eng work (store.read store.pins) (staged.map StagedTableEntry.table) ∧
      (∀ entry ∈ todo, EntryHolds eng store txn work entry) ∧
      ∀ entry ∈ staged, entry ∈ todo ∨ Checked eng store work entry
  | .forking txn work snapshot forked todo => snapshot = store.pins ∧
      (∀ s ∈ store.sidecars, OwnSidecar eng c n s ∧ s.confirmed = false) ∧
      Ready eng store c n txn work ∧
      Cover eng work (store.read store.pins) ((forked ++ todo).map StagedTableEntry.table) ∧
      (∀ entry ∈ forked, Committable eng store work entry) ∧
      ∀ entry ∈ todo, Checked eng store work entry
  | .committing txn work _ updates todo =>
      (∀ s ∈ store.sidecars, OwnSidecar eng c n s ∧ s.confirmed = false) ∧
      Ready eng store c n txn work ∧
      Cover eng work (store.read store.pins)
        (updates.map Prod.fst ++ todo.map StagedTableEntry.table) ∧
      (∀ update ∈ updates, Applied eng store work update) ∧
      ∀ entry ∈ todo, Committable eng store work entry
  | .publishing txn work updates armed => (armed → ∀ s ∈ store.sidecars, OwnSidecar eng c n s) ∧
      Ready eng store c n txn work ∧
      Cover eng work (store.read store.pins) (updates.map Prod.fst) ∧
      ∀ update ∈ updates, Applied eng store work update
  | .retiring _ armed => armed → ∀ s ∈ store.sidecars, OwnSidecar eng c n s
  | .noEffect txn _ => ∃ l, Captured eng start store c txn l

/-- The phases before the gates live with a growing branch. -/
lemma PhaseHolds.grows {eng : Engine C T V W} {start store store' : GraphStore T V} {c : C} {n : ℕ}
    {phase : Phase T V W} (h : PhaseHolds eng start store c n phase) (hgrows : Grows store store')
    (hgated : phase.gated = false) : PhaseHolds eng start store' c n phase := by
  cases phase with
  | recovering | capturing | returned => trivial
  | executing txn ops work =>
    obtain ⟨l, hcaptured, hexecutes⟩ := h
    refine ⟨l, hcaptured.grows hgrows, ?_⟩
    rw [Executes, hcaptured.read hgrows]
    exact hexecutes
  | validating txn work =>
    obtain ⟨l, hcaptured, hexecutes, heffect⟩ := h
    refine ⟨l, hcaptured.grows hgrows, ?_, heffect⟩
    rw [Executes, hcaptured.read hgrows]
    exact hexecutes
  | staging txn work todo staged =>
    obtain ⟨l, hprepared, hstaging⟩ := h
    exact ⟨l, hprepared.grows hgrows, hstaging.grows hprepared.captured hgrows⟩
  | gating txn work staged gates =>
    obtain ⟨l, hprepared, hstaging⟩ := h
    exact ⟨l, hprepared.grows hgrows, hstaging.grows hprepared.captured hgrows⟩
  | noEffect txn gates =>
    obtain ⟨l, hcaptured⟩ := h
    exact ⟨l, hcaptured.grows hgrows⟩
  | revalidating | checking | forking | committing | publishing | retiring => cases hgated

/-- The row was published by a call in its last attempt, on the state below it. -/
def RowHolds [DecidableEq T] (eng : Engine C T V W) (start : GraphStore T V) (w : World C T V W)
    (row : GraphCommitRow T) (rest : List (GraphCommitRow T)) : Prop :=
  ∃ c, row.graphCommitId = eng.commitId c (w.attempt c) ∧ (w.phase c).published = some row ∧
    row.parentCommitId = effectiveHeadOf w.store.inheritedHead rest ∧
    (∀ head, eng.expectedHead c = some head → row.parentCommitId = some head) ∧
    Past start w.store rest ∧ Past start w.store (row :: rest) ∧
    eng.alone c (w.attempt c) (w.store.read (pinsOf w.store.inheritedPins rest)) =
      .ok (some (w.store.read row.pins))

/-- The sidecar belongs to a call that holds the gates, or was left behind by one that failed
before it could confirm it. -/
def SidecarHolds (eng : Engine C T V W) (w : World C T V W) (sidecar : RecoverySidecar T) : Prop :=
  ∃ c, sidecar.graphCommitId = eng.commitId c (w.attempt c) ∧
    ((w.phase c).armed ∨ sidecar.confirmed = false ∧ ∃ e, w.phase c = .returned (.error e))

structure Serial [DecidableEq T] (eng : Engine C T V W) (start : GraphStore T V)
    (w : World C T V W) : Prop where
  since : start.lineage <:+ w.store.lineage
  inheritedHead : w.store.inheritedHead = start.inheritedHead
  ids : (w.store.lineage.map GraphCommitRow.graphCommitId).Nodup
  inherited : ∀ row ∈ w.store.lineage, w.store.inheritedHead ≠ some row.graphCommitId
  heads : HeadsHold w.store
  gates : ∀ c gate, (w.phase c).holds gate → w.gates gate = some c
  phases : ∀ c, PhaseHolds eng start w.store c (w.attempt c) (w.phase c)
  rows : ∀ row rest, start.lineage <:+ rest → row :: rest <:+ w.store.lineage →
    RowHolds eng start w row rest
  sidecars : ∀ s ∈ w.store.sidecars, SidecarHolds eng w s
  commits : ∀ c row, (w.phase c).published = some row → row ∈ w.store.lineage ∧
    row.graphCommitId = eng.commitId c (w.attempt c)
  reprepared : ∀ c, 0 < w.attempt c → eng.insertOnly c

/-- The branch has no pending recovery, no two commits of one id, and no table whose HEAD is behind
its pin. -/
structure Settled (start : GraphStore T V) : Prop where
  ids : (start.lineage.map GraphCommitRow.graphCommitId).Nodup
  inherited : ∀ row ∈ start.lineage, start.inheritedHead ≠ some row.graphCommitId
  heads : HeadsHold start
  quiet : start.sidecars = []

/-- Commit ids are minted once. -/
structure MintedOnce (eng : Engine C T V W) (start : GraphStore T V) : Prop where
  once : ∀ c c' n n', eng.commitId c n = eng.commitId c' n' → c = c'
  unused : ∀ c n, ∀ row ∈ start.lineage, row.graphCommitId ≠ eng.commitId c n
  inherited : ∀ c n, start.inheritedHead ≠ some (eng.commitId c n)

lemma serial_start [LinearOrder T] {eng : Engine C T V W} {start : GraphStore T V}
    (h : Settled start) :
    Serial eng start (World.start start) where
  since := List.suffix_refl _
  inheritedHead := rfl
  ids := h.ids
  inherited := h.inherited
  heads := h.heads
  gates _ _ hholds := hholds.elim
  phases _ := trivial
  rows row rest hsince hsuffix := by
    have := hsince.length_le
    have := hsuffix.length_le
    simp only [World.start, List.length_cons] at this
    omega
  sidecars s hs := by
    rw [World.start, h.quiet] at hs
    cases hs
  commits _ _ hpublished := by cases hpublished
  reprepared _ hattempt := absurd hattempt (lt_irrefl 0)

end Invariant

/-! ### Sound moves -/

section Sound

variable {C T V W : Type} [DecidableEq T] {eng : Engine C T V W} {start : GraphStore T V}
  {w : World C T V W} {c c' : C} {move : Move T V W}

/-- What the move of a call has to establish. The store changes under the gates only. -/
def MoveHolds (eng : Engine C T V W) (start : GraphStore T V) (w : World C T V W) (c : C) :
    Move T V W → Prop
  | .goto phase => (w.phase c).published = none ∧
      PhaseHolds eng start w.store c (w.attempt c) phase ∧
      (∀ gate, phase.holds gate → w.gates gate = some c) ∧ phase.published = none ∧
      ((w.phase c).armed → phase.armed) ∧ phase.running
  | .take gate phase => w.gates gate = none ∧ (w.phase c).published = none ∧
      PhaseHolds eng start w.store c (w.attempt c) phase ∧
      (∀ gate', phase.holds gate' → gate' = gate ∨ w.gates gate' = some c) ∧
      phase.published = none ∧ ((w.phase c).armed → phase.armed) ∧ phase.running
  | .write store phase => w.gates .schema = some c ∧ (w.phase c).published = none ∧
      Grows w.store store ∧ HeadsHold store ∧
      PhaseHolds eng start store c (w.attempt c) phase ∧
      (∀ gate, phase.holds gate → w.gates gate = some c) ∧
      (phase.armed ∧ (∀ s ∈ store.sidecars, OwnSidecar eng c (w.attempt c) s) ∨
        (w.phase c).armed = false ∧ phase.published ≠ none ∧
          store.sidecars = w.store.sidecars) ∧
      (phase.published = none ∧ store.lineage = w.store.lineage ∨
        ∃ row, phase.published = some row ∧ store.lineage = row :: w.store.lineage ∧
          row.graphCommitId = eng.commitId c (w.attempt c) ∧
          row.parentCommitId = w.store.effectiveGraphHead ∧
          (∀ head, eng.expectedHead c = some head → row.parentCommitId = some head) ∧
          eng.alone c (w.attempt c) (w.store.read w.store.pins) =
            .ok (some (store.read row.pins))) ∧
      phase.running
  | .fail store e => (w.phase c).published = none ∧
      ((w.phase c).armed = false ∧ store = w.store ∨
        w.gates .schema = some c ∧ SameGraph w.store store ∧ e.isReadSetChanged = false ∧
          e.isPreconditionFailed = false ∧
          ∀ s ∈ store.sidecars, OwnSidecar eng c (w.attempt c) s ∧ s.confirmed = false)
  | .finish store result => (w.phase c).published = result ∧
      ((w.phase c).armed = false ∧ store = w.store ∨
        w.gates .schema = some c ∧ SameGraph w.store store ∧ store.sidecars = []) ∧
      (result = none → ∀ head, eng.expectedHead c = some head →
        w.gates .schema = some c ∧ w.gates .branch = some c ∧
          w.store.effectiveGraphHead = some head)

/-- The store after a move. -/
def Move.storeAfter (store : GraphStore T V) : Move T V W → GraphStore T V
  | .goto _ | .take _ _ => store
  | .write store _ | .fail store _ | .finish store _ => store

/-- The store of a sound move is the old one, or the call has the schema gate. -/
lemma MoveHolds.store (h : MoveHolds eng start w c move) :
    move.storeAfter w.store = w.store ∨ w.gates .schema = some c := by
  cases move with
  | goto | take => exact .inl rfl
  | write store phase => exact .inr h.1
  | fail store e =>
    rcases h.2 with ⟨-, rfl⟩ | ⟨hgate, -⟩
    · exact .inl rfl
    · exact .inr hgate
  | finish store result =>
    rcases h.2.1 with ⟨-, rfl⟩ | ⟨hgate, -⟩
    · exact .inl rfl
    · exact .inr hgate

lemma MoveHolds.grows (h : MoveHolds eng start w c move) :
    Grows w.store (move.storeAfter w.store) := by
  cases move with
  | goto | take => exact Grows.refl _
  | write store phase => exact h.2.2.1
  | fail store e =>
    rcases h.2 with ⟨-, rfl⟩ | ⟨-, hsame, -⟩
    · exact Grows.refl _
    · exact hsame.grows
  | finish store result =>
    rcases h.2.1 with ⟨-, rfl⟩ | ⟨-, hsame, -⟩
    · exact Grows.refl _
    · exact hsame.grows

lemma MoveHolds.heads (hw : Serial eng start w) (h : MoveHolds eng start w c move) :
    HeadsHold (move.storeAfter w.store) := by
  cases move with
  | goto | take => exact hw.heads
  | write store phase => exact h.2.2.2.1
  | fail store e =>
    rcases h.2 with ⟨-, rfl⟩ | ⟨-, hsame, -⟩
    · exact hw.heads
    · exact hsame.heads hw.heads
  | finish store result =>
    rcases h.2.1 with ⟨-, rfl⟩ | ⟨-, hsame, -⟩
    · exact hw.heads
    · exact hsame.heads hw.heads

/-- The id of a call that has not published is not in the lineage. -/
lemma Serial.unused (hw : Serial eng start w) (hminted : MintedOnce eng start)
    (hnone : (w.phase c).published = none) {n : ℕ} {row : GraphCommitRow T}
    (hrow : row ∈ w.store.lineage) : row.graphCommitId ≠ eng.commitId c n := by
  intro heq
  rcases mem_lineage_cases hw.since hrow with hstart | ⟨rest, hrest, hsuffix⟩
  · exact hminted.unused c n row hstart heq
  · obtain ⟨c', hid, hpublished, -⟩ := hw.rows row rest hrest hsuffix
    have hc : c' = c := hminted.once c' c _ _ (hid.symm.trans heq)
    rw [hc, hnone] at hpublished
    cases hpublished

/-- The phase of another call still holds. -/
lemma Serial.phase_of_ne (hw : Serial eng start w) (h : MoveHolds eng start w c move)
    (hne : c' ≠ c) :
    PhaseHolds eng start (move.storeAfter w.store) c' (w.attempt c') (w.phase c') := by
  cases hgated : (w.phase c').gated with
  | false => exact (hw.phases c').grows h.grows hgated
  | true =>
    -- it has the schema gate, so the store is the old one
    have hgate := hw.gates c' .schema (Phase.holds_schema_of_gated hgated)
    rcases h.store with heq | hown
    · rw [heq]
      exact hw.phases c'
    · rw [hgate] at hown
      exact absurd (Option.some.inj hown) hne

end Sound

/-! ### A sound move keeps the invariant -/

section Apply

variable {C T V W : Type} [DecidableEq C] [LinearOrder T] {eng : Engine C T V W}
  {start : GraphStore T V} {w : World C T V W} {c c' : C} {move : Move T V W}

variable {gate : Gate T}

namespace World

lemma apply_store : (w.apply eng c move).store = move.storeAfter w.store := by
  cases move with
  | goto | take | write | finish => rfl
  | fail store e =>
    rw [World.apply]
    split_ifs <;> rfl

@[simp] lemma apply_goto_phase {phase : Phase T V W} :
    (w.apply eng c (.goto phase)).phase c = phase := update_self _ _ _

@[simp] lemma apply_take_phase {gate : Gate T} {phase : Phase T V W} :
    (w.apply eng c (.take gate phase)).phase c = phase := update_self _ _ _

@[simp] lemma apply_write_phase {store : GraphStore T V} {phase : Phase T V W} :
    (w.apply eng c (.write store phase)).phase c = phase := update_self _ _ _

@[simp] lemma apply_finish_phase {store : GraphStore T V} {result : Option (GraphCommitRow T)} :
    (w.apply eng c (.finish store result)).phase c = .returned (.ok result) :=
  update_self _ _ _

/-- A failed attempt is prepared again, or its error is returned. -/
lemma apply_fail_phase (eng : Engine C T V W) (w : World C T V W) (c : C) (store : GraphStore T V)
    (e : OmniError) :
    retries eng c (w.attempt c) e = true ∧ (w.apply eng c (.fail store e)).phase c = .recovering ∧
        (w.apply eng c (.fail store e)).attempt c = w.attempt c + 1 ∨
      retries eng c (w.attempt c) e = false ∧
        (w.apply eng c (.fail store e)).phase c = .returned (.error e) ∧
        (w.apply eng c (.fail store e)).attempt c = w.attempt c := by
  rw [World.apply]
  cases hretries : retries eng c (w.attempt c) e with
  | true => exact .inl ⟨rfl, update_self _ _ _, update_self _ _ _⟩
  | false => exact .inr ⟨rfl, update_self _ _ _, rfl⟩

lemma apply_phase_of_ne (hne : c' ≠ c) : (w.apply eng c move).phase c' = w.phase c' := by
  cases move with
  | goto | take | write | finish => exact update_of_ne hne _ _
  | fail store e =>
    rw [World.apply]
    split_ifs <;> exact update_of_ne hne _ _

lemma apply_attempt_of_ne (hne : c' ≠ c) : (w.apply eng c move).attempt c' = w.attempt c' := by
  cases move with
  | goto | take | write | finish => rfl
  | fail store e =>
    rw [World.apply]
    split_ifs
    · exact update_of_ne hne _ _
    · rfl

/-- A call keeps its gates whatever another one does. -/
lemma apply_gates_of_ne (h : MoveHolds eng start w c move) (hne : c' ≠ c)
    (hgate : w.gates gate = some c') : (w.apply eng c move).gates gate = some c' := by
  have hrelease : releaseGates w.gates c gate = some c' := by
    rw [releaseGates, if_neg, hgate]
    rw [hgate]
    exact fun heq => hne (Option.some.inj heq)
  cases move with
  | goto | write => exact hgate
  | take gate' phase =>
    have hfree : gate ≠ gate' := by
      rintro rfl
      rw [h.1] at hgate
      cases hgate
    exact (update_of_ne hfree _ _).trans hgate
  | finish => exact hrelease
  | fail store e =>
    rw [World.apply]
    split_ifs <;> exact hrelease

end World

/-- What a call has published stays published. -/
lemma MoveHolds.published (h : MoveHolds eng start w c move) {row : GraphCommitRow T}
    (hrow : (w.phase c').published = some row) :
    ((w.apply eng c move).phase c').published = some row ∧
      (w.apply eng c move).attempt c' = w.attempt c' := by
  by_cases hne : c' = c
  · subst hne
    cases move with
    | goto phase =>
      rw [h.1] at hrow
      cases hrow
    | take gate phase =>
      rw [h.2.1] at hrow
      cases hrow
    | write store phase =>
      rw [h.2.1] at hrow
      cases hrow
    | fail store e =>
      rw [h.1] at hrow
      cases hrow
    | finish store result =>
      rw [h.1] at hrow
      refine ⟨?_, rfl⟩
      rw [World.apply_finish_phase]
      exact hrow
  · rw [World.apply_phase_of_ne hne, World.apply_attempt_of_ne hne]
    exact ⟨hrow, rfl⟩

/-- A move adds at most one row to the lineage. -/
lemma MoveHolds.lineage (h : MoveHolds eng start w c move) :
    (move.storeAfter w.store).lineage = w.store.lineage ∨
      ∃ row, (w.phase c).published = none ∧
        ((w.apply eng c move).phase c).published = some row ∧
        (w.apply eng c move).attempt c = w.attempt c ∧
        (move.storeAfter w.store).lineage = row :: w.store.lineage ∧
        row.graphCommitId = eng.commitId c (w.attempt c) ∧
        row.parentCommitId = w.store.effectiveGraphHead ∧
        (∀ head, eng.expectedHead c = some head → row.parentCommitId = some head) ∧
        eng.alone c (w.attempt c) (w.store.read w.store.pins) =
          .ok (some ((move.storeAfter w.store).read row.pins)) := by
  cases move with
  | goto | take => exact .inl rfl
  | write store phase =>
    obtain ⟨-, hnone, -, -, -, -, -, hlineage, -⟩ := h
    rcases hlineage with ⟨-, hsame⟩ | ⟨row, hpublished, hrow⟩
    · exact .inl hsame
    · refine .inr ⟨row, hnone, ?_, rfl, hrow⟩
      rw [World.apply_write_phase]
      exact hpublished
  | fail store e =>
    rcases h.2 with ⟨-, rfl⟩ | ⟨-, hsame, -⟩
    · exact .inl rfl
    · exact .inl hsame.lineage
  | finish store result =>
    rcases h.2.1 with ⟨-, rfl⟩ | ⟨-, hsame, -⟩
    · exact .inl rfl
    · exact .inl hsame.lineage

/-- A row that was there still is what it was. -/
lemma RowHolds.apply {row : GraphCommitRow T} {rest : List (GraphCommitRow T)}
    (hrow : RowHolds eng start w row rest) (h : MoveHolds eng start w c move) :
    RowHolds eng start (w.apply eng c move) row rest := by
  obtain ⟨c', hid, hpublished, hparent, hexpected, hrest, hpast, halone⟩ := hrow
  obtain ⟨hpublished', hattempt⟩ := h.published hpublished
  have hgrows := h.grows
  refine ⟨c', ?_, hpublished', ?_, hexpected, ?_, ?_, ?_⟩
  · rw [hattempt, hid]
  · rw [World.apply_store, hgrows.inheritedHead, hparent]
  · rw [World.apply_store]
    exact hrest.grows hgrows
  · rw [World.apply_store]
    exact hpast.grows hgrows
  · have hread := hpast.read hgrows
    rw [World.apply_store, hattempt, hrest.read hgrows, halone]
    exact congrArg (fun graph => Except.ok (some graph)) hread.symm

/-- The new row is what its call does alone on the state below it. -/
lemma Serial.new_row (hw : Serial eng start w) (h : MoveHolds eng start w c move)
    {row : GraphCommitRow T} (hpublished : ((w.apply eng c move).phase c).published = some row)
    (hattempt : (w.apply eng c move).attempt c = w.attempt c)
    (hlineage : (move.storeAfter w.store).lineage = row :: w.store.lineage)
    (hid : row.graphCommitId = eng.commitId c (w.attempt c))
    (hparent : row.parentCommitId = w.store.effectiveGraphHead)
    (hexpected : ∀ head, eng.expectedHead c = some head → row.parentCommitId = some head)
    (halone : eng.alone c (w.attempt c) (w.store.read w.store.pins) =
      .ok (some ((move.storeAfter w.store).read row.pins))) :
    RowHolds eng start (w.apply eng c move) row w.store.lineage := by
  have hgrows := h.grows
  have hcurrent : Past start (move.storeAfter w.store) (row :: w.store.lineage) := by
    have := Past.current (hw.since.trans hgrows.lineage)
    rwa [hlineage] at this
  refine ⟨c, ?_, hpublished, ?_, hexpected, ?_, ?_, ?_⟩
  · rw [hattempt, hid]
  · rw [World.apply_store, hgrows.inheritedHead, hparent]
    rfl
  · rw [World.apply_store]
    exact (Past.current hw.since).grows hgrows
  · rw [World.apply_store]
    exact hcurrent
  · rw [World.apply_store, hattempt, (Past.current hw.since).read hgrows]
    exact halone

/-- Every sidecar still has an owner. -/
lemma Serial.sidecars_apply (hw : Serial eng start w) (h : MoveHolds eng start w c move)
    (hlive : ∀ result, w.phase c ≠ .returned result) {s : RecoverySidecar T}
    (hs : s ∈ (move.storeAfter w.store).sidecars) : SidecarHolds eng (w.apply eng c move) s := by
  have hother : ∀ s ∈ w.store.sidecars, ((w.phase c).armed → ((w.apply eng c move).phase c).armed ∧
      (w.apply eng c move).attempt c = w.attempt c) → SidecarHolds eng (w.apply eng c move) s := by
    intro s hs hkeeps
    obtain ⟨c', hid, howner⟩ := hw.sidecars s hs
    by_cases hne : c' = c
    · subst hne
      rcases howner with harmed | ⟨-, e, herror⟩
      · obtain ⟨harmed', hattempt⟩ := hkeeps harmed
        exact ⟨c', by rw [hattempt, hid], .inl harmed'⟩
      · exact absurd herror (hlive _)
    · refine ⟨c', ?_, ?_⟩
      · rw [World.apply_attempt_of_ne hne, hid]
      · rw [World.apply_phase_of_ne hne]
        exact howner
  cases move with
  | goto phase =>
    apply hother s hs
    rw [World.apply_goto_phase]
    exact fun harmed => ⟨h.2.2.2.2.1 harmed, rfl⟩
  | take gate phase =>
    apply hother s hs
    rw [World.apply_take_phase]
    exact fun harmed => ⟨h.2.2.2.2.2.1 harmed, rfl⟩
  | write store phase =>
    obtain ⟨-, -, -, -, -, -, hsidecars, -⟩ := h
    rcases hsidecars with ⟨harmed, hown⟩ | ⟨hunarmed, -, hsame⟩
    · refine ⟨c, (hown s hs).graphCommitId, .inl ?_⟩
      rw [World.apply_write_phase]
      exact harmed
    · apply hother s (hsame ▸ hs)
      rw [hunarmed]
      exact fun harmed => absurd harmed Bool.false_ne_true
  | fail store e =>
    rcases h.2 with ⟨hunarmed, rfl⟩ | ⟨-, -, hnot, -, hown⟩
    · apply hother s hs
      rw [hunarmed]
      exact fun harmed => absurd harmed Bool.false_ne_true
    · rcases World.apply_fail_phase eng w c store e with
        ⟨hretries, -⟩ | ⟨-, hphase, hattempt⟩
      · rw [retries, hnot, Bool.and_false, Bool.false_and] at hretries
        cases hretries
      · refine ⟨c, ?_, .inr ⟨(hown s hs).2, e, hphase⟩⟩
        rw [hattempt]
        exact (hown s hs).1.graphCommitId
  | finish store result =>
    rcases h.2.1 with ⟨hunarmed, rfl⟩ | ⟨-, -, hempty⟩
    · apply hother s hs
      rw [hunarmed]
      exact fun harmed => absurd harmed Bool.false_ne_true
    · exact absurd hs (by simp [Move.storeAfter, hempty])

/-! What the moving call itself knows afterwards. -/

lemma MoveHolds.own_gates (h : MoveHolds eng start w c move)
    (hholds : ((w.apply eng c move).phase c).holds gate) :
    (w.apply eng c move).gates gate = some c := by
  cases move with
  | goto phase =>
    rw [World.apply_goto_phase] at hholds
    exact h.2.2.1 gate hholds
  | take gate' phase =>
    rw [World.apply_take_phase] at hholds
    by_cases heq : gate = gate'
    · subst heq
      exact update_self _ _ _
    · rcases h.2.2.2.1 gate hholds with heq' | hgate
      · exact absurd heq' heq
      · exact (update_of_ne heq _ _).trans hgate
  | write store phase =>
    rw [World.apply_write_phase] at hholds
    exact h.2.2.2.2.2.1 gate hholds
  | fail store e =>
    rcases World.apply_fail_phase eng w c store e with
      ⟨-, hphase, -⟩ | ⟨-, hphase, -⟩
    · rw [hphase] at hholds
      exact hholds.elim
    · rw [hphase] at hholds
      exact hholds.elim
  | finish store result =>
    rw [World.apply_finish_phase] at hholds
    exact hholds.elim

lemma MoveHolds.own_phase (h : MoveHolds eng start w c move) :
    PhaseHolds eng start (move.storeAfter w.store) c ((w.apply eng c move).attempt c)
      ((w.apply eng c move).phase c) := by
  cases move with
  | goto phase =>
    rw [World.apply_goto_phase]
    exact h.2.1
  | take gate phase =>
    rw [World.apply_take_phase]
    exact h.2.2.1
  | write store phase =>
    rw [World.apply_write_phase]
    exact h.2.2.2.2.1
  | fail store e =>
    rcases World.apply_fail_phase eng w c store e with
      ⟨-, hphase, -⟩ | ⟨-, hphase, -⟩
    · rw [hphase]
      trivial
    · rw [hphase]
      trivial
  | finish store result =>
    rw [World.apply_finish_phase]
    trivial

/-- What a caller publishes is in the lineage, under the id of its attempt. -/
lemma Serial.own_commit (hw : Serial eng start w) (h : MoveHolds eng start w c move)
    {row : GraphCommitRow T} (hpublished : ((w.apply eng c move).phase c).published = some row) :
    row ∈ (move.storeAfter w.store).lineage ∧
      row.graphCommitId = eng.commitId c ((w.apply eng c move).attempt c) := by
  cases move with
  | goto phase =>
    rw [World.apply_goto_phase, h.2.2.2.1] at hpublished
    cases hpublished
  | take gate phase =>
    rw [World.apply_take_phase, h.2.2.2.2.1] at hpublished
    cases hpublished
  | write store phase =>
    rw [World.apply_write_phase] at hpublished
    rcases h.2.2.2.2.2.2.2.1 with ⟨hnone, -⟩ | ⟨new, hnew, hlineage, hid, -⟩
    · rw [hnone] at hpublished
      cases hpublished
    · rw [hnew] at hpublished
      cases hpublished
      refine ⟨?_, hid⟩
      show row ∈ store.lineage
      rw [hlineage]
      exact List.mem_cons_self
  | fail store e =>
    rcases World.apply_fail_phase eng w c store e with
      ⟨-, hphase, -⟩ | ⟨-, hphase, -⟩
    · rw [hphase] at hpublished
      cases hpublished
    · rw [hphase] at hpublished
      cases hpublished
  | finish store result =>
    rw [World.apply_finish_phase] at hpublished
    obtain ⟨hrow, hid⟩ := hw.commits c row (h.1.trans hpublished)
    exact ⟨h.grows.lineage.subset hrow, hid⟩

lemma Serial.own_reprepared (hw : Serial eng start w)
    (hattempt : 0 < (w.apply eng c move).attempt c) : eng.insertOnly c := by
  cases move with
  | goto | take | write | finish => exact hw.reprepared c hattempt
  | fail store e =>
    rcases World.apply_fail_phase eng w c store e with
      ⟨hretries, -⟩ | ⟨-, -, heq⟩
    · simp only [retries, Bool.and_eq_true] at hretries
      exact hretries.1.1
    · rw [heq] at hattempt
      exact hw.reprepared c hattempt

/-- A sound move keeps the invariant. -/
theorem Serial.apply (hw : Serial eng start w) (hminted : MintedOnce eng start)
    (h : MoveHolds eng start w c move) (hlive : ∀ result, w.phase c ≠ .returned result) :
    Serial eng start (w.apply eng c move) where
  since := by
    rw [World.apply_store]
    exact hw.since.trans h.grows.lineage
  inheritedHead := by
    rw [World.apply_store, h.grows.inheritedHead]
    exact hw.inheritedHead
  ids := by
    rw [World.apply_store]
    rcases h.lineage with heq | ⟨row, hnone, -, -, heq, hid, -⟩
    · rw [heq]
      exact hw.ids
    -- a new row has the id of its attempt, which no row has yet
    · rw [heq, List.map_cons, List.nodup_cons]
      refine ⟨fun hmem => ?_, hw.ids⟩
      obtain ⟨row', hrow', hsame⟩ := List.mem_map.mp hmem
      exact hw.unused hminted hnone hrow' (hsame.trans hid)
  inherited := by
    rw [World.apply_store, h.grows.inheritedHead]
    rcases h.lineage with heq | ⟨row, -, -, -, heq, hid, -⟩
    · rw [heq]
      exact hw.inherited
    · rw [heq]
      intro row' hrow'
      rcases List.mem_cons.mp hrow' with rfl | hrow'
      · rw [hid, hw.inheritedHead]
        exact hminted.inherited c _
      · exact hw.inherited row' hrow'
  heads := by
    rw [World.apply_store]
    exact h.heads hw
  gates c' gate hholds := by
    by_cases hne : c' = c
    · subst hne
      exact h.own_gates hholds
    · rw [World.apply_phase_of_ne hne] at hholds
      exact World.apply_gates_of_ne h hne (hw.gates c' gate hholds)
  phases c' := by
    rw [World.apply_store]
    by_cases hne : c' = c
    · subst hne
      exact h.own_phase
    · rw [World.apply_phase_of_ne hne, World.apply_attempt_of_ne hne]
      exact hw.phase_of_ne h hne
  rows row rest hrest hsuffix := by
    rw [World.apply_store] at hsuffix
    rcases h.lineage with heq | ⟨new, -, hpublished, hattempt, heq, hid, hparent, hexpected, halone⟩
    · rw [heq] at hsuffix
      exact (hw.rows row rest hrest hsuffix).apply h
    · rw [heq] at hsuffix
      rcases List.suffix_cons_iff.mp hsuffix with hnew | hold
      · cases hnew
        exact hw.new_row h hpublished hattempt heq hid hparent hexpected halone
      · exact (hw.rows row rest hrest hold).apply h
  sidecars s hs := by
    rw [World.apply_store] at hs
    exact hw.sidecars_apply h hlive hs
  commits c' row hpublished := by
    rw [World.apply_store]
    by_cases hne : c' = c
    · subst hne
      exact hw.own_commit h hpublished
    · rw [World.apply_phase_of_ne hne] at hpublished
      rw [World.apply_attempt_of_ne hne]
      obtain ⟨hrow, hid⟩ := hw.commits c' row hpublished
      exact ⟨h.grows.lineage.subset hrow, hid⟩
  reprepared c' hattempt := by
    by_cases hne : c' = c
    · subst hne
      exact hw.own_reprepared hattempt
    · rw [World.apply_attempt_of_ne hne] at hattempt
      exact hw.reprepared c' hattempt

end Apply

end Omnigraph.Mutation
