import Omnigraph.Mutation.Moves

/-!
# Mutations are serializable

Whatever the order of steps, every commit of the lineage leaves the graph its call leaves when it
is executed alone on the state of the parent commit, and the caller's expected head is a
compare-and-swap on the head of the branch.
-/

namespace Omnigraph.Mutation

open List Option

/-! ### Phases before the first write -/

section Untouched

variable {T V W : Type}

/-- Phases whose call has written nothing so far. -/
def Phase.untouched : Phase T V W → Bool
  | .returned (.ok _) => false
  | .returned (.error e) => e.isReadSetChanged || e.isPreconditionFailed
  | phase => !phase.armed && phase.published.isNone

variable {phase : Phase T V W}

lemma Phase.ne_returned (h : phase.running)
    {result : Except OmniError (Option (GraphCommitRow T))} :
    phase ≠ .returned result := by
  rintro rfl
  cases h

lemma Phase.untouched_eq (hlive : ∀ result, phase ≠ .returned result) :
    phase.untouched = (!phase.armed && phase.published.isNone) := by
  cases phase with
  | returned result => exact absurd rfl (hlive result)
  | recovering | capturing | executing | validating | staging | gating | revalidating | checking
  | forking | committing | publishing | retiring | noEffect => rfl

lemma Phase.armed_eq_false (h : phase.untouched) : phase.armed = false := by
  cases phase with
  | returned result => rfl
  | recovering | capturing | executing | validating | staging | gating | revalidating | checking
  | forking | committing | publishing | retiring | noEffect =>
    simp only [Phase.untouched, Bool.and_eq_true, Bool.not_eq_true'] at h
    exact h.1

lemma Phase.published_eq_none (h : phase.untouched) : phase.published = none := by
  cases phase with
  | returned result =>
    cases result with
    | ok commit => cases h
    | error e => rfl
  | recovering | capturing | executing | validating | staging | gating | revalidating | checking
  | forking | committing | publishing | retiring | noEffect =>
    simp only [Phase.untouched, Bool.and_eq_true, isNone_iff_eq_none] at h
    exact h.2

end Untouched

/-! ### The commits -/

section Commits

variable {C T V W : Type} [DecidableEq T] {eng : Engine C T V W} {start : GraphStore T V}
  {w : World C T V W} {c : C}

variable {row : GraphCommitRow T} {rest : List (GraphCommitRow T)}

/-- The row of a call that has one. -/
lemma Serial.row_of_id (hw : Serial eng start w) (hminted : MintedOnce eng start) {n : ℕ}
    (hrow : row ∈ w.store.lineage) (hid : row.graphCommitId = eng.commitId c n) :
    ∃ rest, row :: rest <:+ w.store.lineage ∧
      row.parentCommitId = effectiveHeadOf w.store.inheritedHead rest ∧
      (∀ head, eng.expectedHead c = some head → row.parentCommitId = some head) ∧
      eng.alone c (w.attempt c) (w.store.read (pinsOf w.store.inheritedPins rest)) =
        .ok (some (w.store.read row.pins)) := by
  rcases mem_lineage_cases hw.since hrow with hstart | ⟨rest, hrest, hsuffix⟩
  · exact absurd hid (hminted.unused c n row hstart)
  · obtain ⟨c', hid', -, hparent, hexpected, -, -, halone⟩ := hw.rows row rest hrest hsuffix
    have hc : c' = c := hminted.once c' c _ _ (hid'.symm.trans hid)
    subst hc
    exact ⟨rest, hsuffix, hparent, hexpected, halone⟩

/-- The state below a row is the one its parent left. -/
lemma Serial.pinsAt_parent (hw : Serial eng start w) (hsuffix : row :: rest <:+ w.store.lineage) :
    w.store.pinsAt (effectiveHeadOf w.store.inheritedHead rest) =
      some (pinsOf w.store.inheritedPins rest) := by
  obtain ⟨pre, hpre⟩ := hsuffix
  cases rest with
  | nil =>
    have hfind : w.store.lineage.find?
        (fun r => some r.graphCommitId =
          effectiveHeadOf (T := T) w.store.inheritedHead []) = none := by
      rw [List.find?_eq_none]
      intro r hr
      simpa [effectiveHeadOf, exactHeadOf] using (hw.inherited r hr).symm
    rw [GraphStore.pinsAt, hfind]
    exact if_pos rfl
  | cons parent rest =>
    have hfind : w.store.lineage.find?
        (fun r => some r.graphCommitId =
          effectiveHeadOf w.store.inheritedHead (parent :: rest)) = some parent := by
      have hids := hw.ids
      rw [← hpre] at hids ⊢
      rw [List.find?_eq_some_iff_append]
      refine ⟨by simp [effectiveHeadOf, exactHeadOf], pre ++ [row], rest, by simp, fun r hr => ?_⟩
      rw [show pre ++ row :: parent :: rest = (pre ++ [row]) ++ parent :: rest by simp,
        map_append, nodup_append] at hids
      have hne := hids.2.2 _ (List.mem_map_of_mem hr) _ (List.mem_map_of_mem mem_cons_self)
      simpa [effectiveHeadOf, exactHeadOf] using hne
    rw [GraphStore.pinsAt, hfind]
    rfl

/-- Two rows on one parent are one row. -/
lemma Serial.row_unique (hw : Serial eng start w) {row' : GraphCommitRow T}
    {rest' : List (GraphCommitRow T)} (h : row :: rest <:+ w.store.lineage)
    (h' : row' :: rest' <:+ w.store.lineage)
    (heq : effectiveHeadOf w.store.inheritedHead rest =
    effectiveHeadOf w.store.inheritedHead rest') :
    row = row' := by
  have hsuffix : rest <:+ w.store.lineage := (suffix_cons _ _).trans h
  have hsuffix' : rest' <:+ w.store.lineage := (suffix_cons _ _).trans h'
  have hhead : exactHeadOf rest = exactHeadOf rest' := by
    have hne : ∀ (r : GraphCommitRow T) l, r :: l <:+ w.store.lineage →
        w.store.inheritedHead ≠ some r.graphCommitId := fun r l hl =>
      hw.inherited r (hl.subset mem_cons_self)
    cases rest with
    | nil =>
      cases rest' with
      | nil => rfl
      | cons r' rest' => exact absurd heq (hne r' rest' hsuffix')
    | cons r rest =>
      cases rest' with
      | nil => exact absurd heq.symm (hne r rest hsuffix)
      | cons r' rest' => exact heq
  have hrest : rest = rest' := by
    rcases suffix_or_suffix_of_suffix hsuffix hsuffix' with hle | hle
    · exact eq_of_suffix_of_head hle (hw.ids.sublist (hsuffix'.sublist.map _)) hhead
    · exact (eq_of_suffix_of_head hle (hw.ids.sublist (hsuffix.sublist.map _)) hhead.symm).symm
  subst hrest
  rcases suffix_or_suffix_of_suffix h h' with hle | hle
  · exact (List.cons.inj (hle.eq_of_length rfl)).1
  · exact (List.cons.inj (hle.eq_of_length rfl)).1.symm

end Commits

/-! ### Steps and runs -/

section Run

variable {C T V W : Type} [DecidableEq C] [LinearOrder T] {eng : Engine C T V W}
  {start : GraphStore T V} {w w' : World C T V W} {c : C} {event : Event C T}
  {events : List (Event C T)}

/-- A step is a sound move of its call. -/
lemma Serial.step_cases (hw : Serial eng start w) (hminted : MintedOnce eng start)
    (h : w.step eng event = some w') :
    ∃ move, w' = w.apply eng event.call move ∧ MoveHolds eng start w event.call move ∧
      ∀ result, w.phase event.call ≠ .returned result := by
  cases event with
  | step c =>
    obtain ⟨move, hmove, rfl⟩ := map_eq_some_iff.mp h
    refine ⟨move, rfl, hw.nextMove_holds hminted hmove, fun result heq => ?_⟩
    rw [show w.phase c = _ from heq] at hmove
    cases hmove
  | stage c t =>
    obtain ⟨move, hmove, rfl⟩ := map_eq_some_iff.mp h
    refine ⟨move, rfl, hw.stageMove_holds hmove, fun result heq => ?_⟩
    rw [show w.phase c = _ from heq] at hmove
    cases hmove

theorem Serial.step (hw : Serial eng start w) (hminted : MintedOnce eng start)
    (h : w.step eng event = some w') : Serial eng start w' := by
  obtain ⟨move, rfl, hmove, hlive⟩ := hw.step_cases hminted h
  exact hw.apply hminted hmove hlive

lemma World.run_cons (h : w.run eng (event :: events) = some w') :
    ∃ next, w.step eng event = some next ∧ next.run eng events = some w' :=
  bind_eq_some_iff.mp h

lemma World.run_append {pre post : List (Event C T)} (h : w.run eng (pre ++ post) = some w') :
    ∃ next, w.run eng pre = some next ∧ next.run eng post = some w' := by
  rw [World.run, foldlM_append] at h
  exact bind_eq_some_iff.mp h

theorem Serial.run (hw : Serial eng start w) (hminted : MintedOnce eng start)
    (h : w.run eng events = some w') : Serial eng start w' := by
  induction events generalizing w with
  | nil =>
    cases h
    exact hw
  | cons event events ih =>
    obtain ⟨next, hstep, hrest⟩ := World.run_cons h
    exact ih (hw.step hminted hstep) hrest

/-! ### Calls that leave no trace -/

/-- A step after which the call has written nothing has itself written nothing. -/
lemma Serial.untouched_step (hw : Serial eng start w) (hminted : MintedOnce eng start)
    (h : w.step eng event = some w') (huntouched : (w'.phase event.call).untouched) :
    (w.phase event.call).untouched ∧ w'.store = w.store := by
  obtain ⟨move, rfl, hmove, hlive⟩ := hw.step_cases hminted h
  rw [Phase.untouched_eq hlive, World.apply_store]
  cases move with
  | goto phase =>
    rw [World.apply_goto_phase] at huntouched
    refine ⟨?_, rfl⟩
    have harmed : (w.phase event.call).armed = false := by
      rw [Bool.eq_false_iff]
      exact fun h => absurd (hmove.2.2.2.2.1 h) (by simp [Phase.armed_eq_false huntouched])
    rw [harmed, hmove.1]
    rfl
  | take gate phase =>
    rw [World.apply_take_phase] at huntouched
    refine ⟨?_, rfl⟩
    have harmed : (w.phase event.call).armed = false := by
      rw [Bool.eq_false_iff]
      exact fun h => absurd (hmove.2.2.2.2.2.1 h) (by simp [Phase.armed_eq_false huntouched])
    rw [harmed, hmove.2.1]
    rfl
  | write store phase =>
    -- a write arms, or publishes
    rw [World.apply_write_phase] at huntouched
    obtain ⟨-, -, -, -, -, -, hsidecars, -⟩ := hmove
    rcases hsidecars with ⟨harmed, -⟩ | ⟨-, hpublished, -⟩
    · rw [Phase.armed_eq_false huntouched] at harmed
      cases harmed
    · exact absurd (Phase.published_eq_none huntouched) hpublished
  | fail store e =>
    rcases hmove.2 with ⟨harmed, rfl⟩ | ⟨-, -, hnot, hnot', -⟩
    · rw [harmed, hmove.1]
      exact ⟨rfl, rfl⟩
    · rcases World.apply_fail_phase eng w event.call store e with ⟨hretries, -⟩ | ⟨-, hphase, -⟩
      · rw [retries, hnot, Bool.and_false, Bool.false_and] at hretries
        cases hretries
      · rw [hphase, Phase.untouched, hnot, hnot'] at huntouched
        cases huntouched
  | finish store result =>
    rw [World.apply_finish_phase] at huntouched
    cases huntouched

lemma Serial.phase_of_call_ne (hw : Serial eng start w) (hminted : MintedOnce eng start)
    (h : w.step eng event = some w') (hne : c ≠ event.call) : w'.phase c = w.phase c := by
  obtain ⟨move, rfl, -, -⟩ := hw.step_cases hminted h
  exact World.apply_phase_of_ne hne

lemma Serial.untouched_run (hw : Serial eng start w) (hminted : MintedOnce eng start)
    (h : w.run eng events = some w') (huntouched : (w'.phase c).untouched) :
    (w.phase c).untouched := by
  induction events generalizing w with
  | nil =>
    cases h
    exact huntouched
  | cons event events ih =>
    obtain ⟨next, hstep, hrest⟩ := World.run_cons h
    have hnext := ih (hw.step hminted hstep) hrest
    by_cases hne : c = event.call
    · subst hne
      exact (hw.untouched_step hminted hstep hnext).1
    · rwa [hw.phase_of_call_ne hminted hstep hne] at hnext

/-! ### Calls without an effect -/

variable {head : String}

/-- A call that expects a head and returns without a commit has met that head under the gates. -/
lemma Serial.noEffect_step (hw : Serial eng start w) (hminted : MintedOnce eng start)
    (h : w.step eng event = some w') (hexpected : eng.expectedHead c = some head)
    (hbefore : w.phase c ≠ .returned (.ok none)) (hafter : w'.phase c = .returned (.ok none)) :
    event.call = c ∧ w.gates .schema = some c ∧ w.gates .branch = some c ∧
      w.store.effectiveGraphHead = some head := by
  by_cases hne : c = event.call
  · subst hne
    obtain ⟨move, rfl, hmove, -⟩ := hw.step_cases hminted h
    refine ⟨rfl, ?_⟩
    cases move with
    | goto phase =>
      rw [World.apply_goto_phase] at hafter
      exact absurd hafter (Phase.ne_returned hmove.2.2.2.2.2)
    | take gate phase =>
      rw [World.apply_take_phase] at hafter
      exact absurd hafter (Phase.ne_returned hmove.2.2.2.2.2.2)
    | write store phase =>
      rw [World.apply_write_phase] at hafter
      exact absurd hafter (Phase.ne_returned hmove.2.2.2.2.2.2.2.2)
    | fail store e =>
      rcases World.apply_fail_phase eng w event.call store e with ⟨-, hphase, -⟩ | ⟨-, hphase, -⟩
      · rw [hphase] at hafter
        cases hafter
      · rw [hphase] at hafter
        cases hafter
    | finish store result =>
      rw [World.apply_finish_phase] at hafter
      cases hafter
      exact hmove.2.2 rfl head hexpected
  · rw [hw.phase_of_call_ne hminted h hne] at hafter
    exact absurd hafter hbefore

lemma Serial.noEffect_run (hw : Serial eng start w) (hminted : MintedOnce eng start)
    (h : w.run eng events = some w') (hexpected : eng.expectedHead c = some head)
    (hbefore : w.phase c ≠ .returned (.ok none)) (hafter : w'.phase c = .returned (.ok none)) :
    ∃ pre event post next, events = pre ++ event :: post ∧ event.call = c ∧
      w.run eng pre = some next ∧ next.gates .schema = some c ∧ next.gates .branch = some c ∧
      next.store.effectiveGraphHead = some head := by
  induction events generalizing w with
  | nil =>
    cases h
    exact absurd hafter hbefore
  | cons event events ih =>
    obtain ⟨next, hstep, hrest⟩ := World.run_cons h
    by_cases hnext : next.phase c = .returned (.ok none)
    · obtain ⟨hcall, hschema, hbranch, hhead⟩ :=
        hw.noEffect_step hminted hstep hexpected hbefore hnext
      exact ⟨[], event, events, w, rfl, hcall, rfl, hschema, hbranch, hhead⟩
    · obtain ⟨pre, event', post, world, rfl, hcall, hrun, hmet⟩ :=
        ih (hw.step hminted hstep) hrest hnext
      refine ⟨event :: pre, event', post, world, rfl, hcall, ?_, hmet⟩
      exact bind_eq_some_iff.mpr ⟨next, hstep, hrun⟩

/-! ### Serializability -/

/-- Any number of mutation calls on a branch, in any order of steps.

Every acknowledged commit is in the lineage and leaves the graph its call leaves when it is executed
alone on the state of the parent commit. A call that expects a head has that head as the parent of
its commit, or has met it under the schema and branch gates if it returns without one, and all the
calls that expect one head have at most one commit together. A call that returns
`PreconditionFailed` or `ReadSetChanged` has not changed the store in any of its steps. Only calls
of inserts are executed again. -/
theorem mutations_serializable (hsettled : Settled start) (hminted : MintedOnce eng start)
    (hrun : (World.start start).run eng events = some w) :
    (∀ c commit, w.phase c = .returned (.ok (some commit)) → commit ∈ w.store.lineage ∧
      ∃ parent, w.store.pinsAt commit.parentCommitId = some parent ∧
        eng.alone c (w.attempt c) (w.store.read parent) =
          .ok (some (w.store.read commit.pins))) ∧
    (∀ c commit head, w.phase c = .returned (.ok (some commit)) →
      eng.expectedHead c = some head → commit.parentCommitId = some head) ∧
    (∀ c head, w.phase c = .returned (.ok none) → eng.expectedHead c = some head →
      ∃ pre event post next, events = pre ++ event :: post ∧ event.call = c ∧
        (World.start start).run eng pre = some next ∧ next.gates .schema = some c ∧
        next.gates .branch = some c ∧ next.store.effectiveGraphHead = some head) ∧
    (∀ head c c' n n', ∀ row ∈ w.store.lineage, ∀ row' ∈ w.store.lineage,
      eng.expectedHead c = some head → eng.expectedHead c' = some head →
      row.graphCommitId = eng.commitId c n → row'.graphCommitId = eng.commitId c' n' →
      row = row') ∧
    (∀ c e, w.phase c = .returned (.error e) →
      e.isPreconditionFailed ∨ e.isReadSetChanged →
      ∀ pre event post next next', events = pre ++ event :: post → event.call = c →
        (World.start start).run eng pre = some next → next.step eng event = some next' →
        next'.store = next.store) ∧
    ∀ c, 0 < w.attempt c → eng.insertOnly c := by
  have hstart : Serial eng start (World.start start) := serial_start hsettled
  have hw := hstart.run hminted hrun
  have hrow : ∀ c commit, w.phase c = .returned (.ok (some commit)) →
      commit ∈ w.store.lineage ∧ commit.graphCommitId = eng.commitId c (w.attempt c) :=
    fun c commit hphase => hw.commits c commit (by rw [hphase]; rfl)
  refine ⟨?_, ?_, ?_, ?_, ?_, hw.reprepared⟩
  · intro c commit hphase
    obtain ⟨hmem, hid⟩ := hrow c commit hphase
    obtain ⟨rest, hsuffix, hparent, -, halone⟩ := hw.row_of_id hminted hmem hid
    exact ⟨hmem, _, hparent ▸ hw.pinsAt_parent hsuffix, halone⟩
  · intro c commit head hphase hexpected
    obtain ⟨hmem, hid⟩ := hrow c commit hphase
    obtain ⟨-, -, -, hhead, -⟩ := hw.row_of_id hminted hmem hid
    exact hhead head hexpected
  · intro c head hphase hexpected
    exact hstart.noEffect_run hminted hrun hexpected nofun hphase
  · intro head c c' n n' row hmem row' hmem' hexpected hexpected' hid hid'
    obtain ⟨rest, hsuffix, hparent, hhead, -⟩ := hw.row_of_id hminted hmem hid
    obtain ⟨rest', hsuffix', hparent', hhead', -⟩ := hw.row_of_id hminted hmem' hid'
    -- two rows on top of one head are one row
    apply hw.row_unique hsuffix hsuffix'
    rw [← hparent, ← hparent', hhead head hexpected, hhead' head hexpected']
  · intro c e hphase he pre event post next next' hevents hcall hpre hstep
    subst hevents hcall
    -- a failure of this kind is returned only while the call has written nothing
    have huntouched : (w.phase event.call).untouched := by
      rw [hphase, Phase.untouched, Bool.or_eq_true]
      exact he.symm
    obtain ⟨world, hworld, hrest⟩ := World.run_append hrun
    rw [hpre] at hworld
    cases hworld
    have hnext := hstart.run hminted hpre
    obtain ⟨world', hstep', hpost⟩ := World.run_cons hrest
    rw [hstep] at hstep'
    cases hstep'
    have hafter := (hnext.step hminted hstep).untouched_run hminted hpost huntouched
    exact (hnext.untouched_step hminted hstep hafter).2

end Run

/-! Two calls insert into one table, the first one for an expected head. Both capture the branch
before either of them commits; the second one finds the head moved and is prepared again. -/

/-- A table holds numbers, and a call inserts its own. -/
def insertEngine : Engine Bool Unit (List ℕ) (List ℕ) where
  branch := "main"
  tableKey _ := "node:Person"
  tablePath _ := "nodes/person"
  expectedHead c := if c then none else some "01A"
  lower c := .ok [⟨true, fun _ _ => [], fun _ _ work => .ok (work ++ [if c then 8 else 7])⟩]
  emptyStaging := []
  isEmpty work := work.isEmpty
  validate _ _ _ := .ok ()
  touched work := if work.isEmpty then [] else [()]
  touched_nodup work := by
    split_ifs
    · exact List.nodup_nil
    · exact List.nodup_singleton ()
  plan _ _ := .pending .strictInsert
  stageWrite work _ rows := .ok (rows ++ work)
  stageDelete _ _ _ := .ok none
  firstExistingId _ _ _ := none
  rebase _ _ _ := none
  display _ := ""
  commitId c n := String.ofList ((if c then 'C' else 'B') :: List.replicate n '0')
  operationId c n := String.ofList ((if c then 'E' else 'D') :: List.replicate n '0')
  plannedUuid c n _ := String.ofList ((if c then 'G' else 'F') :: List.replicate n '0')

/-- The branch with its first commit and one empty table. -/
def insertStart : GraphStore Unit (List ℕ) where
  branchIdentifier := "main"
  schemaIrHash := "hash"
  schemaIdentityDomain := "domain"
  schemaIdentityVersion := 1
  inheritedHead := none
  inheritedPins _ := ⟨1, true⟩
  lineage := [⟨"01A", none, fun _ => ⟨1, true⟩⟩]
  ref _ := some ⟨1, none⟩
  content _ _ := []
  sidecars := []
  pathChild _ := false

/-- The steps of one attempt, from the capture to the gates and from there to the end. -/
def preparing (c : Bool) : List (Event Bool Unit) :=
  [.step c, .step c, .step c, .step c, .step c, .stage c (), .step c]

def finishing (c : Bool) : List (Event Bool Unit) := List.replicate 13 (.step c)

def insertEvents : List (Event Bool Unit) :=
  preparing false ++ preparing true ++ finishing false ++ List.replicate 5 (.step true) ++
    preparing true ++ finishing true

def Phase.acknowledged {T V W : Type} : Phase T V W → Bool
  | .returned (.ok (some _)) => true
  | _ => false

lemma Phase.exists_of_acknowledged {T V W : Type} {phase : Phase T V W} (h : phase.acknowledged) :
    ∃ commit, phase = .returned (.ok (some commit)) := by
  unfold Phase.acknowledged at h
  split at h
  · exact ⟨_, rfl⟩
  · cases h

lemma insertEngine_mintedOnce : MintedOnce insertEngine insertStart where
  once c c' n n' h := by
    have hlist := congrArg String.toList h
    simp only [insertEngine, String.toList_ofList, List.cons.injEq] at hlist
    revert hlist
    cases c <;> cases c' <;> simp
  unused c n row hrow h := by
    cases mem_singleton.mp hrow
    have hlist := congrArg String.toList h
    simp only [insertEngine, String.toList_ofList] at hlist
    revert hlist
    cases c <;> simp
  inherited _ _ := nofun

lemma insertStart_settled : Settled insertStart where
  ids := nodup_singleton _
  inherited _ _ := nofun
  heads t ref _ href := by
    cases href
    exact le_refl 1
  quiet := rfl

theorem mutations_serializable_inserts :
    ∃ w, (World.start insertStart).run insertEngine insertEvents = some w ∧
      (∃ commit, w.phase false = .returned (.ok (some commit)) ∧
        commit.parentCommitId = some "01A") ∧
      (∃ commit parent, w.phase true = .returned (.ok (some commit)) ∧
        w.store.pinsAt commit.parentCommitId = some parent ∧
        insertEngine.alone true (w.attempt true) (w.store.read parent) =
          .ok (some (w.store.read commit.pins))) ∧
      w.attempt true = 1 ∧ insertEngine.insertOnly true := by
  have hsome : ((World.start insertStart).run insertEngine insertEvents).any
      (fun w => (w.phase false).acknowledged && (w.phase true).acknowledged &&
        decide (w.attempt true = 1)) = true := by
    decide +kernel
  obtain ⟨w, hrun, hdone⟩ := (Option.any_eq_true _ _).mp hsome
  simp only [Bool.and_eq_true, decide_eq_true_eq] at hdone
  obtain ⟨⟨hfirst, hsecond⟩, hattempt⟩ := hdone
  obtain ⟨commit, hcommit⟩ := Phase.exists_of_acknowledged hfirst
  obtain ⟨commit', hcommit'⟩ := Phase.exists_of_acknowledged hsecond
  obtain ⟨halone, hexpected, -, -, -, hreprepared⟩ :=
    mutations_serializable insertStart_settled insertEngine_mintedOnce hrun
  obtain ⟨-, parent, hparent, hgraph⟩ := halone true commit' hcommit'
  exact ⟨w, hrun, ⟨commit, hcommit, hexpected false commit "01A" hcommit rfl⟩,
    ⟨commit', parent, hcommit', hparent, hgraph⟩, hattempt,
    hreprepared true (by rw [hattempt]; decide)⟩

end Omnigraph.Mutation
