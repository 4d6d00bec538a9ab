import Omnigraph.Mutation.Invariant

/-!
# The moves of a mutation call are sound

One lemma per phase of a call. Before the gates nothing is written; under them the store is the one
the revalidation has seen, so the table commits and the publish are those of a call that is alone.
-/

namespace Omnigraph.Mutation

open List

section Moves

variable {C T V W : Type} [LinearOrder T] {eng : Engine C T V W} {start : GraphStore T V}
  {w : World C T V W} {c : C} {move : Move T V W}

variable (hw : Serial eng start w)

include hw in
/-- The healer finds nothing to settle while the gates are free. -/
lemma Serial.healSidecar_eq_none (hminted : MintedOnce eng start) (hidle : w.gates .schema = none)
    {s : RecoverySidecar T} (hs : s ∈ w.store.sidecars) : healSidecar w.store s = none := by
  obtain ⟨c, hid, howner⟩ := hw.sidecars s hs
  rcases howner with harmed | ⟨hconfirmed, e, hphase⟩
  · have hgate := hw.gates c .schema (Phase.holds_schema_of_gated (Phase.gated_of_armed harmed))
    rw [hidle] at hgate
    cases hgate
  · have hnone : (w.phase c).published = none := by
      rw [hphase]
      rfl
    rw [healSidecar, if_neg, if_neg]
    · rw [hconfirmed]
      exact fun h => absurd h.1 Bool.false_ne_true
    · rw [List.any_eq_true]
      rintro ⟨row, hrow, heq⟩
      rw [hid, decide_eq_true_eq] at heq
      exact hw.unused hminted hnone hrow heq

variable {old new : Phase T V W}

include hw in
lemma Serial.goto_holds (hold : w.phase c = old) (hpublished : old.published = none)
    (hnew : PhaseHolds eng start w.store c (w.attempt c) new)
    (hgates : ∀ gate, new.holds gate → old.holds gate) (hpublished' : new.published = none)
    (harmed : old.armed → new.armed) (hrunning : new.running) :
    MoveHolds eng start w c (.goto new) := by
  subst hold
  refine ⟨hpublished, hnew, ?_, hpublished', harmed, hrunning⟩
  exact fun gate h => hw.gates c gate (hgates gate h)

variable {gate : Gate T}

include hw in
lemma Serial.take_holds (hold : w.phase c = old) (hpublished : old.published = none)
    (hnew : PhaseHolds eng start w.store c (w.attempt c) new) (hfree : w.gates gate = none)
    (hgates : ∀ gate', new.holds gate' → gate' = gate ∨ old.holds gate')
    (hpublished' : new.published = none) (harmed : old.armed = false) (hrunning : new.running) :
    MoveHolds eng start w c (.take gate new) := by
  subst hold
  refine ⟨hfree, hpublished, hnew, fun gate' h => ?_, hpublished', ?_, hrunning⟩
  · exact (hgates gate' h).imp_right (hw.gates c gate')
  · rw [harmed]
    exact fun h => absurd h Bool.false_ne_true

/-- Before its sidecar is armed, a call that fails leaves the store alone. -/
lemma fail_holds {e : OmniError} (hold : w.phase c = old) (hpublished : old.published = none)
    (harmed : old.armed = false) : MoveHolds eng start w c (.fail w.store e) := by
  subst hold
  exact ⟨hpublished, .inl ⟨harmed, rfl⟩⟩

/-- A call without an effect leaves the store alone. If it expects a head, it has met it under the
gates. -/
lemma finish_holds (hold : w.phase c = old) (hpublished : old.published = none)
    (harmed : old.armed = false) (hhead : ∀ head, eng.expectedHead c = some head →
      w.gates .schema = some c ∧ w.gates .branch = some c ∧
        w.store.effectiveGraphHead = some head) :
    MoveHolds eng start w c (.finish w.store none) := by
  subst hold
  exact ⟨hpublished, .inl ⟨harmed, rfl⟩, fun _ => hhead⟩

/-- The gates still to take, less the one taken. -/
lemma eq_or_not_mem_cons {gate' : Gate T} {rest : List (Gate T)} {p : Prop} (h : gate' ∉ rest ∧ p) :
    gate' = gate ∨ gate' ∉ gate :: rest ∧ p := by
  by_cases heq : gate' = gate
  · exact .inl heq
  · exact .inr ⟨by simp [heq, h.1], h.2⟩

include hw in
lemma Serial.phase_holds (hold : w.phase c = old) :
    PhaseHolds eng start w.store c (w.attempt c) old := hold ▸ hw.phases c

include hw in
lemma Serial.recovering_holds (hminted : MintedOnce eng start) (hold : w.phase c = .recovering)
    (h : recoverStep eng w.store (w.gates .schema).isNone = some move) :
    MoveHolds eng start w c move := by
  unfold recoverStep at h
  split at h
  · cases h
    exact hw.goto_holds hold rfl trivial (fun _ h => h.elim) rfl id rfl
  · rename_i s rest hsidecars
    split_ifs at h with hidle
    rw [hw.healSidecar_eq_none hminted (Option.isNone_iff_eq_none.mp hidle)
      (hsidecars ▸ mem_cons_self)] at h
    cases h
    exact fail_holds hold rfl rfl

include hw in
/-- Up to the gates. -/
lemma Serial.prepare_holds [DecidableEq C] (hminted : MintedOnce eng start)
    (h : nextMove eng w.store w.gates c (w.attempt c) (w.phase c) = some move)
    (hgated : (w.phase c).gated = false) : MoveHolds eng start w c move := by
  cases hold : w.phase c with
  | recovering =>
    rw [hold] at h
    exact hw.recovering_holds hminted hold h
  | capturing =>
    rw [hold] at h
    cases h
    split
    · exact fail_holds hold rfl rfl
    · rename_i txn htxn
      split
      · exact fail_holds hold rfl rfl
      · rename_i ops hops
        refine hw.goto_holds hold rfl
          ⟨_, captured_of_checkExpectedHead hw.since htxn, ops, hops, rfl⟩
          (fun _ h => h.elim) rfl id rfl
  | executing txn ops work =>
    obtain ⟨l, hcaptured, hexecutes⟩ := hw.phase_holds hold
    rw [hold] at h
    cases ops with
    | cons op ops =>
      cases h
      split
      · exact fail_holds hold rfl rfl
      · exact hw.goto_holds hold rfl ⟨l, hcaptured, hexecutes.step ‹_›⟩
          (fun _ h => h.elim) rfl id rfl
    | nil =>
      cases h
      split_ifs with hempty
      · split
        · rename_i hnone
          refine finish_holds hold rfl rfl fun head hhead => ?_
          rw [← hcaptured.expected, hnone] at hhead
          cases hhead
        · refine hw.goto_holds hold rfl ⟨l, hcaptured⟩ ?_ rfl id rfl
          rintro gate ⟨hout, rfl | rfl⟩
          · simp at hout
          · simp at hout
      · refine hw.goto_holds hold rfl ⟨l, hcaptured, hexecutes, ?_⟩ (fun _ h => h.elim) rfl id rfl
        simpa using hempty
  | validating txn work =>
    obtain ⟨l, hcaptured, hexecutes, heffect⟩ := hw.phase_holds hold
    rw [hold] at h
    cases h
    split
    · exact fail_holds hold rfl rfl
    · rename_i hvalid
      refine hw.goto_holds hold rfl ⟨l, ⟨hcaptured, hexecutes, heffect, ?_⟩, .all⟩
        (fun _ h => h.elim) rfl id rfl
      exact ⟨w.store.lineage, hcaptured.past.suffix, .current hw.since, hvalid⟩
  | staging txn work todo staged =>
    obtain ⟨l, hprepared, hstaging⟩ := hw.phase_holds hold
    rw [hold] at h
    cases todo with
    | cons t todo => cases h
    | nil =>
      cases h
      refine hw.goto_holds hold rfl ⟨l, hprepared, hstaging⟩ ?_ rfl id rfl
      rintro gate ⟨hout, rfl | rfl⟩
      · simp [commitGates] at hout
      · simp [commitGates] at hout
  | gating txn work staged gates =>
    obtain ⟨l, hprepared, hstaging⟩ := hw.phase_holds hold
    rw [hold] at h
    cases gates with
    | cons gate rest =>
      simp only [nextMove] at h
      split_ifs at h with hfree
      cases h
      refine hw.take_holds hold rfl ?_ hfree (fun gate' h => eq_or_not_mem_cons h) rfl rfl
        rfl
      exact ⟨l, hprepared, hstaging⟩
    | nil =>
      cases h
      split
      · rename_i hnone
        exact hw.goto_holds hold rfl ⟨hnone, l, hprepared, hstaging⟩
          (fun gate h => ⟨not_mem_nil, h⟩) rfl id rfl
      · exact fail_holds hold rfl rfl
  | noEffect txn gates =>
    obtain ⟨l, hcaptured⟩ := hw.phase_holds hold
    rw [hold] at h
    cases gates with
    | cons gate rest =>
      simp only [nextMove] at h
      split_ifs at h with hfree
      cases h
      refine hw.take_holds hold rfl ?_ hfree (fun gate' h => eq_or_not_mem_cons h) rfl rfl
        rfl
      exact ⟨l, hcaptured⟩
    | nil =>
      cases h
      split
      · exact fail_holds hold rfl rfl
      · rename_i hok
        refine finish_holds hold rfl rfl fun head hhead => ⟨?_, ?_, ?_⟩
        · exact hw.gates c .schema (by rw [hold]; exact ⟨not_mem_nil, .inl rfl⟩)
        · exact hw.gates c .branch (by rw [hold]; exact ⟨not_mem_nil, .inr rfl⟩)
        · exact (revalidateWriteTxn_eq_ok hok).1 head (hcaptured.expected.trans hhead)
  | returned result =>
    rw [hold] at h
    cases h
  | revalidating | checking | forking | committing | publishing | retiring =>
    rw [hold] at hgated
    cases hgated

/-! The effect-free retirement of a sidecar. -/

variable (eng) in
lemma cleanupUnpublishedForks_spec (operationId : String) (tables : List (SidecarTablePin T))
    (store : GraphStore T V) :
    SameGraph store (cleanupUnpublishedForks eng store.pins operationId tables store).1 ∧
      (cleanupUnpublishedForks eng store.pins operationId tables store).1.sidecars =
        store.sidecars := by
  suffices h : ∀ current : GraphStore T V, SameGraph store current →
      SameGraph store (cleanupUnpublishedForks eng store.pins operationId tables current).1 ∧
        (cleanupUnpublishedForks eng store.pins operationId tables current).1.sidecars =
          current.sidecars from h store (.refl store)
  induction tables with
  | nil => exact fun current hsame => ⟨hsame, rfl⟩
  | cons pin pins ih =>
    intro current hsame
    rw [cleanupUnpublishedForks]
    split_ifs with howned hchild
    · exact ih current hsame
    · exact ⟨hsame, rfl⟩
    · split
      · exact ih current hsame
      · split_ifs
        · refine ih _ (hsame.trans (SameGraph.setRef ?_))
          rw [hsame.pins]
          simpa using howned
        · exact ⟨hsame, rfl⟩

variable (eng) in
lemma finalizeEffectFree_spec (store : GraphStore T V) (operationId : String) :
    SameGraph store (finalizeEffectFree eng store store.pins operationId).1 ∧
      ∀ s ∈ (finalizeEffectFree eng store store.pins operationId).1.sidecars,
        s ∈ store.sidecars := by
  unfold finalizeEffectFree
  split
  · exact ⟨.refl store, fun _ h => h⟩
  · rename_i sidecar _
    split_ifs
    · exact ⟨.refl store, fun _ h => h⟩
    · exact ⟨.refl store, fun _ h => h⟩
    · obtain ⟨hsame, hsidecars⟩ :=
        cleanupUnpublishedForks_spec eng operationId sidecar.tables store
      split
      · rename_i store' heq
        rw [heq] at hsame hsidecars
        refine ⟨hsame.trans (.sidecars _ _), fun s hs => ?_⟩
        rw [← hsidecars]
        exact (mem_filter.mp hs).1
      · rw [hsidecars]
        exact ⟨hsame, fun _ h => h⟩

variable (eng c) in
/-- A deferred staging that fails leaves the graph alone, and its error is not one that is
retried. -/
lemma failDeferred_spec (store : GraphStore T V) (n : ℕ) (t : T) (e : OmniError) :
    ∃ store' e', failDeferred eng store store.pins c n t e = (.fail store' e' : Move T V W) ∧
      SameGraph store store' ∧ (∀ s ∈ store'.sidecars, s ∈ store.sidecars) ∧
      e'.isReadSetChanged = false ∧ e'.isPreconditionFailed = false := by
  obtain ⟨hsame, hsidecars⟩ := finalizeEffectFree_spec eng store (eng.operationId c n)
  unfold failDeferred
  dsimp only
  split_ifs with hkey
  · split
    · rename_i store' heq
      rw [heq] at hsame hsidecars
      refine ⟨store', e, rfl, hsame, hsidecars, ?_⟩
      cases e <;> first | exact ⟨rfl, rfl⟩ | cases hkey
    · rename_i store' heq
      rw [heq] at hsame hsidecars
      exact ⟨store', _, rfl, hsame, hsidecars, rfl, rfl⟩
    · rename_i store' e' heq
      rw [heq] at hsame hsidecars
      exact ⟨store', _, rfl, hsame, hsidecars, rfl, rfl⟩
  · exact ⟨store, _, rfl, .refl store, fun _ h => h, rfl, rfl⟩

/-! Under the gates. -/

section Gated

variable {txn : WriteTxn T} {work : W} {snapshot : T → Pin} {updates : List (T × ℕ)}
  {staged todo forked : List (StagedTableEntry T V)} {entry : StagedTableEntry T V}

include hw in
/-- A write under the gates that publishes nothing. -/
lemma Serial.write_holds (hold : w.phase c = old) (hpublished : old.published = none)
    {store : GraphStore T V} (hgrows : Grows w.store store) (hheads : HeadsHold store)
    (hlineage : store.lineage = w.store.lineage)
    (hnew : PhaseHolds eng start store c (w.attempt c) new)
    (hgates : ∀ gate, gate = .schema ∨ gate = .branch → old.holds gate)
    (hgates' : ∀ gate, new.holds gate → gate = .schema ∨ gate = .branch)
    (hpublished' : new.published = none) (harmed : new.armed) (hrunning : new.running)
    (hown : ∀ s ∈ store.sidecars, OwnSidecar eng c (w.attempt c) s) :
    MoveHolds eng start w c (.write store new) := by
  subst hold
  refine ⟨hw.gates c .schema (hgates _ (.inl rfl)), hpublished, hgrows, hheads, hnew, ?_,
    .inl ⟨harmed, hown⟩, .inl ⟨hpublished', hlineage⟩, hrunning⟩
  exact fun gate h => hw.gates c gate (hgates gate (hgates' gate h))

include hw in
lemma Serial.revalidating_holds [DecidableEq C] (hold : w.phase c = .revalidating txn work staged)
    (h : nextMove eng w.store w.gates c (w.attempt c) (.revalidating txn work staged) = some move) :
    MoveHolds eng start w c move := by
  obtain ⟨hnone, l, hprepared, hstaging⟩ := hw.phase_holds hold
  cases h
  split
  · exact fail_holds hold rfl rfl
  · rename_i snapshot hok
    obtain ⟨hready, rfl⟩ := hprepared.ready hw.ids hok
    refine hw.goto_holds hold rfl ⟨hnone, rfl, hready, ?_, hstaging.entries, ?_⟩
      (fun _ h => h) rfl id rfl
    · have hcover := hstaging.cover
      rwa [hready.pins] at hcover
    · exact fun entry h => .inl h

include hw in
/-- A call that checks its staged tables makes moves that hold. -/
lemma Serial.checking_holds [DecidableEq C]
    (hold : w.phase c = .checking txn work snapshot staged todo)
    (h : nextMove eng w.store w.gates c (w.attempt c) (.checking txn work snapshot staged todo) =
      some move) : MoveHolds eng start w c move := by
  obtain ⟨hnone, rfl, hready, hcover, htodo, hstaged⟩ := hw.phase_holds hold
  cases todo with
  | cons entry todo =>
    cases h
    split
    · exact fail_holds hold rfl rfl
    · rename_i hok
      have hchecked := checked_of_checkEntry hready (htodo entry mem_cons_self) hok
      refine hw.goto_holds hold rfl ⟨hnone, rfl, hready, hcover, ?_, ?_⟩ (fun _ h => h) rfl id rfl
      · exact fun e he => htodo e (mem_cons_of_mem _ he)
      · intro e he
        rcases hstaged e he with hmem | hdone
        · rcases mem_cons.mp hmem with rfl | hmem
          · exact .inr hchecked
          · exact .inl hmem
        · exact .inr hdone
  | nil =>
    have hchecked : ∀ e ∈ staged, Checked eng w.store work e := fun e he =>
      (hstaged e he).resolve_left not_mem_nil
    cases h
    split_ifs with hempty
    · -- nothing to commit: the lineage is all there is to publish
      rw [List.isEmpty_iff.mp hempty] at hcover
      refine hw.goto_holds hold rfl ⟨fun h => absurd h Bool.false_ne_true, hready, hcover, ?_⟩
        (fun _ h => h) rfl id rfl
      exact fun update h => absurd h not_mem_nil
    · have hown : ∀ s ∈ w.store.sidecars ++ [newSidecar eng c (w.attempt c) txn staged],
          OwnSidecar eng c (w.attempt c) s ∧ s.confirmed = false := by
        rw [hnone]
        intro s hs
        cases mem_singleton.mp hs
        exact ⟨⟨rfl, rfl⟩, rfl⟩
      have hsame := SameGraph.sidecars w.store
        (w.store.sidecars ++ [newSidecar eng c (w.attempt c) txn staged])
      refine hw.write_holds hold rfl hsame.grows (hsame.heads hw.heads) rfl
        ⟨rfl, hown, hready.sameGraph hsame, hcover, ?_, ?_⟩ (fun _ h => h)
        (fun _ h => h) rfl rfl rfl
        (fun s hs => (hown s hs).1)
      · exact fun e he => absurd he not_mem_nil
      · exact fun e he => (hchecked e he).sidecars _

include hw in
/-- A call that forks its tables makes moves that hold. -/
lemma Serial.forking_holds [DecidableEq C]
    (hold : w.phase c = .forking txn work snapshot forked todo)
    (h : nextMove eng w.store w.gates c (w.attempt c) (.forking txn work snapshot forked todo) =
      some move) : MoveHolds eng start w c move := by
  obtain ⟨rfl, hown, hready, hcover, hforked, htodo⟩ := hw.phase_holds hold
  have hgate : w.gates .schema = some c := hw.gates c .schema (by rw [hold]; exact .inl rfl)
  have hpublished : (w.phase c).published = none := by
    rw [hold]
    rfl
  cases todo with
  | nil =>
    cases h
    rw [append_nil] at hcover
    exact hw.goto_holds hold rfl
      ⟨hown, hready, hcover, fun _ h => absurd h not_mem_nil, hforked⟩
      (fun _ h => h) rfl id rfl
  | cons entry todo =>
    have hchecked := htodo entry mem_cons_self
    have hmap : ∀ v, ((forked ++ [{ entry with stagedWrite := v }]) ++ todo).map
        StagedTableEntry.table = (forked ++ entry :: todo).map StagedTableEntry.table := by
      intro v
      simp
    cases h
    unfold forkStep
    split_ifs with hdeferred
    · split
      · exact ⟨hpublished, .inr ⟨hgate, .refl _, rfl, rfl, hown⟩⟩
      · rename_i store hfork
        have hstore : store = w.store.setRef entry.table (some ⟨entry.expectedVersion, none⟩) := by
          unfold forkTable at hfork
          split_ifs at hfork
          cases hfork
          rfl
        have hunowned : (w.store.pins entry.table).owned = false := by
          simpa [hdeferred] using hchecked.deferredFork
        have hsame : SameGraph w.store store := hstore ▸ SameGraph.setRef hunowned
        have hsidecars : store.sidecars = w.store.sidecars := by
          rw [hstore]
          rfl
        split
        · rename_i v hstage
          obtain ⟨-, hcommittable⟩ := committable_of_fork hchecked hfork hstage
          rw [map_append, map_cons] at hcover
          refine hw.write_holds hold rfl hsame.grows (hsame.heads hw.heads) hsame.lineage
            ⟨hsame.pins.symm, ?_, hready.sameGraph hsame, ?_, ?_, ?_⟩ (fun _ h => h) (fun _ h => h)
            rfl rfl rfl ?_
          · rwa [hsidecars]
          · rw [hmap, hsame.read, hsame.pins, map_append, map_cons]
            exact hcover
          · intro e he
            rcases mem_append.mp he with he | he
            · rw [hstore]
              exact (hforked e he).setRef (hcover.ne_of_mem (.inl (List.mem_map_of_mem he)))
            · cases mem_singleton.mp he
              exact hcommittable
          · intro e he
            rw [hstore]
            exact (htodo e (mem_cons_of_mem _ he)).setRef
              (hcover.ne_of_mem (.inr (List.mem_map_of_mem he)))
          · rw [hsidecars]
            exact fun s hs => (hown s hs).1
        · rename_i e hstage
          rw [← hsame.pins]
          obtain ⟨store', e', hfail, hsame', hsub, hnot, hnot'⟩ :=
            failDeferred_spec eng c store (w.attempt c) entry.table e
          rw [hfail]
          refine ⟨hpublished, .inr ⟨hgate, hsame.trans hsame', hnot, hnot', fun s hs => ?_⟩⟩
          exact hown s (hsidecars ▸ hsub s hs)
    · rw [map_append, map_cons] at hcover
      refine hw.goto_holds hold rfl ⟨rfl, hown, hready, ?_, ?_, ?_⟩ (fun _ h => h) rfl id rfl
      · simpa using hcover
      · intro e he
        rcases mem_append.mp he with he | he
        · exact hforked e he
        · cases mem_singleton.mp he
          exact hchecked.committable (by simpa using hdeferred)
      · exact fun e he => htodo e (mem_cons_of_mem _ he)

include hw in
/-- A call that commits its tables makes moves that hold. -/
lemma Serial.committing_holds [DecidableEq C]
    (hold : w.phase c = .committing txn work snapshot updates todo)
    (h : nextMove eng w.store w.gates c (w.attempt c) (.committing txn work snapshot updates todo) =
      some move) : MoveHolds eng start w c move := by
  obtain ⟨hown, hready, hcover, happlied, htodo⟩ := hw.phase_holds hold
  cases todo with
  | nil =>
    cases h
    have hconfirmed : ∀ s ∈ w.store.sidecars.map fun s =>
        if s.operationId = eng.operationId c (w.attempt c) then { s with confirmed := true } else s,
        OwnSidecar eng c (w.attempt c) s := by
      intro s hs
      obtain ⟨s', hs', rfl⟩ := List.mem_map.mp hs
      split_ifs
      · exact ⟨(hown s' hs').1.operationId, (hown s' hs').1.graphCommitId⟩
      · exact (hown s' hs').1
    have hsame := SameGraph.sidecars w.store (w.store.sidecars.map fun s =>
      if s.operationId = eng.operationId c (w.attempt c) then { s with confirmed := true } else s)
    rw [map_nil, append_nil] at hcover
    refine hw.write_holds hold rfl hsame.grows (hsame.heads hw.heads) rfl
      ⟨fun _ => hconfirmed, hready.sameGraph hsame, hcover, ?_⟩ (fun _ h => h)
      (fun _ h => h) rfl rfl rfl
      hconfirmed
    exact fun update hupdate => ⟨(happlied update hupdate).version,
      (happlied update hupdate).written, (happlied update hupdate).ref⟩
  | cons entry todo =>
    have hentry := htodo entry mem_cons_self
    obtain ⟨v, hstaged, -⟩ := hentry.staged
    obtain ⟨ref, href, hhead⟩ := hentry.ref
    obtain ⟨-, hpin, hnew⟩ :=
      hentry.applied (eng.plannedUuid c (w.attempt c) entry.table) href hstaged
    rw [map_cons] at hcover
    cases h
    simp only [commitStep, hstaged, href, if_pos hhead]
    refine hw.write_holds hold rfl (grows_commitTable href hpin) ?_ rfl
      ⟨hown, hready.commitTable hpin, ?_, ?_, ?_⟩ (fun _ h => h) (fun _ h => h) rfl rfl rfl
      (fun s hs => (hown s hs).1)
    · intro t ref' howned href'
      by_cases hne : t = entry.table
      · subst hne
        rw [show (w.store.commitTable entry.table ref.head _ v).ref entry.table = _ from
          Function.update_self _ _ _] at href'
        cases href'
        exact hpin.trans (Nat.le_succ _)
      · exact hw.heads t ref' howned ((Function.update_of_ne hne _ _).symm.trans href')
    · rw [map_append, append_assoc]
      show Cover eng work ((w.store.commitTable entry.table ref.head _ v).read w.store.pins) _
      rw [read_commitTable hpin]
      exact hcover
    · intro update hupdate
      rcases mem_append.mp hupdate with hold | hlast
      · exact (happlied update hold).commitTable
          (hcover.ne_of_mem (.inl (List.mem_map_of_mem hold))) hpin
      · cases mem_singleton.mp hlast
        exact hnew
    · intro e he
      exact (htodo e (mem_cons_of_mem _ he)).commitTable
        (hcover.ne_of_mem (.inr (List.mem_map_of_mem he))) hpin

variable {armed : Bool}

include hw in
/-- A call that publishes makes a move that holds. -/
lemma Serial.publishing_holds [DecidableEq C]
    (hold : w.phase c = .publishing txn work updates armed)
    (h : nextMove eng w.store w.gates c (w.attempt c) (.publishing txn work updates armed) =
      some move) : MoveHolds eng start w c move := by
  obtain ⟨hown, hready, hcover, happlied⟩ := hw.phase_holds hold
  cases h
  rw [publishStep, publishPrecondition_eq_ok hready]
  have hgates : ∀ gate, gate = .schema ∨ gate = .branch → w.gates gate = some c := by
    intro gate h
    apply hw.gates c gate
    rw [hold]
    exact h
  have hgrows : Grows w.store (w.store.publish (eng.commitId c (w.attempt c)) updates) := by
    apply grows_publish
    intro update hupdate
    rw [(happlied update hupdate).version]
    exact Nat.le_succ _
  refine ⟨hgates _ (.inl rfl), by rw [hold]; rfl, hgrows, ?_, hown, hgates, ?_, .inr ?_, rfl⟩
  · intro t ref howned href
    rw [GraphStore.publish_pins] at howned ⊢
    rcases GraphStore.updatePins_cases w.store.pins updates t with ⟨version, hmem, hpin⟩ | ⟨-, hpin⟩
    · obtain ⟨ref', href', hle⟩ := (happlied _ hmem).ref
      rw [show w.store.ref t = some ref from href] at href'
      cases href'
      rw [hpin]
      exact hle
    · rw [hpin] at howned ⊢
      exact hw.heads t ref howned href
  · cases armed with
    | true => exact .inl ⟨rfl, hown rfl⟩
    | false => exact .inr ⟨by rw [hold]; rfl, nofun, rfl⟩
  · refine ⟨_, rfl, rfl, rfl, rfl, hready.expected, ?_⟩
    exact alone_of_applied hready hcover happlied

include hw in
lemma Serial.retiring_holds [DecidableEq C] {commit : GraphCommitRow T}
    (hold : w.phase c = .retiring commit armed)
    (h : nextMove eng w.store w.gates c (w.attempt c) (.retiring commit armed) = some move) :
    MoveHolds eng start w c move := by
  have hown := hw.phase_holds hold
  cases h
  refine ⟨by rw [hold]; rfl, ?_, nofun⟩
  cases armed with
  | false => exact .inl ⟨by rw [hold]; rfl, rfl⟩
  | true =>
    refine .inr ⟨hw.gates c .schema (by rw [hold]; exact .inl rfl), .sidecars _ _, ?_⟩
    show w.store.sidecars.filter _ = []
    rw [filter_eq_nil_iff]
    intro s hs
    simp [(hown rfl s hs).operationId]

end Gated

include hw in
/-- Every move of a call is sound. -/
theorem Serial.nextMove_holds [DecidableEq C] (hminted : MintedOnce eng start)
    (h : nextMove eng w.store w.gates c (w.attempt c) (w.phase c) = some move) :
    MoveHolds eng start w c move := by
  cases hold : w.phase c with
  | revalidating txn work staged => exact hw.revalidating_holds hold (hold ▸ h)
  | checking txn work snapshot staged todo => exact hw.checking_holds hold (hold ▸ h)
  | forking txn work snapshot forked todo => exact hw.forking_holds hold (hold ▸ h)
  | committing txn work snapshot updates todo => exact hw.committing_holds hold (hold ▸ h)
  | publishing txn work updates armed => exact hw.publishing_holds hold (hold ▸ h)
  | retiring commit armed => exact hw.retiring_holds hold (hold ▸ h)
  | recovering | capturing | executing | validating | staging | gating | noEffect | returned =>
    exact hw.prepare_holds hminted h (by rw [hold]; rfl)

include hw in
theorem Serial.stageMove_holds {t : T} (h : stageMove eng w.store t (w.phase c) = some move) :
    MoveHolds eng start w c move := by
  unfold stageMove at h
  split at h
  · rename_i txn work todo staged hold
    obtain ⟨l, hprepared, hstaging⟩ := hw.phase_holds hold
    split_ifs at h with ht
    cases h
    split
    · exact fail_holds hold rfl rfl
    · rename_i entry hentry
      exact hw.goto_holds hold rfl
        ⟨l, hprepared, hstaging.stage hprepared.captured hw.heads ht hentry⟩
        (fun _ h => h.elim) rfl id rfl
  · cases h

end Moves

end Omnigraph.Mutation
