import Omnigraph.Manifest.Batch
import Omnigraph.Manifest.Payload

/-!
# Publishers racing on one branch

Any number of publishers work on the manifest dataset of one branch. Each of them loads, builds its
batch and merges it, in steps that interleave with those of the others. The store refuses a
merge-insert whose base is stale when an object id it writes was written since; every other
merge-insert lands on top of the current version.

`done_eq_publish` connects the steps of one publisher with the retry loop of the code: whatever the
others did in between, it ends with what the loop returns for the attempts it met.
-/

namespace Omnigraph

open List

/-! ### The store -/

/-- The manifest dataset, with the object ids each version wrote. -/
structure Store where
  version : ℕ
  manifest : Manifest
  log : List (ℕ × String)

/-- An object id of the batch was written after the version the batch is based on. -/
def Store.Contended (store : Store) (base : ℕ) (rows : List PendingVersionRow) : Prop :=
  ∃ write ∈ store.log, base < write.1 ∧ write.2 ∈ rows.map PendingVersionRow.objectId

instance (store : Store) (base : ℕ) (rows : List PendingVersionRow) :
    Decidable (store.Contended base rows) :=
  inferInstanceAs (Decidable (∃ write ∈ store.log, _))

/-- The store once the batch has landed. -/
def Store.land (store : Store) (rows : List PendingVersionRow) : Store where
  version := store.version + 1
  manifest := store.manifest.publish rows
  log := store.log ++ rows.map fun row => (store.version + 1, row.objectId)

/-- The error of a lost race. Lance's own text is left out. -/
def lostRace : OmniError :=
  .manifestRowLevelCasContention "manifest publish lost a row-level CAS race: "

def Store.mergeRows (store : Store) (base : ℕ) (rows : List PendingVersionRow) :
    Except OmniError Store :=
  if store.Contended base rows then .error lostRace else .ok (store.land rows)

/-! ### The publishers -/

/-- Where a publisher stands, with the attempts it has been through. -/
inductive Phase
  | ready (tried : List Attempt)
  | loaded (tried : List Attempt) (dataset : DatasetRead) (state : LoadedPublishState)
  | prepared (tried : List Attempt) (dataset : DatasetRead) (state : LoadedPublishState)
      (batch : PreparedPublish)
  | done (attempts : List Attempt) (result : Except OmniError PublishOutcome)

/-- What happens next, and to whom. Reads and merge-inserts may also fail for reasons of their
own, without an effect on the store. -/
inductive Event (P : Type)
  | openFails (p : P) (e : OmniError)
  | load (p : P) (branchIdentifier : BranchIdentifierRead) (batches : List (List ManifestRow))
  | build (p : P)
  | merge (p : P)
  | mergeFails (p : P) (e : OmniError)

/-- The store, the publishers, and the commits that have landed, in that order. -/
structure World (P : Type) where
  store : Store
  phase : P → Phase
  published : List (P × GraphLineageRow)

/-- A failed attempt is tried again within the budget, if its error allows it. -/
def afterFailure (tried : List Attempt) (failed : Attempt) (e : OmniError) : Phase :=
  if tried.length < publisherRetryBudget ∧ e.isRetryablePublishConflict then
    .ready (tried ++ [failed])
  else .done (tried ++ [failed]) (.error e)

variable {P : Type} [DecidableEq P]

def World.goto (w : World P) (p : P) (phase : Phase) : World P :=
  { w with phase := Function.update w.phase p phase }

section Steps

variable (codecs : MetadataCodecs) (orders : P → WalkOrders) (request : P → PublishRequest)

/-- After building, a publisher without rows has nothing to merge. -/
def builtPhase (tried : List Attempt) (dataset : DatasetRead) (state : LoadedPublishState) :
    Except OmniError PreparedPublish → Phase
  | .error e => .done (tried ++ [⟨.ok dataset, .error e⟩]) (.error e)
  | .ok batch =>
    if batch.rows = [] then
      .done (tried ++ [⟨.ok dataset, .ok dataset.version⟩])
        (.ok ⟨state.datasetVersion, batch.parentCommitId, batch.knownState⟩)
    else .prepared tried dataset state batch

/-- The world once `p`'s batch has landed in `store`. -/
def World.landed (w : World P) (p : P) (tried : List Attempt) (dataset : DatasetRead)
    (state : LoadedPublishState) (batch : PreparedPublish) (store : Store) : World P where
  store := store
  phase := Function.update w.phase p (.done (tried ++ [⟨.ok dataset, .ok store.version⟩])
    (.ok ⟨store.version, batch.parentCommitId, { batch.knownState with version := store.version }⟩))
  published := w.published ++ (request p).lineage.toList.map fun i => (p, i.commitAt state)

/-- One step; `none` when the publisher is not in the phase the event needs, or when the batches
read are not the rows of the store. -/
def World.step (w : World P) : Event P → Option (World P)
  | .openFails p e =>
    match w.phase p with
    | .ready tried => some (w.goto p (afterFailure tried ⟨.error e, .error e⟩ e))
    | _ => none
  | .load p branchIdentifier batches =>
    match w.phase p with
    | .ready tried =>
      if batches.flatten.Perm w.store.manifest.rows then
        let dataset : DatasetRead := ⟨w.store.version, branchIdentifier, batches⟩
        match loadPublishState codecs dataset with
        | .ok state => some (w.goto p (.loaded tried dataset state))
        | .error e => some (w.goto p (afterFailure tried ⟨.ok dataset, .error e⟩ e))
      else none
    | _ => none
  | .build p =>
    match w.phase p with
    | .loaded tried dataset state => some (w.goto p (builtPhase tried dataset state
        (preparePublish (orders p) codecs (request p) state)))
    | _ => none
  | .merge p =>
    match w.phase p with
    | .prepared tried dataset state batch =>
      match w.store.mergeRows dataset.version batch.rows with
      | .ok store => some (w.landed request p tried dataset state batch store)
      | .error e => some (w.goto p (afterFailure tried ⟨.ok dataset, .error e⟩ e))
    | _ => none
  | .mergeFails p e =>
    match w.phase p with
    | .prepared tried dataset _ _ =>
      some (w.goto p (afterFailure tried ⟨.ok dataset, .error e⟩ e))
    | _ => none

/-- A run of events. -/
def World.run (w : World P) (events : List (Event P)) : Option (World P) :=
  events.foldlM (World.step codecs orders request) w

/-- Nobody has started yet. -/
def World.start (store : Store) : World P := ⟨store, fun _ => .ready [], []⟩

variable {w : World P} {p q : P} {phase : Phase}

@[simp] lemma World.goto_phase_self : (w.goto p phase).phase p = phase := by
  simp [World.goto]

lemma World.goto_phase_of_ne (hne : q ≠ p) : (w.goto p phase).phase q = w.phase q := by
  simp [World.goto, hne]

variable {request} {tried : List Attempt} {dataset : DatasetRead} {state : LoadedPublishState}
  {batch : PreparedPublish} {store : Store}

@[simp] lemma World.landed_phase_self :
    (w.landed request p tried dataset state batch store).phase p =
      .done (tried ++ [⟨.ok dataset, .ok store.version⟩]) (.ok ⟨store.version,
        batch.parentCommitId, { batch.knownState with version := store.version }⟩) := by
  simp [World.landed]

lemma World.landed_phase_of_ne (hne : q ≠ p) :
    (w.landed request p tried dataset state batch store).phase q = w.phase q := by
  simp [World.landed, hne]

end Steps

/-! ### What a step can do -/

section Inversion

variable {codecs : MetadataCodecs} {orders : P → WalkOrders} {request : P → PublishRequest}
  {w w' : World P} {event : Event P}

/-- Either a publisher moves on its own, or its batch lands. -/
inductive Steps (codecs : MetadataCodecs) (orders : P → WalkOrders)
    (request : P → PublishRequest) (w : World P) : World P → Prop
  | misses (p : P) (tried : List Attempt) (attempt : Attempt) (e : OmniError)
    (phase : w.phase p = .ready tried)
    (fails : (attempt.opened >>= loadPublishState codecs) = .error e) :
    Steps codecs orders request w (w.goto p (afterFailure tried attempt e))
  | refused (p : P) (tried : List Attempt) (dataset : DatasetRead) (state : LoadedPublishState)
    (batch : PreparedPublish) (e : OmniError)
    (phase : w.phase p = .prepared tried dataset state batch) :
    Steps codecs orders request w (w.goto p (afterFailure tried ⟨.ok dataset, .error e⟩ e))
  | loads (p : P) (tried : List Attempt) (dataset : DatasetRead) (state : LoadedPublishState)
    (phase : w.phase p = .ready tried) (version : dataset.version = w.store.version)
    (rows : dataset.batches.flatten.Perm w.store.manifest.rows)
    (load : loadPublishState codecs dataset = .ok state) :
    Steps codecs orders request w (w.goto p (.loaded tried dataset state))
  | builds (p : P) (tried : List Attempt) (dataset : DatasetRead) (state : LoadedPublishState)
    (phase : w.phase p = .loaded tried dataset state) :
    Steps codecs orders request w (w.goto p (builtPhase tried dataset state
      (preparePublish (orders p) codecs (request p) state)))
  | lands (p : P) (tried : List Attempt) (dataset : DatasetRead) (state : LoadedPublishState)
    (batch : PreparedPublish) (phase : w.phase p = .prepared tried dataset state batch)
    (free : ¬ w.store.Contended dataset.version batch.rows) :
    Steps codecs orders request w
      (w.landed request p tried dataset state batch (w.store.land batch.rows))

/-- What the machine does is a step of the relation. -/
theorem steps_of_step (h : w.step codecs orders request event = some w') :
    Steps codecs orders request w w' := by
  cases event with
  | openFails p e =>
    simp only [World.step] at h
    split at h
    · cases h
      exact .misses p _ _ e ‹_› rfl
    · cases h
  | load p branchIdentifier batches =>
    simp only [World.step] at h
    split at h
    · rename_i tried hphase
      split_ifs at h with hrows
      split at h
      · cases h
        exact .loads p tried _ _ hphase rfl hrows ‹_›
      · cases h
        exact .misses p tried _ _ hphase ‹_›
    · cases h
  | build p =>
    simp only [World.step] at h
    split at h
    · cases h
      exact .builds p _ _ _ ‹_›
    · cases h
  | merge p =>
    simp only [World.step] at h
    split at h
    · rename_i tried dataset state batch hphase
      simp only [Store.mergeRows] at h
      split_ifs at h with hcontended
      · cases h
        exact .refused p tried dataset state batch _ hphase
      · cases h
        exact .lands p tried dataset state batch hphase hcontended
    · cases h
  | mergeFails p e =>
    simp only [World.step] at h
    split at h
    · cases h
      exact .refused p _ _ _ _ e ‹_›
    · cases h

/-- An invariant of every step is an invariant of every run. -/
theorem run_invariant {I : World P → Prop} {events : List (Event P)}
    (hstep : ∀ {w w'}, I w → Steps codecs orders request w w' → I w') (hw : I w)
    (h : w.run codecs orders request events = some w') : I w' := by
  induction events generalizing w with
  | nil =>
    cases h
    exact hw
  | cons event events ih =>
    rw [World.run, foldlM_cons] at h
    obtain ⟨next, hnext, hrest⟩ := Option.bind_eq_some_iff.mp h
    exact ih (hstep hw (steps_of_step hnext)) hrest

end Inversion

/-! ### One publisher and its retry loop -/

section Loop

variable {codecs : MetadataCodecs} {orders : WalkOrders} {request : PublishRequest}
  {tried : List Attempt} {attempt : Attempt}

/-- The attempts tried so far all lead to a further one. -/
def Retries (orders : WalkOrders) (codecs : MetadataCodecs) (request : PublishRequest)
    (tried : List Attempt) : Prop :=
  tried.length ≤ publisherRetryBudget ∧
    ∀ rest, (tried ++ rest).length = publisherRetryBudget + 1 →
      publishLoop orders codecs request (tried ++ rest) = publishLoop orders codecs request rest

/-- The attempts lead to the result, whatever attempts would come after them. -/
def Returns (orders : WalkOrders) (codecs : MetadataCodecs) (request : PublishRequest)
    (attempts : List Attempt) (result : Except OmniError PublishOutcome) : Prop :=
  attempts.length ≤ publisherRetryBudget + 1 ∧
    ∀ rest, (attempts ++ rest).length = publisherRetryBudget + 1 →
      publishLoop orders codecs request (attempts ++ rest) = result

/-- The phase agrees with what the loop does. -/
def Phase.Follows (orders : WalkOrders) (codecs : MetadataCodecs) (request : PublishRequest) :
    Phase → Prop
  | .ready tried => Retries orders codecs request tried
  | .loaded tried dataset state => Retries orders codecs request tried ∧
      loadPublishState codecs dataset = .ok state
  | .prepared tried dataset state batch => Retries orders codecs request tried ∧
      loadPublishState codecs dataset = .ok state ∧
      preparePublish orders codecs request state = .ok batch ∧ batch.rows ≠ []
  | .done attempts result => Returns orders codecs request attempts result

variable {e : OmniError}

lemma publishLoop_failed {rest : List Attempt}
    (h : (attempt.opened >>= loadPublishState codecs) = .error e ∨
      ∃ state batch, (attempt.opened >>= loadPublishState codecs) = .ok state ∧
        preparePublish orders codecs request state = .ok batch ∧ batch.rows ≠ [] ∧
        attempt.merged = .error e) :
    publishLoop orders codecs request (attempt :: rest) =
      if rest ≠ [] ∧ e.isRetryablePublishConflict then publishLoop orders codecs request rest
      else .error e := by
  rcases h with h | ⟨state, batch, hload, hprepare, hrows, hmerged⟩
  · rw [publishLoop, h]
  · rw [publishLoop, hload]
    simp only [hprepare, hmerged, bind, Except.bind, if_neg hrows]

/-- A failed attempt leads to the next one or ends the loop. -/
lemma follows_afterFailure (htried : Retries orders codecs request tried)
    (h : ∀ rest, publishLoop orders codecs request (attempt :: rest) =
      if rest ≠ [] ∧ e.isRetryablePublishConflict then publishLoop orders codecs request rest
      else .error e) : (afterFailure tried attempt e).Follows orders codecs request := by
  obtain ⟨hlen, hloop⟩ := htried
  have hstep : ∀ rest, (tried ++ [attempt] ++ rest).length = publisherRetryBudget + 1 →
      publishLoop orders codecs request (tried ++ [attempt] ++ rest) =
        if rest ≠ [] ∧ e.isRetryablePublishConflict then publishLoop orders codecs request rest
        else .error e := by
    intro rest hrest
    rw [append_assoc, singleton_append] at hrest ⊢
    rw [hloop _ hrest, h]
  unfold afterFailure
  split_ifs with hretry
  · refine ⟨by simpa using hretry.1, ?_⟩
    intro rest hrest
    have hne : rest ≠ [] := by
      rintro rfl
      simp at hrest
      omega
    rw [hstep rest hrest, if_pos ⟨hne, hretry.2⟩]
  · refine ⟨by simpa using hlen, ?_⟩
    intro rest hrest
    rw [hstep rest hrest, if_neg]
    rintro ⟨hne, hconflict⟩
    apply hretry
    have := length_pos_of_ne_nil hne
    simp only [length_append, length_singleton] at hrest
    exact ⟨by omega, hconflict⟩

/-- An attempt that ends the loop with a result of its own. -/
lemma returns_of_last {result : Except OmniError PublishOutcome}
    (htried : Retries orders codecs request tried)
    (h : ∀ rest, publishLoop orders codecs request (attempt :: rest) = result) :
    Returns orders codecs request (tried ++ [attempt]) result := by
  obtain ⟨hlen, hloop⟩ := htried
  refine ⟨by simpa using hlen, ?_⟩
  intro rest hrest
  rw [append_assoc, singleton_append] at hrest ⊢
  rw [hloop _ hrest, h]

end Loop

section Simulation

variable {codecs : MetadataCodecs} {orders : P → WalkOrders} {request : P → PublishRequest}
  {w w' : World P}

/-- Every publisher is where its loop is. -/
def AllFollow (codecs : MetadataCodecs) (orders : P → WalkOrders) (request : P → PublishRequest)
    (w : World P) : Prop := ∀ p, (w.phase p).Follows (orders p) codecs (request p)

lemma allFollow_update (h : AllFollow codecs orders request w) {p : P} {phase : Phase}
    (hp : phase.Follows (orders p) codecs (request p)) {store : Store}
    {published : List (P × GraphLineageRow)} :
    AllFollow codecs orders request ⟨store, Function.update w.phase p phase, published⟩ := by
  intro q
  by_cases hq : q = p
  · subst hq
    simpa using hp
  · simpa [Function.update_of_ne hq] using h q

/-- Every publisher follows its own loop, whatever the others do. -/
lemma allFollow_steps (h : AllFollow codecs orders request w)
    (hstep : Steps codecs orders request w w') : AllFollow codecs orders request w' := by
  cases hstep with
  | misses p tried attempt e hphase hfails =>
    have hp := h p
    rw [hphase] at hp
    exact allFollow_update h (follows_afterFailure hp fun _ => publishLoop_failed (.inl hfails))
  | refused p tried dataset state batch e hphase =>
    have hp := h p
    rw [hphase] at hp
    obtain ⟨htried, hload, hprepare, hrows⟩ := hp
    refine allFollow_update h (follows_afterFailure htried fun _ => publishLoop_failed ?_)
    exact .inr ⟨state, batch, hload, hprepare, hrows, rfl⟩
  | loads p tried dataset state hphase hversion hrows hload =>
    have hp := h p
    rw [hphase] at hp
    have hnext : (Phase.loaded tried dataset state).Follows (orders p) codecs (request p) :=
      ⟨hp, hload⟩
    exact allFollow_update h hnext
  | builds p tried dataset state hphase =>
    have hp := h p
    rw [hphase] at hp
    obtain ⟨htried, hload⟩ := hp
    refine allFollow_update h ?_
    cases hprepare : preparePublish (orders p) codecs (request p) state with
    | error e =>
      refine returns_of_last htried fun rest => ?_
      show publishLoop (orders p) codecs (request p) (⟨.ok dataset, .error e⟩ :: rest) = _
      rw [publishLoop]
      simp only [bind, Except.bind, hload, hprepare]
    | ok batch =>
      simp only [builtPhase]
      split_ifs with hrows
      · refine returns_of_last htried fun rest => ?_
        rw [publishLoop]
        simp only [bind, Except.bind, hload, hprepare, if_pos hrows]
        rfl
      · exact ⟨htried, hload, hprepare, hrows⟩
  | lands p tried dataset state batch hphase hfree =>
    have hp := h p
    rw [hphase] at hp
    obtain ⟨htried, hload, hprepare, hrows⟩ := hp
    have hnext : (Phase.done (tried ++ [⟨.ok dataset, .ok (w.store.version + 1)⟩])
        (.ok ⟨w.store.version + 1, batch.parentCommitId,
          { batch.knownState with version := w.store.version + 1 }⟩)).Follows (orders p) codecs
            (request p) := by
      refine returns_of_last htried fun rest => ?_
      rw [publishLoop]
      simp only [bind, Except.bind, hload, hprepare, if_neg hrows]
      rfl
    exact allFollow_update h hnext

/-- Whatever the others do, a publisher ends with what its retry loop returns for the attempts it
went through. -/
theorem done_eq_publish {store : Store} {events : List (Event P)} {p : P}
    {attempts : List Attempt} {result : Except OmniError PublishOutcome}
    (hrun : (World.start store).run codecs orders request events = some w)
    (hdone : w.phase p = .done attempts result) (hask : ¬ (request p).isNoop) :
    attempts.length ≤ publisherRetryBudget + 1 ∧
      ∀ met : Fin (publisherRetryBudget + 1) → Attempt, attempts <+: List.ofFn met →
        publishWithPrecondition (orders p) codecs (request p) met = result := by
  have hstart : AllFollow codecs orders request (World.start store) := fun p =>
    ⟨Nat.zero_le _, fun rest _ => rfl⟩
  have hp := run_invariant allFollow_steps hstart hrun p
  rw [hdone] at hp
  obtain ⟨hlen, hloop⟩ := hp
  refine ⟨hlen, fun met ⟨rest, hmet⟩ => ?_⟩
  rw [publishWithPrecondition, if_neg hask, ← hmet]
  exact hloop rest (by rw [hmet, length_ofFn])

end Simulation

def genesisManifestVersion : ℕ := 1

def genesisCommit (graphCommitId : String) (createdAt : ℤ) : GraphLineageRow where
  graphCommitId := graphCommitId
  manifestBranch := none
  manifestVersion := genesisManifestVersion
  parentCommitId := none
  mergedParentCommitId := none
  actorId := none
  createdAt := createdAt

/-! A new graph without tables, and two publishers that load it before either of them merges. The
first one pins the genesis commit as its head. -/

def newGraph : Store where
  version := 1
  manifest := {
    rows := (graphLineageRowParts jsonCodecs (genesisCommit "01A" 5) none).map fun part =>
      (lineagePartToPending part).toRow
    nodup := by decide +kernel }
  log := []

def raceRequest (p : Bool) : PublishRequest :=
  ⟨none, [], ∅, some ⟨if p then "01B" else "01C", none, none, none, 7, by cases p <;> decide⟩,
    if p then .exactGraphHead ⟨none, "main", some "01A"⟩ else .any⟩

def raceEvents : List (Event Bool) :=
  [.load true (.found "main") [newGraph.manifest.rows],
    .load false (.found "main") [newGraph.manifest.rows],
    .build true, .build false, .merge true, .merge false]

/-- The publisher that lost the race tries again. -/
def retryEvents (w : World Bool) : List (Event Bool) :=
  [.load false (.found "main") [w.store.manifest.rows], .build false, .merge false]

def Phase.succeeded : Phase → Bool
  | .done _ (.ok _) => true
  | _ => false

/-- The attempts of a publisher that has ended. -/
def Phase.attempts : Phase → List Attempt
  | .done attempts _ => attempts
  | _ => []

/-- The publisher that loses the race lands with its second attempt, as its loop does. -/
theorem done_eq_publish_race : ∃ events w attempts outcome,
    (World.start newGraph).run jsonCodecs (fun _ => .stored) raceRequest events = some w ∧
      w.phase false = .done attempts (.ok outcome) ∧ attempts.length = 2 ∧
      ∀ met, attempts <+: List.ofFn met →
        publishWithPrecondition .stored jsonCodecs (raceRequest false) met = .ok outcome := by
  have hsome : ((World.start newGraph).run jsonCodecs (fun _ => .stored) raceRequest raceEvents >>=
      fun w => w.run jsonCodecs (fun _ => .stored) raceRequest (retryEvents w)).any
        (fun w => (w.phase false).succeeded && (w.phase false).attempts.length = 2) = true := by
    decide +kernel
  obtain ⟨w, hrun, hended⟩ := (Option.any_eq_true _ _).mp hsome
  obtain ⟨lost, hrace, hretry⟩ := Option.bind_eq_some_iff.mp hrun
  have hwhole : (World.start newGraph).run jsonCodecs (fun _ => .stored) raceRequest
      (raceEvents ++ retryEvents lost) = some w := by
    rw [World.run, foldlM_append]
    exact Option.bind_eq_some_iff.mpr ⟨lost, hrace, hretry⟩
  obtain ⟨hsucceeded, htwice⟩ := Bool.and_eq_true_iff.mp hended
  cases hphase : w.phase false with
  | done attempts result =>
    rw [hphase] at hsucceeded htwice
    cases result with
    | ok outcome =>
      exact ⟨_, w, attempts, outcome, hwhole, hphase, of_decide_eq_true htwice,
        (done_eq_publish hwhole hphase (by decide)).2⟩
    | error e => cases hsucceeded
  | ready _ | loaded _ _ _ | prepared _ _ _ _ =>
    rw [hphase] at hsucceeded
    cases hsucceeded

end Omnigraph
