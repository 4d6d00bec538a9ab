import Omnigraph.Lib.Result
import Omnigraph.Mutation.Attempt

/-!
# What a call knows about its branch

A branch only grows: commits are added on top of its lineage, and neither a pinned version of a
table nor a version below the HEAD of an owned one is written again. `Past` is a state the branch
has been in since the start; what a call reads of such a state it can read again later.

The phases before the gates know facts about the captured state (`Captured`, `Prepared`,
`StagingHolds`). The revalidation makes the captured state the current one (`Ready`), and what
follows under the gates is about the current state only.
-/

namespace Omnigraph.Mutation

open List Except Function

/-! ### Growth -/

section Growth

/-- Two suffixes of a list without repeated keys that start with the same key are equal. -/
lemma eq_of_suffix_of_head {α β : Type} {f : α → β} {l l' : List α} (h : l <:+ l')
    (hnodup : (l'.map f).Nodup) (hhead : l.head?.map f = l'.head?.map f) : l = l' := by
  obtain ⟨pre, rfl⟩ := h
  cases pre with
  | nil => rfl
  | cons a pre =>
    cases l with
    | nil => cases hhead
    | cons b l =>
      have hab : f b = f a := Option.some.inj hhead
      simp only [cons_append, map_cons, map_append, nodup_cons] at hnodup
      refine absurd ?_ hnodup.1
      rw [← hab]
      exact mem_append_right _ mem_cons_self

variable {T V : Type} {start store store' : GraphStore T V} {l : List (GraphCommitRow T)}

structure Grows (store store' : GraphStore T V) : Prop where
  lineage : store.lineage <:+ store'.lineage
  inheritedHead : store'.inheritedHead = store.inheritedHead
  inheritedPins : store'.inheritedPins = store.inheritedPins
  branchIdentifier : store'.branchIdentifier = store.branchIdentifier
  pins : ∀ t, (store.pins t).tableVersion ≤ (store'.pins t).tableVersion
  owned : ∀ t, (store.pins t).owned → (store'.pins t).owned
  content : ∀ t, ∀ v ≤ (store.pins t).tableVersion, store'.content t v = store.content t v
  refs : ∀ t ref, (store.pins t).owned → store.ref t = some ref →
    ∃ ref', store'.ref t = some ref' ∧ ref.head ≤ ref'.head ∧
      ∀ v ≤ ref.head, store'.content t v = store.content t v

lemma Grows.refl (store : GraphStore T V) : Grows store store where
  lineage := suffix_refl _
  inheritedHead := rfl
  inheritedPins := rfl
  branchIdentifier := rfl
  pins _ := le_refl _
  owned _ h := h
  content _ _ _ := rfl
  refs _ ref _ href := ⟨ref, href, le_refl _, fun _ _ => rfl⟩

/-- The store differs in its sidecars and in the refs of tables that are not owned. -/
structure SameGraph (store store' : GraphStore T V) : Prop where
  lineage : store'.lineage = store.lineage
  inheritedHead : store'.inheritedHead = store.inheritedHead
  inheritedPins : store'.inheritedPins = store.inheritedPins
  branchIdentifier : store'.branchIdentifier = store.branchIdentifier
  content : store'.content = store.content
  ref : ∀ t, (store.pins t).owned → store'.ref t = store.ref t

namespace SameGraph

lemma refl (store : GraphStore T V) : SameGraph store store :=
  ⟨rfl, rfl, rfl, rfl, rfl, fun _ _ => rfl⟩

lemma pins (h : SameGraph store store') : store'.pins = store.pins := by
  rw [GraphStore.pins, GraphStore.pins, h.lineage, h.inheritedPins]

lemma read (h : SameGraph store store') : store'.read = store.read := by
  funext pins t
  rw [GraphStore.read, GraphStore.read, h.content]

lemma trans {store'' : GraphStore T V} (h : SameGraph store store')
    (h' : SameGraph store' store'') : SameGraph store store'' where
  lineage := h'.lineage.trans h.lineage
  inheritedHead := h'.inheritedHead.trans h.inheritedHead
  inheritedPins := h'.inheritedPins.trans h.inheritedPins
  branchIdentifier := h'.branchIdentifier.trans h.branchIdentifier
  content := h'.content.trans h.content
  ref t ht := (h'.ref t (by rwa [h.pins])).trans (h.ref t ht)

lemma grows (h : SameGraph store store') : Grows store store' where
  lineage := h.lineage ▸ suffix_refl _
  inheritedHead := h.inheritedHead
  inheritedPins := h.inheritedPins
  branchIdentifier := h.branchIdentifier
  pins t := by rw [h.pins]
  owned t ht := by rwa [h.pins]
  content t v _ := by rw [h.content]
  refs t ref ht href := ⟨ref, by rw [h.ref t ht, href], le_refl _, fun v _ => by rw [h.content]⟩

lemma sidecars (store : GraphStore T V) (sidecars : List (RecoverySidecar T)) :
    SameGraph store { store with sidecars } := ⟨rfl, rfl, rfl, rfl, rfl, fun _ _ => rfl⟩

lemma setRef [DecidableEq T] {t : T} {ref : Option TableRef} (ht : (store.pins t).owned = false) :
    SameGraph store (store.setRef t ref) := by
  refine ⟨rfl, rfl, rfl, rfl, rfl, fun t' ht' => ?_⟩
  have hne : t' ≠ t := by
    rintro rfl
    rw [ht] at ht'
    cases ht'
  exact update_of_ne hne _ _

end SameGraph

section Writes

variable [DecidableEq T] {t : T} {head : ℕ} {uuid : String} {v : V}

lemma GraphStore.commitTable_content_of_ne {t' : T} (hne : t' ≠ t) :
    (store.commitTable t head uuid v).content t' = store.content t' :=
  update_of_ne hne _ _

@[simp] lemma GraphStore.commitTable_content_self :
    (store.commitTable t head uuid v).content t (head + 1) = v := by
  simp [GraphStore.commitTable]

lemma GraphStore.commitTable_content_of_le {t' : T} {version : ℕ} (h : version ≤ head) :
    (store.commitTable t head uuid v).content t' version = store.content t' version := by
  by_cases hne : t' = t
  · subst hne
    have hlt : version ≠ head + 1 := by omega
    simp [GraphStore.commitTable, hlt]
  · rw [GraphStore.commitTable_content_of_ne hne]

/-- A commit writes the version after HEAD. -/
lemma grows_commitTable {ref : TableRef} (href : store.ref t = some ref)
    (hpin : (store.pins t).tableVersion ≤ ref.head) :
    Grows store (store.commitTable t ref.head uuid v) where
  lineage := List.suffix_refl _
  inheritedHead := rfl
  inheritedPins := rfl
  branchIdentifier := rfl
  pins _ := le_refl _
  owned _ h := h
  content t' version hversion := by
    by_cases hne : t' = t
    · subst hne
      exact GraphStore.commitTable_content_of_le (hversion.trans hpin)
    · rw [GraphStore.commitTable_content_of_ne hne]
  refs t' ref' howned href' := by
    by_cases hne : t' = t
    · subst hne
      rw [href] at href'
      cases href'
      exact ⟨_, update_self _ _ _, Nat.le_succ _,
        fun version hversion => GraphStore.commitTable_content_of_le hversion⟩
    · refine ⟨ref', ?_, le_refl _, fun version _ => ?_⟩
      · exact (update_of_ne hne _ _).trans href'
      · rw [GraphStore.commitTable_content_of_ne hne]

@[simp] lemma GraphStore.publish_pins {id : String} {updates : List (T × ℕ)} :
    (store.publish id updates).pins = GraphStore.updatePins store.pins updates := rfl

/-- The published pins are those of the updates, and the old ones elsewhere. -/
lemma GraphStore.updatePins_cases (pins : T → Pin) (updates : List (T × ℕ)) (t : T) :
    (∃ version, (t, version) ∈ updates ∧ updatePins pins updates t = ⟨version, true⟩) ∨
      t ∉ updates.map Prod.fst ∧ updatePins pins updates t = pins t := by
  unfold updatePins
  cases h : updates.lookup t with
  | some version =>
    obtain ⟨l₁, l₂, rfl, -⟩ := List.lookup_eq_some_iff.mp h
    exact .inl ⟨version, by simp, rfl⟩
  | none =>
    refine .inr ⟨fun hmem => ?_, rfl⟩
    obtain ⟨u, hu, rfl⟩ := List.mem_map.mp hmem
    have := List.lookup_eq_none_iff.mp h u hu
    simp at this

lemma grows_publish {id : String} {updates : List (T × ℕ)}
    (h : ∀ u ∈ updates, (store.pins u.1).tableVersion ≤ u.2) :
    Grows store (store.publish id updates) where
  lineage := List.suffix_cons _ _
  inheritedHead := rfl
  inheritedPins := rfl
  branchIdentifier := rfl
  pins t := by
    rw [GraphStore.publish_pins]
    rcases GraphStore.updatePins_cases store.pins updates t with ⟨version, hmem, hpin⟩ | ⟨-, hpin⟩
    · rw [hpin]
      exact h _ hmem
    · rw [hpin]
  owned t ht := by
    rw [GraphStore.publish_pins]
    rcases GraphStore.updatePins_cases store.pins updates t with ⟨version, hmem, hpin⟩ | ⟨-, hpin⟩
    · rw [hpin]
    · rwa [hpin]
  content _ _ _ := rfl
  refs _ ref _ href := ⟨ref, href, le_refl _, fun _ _ => rfl⟩

end Writes

/-! ### Past states -/

/-- A state the branch has been in since the start. -/
structure Past (start store : GraphStore T V) (l : List (GraphCommitRow T)) : Prop where
  since : start.lineage <:+ l
  suffix : l <:+ store.lineage
  pins : ∀ t, (pinsOf store.inheritedPins l t).tableVersion ≤ (store.pins t).tableVersion
  owned : ∀ t, (pinsOf store.inheritedPins l t).owned → (store.pins t).owned

lemma Past.current (h : start.lineage <:+ store.lineage) : Past start store store.lineage :=
  ⟨h, suffix_refl _, fun _ => le_refl _, fun _ h => h⟩

lemma Past.grows (h : Past start store l) (hgrows : Grows store store') : Past start store' l where
  since := h.since
  suffix := h.suffix.trans hgrows.lineage
  pins t := by
    rw [hgrows.inheritedPins]
    exact (h.pins t).trans (hgrows.pins t)
  owned t ht := by
    rw [hgrows.inheritedPins] at ht
    exact hgrows.owned t (h.owned t ht)

/-- What was read of a past state is still there. -/
lemma Past.read (h : Past start store l) (hgrows : Grows store store') :
    store'.read (pinsOf store'.inheritedPins l) = store.read (pinsOf store.inheritedPins l) := by
  funext t
  rw [hgrows.inheritedPins]
  exact hgrows.content t _ (h.pins t)

/-- A row of the lineage was there at the start or was published since. -/
lemma mem_lineage_cases {l l' : List (GraphCommitRow T)} {row : GraphCommitRow T} (h : l <:+ l')
    (hrow : row ∈ l') : row ∈ l ∨ ∃ rest, l <:+ rest ∧ row :: rest <:+ l' := by
  obtain ⟨pre, rfl⟩ := h
  rcases mem_append.mp hrow with hpre | hl
  · obtain ⟨a, b, rfl⟩ := append_of_mem hpre
    refine .inr ⟨b ++ l, suffix_append _ _, a, ?_⟩
    simp
  · exact .inl hl

end Growth

/-! ### Before the gates -/

section Prepare

variable {C T V W : Type} {eng : Engine C T V W} {start store store' : GraphStore T V} {c : C}
  {n : ℕ} {txn : WriteTxn T} {work : W} {l : List (GraphCommitRow T)}

/-- The transaction holds the authority and the pins of a past state. -/
structure Captured (eng : Engine C T V W) (start store : GraphStore T V) (c : C)
    (txn : WriteTxn T) (l : List (GraphCommitRow T)) : Prop where
  past : Past start store l
  pins : txn.pins = pinsOf store.inheritedPins l
  graphHead : txn.authority.graphHead = exactHeadOf l
  branchIdentifier : txn.authority.branchIdentifier = store.branchIdentifier
  expected : txn.callerExpectedGraphHead = eng.expectedHead c

lemma Captured.grows (h : Captured eng start store c txn l) (hgrows : Grows store store') :
    Captured eng start store' c txn l where
  past := h.past.grows hgrows
  pins := by rw [hgrows.inheritedPins, h.pins]
  graphHead := h.graphHead
  branchIdentifier := by rw [hgrows.branchIdentifier, h.branchIdentifier]
  expected := h.expected

lemma Captured.read (h : Captured eng start store c txn l) (hgrows : Grows store store') :
    store'.read txn.pins = store.read txn.pins := by
  have hread := h.past.read hgrows
  rwa [hgrows.inheritedPins, ← h.pins] at hread

/-- What the capture of the current state gives. -/
lemma captured_of_checkExpectedHead (hsince : start.lineage <:+ store.lineage)
    (h : checkExpectedHead eng.branch (eng.expectedHead c) store.openWriteTxn = .ok txn) :
    Captured eng start store c txn store.lineage := by
  unfold checkExpectedHead at h
  split at h
  · rename_i hexpected
    cases h
    exact ⟨.current hsince, rfl, rfl, rfl, hexpected.symm⟩
  · rename_i head hexpected
    split_ifs at h
    cases h
    exact ⟨.current hsince, rfl, rfl, rfl, hexpected.symm⟩

/-- The statements left to execute give what the call gives alone. -/
def Executes (eng : Engine C T V W) (store : GraphStore T V) (c : C) (n : ℕ) (txn : WriteTxn T)
    (ops : List (MutationOp T V W)) (work : W) : Prop :=
  ∃ all, eng.lower c = .ok all ∧
    Engine.execute n (store.read txn.pins) all eng.emptyStaging =
      Engine.execute n (store.read txn.pins) ops work

lemma Executes.step {op : MutationOp T V W} {ops : List (MutationOp T V W)} {work' : W}
    (h : Executes eng store c n txn (op :: ops) work)
    (hop : executeOp eng store n txn op work = .ok work') :
    Executes eng store c n txn ops work' := by
  obtain ⟨all, hall, hexec⟩ := h
  obtain ⟨-, -, hrun⟩ := bind_eq_ok_iff.mp hop
  refine ⟨all, hall, hexec.trans ?_⟩
  rw [Engine.execute, foldlM_cons, hrun]
  rfl

/-- The validation met the base and a state at or after it. -/
def Validated (eng : Engine C T V W) (start store : GraphStore T V) (txn : WriteTxn T) (work : W)
    (l : List (GraphCommitRow T)) : Prop :=
  ∃ fresh, l <:+ fresh ∧ Past start store fresh ∧
    eng.validate work (store.read txn.pins)
      (store.read (pinsOf store.inheritedPins fresh)) = .ok ()

/-- The call has executed with an effect, and its validation has passed. -/
structure Prepared (eng : Engine C T V W) (start store : GraphStore T V) (c : C) (n : ℕ)
    (txn : WriteTxn T) (work : W) (l : List (GraphCommitRow T)) : Prop where
  captured : Captured eng start store c txn l
  executes : Executes eng store c n txn [] work
  effect : eng.isEmpty work = false
  validated : Validated eng start store txn work l

lemma Prepared.grows (h : Prepared eng start store c n txn work l) (hgrows : Grows store store') :
    Prepared eng start store' c n txn work l where
  captured := h.captured.grows hgrows
  executes := by
    rw [Executes, h.captured.read hgrows]
    exact h.executes
  effect := h.effect
  validated := by
    obtain ⟨fresh, hl, hpast, hok⟩ := h.validated
    refine ⟨fresh, hl, hpast.grows hgrows, ?_⟩
    rwa [hpast.read hgrows, h.captured.read hgrows]

end Prepare

/-! ### The staged tables -/

section Staging

variable {C T V W : Type} {eng : Engine C T V W} {start store store' : GraphStore T V} {c : C}
  {n : ℕ} {txn : WriteTxn T} {work : W} {l : List (GraphCommitRow T)} {graph : T → V}
  {tables tables' : List T} {t : T}

/-- The tables are those the call touches, less some whose transaction is empty. -/
structure Cover (eng : Engine C T V W) (work : W) (graph : T → V) (tables : List T) : Prop where
  nodup : tables.Nodup
  touched : ∀ t ∈ tables, t ∈ eng.touched work
  skipped : ∀ t ∈ eng.touched work, t ∉ tables → eng.stage work t (graph t) = .ok none

lemma Cover.perm (h : Cover eng work graph tables) (hperm : tables'.Perm tables) :
    Cover eng work graph tables' where
  nodup := hperm.nodup_iff.mpr h.nodup
  touched t ht := h.touched t (hperm.mem_iff.mp ht)
  skipped t ht hout := h.skipped t ht fun hmem => hout (hperm.mem_iff.mpr hmem)

lemma Cover.skip (h : Cover eng work graph (t :: tables))
    (hskip : eng.stage work t (graph t) = .ok none) : Cover eng work graph tables where
  nodup := (nodup_cons.mp h.nodup).2
  touched t' ht := h.touched t' (mem_cons_of_mem _ ht)
  skipped t' ht hout := by
    by_cases heq : t' = t
    · rw [heq, hskip]
    · refine h.skipped t' ht fun hmem => ?_
      rcases mem_cons.mp hmem with h' | h'
      · exact heq h'
      · exact hout h'

/-- The table at the head of the list is not among the others. -/
lemma Cover.ne_of_mem {rest : List T} {t' : T} (h : Cover eng work graph (tables ++ t :: rest))
    (ht' : t' ∈ tables ∨ t' ∈ rest) : t' ≠ t := by
  have hnodup := h.nodup
  rw [List.nodup_append, List.nodup_cons] at hnodup
  rintro rfl
  rcases ht' with hmem | hmem
  · exact hnodup.2.2 t' hmem t' List.mem_cons_self rfl
  · exact hnodup.2.1.1 hmem

/-- A table of the base, with the version its transaction was staged on. -/
structure EntryHolds (eng : Engine C T V W) (store : GraphStore T V) (txn : WriteTxn T) (work : W)
    (entry : StagedTableEntry T V) : Prop where
  expectedVersion : entry.expectedVersion = (txn.pins entry.table).tableVersion
  deferredFork : entry.deferredFork = !(txn.pins entry.table).owned
  staged : entry.deferredFork = false → ∃ ref v, store.ref entry.table = some ref ∧
    entry.expectedVersion ≤ entry.datasetVersion ∧ entry.datasetVersion ≤ ref.head ∧
    entry.stagedWrite = some v ∧
    eng.stage work entry.table (store.content entry.table entry.datasetVersion) = .ok (some v)

lemma EntryHolds.grows {entry : StagedTableEntry T V} (h : EntryHolds eng store txn work entry)
    (hcaptured : Captured eng start store c txn l) (hgrows : Grows store store') :
    EntryHolds eng store' txn work entry where
  expectedVersion := h.expectedVersion
  deferredFork := h.deferredFork
  staged hdeferred := by
    obtain ⟨ref, v, href, hle, hhead, hstaged, hstage⟩ := h.staged hdeferred
    have howned : (store.pins entry.table).owned := by
      apply hcaptured.past.owned
      rw [← hcaptured.pins]
      simpa [hdeferred] using h.deferredFork
    obtain ⟨ref', href', hhead', hcontent⟩ := hgrows.refs _ ref howned href
    exact ⟨ref', v, href', hle, hhead.trans hhead', hstaged, by rwa [hcontent _ hhead]⟩

structure StagingHolds (eng : Engine C T V W) (store : GraphStore T V) (txn : WriteTxn T)
    (work : W) (todo : List T) (staged : List (StagedTableEntry T V)) : Prop where
  cover : Cover eng work (store.read txn.pins) (todo ++ staged.map StagedTableEntry.table)
  entries : ∀ entry ∈ staged, EntryHolds eng store txn work entry

variable {staged : List (StagedTableEntry T V)} {todo : List T}

lemma StagingHolds.grows (h : StagingHolds eng store txn work todo staged)
    (hcaptured : Captured eng start store c txn l) (hgrows : Grows store store') :
    StagingHolds eng store' txn work todo staged where
  cover := by
    rw [hcaptured.read hgrows]
    exact h.cover
  entries entry hentry := (h.entries entry hentry).grows hcaptured hgrows

lemma StagingHolds.all : StagingHolds eng store txn work (eng.touched work) [] where
  cover := by
    rw [map_nil, append_nil]
    exact ⟨eng.touched_nodup work, fun _ h => h, fun _ h hout => absurd h hout⟩
  entries _ h := absurd h not_mem_nil

/-- HEAD of an owned table is not behind its pin. -/
def HeadsHold (store : GraphStore T V) : Prop :=
  ∀ t ref, (store.pins t).owned → store.ref t = some ref → (store.pins t).tableVersion ≤ ref.head

lemma SameGraph.heads (hsame : SameGraph store store') (h : HeadsHold store) :
    HeadsHold store' := by
  intro t ref howned href
  rw [hsame.pins] at howned ⊢
  rw [hsame.ref t howned] at href
  exact h t ref howned href

/-- What staging one table gives: no transaction, or an entry. -/
lemma stageTable_spec {entry : Option (StagedTableEntry T V)}
    (hcaptured : Captured eng start store c txn l) (hheads : HeadsHold store)
    (h : stageTable eng store txn work t = .ok entry) :
    match entry with
    | none => eng.stage work t (store.read txn.pins t) = .ok none
    | some entry => entry.table = t ∧ EntryHolds eng store txn work entry := by
  unfold stageTable at h
  dsimp only at h
  split_ifs at h with howned
  · -- an owned table is staged on the HEAD it is reopened at
    simp only [bind_eq_ok_iff] at h
    obtain ⟨version, hreopen, staged, hstage, hentry⟩ := h
    cases hentry
    have hcurrent : (store.pins t).owned := by
      apply hcaptured.past.owned
      rwa [← hcaptured.pins]
    have hpin : (txn.pins t).tableVersion ≤ (store.pins t).tableVersion := by
      rw [hcaptured.pins]
      exact hcaptured.past.pins t
    unfold reopenForMutation at hreopen
    split at hreopen
    · cases hreopen
    · rename_i ref href
      split_ifs at hreopen with hstrict
      cases hreopen
      cases staged with
      | none =>
        -- only a delete stages nothing, and it insists on the pinned version
        have hplan : (eng.plan work t).stageKind.strictPreStageVersionCheck := by
          unfold Engine.stage at hstage
          split at hstage
          · cases hw : eng.stageWrite work t (store.content t ref.head) with
            | error e =>
              rw [hw] at hstage
              cases hstage
            | ok v =>
              rw [hw] at hstage
              cases hstage
          · rename_i hplan
            rw [hplan]
            rfl
        have hhead : ref.head = (txn.pins t).tableVersion := by
          by_contra hne
          exact hstrict ⟨hplan, hne⟩
        show eng.stage work t (store.content t (txn.pins t).tableVersion) = .ok none
        rw [← hhead]
        exact hstage
      | some v =>
        refine ⟨rfl, ⟨rfl, by simp [howned], fun _ => ?_⟩⟩
        exact ⟨ref, v, href, hpin.trans (hheads t ref hcurrent href), le_refl _, rfl, hstage⟩
  · split at h
    · cases h
      exact ⟨rfl, ⟨rfl, by simp [howned], fun hdeferred => by cases hdeferred⟩⟩
    · rename_i hplan
      obtain ⟨probe, hprobe, hentry⟩ := bind_eq_ok_iff.mp h
      cases hentry
      cases probe with
      | none =>
        show eng.stage work t _ = .ok none
        rw [Engine.stage, hplan]
        exact hprobe
      | some v =>
        exact ⟨rfl, ⟨rfl, by simp [howned], fun hdeferred => by cases hdeferred⟩⟩

lemma StagingHolds.stage [DecidableEq T] {entry : Option (StagedTableEntry T V)}
    (h : StagingHolds eng store txn work todo staged) (hcaptured : Captured eng start store c txn l)
    (hheads : HeadsHold store) (ht : t ∈ todo)
    (hstage : stageTable eng store txn work t = .ok entry) :
    StagingHolds eng store txn work (todo.erase t) (staged ++ entry.toList) := by
  have hspec := stageTable_spec hcaptured hheads hstage
  have hperm : (t :: (todo.erase t ++ staged.map StagedTableEntry.table)).Perm
      (todo ++ staged.map StagedTableEntry.table) :=
    ((perm_cons_erase ht).append_right _).symm
  cases entry with
  | none =>
    refine ⟨?_, ?_⟩
    · simp only [Option.toList_none, append_nil]
      exact (h.cover.perm hperm).skip hspec
    · simpa using h.entries
  | some entry =>
    obtain ⟨rfl, hentry⟩ := hspec
    refine ⟨h.cover.perm ?_, ?_⟩
    · refine List.Perm.trans ?_ hperm
      rw [Option.toList_some, map_append, map_singleton, ← append_assoc]
      exact perm_append_singleton _ _
    · intro e he
      rcases mem_append.mp he with he | he
      · exact h.entries e he
      · cases mem_singleton.mp he
        exact hentry

end Staging

/-! ### Under the gates -/

section Gated

variable {C T V W : Type} {eng : Engine C T V W} {start store store' : GraphStore T V} {c : C}
  {n : ℕ} {txn : WriteTxn T} {work : W} {l : List (GraphCommitRow T)}
  {entry : StagedTableEntry T V}

/-- The captured state is the current one. -/
structure Ready (eng : Engine C T V W) (store : GraphStore T V) (c : C) (n : ℕ) (txn : WriteTxn T)
    (work : W) : Prop where
  pins : txn.pins = store.pins
  graphHead : store.graphHead = txn.authority.graphHead
  branchIdentifier : store.branchIdentifier = txn.authority.branchIdentifier
  expected : ∀ head, eng.expectedHead c = some head → store.effectiveGraphHead = some head
  executes : ∃ ops, eng.lower c = .ok ops ∧
    Engine.execute n (store.read store.pins) ops eng.emptyStaging = .ok work
  effect : eng.isEmpty work = false
  validated : eng.validate work (store.read store.pins) (store.read store.pins) = .ok ()

variable (h : Ready eng store c n txn work)

include h in
/-- All that matters is the lineage and the graph it shows. -/
lemma Ready.congr (hlineage : store'.lineage = store.lineage)
    (hhead : store'.inheritedHead = store.inheritedHead) (hpins : store'.pins = store.pins)
    (hbranch : store'.branchIdentifier = store.branchIdentifier)
    (hread : store'.read store.pins = store.read store.pins) :
    Ready eng store' c n txn work where
  pins := by rw [hpins, h.pins]
  graphHead := by rw [GraphStore.graphHead, hlineage, ← h.graphHead, GraphStore.graphHead]
  branchIdentifier := by rw [hbranch, h.branchIdentifier]
  expected head heq := by
    rw [GraphStore.effectiveGraphHead, hlineage, hhead]
    exact h.expected head heq
  executes := by
    rw [hpins, hread]
    exact h.executes
  effect := h.effect
  validated := by
    rw [hpins, hread]
    exact h.validated

include h in
lemma Ready.sameGraph (hsame : SameGraph store store') : Ready eng store' c n txn work := by
  apply h.congr hsame.lineage hsame.inheritedHead hsame.pins hsame.branchIdentifier
  rw [hsame.read]

variable {u : Unit} {branch : String} {snapshot : T → Pin}

lemma ensureUnchanged_eq_ok {member : String} {expected actual : Option String}
    (h : ensureUnchanged member expected actual = .ok u) : actual = expected := by
  unfold ensureUnchanged at h
  split_ifs at h with heq
  exact heq

lemma ensureCallerHead_eq_ok {head : String} (h : ensureCallerHead branch store txn = .ok u)
    (hhead : txn.callerExpectedGraphHead = some head) : store.effectiveGraphHead = some head := by
  unfold ensureCallerHead at h
  rw [hhead] at h
  dsimp only at h
  split_ifs at h with heq
  exact heq

/-- The checks a revalidation has passed. -/
lemma revalidateWriteTxn_eq_ok (h : revalidateWriteTxn branch store txn = .ok snapshot) :
    (∀ head, txn.callerExpectedGraphHead = some head → store.effectiveGraphHead = some head) ∧
      store.branchIdentifier = txn.authority.branchIdentifier ∧
      store.graphHead = txn.authority.graphHead ∧ snapshot = store.pins := by
  simp only [revalidateWriteTxn, bind_eq_ok_iff] at h
  obtain ⟨_, hcaller, _, hbranch, _, hhead, _, _, _, _, _, _, hsnapshot⟩ := h
  cases hsnapshot
  refine ⟨fun head heq => ensureCallerHead_eq_ok hcaller heq, ?_, ensureUnchanged_eq_ok hhead, rfl⟩
  exact Option.some.inj (ensureUnchanged_eq_ok hbranch)

/-- The revalidation makes the captured state the current one: the head has not moved, so neither
has anything else. -/
lemma Prepared.ready (h : Prepared eng start store c n txn work l)
    (hids : (store.lineage.map GraphCommitRow.graphCommitId).Nodup)
    (hok : revalidateWriteTxn branch store txn = .ok snapshot) :
    Ready eng store c n txn work ∧ snapshot = store.pins := by
  obtain ⟨hexpected, hbranch, hhead, rfl⟩ := revalidateWriteTxn_eq_ok hok
  have hl : l = store.lineage := by
    apply eq_of_suffix_of_head h.captured.past.suffix hids
    exact h.captured.graphHead.symm.trans hhead.symm
  subst hl
  have hpins : txn.pins = store.pins := h.captured.pins
  obtain ⟨fresh, hfresh, hpast, hvalid⟩ := h.validated
  have hfresh' : fresh = store.lineage := hpast.suffix.eq_of_length_le hfresh.length_le
  refine ⟨⟨hpins, hhead, hbranch, ?_, ?_, h.effect, ?_⟩, rfl⟩
  · intro head heq
    exact hexpected head (h.captured.expected.trans heq)
  · obtain ⟨all, hall, hexec⟩ := h.executes
    rw [hpins] at hexec
    exact ⟨all, hall, hexec⟩
  · rw [hfresh', hpins] at hvalid
    exact hvalid

/-- The transaction of the entry can land: it was staged on the pinned version, which is HEAD. -/
structure Committable (eng : Engine C T V W) (store : GraphStore T V) (work : W)
    (entry : StagedTableEntry T V) : Prop where
  version : entry.datasetVersion = (store.pins entry.table).tableVersion
  ref : ∃ ref, store.ref entry.table = some ref ∧ ref.head = entry.datasetVersion
  staged : ∃ v, entry.stagedWrite = some v ∧
    eng.stage work entry.table (store.read store.pins entry.table) = .ok (some v)

/-- The entry has passed its check under the gates. -/
structure Checked (eng : Engine C T V W) (store : GraphStore T V) (work : W)
    (entry : StagedTableEntry T V) : Prop where
  expectedVersion : entry.expectedVersion = (store.pins entry.table).tableVersion
  version : entry.datasetVersion = (store.pins entry.table).tableVersion
  deferredFork : entry.deferredFork = !(store.pins entry.table).owned
  committable : entry.deferredFork = false → Committable eng store work entry

/-- An entry that passes its check is at the version its table is pinned to. -/
lemma checked_of_checkEntry [DecidableEq T] (hready : Ready eng store c n txn work)
    (hentry : EntryHolds eng store txn work entry)
    (h : checkEntry eng store store.pins entry = .ok ()) : Checked eng store work entry := by
  have hexpected : entry.expectedVersion = (store.pins entry.table).tableVersion := by
    rw [hentry.expectedVersion, hready.pins]
  have hdeferred : entry.deferredFork = !(store.pins entry.table).owned := by
    rw [hentry.deferredFork, hready.pins]
  unfold checkEntry at h
  dsimp only at h
  rw [if_neg (not_not.mpr hexpected)] at h
  split_ifs at h with hfork hversion
  · exact ⟨hexpected, not_not.mp hversion, hdeferred, fun hf => by rw [hf] at hfork; cases hfork⟩
  · obtain ⟨ref, v, href, hle, hhead, hstaged, hstage⟩ := hentry.staged (by simpa using hfork)
    rw [href] at h
    dsimp only at h
    split_ifs at h with hlt heq
    · -- the version staged on lies between the pin and HEAD, which are equal
      have hversion : entry.datasetVersion = (store.pins entry.table).tableVersion := by omega
      refine ⟨hexpected, hversion, hdeferred, fun _ => ?_⟩
      refine ⟨hversion, ⟨ref, href, by omega⟩, v, hstaged, ?_⟩
      rw [hversion] at hstage
      exact hstage
    · split at h <;> cases h

/-- A fork of another table does not disturb an entry. -/
lemma Committable.setRef [DecidableEq T] {t : T} {ref : Option TableRef}
    (h : Committable eng store work entry) (hne : entry.table ≠ t) :
    Committable eng (store.setRef t ref) work entry where
  version := h.version
  ref := by
    obtain ⟨r, href, hhead⟩ := h.ref
    exact ⟨r, (update_of_ne hne _ _).trans href, hhead⟩
  staged := h.staged

lemma Checked.setRef [DecidableEq T] {t : T} {ref : Option TableRef}
    (h : Checked eng store work entry) (hne : entry.table ≠ t) :
    Checked eng (store.setRef t ref) work entry where
  expectedVersion := h.expectedVersion
  version := h.version
  deferredFork := h.deferredFork
  committable hf := (h.committable hf).setRef hne

lemma Committable.sidecars (h : Committable eng store work entry)
    (sidecars : List (RecoverySidecar T)) :
    Committable eng { store with sidecars } work entry := ⟨h.version, h.ref, h.staged⟩

lemma Checked.sidecars (h : Checked eng store work entry) (sidecars : List (RecoverySidecar T)) :
    Checked eng { store with sidecars } work entry :=
  ⟨h.expectedVersion, h.version, h.deferredFork, fun hf => (h.committable hf).sidecars _⟩

/-- The deferred transaction is staged on the fork, which is at the pin. -/
lemma committable_of_fork [DecidableEq T] {store' : GraphStore T V} {v : V}
    (h : Checked eng store work entry) (hfork : forkTable eng store entry = .ok store')
    (hstage : stageDeferredPlan eng store' work entry = .ok v) :
    store' = store.setRef entry.table (some ⟨entry.expectedVersion, none⟩) ∧
      Committable eng store' work { entry with stagedWrite := some v } := by
  unfold forkTable at hfork
  split_ifs at hfork with howned
  cases hfork
  refine ⟨rfl, h.version, ⟨_, update_self _ _ _, ?_⟩, v, rfl, ?_⟩
  · exact h.expectedVersion.trans h.version.symm
  · obtain ⟨staged, hstaged, hv⟩ := bind_eq_ok_iff.mp hstage
    cases staged with
    | none => cases hv
    | some v' =>
      cases hv
      rw [h.expectedVersion] at hstaged
      exact hstaged

/-- The transaction of a table has landed on top of its pin. -/
structure Applied (eng : Engine C T V W) (store : GraphStore T V) (work : W) (update : T × ℕ) :
    Prop where
  version : update.2 = (store.pins update.1).tableVersion + 1
  written : eng.stage work update.1 (store.read store.pins update.1) =
    .ok (some (store.content update.1 update.2))
  ref : ∃ ref, store.ref update.1 = some ref ∧ update.2 ≤ ref.head

include h in
/-- The publisher's checks pass under the gates. -/
lemma publishPrecondition_eq_ok : publishPrecondition eng store txn work = .ok () := by
  have hpins : ((eng.touched work).forM fun t =>
      if (store.pins t).tableVersion = (txn.pins t).tableVersion then .ok ()
      else .error (.manifestExpectedVersionMismatch (eng.tableKey t) (txn.pins t).tableVersion
        (store.pins t).tableVersion)) = (.ok () : Except OmniError Unit) := by
    rw [forM_eq_ok_iff]
    intro t _
    rw [if_pos (by rw [h.pins])]
  rw [publishPrecondition, hpins, ensureUnchanged, ensureUnchanged, if_pos h.graphHead,
    if_pos (congrArg some h.branchIdentifier)]
  rfl

section Commit

variable [DecidableEq T] {t : T} {ref : TableRef} {uuid : String} {v : V}

lemma read_commitTable (hpin : (store.pins t).tableVersion ≤ ref.head) :
    (store.commitTable t ref.head uuid v).read store.pins = store.read store.pins := by
  funext t'
  by_cases hne : t' = t
  · subst hne
    exact GraphStore.commitTable_content_of_le hpin
  · rw [GraphStore.read, GraphStore.commitTable_content_of_ne hne]
    rfl

include h in
lemma Ready.commitTable (hpin : (store.pins t).tableVersion ≤ ref.head) :
    Ready eng (store.commitTable t ref.head uuid v) c n txn work :=
  h.congr rfl rfl rfl rfl (read_commitTable hpin)

lemma Committable.commitTable (h : Committable eng store work entry) (hne : entry.table ≠ t)
    (hpin : (store.pins t).tableVersion ≤ ref.head) :
    Committable eng (store.commitTable t ref.head uuid v) work entry where
  version := h.version
  ref := by
    obtain ⟨r, href, hhead⟩ := h.ref
    exact ⟨r, (update_of_ne hne _ _).trans href, hhead⟩
  staged := by
    obtain ⟨v', hstaged, hstage⟩ := h.staged
    refine ⟨v', hstaged, ?_⟩
    show eng.stage work _ ((store.commitTable t ref.head uuid v).read store.pins _) = _
    rw [read_commitTable hpin, hstage]

lemma Applied.commitTable {update : T × ℕ} (h : Applied eng store work update)
    (hne : update.1 ≠ t) (hpin : (store.pins t).tableVersion ≤ ref.head) :
    Applied eng (store.commitTable t ref.head uuid v) work update where
  version := h.version
  written := by
    show eng.stage work _ ((store.commitTable t ref.head uuid v).read store.pins _) = _
    rw [read_commitTable hpin, GraphStore.commitTable_content_of_ne hne]
    exact h.written
  ref := by
    obtain ⟨r, href, hhead⟩ := h.ref
    exact ⟨r, (update_of_ne hne _ _).trans href, hhead⟩

/-- The transaction of a committable entry lands as planned. -/
lemma Committable.applied (h : Committable eng store work entry) (uuid : String)
    (href : store.ref entry.table = some ref) (hstaged : entry.stagedWrite = some v) :
    ref.head = entry.datasetVersion ∧ (store.pins entry.table).tableVersion ≤ ref.head ∧
      Applied eng (store.commitTable entry.table ref.head uuid v) work
        (entry.table, ref.head + 1) := by
  obtain ⟨r, hr, hhead⟩ := h.ref
  rw [href] at hr
  cases hr
  have hpin : ref.head = (store.pins entry.table).tableVersion := hhead.trans h.version
  refine ⟨hhead, hpin.ge, congrArg (· + 1) hpin, ?_, ⟨_, update_self _ _ _, le_refl _⟩⟩
  obtain ⟨v', hv', hstage⟩ := h.staged
  rw [hstaged] at hv'
  cases hv'
  show eng.stage work _ ((store.commitTable _ ref.head uuid v).read store.pins _) = _
  rw [read_commitTable hpin.ge, GraphStore.commitTable_content_self]
  exact hstage

include h in
/-- The published graph is the one the call leaves alone. -/
lemma alone_of_applied {updates : List (T × ℕ)} {id : String}
    (hcover : Cover eng work (store.read store.pins) (updates.map Prod.fst))
    (happlied : ∀ update ∈ updates, Applied eng store work update) :
    eng.alone c n (store.read store.pins) =
      .ok (some ((store.publish id updates).read (store.publish id updates).pins)) := by
  obtain ⟨ops, hlower, hexecutes⟩ := h.executes
  have hstages : (eng.touched work).forM
      (fun t => discard (eng.stage work t (store.read store.pins t))) = .ok () := by
    rw [Except.forM_eq_ok_iff]
    intro t ht
    by_cases hmem : t ∈ updates.map Prod.fst
    · obtain ⟨update, hupdate, rfl⟩ := List.mem_map.mp hmem
      rw [(happlied update hupdate).written]
      rfl
    · rw [hcover.skipped t ht hmem]
      rfl
  have hgraph : eng.written work (store.read store.pins) =
      (store.publish id updates).read (store.publish id updates).pins := by
    funext t
    rw [GraphStore.publish_pins, GraphStore.read, Engine.written]
    rcases GraphStore.updatePins_cases store.pins updates t
      with ⟨version, hmem, hpin⟩ | ⟨hout, hpin⟩
    · have hin : t ∈ updates.map Prod.fst := List.mem_map.mpr ⟨_, hmem, rfl⟩
      rw [if_pos (hcover.touched t hin), (happlied _ hmem).written, hpin]
      rfl
    · rw [hpin]
      split_ifs with ht
      · rw [hcover.skipped t ht hout]
        rfl
      · rfl
  simp only [Engine.alone, hlower, hexecutes, h.effect, h.validated, hstages, hgraph, bind,
    Except.bind]
  rfl

end Commit

end Gated

end Omnigraph.Mutation
