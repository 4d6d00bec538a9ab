import Omnigraph.Lib.Locks
import Omnigraph.Lib.Sorted

/-!
# The write queues

Writers of one process take the schema gate, the gates of their branches and the queues of their
tables, in that order and each group sorted and without repetitions. No two writers with a common
gate are inside at once, and writers do not block each other for ever.
-/

namespace Omnigraph

open List Sorted

/-- `(table_key, branch_ref)`, ordered by the table key first; no branch means main. -/
abbrev TableQueueKey := String ×ₗ WithBot String

namespace WriteQueue

def schemaApplySerialQueueKey : TableQueueKey := toLex ("__schema_apply__", ⊥)

/-- The mutexes of a manager: `queues` and `branch_queues`. -/
inductive Gate
  | table (key : TableQueueKey)
  | branch (name : WithBot String)

/-- The schema gate comes first, then the branches, then the other tables. -/
def Gate.rank : Gate → ℕ ×ₗ TableQueueKey
  | table key => toLex (if key = schemaApplySerialQueueKey then 0 else 2, key)
  | branch name => toLex (1, toLex ("", name))

lemma Gate.rank_injective : Function.Injective Gate.rank := by
  intro a b h
  cases a <;> cases b <;> simp only [rank, EmbeddingLike.apply_eq_iff_eq, Prod.mk.injEq] at h
  · rw [h.2]
  · split_ifs at h <;> simp at h
  · split_ifs at h <;> simp at h
  · rw [h.2.2]

instance : LinearOrder Gate := LinearOrder.lift' Gate.rank Gate.rank_injective

lemma Gate.lt_iff {a b : Gate} : a < b ↔ a.rank < b.rank := Iff.rfl

/-- The queues that are acquired, in that order. -/
def acquireMany (keys : List TableQueueKey) : List TableQueueKey := canonical id keys

def acquireBranches (branches : List (WithBot String)) : List (WithBot String) :=
  canonical id branches

/-- What a writer asks for, and whether it takes the schema gate first. -/
structure Writer where
  schemaGate : Bool
  branches : List (WithBot String)
  tables : List TableQueueKey

namespace Writer

def gates (w : Writer) : List Gate :=
  (if w.schemaGate then [.table schemaApplySerialQueueKey] else []) ++
    (acquireBranches w.branches).map .branch ++ (acquireMany w.tables).map .table

variable {w : Writer}

lemma branch_mem_gates {branch : WithBot String} :
    Gate.branch branch ∈ w.gates ↔ branch ∈ w.branches := by
  simp [gates, acquireBranches]

lemma table_mem_gates {key : TableQueueKey} (h : key ∈ w.tables) : Gate.table key ∈ w.gates := by
  simp [gates, acquireMany, h]

/-- A writer that names the schema gate among its tables would wait for itself. -/
lemma gates_increasing (h : schemaApplySerialQueueKey ∉ w.tables) : w.gates.Pairwise (· < ·) := by
  have hbranches : (acquireBranches w.branches).Pairwise (· < ·) :=
    increasing_iff_pairwise.mp (canonical_increasing Function.injective_id w.branches)
  have htables : (acquireMany w.tables).Pairwise (· < ·) :=
    increasing_iff_pairwise.mp (canonical_increasing Function.injective_id w.tables)
  have htwo : ∀ key ∈ acquireMany w.tables, key ≠ schemaApplySerialQueueKey := by
    rintro key hkey rfl
    exact h (mem_canonical.mp hkey)
  rw [gates, append_assoc, pairwise_append, pairwise_append]
  refine ⟨by split <;> simp, ⟨?_, ?_, ?_⟩, ?_⟩
  · rw [pairwise_map]
    refine hbranches.imp fun {a b} hab => ?_
    simpa [Gate.lt_iff, Gate.rank, Prod.Lex.toLex_lt_toLex] using hab
  · rw [pairwise_map]
    refine List.Pairwise.imp_of_mem (fun {a b} ha hb hab => ?_) htables
    simpa [Gate.lt_iff, Gate.rank, Prod.Lex.toLex_lt_toLex, htwo a ha, htwo b hb] using hab
  · simp only [List.mem_map]
    rintro _ ⟨branch, -, rfl⟩ _ ⟨key, hkey, rfl⟩
    simp [Gate.lt_iff, Gate.rank, Prod.Lex.toLex_lt_toLex, htwo key hkey]
  · intro a ha b hb
    split at ha
    · obtain rfl := mem_singleton.mp ha
      simp only [mem_append, List.mem_map] at hb
      rcases hb with ⟨branch, -, rfl⟩ | ⟨key, hkey, rfl⟩
      · simp [Gate.lt_iff, Gate.rank, Prod.Lex.toLex_lt_toLex]
      · simp [Gate.lt_iff, Gate.rank, Prod.Lex.toLex_lt_toLex, htwo key hkey]
    · cases ha

end Writer

variable {T : Type} [Fintype T] [DecidableEq T]

/-- In every interleaving two writers inside share no branch and no table, one of the writers can
go on by itself unless all are finished, and the run is finite. -/
theorem writers_never_deadlock (writers : T → Writer)
    (hschema : ∀ t, schemaApplySerialQueueKey ∉ (writers t).tables)
    {events : List (Locks.Event T Gate)} {s : Locks.State T Gate}
    (hrun : (Locks.State.start fun t => (writers t).gates).run events = some s) :
    (∀ t u, t ≠ u → s.held t = (writers t).gates → s.held u = (writers u).gates →
      List.Disjoint (writers t).branches (writers u).branches ∧
        List.Disjoint (writers t).tables (writers u).tables) ∧
    ((∀ t, s.Finished t) ∨ ∃ e s', ¬ e.IsCancel ∧ s.step e = some s') ∧
    events.length ≤ ∑ t, 2 * (writers t).gates.length := by
  obtain ⟨hordered, hlength⟩ :=
    (Locks.State.ordered_start fun t => Writer.gates_increasing (hschema t)).run hrun
  refine ⟨fun t u hne ht hu => ⟨fun branch hb hb' => ?_, fun key hk hk' => ?_⟩,
    hordered.progress, ?_⟩
  · apply hne
    apply hordered.exclusive t u (.branch branch)
    · rwa [ht, Writer.branch_mem_gates]
    · rwa [hu, Writer.branch_mem_gates]
  · apply hne
    apply hordered.exclusive t u (.table key)
    · rw [ht]
      exact Writer.table_mem_gates hk
    · rw [hu]
      exact Writer.table_mem_gates hk'
  · simp only [Locks.State.left, Locks.State.start, length_nil, add_zero] at hlength
    omega

/-- Two writers of one table; the first has taken all its gates. -/
theorem writers_never_deadlock_first :
    ∃ s : Locks.State (Fin 2) Gate,
      s.held 0 = [.table schemaApplySerialQueueKey, .branch ⊥, .table (toLex ("node:Person", ⊥))] ∧
      ((∀ t, s.Finished t) ∨ ∃ e s', ¬ e.IsCancel ∧ s.step e = some s') := by
  let writers : Fin 2 → Writer := fun _ => ⟨true, [⊥], [toLex ("node:Person", ⊥)]⟩
  have h := writers_never_deadlock writers
    (fun _ => by simp [writers, schemaApplySerialQueueKey])
    (show (Locks.State.start fun t => (writers t).gates).run [.take 0, .take 0, .take 0] =
      some _ from rfl)
  exact ⟨_, rfl, h.2.1⟩

end WriteQueue

end Omnigraph
