import Mathlib.Tactic

/-!
# Connected components by a worklist

A graph is a list of directed edges. A queue of vertices is drained: a vertex already visited is
skipped, any other is visited and its unvisited successors are queued. The loop visits what the
queue reaches, and one turn for each edge and each queued vertex is enough.
-/

namespace Component

open List

variable {V : Type*} [DecidableEq V]

/-- The successors of a vertex, in the order the edges are listed. -/
def succ (edges : List (V × V)) (v : V) : List V :=
  (edges.filter (·.1 = v)).map Prod.snd

variable {edges : List (V × V)} {v : V}

lemma mem_succ {w : V} : w ∈ succ edges v ↔ (v, w) ∈ edges := by
  simp [succ]

/-- The loop: at most `fuel` vertices are taken from the queue. The vertices visited are collected
in the order of their visits. -/
def walk (edges : List (V × V)) : ℕ → List V → List V → List V × List V
  | 0, _, visited => (visited, [])
  | _ + 1, [], visited => (visited, [])
  | fuel + 1, v :: queue, visited =>
    if v ∈ visited then walk edges fuel queue visited
    else
      let queued := (succ edges v).filter (· ∉ v :: visited)
      let rest := walk edges fuel (queue ++ queued) (v :: visited)
      (rest.1, v :: rest.2)

/-- What is still to do: the queue and the edges that start at unvisited vertices. -/
def pending (edges : List (V × V)) (queue visited : List V) : ℕ :=
  queue.length + (edges.filter (·.1 ∉ visited)).length

/-- Visiting a vertex leaves less to do. -/
lemma pending_visit {edges : List (V × V)} {v : V} {queue visited : List V} (hv : v ∉ visited) :
    pending edges (queue ++ (succ edges v).filter (· ∉ v :: visited)) (v :: visited) + 1 ≤
      pending edges (v :: queue) visited := by
  have hqueued : ((succ edges v).filter (· ∉ v :: visited)).length ≤
      (edges.filter (·.1 = v)).length := by
    refine (length_filter_le _ _).trans ?_
    rw [succ, length_map]
  have hsplit : (edges.filter (·.1 = v)).length + (edges.filter (·.1 ∉ v :: visited)).length ≤
      (edges.filter (·.1 ∉ visited)).length := by
    induction edges with
    | nil => simp
    | cons e edges ih =>
      have ih := ih (by
        refine (length_filter_le _ _).trans ?_
        rw [succ, length_map])
      by_cases hev : e.1 = v
      · have : e.1 ∉ visited := hev ▸ hv
        simp only [filter_cons, hev, mem_cons, true_or, not_true_eq_false, decide_false,
          decide_true, hv, not_false_eq_true, if_true, length_cons]
        simp only [mem_cons] at ih
        simp only [Bool.false_eq_true, if_false]
        omega
      · simp only [filter_cons, hev, mem_cons, false_or, decide_false,
          Bool.false_eq_true, if_false]
        simp only [mem_cons] at ih
        by_cases hmem : e.1 ∈ visited
        · simpa [hmem] using ih
        · simp only [hmem, not_false_eq_true, decide_true, if_true, length_cons]
          omega
  simp only [pending, length_append, length_cons]
  omega

/-- Every edge that leaves a visited vertex leads to a visited or a queued one. -/
def Closed (edges : List (V × V)) (queue visited : List V) : Prop :=
  ∀ v ∈ visited, ∀ w, (v, w) ∈ edges → w ∈ visited ∨ w ∈ queue

variable {queue visited : List V}

lemma Closed.visit (h : Closed edges (v :: queue) visited) :
    Closed edges (queue ++ (succ edges v).filter (· ∉ v :: visited)) (v :: visited) := by
  intro u hu w hw
  by_cases hmem : w ∈ v :: visited
  · exact .inl hmem
  · right
    rcases mem_cons.mp hu with rfl | hu
    · exact mem_append_right _ (by simpa using ⟨mem_succ.mpr hw, by simpa using hmem⟩)
    · rcases h u hu w hw with hw' | hw'
      · exact absurd (mem_cons_of_mem _ hw') hmem
      · rcases mem_cons.mp hw' with rfl | hw'
        · exact absurd mem_cons_self hmem
        · exact mem_append_left _ hw'

omit [DecidableEq V] in
lemma Closed.skip (hv : v ∈ visited) (h : Closed edges (v :: queue) visited) :
    Closed edges queue visited := by
  intro u hu w hw
  rcases h u hu w hw with hw' | hw'
  · exact .inl hw'
  · rcases mem_cons.mp hw' with rfl | hw'
    · exact .inl hv
    · exact .inr hw'

/-- `w` is reached from `v` along the edges. -/
def Reaches (edges : List (V × V)) : V → V → Prop :=
  Relation.ReflTransGen fun a b => (a, b) ∈ edges

/-- What a walk with enough turns has done. -/
structure Walked (edges : List (V × V)) (queue visited : List V) (out : List V × List V) :
    Prop where
  /-- The result holds what was visited before and what this walk visited. -/
  mem_iff : ∀ v, v ∈ out.1 ↔ v ∈ visited ∨ v ∈ out.2
  fresh : ∀ v ∈ out.2, v ∉ visited
  nodup : out.2.Nodup
  closed : Closed edges [] out.1
  queued : ∀ v ∈ queue, v ∈ out.1
  sound : ∀ v ∈ out.2, ∃ s ∈ queue, Reaches edges s v

/-- With enough fuel the walk ends with all that the queue reaches. -/
theorem walk_walked {fuel : ℕ} (hfuel : pending edges queue visited ≤ fuel)
    (hclosed : Closed edges queue visited) :
    Walked edges queue visited (walk edges fuel queue visited) := by
  induction fuel generalizing queue visited with
  | zero =>
    have hq : queue = [] := by
      apply eq_nil_of_length_eq_zero
      simp only [pending] at hfuel
      omega
    subst hq
    exact ⟨by simp [walk], by simp [walk], by simp [walk], hclosed, by simp, by simp [walk]⟩
  | succ fuel ih =>
    cases queue with
    | nil =>
      exact ⟨by simp [walk], by simp [walk], by simp [walk], hclosed, by simp, by simp [walk]⟩
    | cons v queue =>
      -- a visited vertex is skipped, another one queues its successors
      by_cases hv : v ∈ visited
      · rw [walk, if_pos hv]
        have hle : pending edges queue visited ≤ fuel := by
          simp only [pending, length_cons] at hfuel ⊢
          omega
        have hrest := ih hle (hclosed.skip hv)
        refine ⟨hrest.mem_iff, hrest.fresh, hrest.nodup, hrest.closed, ?_, ?_⟩
        · intro u hu
          rcases mem_cons.mp hu with rfl | hu
          · exact (hrest.mem_iff u).mpr (.inl hv)
          · exact hrest.queued u hu
        · intro u hu
          obtain ⟨s, hs, hreach⟩ := hrest.sound u hu
          exact ⟨s, mem_cons_of_mem _ hs, hreach⟩
      · rw [walk, if_neg hv]
        have hrest := ih (by have := @pending_visit _ _ edges v queue visited hv; omega)
          hclosed.visit
        have hmem : ∀ u, u ∈ (walk edges fuel _ (v :: visited)).1 ↔ _ := hrest.mem_iff
        refine ⟨?_, ?_, ?_, hrest.closed, ?_, ?_⟩
        · intro u
          rw [hmem u]
          simp only [mem_cons]
          tauto
        · intro u hu
          rcases mem_cons.mp hu with rfl | hu
          · exact hv
          · exact fun h => hrest.fresh u hu (mem_cons_of_mem _ h)
        · refine nodup_cons.mpr ⟨fun h => hrest.fresh v h mem_cons_self, hrest.nodup⟩
        · intro u hu
          rcases mem_cons.mp hu with rfl | hu
          · exact (hmem u).mpr (.inl mem_cons_self)
          · exact hrest.queued u (mem_append_left _ hu)
        · intro u hu
          rcases mem_cons.mp hu with rfl | hu
          · exact ⟨u, mem_cons_self, .refl⟩
          · obtain ⟨s, hs, hreach⟩ := hrest.sound u hu
            rcases mem_append.mp hs with hs | hs
            · exact ⟨s, mem_cons_of_mem _ hs, hreach⟩
            · refine ⟨v, mem_cons_self, ?_⟩
              exact Relation.ReflTransGen.head (mem_succ.mp (mem_of_mem_filter hs)) hreach

end Component
