import Mathlib.Tactic
import Omnigraph.Lib.HashMap

/-!
# Breadth-first distances

A queue of labelled vertices is drained; a popped vertex whose recorded label is not larger than
the popped one is skipped, any other is recorded and its successors are queued one step further.
The labels that remain are the lengths of shortest walks from the start, and the loop ends after
as many steps as there are edges, plus one.
-/

namespace Bfs

open List

variable {V : Type*}

/-- Some walk of `n` edges leads from `u` to `v`. -/
inductive Walk (succ : V → List V) : ℕ → V → V → Prop
  | refl (u : V) : Walk succ 0 u u
  | tail {n : ℕ} {u v w : V} (h : Walk succ n u v) (hw : w ∈ succ v) : Walk succ (n + 1) u w

/-- `d` is the length of a shortest walk from `s` to `v`. -/
def IsDist (succ : V → List V) (s v : V) (d : ℕ) : Prop :=
  Walk succ d s v ∧ ∀ n, Walk succ n s v → d ≤ n

lemma IsDist.unique {succ : V → List V} {s v : V} {d e : ℕ} (hd : IsDist succ s v d)
    (he : IsDist succ s v e) : d = e :=
  le_antisymm (hd.2 e he.1) (he.2 d hd.1)

variable {succ : V → List V} {v s : V} {d : ℕ}

lemma exists_walk_iff {u : V} :
    (∃ n, Walk succ n u v) ↔ Relation.ReflTransGen (fun a b => b ∈ succ a) u v := by
  constructor
  · rintro ⟨n, h⟩
    induction h with
    | refl u => exact .refl
    | tail _ hw ih => exact ih.tail hw
  · intro h
    induction h with
    | refl => exact ⟨0, .refl u⟩
    | tail _ hw ih =>
      obtain ⟨n, hn⟩ := ih
      exact ⟨n + 1, hn.tail hw⟩

/-- A vertex that is reached at all has a distance. -/
lemma exists_isDist_iff :
    (∃ d, IsDist succ s v d) ↔ Relation.ReflTransGen (fun a b => b ∈ succ a) s v := by
  classical
  rw [← exists_walk_iff]
  constructor
  · rintro ⟨d, hd⟩
    exact ⟨d, hd.1⟩
  · intro h
    exact ⟨Nat.find h, Nat.find_spec h, fun n hn => Nat.find_min' h hn⟩

/-- Distances grow by one along the edges of shortest walks. -/
lemma isDist_succ_iff :
    IsDist succ s v (d + 1) ↔
      (¬ ∃ e ≤ d, IsDist succ s v e) ∧ ∃ u, IsDist succ s u d ∧ v ∈ succ u := by
  constructor
  · rintro ⟨hwalk, hmin⟩
    refine ⟨?_, ?_⟩
    · rintro ⟨e, he, hdist⟩
      exact absurd (hmin e hdist.1) (by omega)
    · cases hwalk with
      | tail hu hv =>
        exact ⟨_, ⟨hu, fun n hn => Nat.le_of_succ_le_succ (hmin (n + 1) (hn.tail hv))⟩, hv⟩
  · rintro ⟨hnone, u, hu, hv⟩
    refine ⟨hu.1.tail hv, fun n hn => ?_⟩
    obtain ⟨e, he⟩ := exists_isDist_iff.mpr (exists_walk_iff.mp ⟨n, hn⟩)
    have hen := he.2 n hn
    have hed : ¬ e ≤ d := fun hed => hnone ⟨e, hed, he⟩
    omega

lemma isDist_zero_iff : IsDist succ s v 0 ↔ v = s := by
  constructor
  · rintro ⟨hwalk, -⟩
    cases hwalk
    rfl
  · rintro rfl
    exact ⟨.refl v, fun n _ => Nat.zero_le n⟩

variable [DecidableEq V]

/-- The loop variables: the queue and the labels recorded so far. -/
structure State (V : Type*) where
  queue : List (V × ℕ)
  distances : HashMap V ℕ

/-- Record a popped vertex and queue its successors. -/
def State.visit (succ : V → List V) (v : V) (d : ℕ) (queue : List (V × ℕ))
    (distances : HashMap V ℕ) : State V :=
  ⟨queue ++ (succ v).map (fun w => (w, d + 1)), distances.insert v d⟩

/-- One turn of the loop; `none` when the queue is empty. -/
def step (succ : V → List V) : State V → Option (State V)
  | ⟨[], _⟩ => none
  | ⟨(v, d) :: queue, distances⟩ =>
    match distances.lookup v with
    | some existing =>
      if existing ≤ d then some ⟨queue, distances⟩
      else some (State.visit succ v d queue distances)
    | none => some (State.visit succ v d queue distances)

/-- At most `fuel` turns of the loop. -/
def run (succ : V → List V) : ℕ → State V → State V
  | 0, st => st
  | fuel + 1, st =>
    match step succ st with
    | none => st
    | some st' => run succ fuel st'

/-- The loop starts with the start vertex queued at distance zero. -/
def State.init (s : V) : State V := ⟨[(s, 0)], ∅⟩

variable {st st' : State V}

/-- A turn either skips the popped vertex or visits it with a label that improves on the recorded
one. -/
lemma step_cases (h : step succ st = some st') :
    ∃ v d queue, st.queue = (v, d) :: queue ∧
      ((∃ e, st.distances.lookup v = some e ∧ e ≤ d ∧ st' = ⟨queue, st.distances⟩) ∨
       ((∀ e, st.distances.lookup v = some e → d < e) ∧
        st' = State.visit succ v d queue st.distances)) := by
  obtain ⟨queue, distances⟩ := st
  cases queue with
  | nil => simp [step] at h
  | cons p queue =>
    obtain ⟨v, d⟩ := p
    refine ⟨v, d, queue, rfl, ?_⟩
    simp only [step] at h
    cases hv : distances.lookup v with
    | none =>
      rw [hv] at h
      exact .inr ⟨by simp, by simpa using h.symm⟩
    | some e =>
      simp only [hv] at h
      by_cases hed : e ≤ d
      · rw [if_pos hed] at h
        exact .inl ⟨e, rfl, hed, by simpa using h.symm⟩
      · rw [if_neg hed] at h
        refine .inr ⟨?_, by simpa using h.symm⟩
        rintro e' he'
        cases he'
        omega

lemma step_eq_none_iff : step succ st = none ↔ st.queue = [] := by
  obtain ⟨queue, distances⟩ := st
  cases queue with
  | nil => simp [step]
  | cons p queue =>
    simp only [step, reduceCtorEq, iff_false]
    split
    · split_ifs <;> simp
    · simp

/-! ### What a run records -/

/-- The label `n` for `v` is recorded or still queued, or a better one is. -/
def State.Settled (st : State V) (v : V) (n : ℕ) : Prop :=
  (∃ d, d ≤ n ∧ st.distances.lookup v = some d) ∨ ∃ d, d ≤ n ∧ (v, d) ∈ st.queue

/-- Every label is the length of a walk, and the successors of a recorded vertex are settled. -/
structure State.Labelled (succ : V → List V) (s : V) (st : State V) : Prop where
  queued : ∀ p ∈ st.queue, Walk succ p.2 s p.1
  recorded : ∀ v d, st.distances.lookup v = some d → Walk succ d s v
  start : st.Settled s 0
  closed : ∀ u d, st.distances.lookup u = some d → ∀ w ∈ succ u, st.Settled w (d + 1)

lemma State.Labelled.init (succ : V → List V) (s : V) : (State.init s).Labelled succ s where
  queued := by
    intro p hp
    simp only [State.init, mem_singleton] at hp
    subst hp
    exact .refl s
  recorded := by simp [State.init]
  start := .inr ⟨0, le_rfl, by simp [State.init]⟩
  closed := by simp [State.init]

variable {n : ℕ} {queue : List (V × ℕ)} {w : V}

/-- Skipping loses nothing: the popped label was already recorded or beaten. -/
lemma State.Settled.skip {e : ℕ} (hq : st.queue = (v, d) :: queue)
    (he : st.distances.lookup v = some e) (hed : e ≤ d) (h : st.Settled w n) :
    State.Settled ⟨queue, st.distances⟩ w n := by
  rcases h with h | ⟨m, hmn, hm⟩
  · exact .inl h
  · rw [hq, mem_cons] at hm
    rcases hm with hm | hm
    · cases hm
      exact .inl ⟨e, hed.trans hmn, he⟩
    · exact .inr ⟨m, hmn, hm⟩

/-- Visiting keeps every settled label: the popped one is recorded, and it improves on the label
recorded before. -/
lemma State.Settled.visit (hq : st.queue = (v, d) :: queue)
    (hlt : ∀ e, st.distances.lookup v = some e → d < e) (h : st.Settled w n) :
    (State.visit succ v d queue st.distances).Settled w n := by
  by_cases hwv : w = v
  · subst hwv
    by_cases hdn : d ≤ n
    · exact .inl ⟨d, hdn, by simp [State.visit]⟩
    · rcases h with ⟨e, hen, he⟩ | ⟨m, hmn, hm⟩
      · have := hlt e he
        omega
      · rw [hq, mem_cons] at hm
        rcases hm with hm | hm
        · cases hm; omega
        · exact .inr ⟨m, hmn, mem_append_left _ hm⟩
  · rcases h with ⟨e, hen, he⟩ | ⟨m, hmn, hm⟩
    · exact .inl ⟨e, hen, by rw [State.visit, AList.lookup_insert_ne hwv, he]⟩
    · rw [hq, mem_cons] at hm
      rcases hm with hm | hm
      · cases hm; exact absurd rfl hwv
      · exact .inr ⟨m, hmn, mem_append_left _ hm⟩

lemma State.Labelled.step {succ : V → List V} {s : V} {st st' : State V}
    (hst : st.Labelled succ s) (h : Bfs.step succ st = some st') : st'.Labelled succ s := by
  obtain ⟨v, d, queue, hq, ⟨e, he, hed, rfl⟩ | ⟨hlt, rfl⟩⟩ := step_cases h
  · refine ⟨fun p hp => hst.queued p (by simp [hq, hp]), hst.recorded,
      hst.start.skip hq he hed, fun u n hu w hw => (hst.closed u n hu w hw).skip hq he hed⟩
  · have hwalk : Walk succ d s v := hst.queued (v, d) (by simp [hq])
    refine ⟨?_, ?_, hst.start.visit hq hlt, ?_⟩
    · intro p hp
      rcases mem_append.mp hp with hp | hp
      · exact hst.queued p (by simp [hq, hp])
      · obtain ⟨w, hw, rfl⟩ := List.mem_map.mp hp
        exact hwalk.tail hw
    · intro u n hu
      rw [State.visit, HashMap.lookup_insert_ite] at hu
      split_ifs at hu with huv
      · cases hu; exact huv ▸ hwalk
      · exact hst.recorded u n hu
    · intro u n hu w hw
      rw [State.visit, HashMap.lookup_insert_ite] at hu
      split_ifs at hu with huv
      · cases hu
        subst huv
        exact .inr ⟨d + 1, le_rfl,
          mem_append_right _ (List.mem_map.mpr ⟨w, hw, rfl⟩)⟩
      · exact (hst.closed u n hu w hw).visit hq hlt

/-- A property that every turn keeps is kept by the loop. -/
lemma run_induction {P : State V → Prop}
    (hstep : ∀ st st', P st → step succ st = some st' → P st') :
    ∀ (fuel : ℕ) (st : State V), P st → P (run succ fuel st)
  | 0, _, h => h
  | fuel + 1, st, h => by
    rw [run]
    cases hs : step succ st with
    | none => exact h
    | some st' => exact run_induction hstep fuel st' (hstep st st' h hs)

/-- Once the queue is empty the labels are exactly the distances. -/
lemma State.Labelled.lookup_iff (hst : st.Labelled succ s) (hq : st.queue = []) (v : V) (d : ℕ) :
    st.distances.lookup v = some d ↔ IsDist succ s v d := by
  have hsettled : ∀ {w n}, st.Settled w n → ∃ e, e ≤ n ∧ st.distances.lookup w = some e := by
    rintro w n (h | ⟨e, -, he⟩)
    · exact h
    · simp [hq] at he
  -- induction on the walk: each vertex of it carries a label no larger than its position
  have hbound : ∀ n, Walk succ n s v → ∃ e, e ≤ n ∧ st.distances.lookup v = some e := by
    intro n hn
    induction hn with
    | refl => exact hsettled hst.start
    | tail _ hw ih =>
      obtain ⟨e, hen, he⟩ := ih hst
      obtain ⟨e', he', hlook⟩ := hsettled (hst.closed _ e he _ hw)
      exact ⟨e', by omega, hlook⟩
  constructor
  · intro h
    refine ⟨hst.recorded v d h, fun n hn => ?_⟩
    obtain ⟨e, hen, he⟩ := hbound n hn
    rw [h] at he
    cases he
    exact hen
  · rintro ⟨hd, hmin⟩
    obtain ⟨e, hed, he⟩ := hbound d hd
    rw [he, le_antisymm hed (hmin e (hst.recorded v e he))]

/-! ### The loop ends -/

/-- The queue holds one level and then the next, and nothing recorded lies beyond the first. -/
def State.Layered (st : State V) : Prop :=
  ∃ k, ∃ near far : List (V × ℕ), st.queue = near ++ far ∧ (∀ p ∈ near, p.2 = k) ∧
    (∀ p ∈ far, p.2 = k + 1) ∧ ∀ v d, st.distances.lookup v = some d → d ≤ k

lemma State.Layered.init (s : V) : (State.init s).Layered :=
  ⟨0, [(s, 0)], [], by simp [State.init], by simp, by simp, by simp [State.init]⟩

/-- The popped label is the current level: if the first level is exhausted, the next one takes its
place. -/
lemma State.Layered.cons {st : State V} (hst : st.Layered) {v : V} {d : ℕ}
    {queue : List (V × ℕ)} (hq : st.queue = (v, d) :: queue) :
    ∃ near far : List (V × ℕ), queue = near ++ far ∧ (∀ p ∈ near, p.2 = d) ∧
      (∀ p ∈ far, p.2 = d + 1) ∧ ∀ u e, st.distances.lookup u = some e → e ≤ d := by
  obtain ⟨k, near, far, happ, hnear, hfar, hrec⟩ := hst
  cases near with
  | nil =>
    rw [nil_append] at happ
    rw [hq] at happ
    subst happ
    have hd : d = k + 1 := hfar (v, d) (by simp)
    refine ⟨queue, [], by simp, ?_, by simp, fun u e he => ?_⟩
    · intro p hp
      rw [hd]
      exact hfar p (by simp [hp])
    · have := hrec u e he
      omega
  | cons p near =>
    rw [hq, cons_append, List.cons.injEq] at happ
    obtain ⟨rfl, rfl⟩ := happ
    have hd : d = k := hnear (v, d) (by simp)
    subst hd
    exact ⟨near, far, rfl, fun p hp => hnear p (by simp [hp]), hfar, hrec⟩

lemma State.Layered.step {succ : V → List V} {st st' : State V} (hst : st.Layered)
    (h : Bfs.step succ st = some st') : st'.Layered := by
  obtain ⟨v, d, queue, hq, hcase⟩ := step_cases h
  obtain ⟨near, far, rfl, hnear, hfar, hrec⟩ := hst.cons hq
  rcases hcase with ⟨e, he, hed, rfl⟩ | ⟨hlt, rfl⟩
  · exact ⟨d, near, far, rfl, hnear, hfar, hrec⟩
  · refine ⟨d, near, far ++ (succ v).map (fun w => (w, d + 1)), by simp [State.visit], hnear,
      ?_, ?_⟩
    · intro p hp
      rcases mem_append.mp hp with hp | hp
      · exact hfar p hp
      · obtain ⟨w, -, rfl⟩ := List.mem_map.mp hp
        rfl
    · intro u e he
      rw [State.visit, HashMap.lookup_insert_ite] at he
      split_ifs at he with huv
      · cases he; exact le_rfl
      · exact hrec u e he

/-- Turns still to come: one for each queued label and one for each edge out of a vertex that has
not been recorded. -/
def State.potential (succ : V → List V) (K : Finset V) (st : State V) : ℕ :=
  st.queue.length + ∑ v ∈ K with v ∉ st.distances, (succ v).length

variable {K : Finset V} {fuel : ℕ}

/-- Every turn lowers the potential, since a layered queue never relabels a vertex. -/
lemma State.Layered.potential_step (hK : ∀ v, v ∉ K → succ v = []) (hst : st.Layered)
    (h : Bfs.step succ st = some st') : st'.potential succ K + 1 ≤ st.potential succ K := by
  obtain ⟨v, d, queue, hq, hcase⟩ := step_cases h
  obtain ⟨near, far, -, -, -, hrec⟩ := hst.cons hq
  rcases hcase with ⟨e, he, hed, rfl⟩ | ⟨hlt, rfl⟩
  · simp only [State.potential, hq, length_cons]
    omega
  · have hfresh : v ∉ st.distances := by
      intro hv
      obtain ⟨e, he⟩ := HashMap.mem_iff_exists_lookup.mp hv
      have h1 := hrec v e he
      have h2 := hlt e he
      omega
    have hfilter : K.filter (fun u => u ∉ (State.visit succ v d queue st.distances).distances) =
        (K.filter (fun u => u ∉ st.distances)).erase v := by
      ext u
      simp only [State.visit, Finset.mem_filter, AList.mem_insert, not_or, Finset.mem_erase]
      tauto
    have hsum : (∑ u ∈ (K.filter (fun u => u ∉ st.distances)).erase v, (succ u).length)
        + (succ v).length = ∑ u ∈ K with u ∉ st.distances, (succ u).length := by
      by_cases hvK : v ∈ K
      · exact Finset.sum_erase_add _ _ (by simp [hvK, hfresh])
      · rw [Finset.erase_eq_of_notMem (by simp [hvK]), hK v hvK]
        simp
    simp only [State.potential, hfilter, hq, length_cons]
    rw [← hsum]
    simp only [State.visit, length_append, length_map]
    omega

lemma run_queue_eq_nil (hK : ∀ v, v ∉ K → succ v = []) :
    ∀ (fuel : ℕ) (st : State V), st.Layered → st.potential succ K ≤ fuel →
      (run succ fuel st).queue = []
  | 0, st, _, hfuel => by
    have : st.queue.length = 0 := by
      simp only [State.potential] at hfuel
      omega
    simpa [run] using this
  | fuel + 1, st, hst, hfuel => by
    rw [run]
    cases hs : step succ st with
    | none => exact step_eq_none_iff.mp hs
    | some st' =>
      have := hst.potential_step hK hs
      exact run_queue_eq_nil hK fuel st' (hst.step hs) (by omega)

/-- With a turn for the start and one for every edge, the loop drains its queue. -/
theorem run_init_queue (hK : ∀ v, v ∉ K → succ v = []) (s : V)
    (hfuel : 1 + ∑ v ∈ K, (succ v).length ≤ fuel) : (run succ fuel (State.init s)).queue = [] := by
  apply run_queue_eq_nil hK fuel _ (State.Layered.init s)
  have : ∑ v ∈ K with v ∉ (State.init s).distances, (succ v).length
      ≤ ∑ v ∈ K, (succ v).length :=
    Finset.sum_le_sum_of_subset (Finset.filter_subset _ _)
  simp only [State.potential, State.init, length_singleton] at this ⊢
  omega

/-- The labels of a drained run are the distances from the start. -/
theorem run_init_lookup_iff (hK : ∀ v, v ∉ K → succ v = []) (s : V)
    (hfuel : 1 + ∑ v ∈ K, (succ v).length ≤ fuel) (v : V) (d : ℕ) :
    (run succ fuel (State.init s)).distances.lookup v = some d ↔ IsDist succ s v d :=
  (run_induction (fun _ _ h hs => State.Labelled.step h hs) fuel _
    (State.Labelled.init succ s)).lookup_iff (run_init_queue hK s hfuel) v d

end Bfs
