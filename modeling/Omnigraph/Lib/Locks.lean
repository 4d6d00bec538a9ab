import Mathlib.Tactic

/-!
# Locks taken in order

Tasks take locks one at a time and wait while another task holds the next one. If every task takes
its locks in increasing order, no run gets stuck before all tasks are finished.
-/

namespace Locks

open List

/-- The locks each task holds, and those it takes next, in that order. -/
structure State (T K : Type*) where
  held : T → List K
  rest : T → List K

/-- A task takes its next lock, drops one when it is done, or stops to wait. -/
inductive Event (T K : Type*)
  | take (t : T)
  | drop (t : T) (k : K)
  | cancel (t : T)

def Event.IsCancel {T K : Type*} : Event T K → Prop
  | cancel _ => True
  | _ => False

namespace State

variable {T K : Type*}

/-- Nobody holds anything yet. -/
def start (plan : T → List K) : State T K := ⟨fun _ => [], plan⟩

def Finished (s : State T K) (t : T) : Prop := s.held t = [] ∧ s.rest t = []

def Free (s : State T K) (k : K) : Prop := ∀ u, k ∉ s.held u

variable {e : Event T K}

section Steps

variable [DecidableEq T] [DecidableEq K]

def goto (s : State T K) (t : T) (held rest : List K) : State T K :=
  ⟨Function.update s.held t held, Function.update s.rest t rest⟩

variable [Fintype T]

instance (s : State T K) (k : K) : Decidable (s.Free k) :=
  inferInstanceAs (Decidable (∀ u, k ∉ s.held u))

def step (s : State T K) : Event T K → Option (State T K)
  | .take t => match s.rest t with
    | k :: rest => if s.Free k then some (s.goto t (s.held t ++ [k]) rest) else none
    | [] => none
  | .drop t k =>
    if s.rest t = [] ∧ k ∈ s.held t then some (s.goto t ((s.held t).erase k) []) else none
  | .cancel t => if s.rest t = [] then none else some (s.goto t (s.held t) [])

def run (s : State T K) (events : List (Event T K)) : Option (State T K) := events.foldlM step s

/-- What a step can do: one task goes on with some of its locks, and fewer steps are left to it. -/
lemma step_eq_some {s s' : State T K} (h : s.step e = some s') :
    ∃ t held rest, s' = s.goto t held rest ∧ (∀ k ∈ held, k ∈ s.held t ∨ s.Free k) ∧
      (held ++ rest).Sublist (s.held t ++ s.rest t) ∧
      2 * rest.length + held.length < 2 * (s.rest t).length + (s.held t).length := by
  cases e with
  | take t =>
    simp only [step] at h
    split at h
    · rename_i k rest hrest
      split_ifs at h with hfree
      cases h
      refine ⟨t, _, rest, rfl, ?_, by simp [hrest], by simp [hrest]; omega⟩
      simp only [mem_append, mem_singleton]
      rintro a (ha | rfl)
      · exact .inl ha
      · exact .inr hfree
    · cases h
  | drop t k =>
    simp only [step] at h
    split_ifs at h with hdrop
    cases h
    have hpos := length_pos_of_mem hdrop.2
    refine ⟨t, _, [], rfl, fun a ha => .inl (mem_of_mem_erase ha), ?_, ?_⟩
    · simpa [hdrop.1] using erase_sublist
    · simp only [hdrop.1, length_erase_of_mem hdrop.2, length_nil]
      omega
  | cancel t =>
    simp only [step] at h
    split_ifs at h with hrest
    cases h
    have hpos := length_pos_of_ne_nil hrest
    exact ⟨t, _, [], rfl, fun _ ha => .inl ha, by simp, by simp only [length_nil]; omega⟩

end Steps

variable {s s' : State T K} {t : T}

/-! ### The invariant -/

section Order

variable [LinearOrder K]

/-- Tasks take their locks in increasing order, and no two of them hold the same one. -/
structure Ordered (s : State T K) : Prop where
  increasing : ∀ t, (s.held t ++ s.rest t).Pairwise (· < ·)
  exclusive : ∀ t u k, k ∈ s.held t → k ∈ s.held u → t = u

lemma ordered_start {plan : T → List K} (h : ∀ t, (plan t).Pairwise (· < ·)) :
    (start plan).Ordered :=
  ⟨h, by simp [start]⟩

variable [DecidableEq T]

lemma Ordered.goto (h : s.Ordered) {held rest : List K}
    (hincreasing : (held ++ rest).Pairwise (· < ·))
    (hheld : ∀ k ∈ held, k ∈ s.held t ∨ s.Free k) : (s.goto t held rest).Ordered := by
  -- a lock that `t` holds now is held by no other task
  have hother : ∀ u k, u ≠ t → k ∈ held → k ∉ s.held u := by
    intro u k hu hk hmem
    rcases hheld k hk with hk | hfree
    · exact hu (h.exclusive u t k hmem hk)
    · exact hfree u hmem
  constructor
  · intro u
    by_cases hu : u = t
    · subst hu
      simpa [State.goto] using hincreasing
    · simpa [State.goto, hu] using h.increasing u
  · intro u v k hk hk'
    by_cases hu : u = t <;> by_cases hv : v = t <;>
      simp only [State.goto, Function.update_apply, hu, hv, if_true, if_false] at hk hk' ⊢
    · exact absurd hk' (hother v k hv hk)
    · exact absurd hk (hother u k hu hk')
    · exact h.exclusive u v k hk hk'

lemma Ordered.step [Fintype T] {e : Event T K} (h : s.Ordered) (hstep : s.step e = some s') :
    s'.Ordered := by
  obtain ⟨t, held, rest, rfl, hheld, hsublist, -⟩ := step_eq_some hstep
  exact h.goto ((h.increasing t).sublist hsublist) hheld

/-- Unless all tasks are finished, one of them takes or drops a lock next. -/
theorem Ordered.progress [Fintype T] (h : s.Ordered) :
    (∀ t, s.Finished t) ∨ ∃ e s', ¬ e.IsCancel ∧ s.step e = some s' := by
  by_contra hstuck
  push Not at hstuck
  obtain ⟨⟨t₀, ht₀⟩, hnone⟩ := hstuck
  have hwaits : ∀ t, ¬ s.Finished t → ∃ k rest u, s.rest t = k :: rest ∧ k ∈ s.held u := by
    intro t ht
    cases hrest : s.rest t with
    | nil =>
      cases hheld : s.held t with
      | nil => exact absurd ⟨hheld, hrest⟩ ht
      | cons k held =>
        exact absurd (if_pos ⟨hrest, by rw [hheld]; simp⟩) (hnone (.drop t k) _ id)
    | cons k rest =>
      have hheld : ¬ s.Free k := by
        intro hfree
        refine hnone (.take t) (s.goto t (s.held t ++ [k]) rest) id ?_
        rw [State.step, hrest]
        exact if_pos hfree
      rw [Free] at hheld
      push Not at hheld
      obtain ⟨u, hu⟩ := hheld
      exact ⟨k, rest, u, rfl, hu⟩
  -- of the locks that are waited for, the greatest is held by a task that waits for a greater one
  let next : T → WithBot K := fun t => (s.rest t).head?
  have : Nonempty T := ⟨t₀⟩
  obtain ⟨t, hmax⟩ := Finite.exists_max next
  have ht : ¬ s.Finished t := by
    intro hfinished
    obtain ⟨k, rest, -, hrest, -⟩ := hwaits t₀ ht₀
    have hle := hmax t₀
    simp only [next, hfinished.2, hrest, List.head?_nil, List.head?_cons] at hle
    exact WithBot.not_coe_le_bot k hle
  obtain ⟨k, rest, u, hrest, hu⟩ := hwaits t ht
  obtain ⟨k', rest', -, hrest', -⟩ := hwaits u fun hfinished => by simp [hfinished.1] at hu
  have hlt : k < k' := by
    have := h.increasing u
    rw [hrest', pairwise_append] at this
    exact this.2.2 k hu k' (by simp)
  have hle := hmax u
  simp only [next, hrest, hrest', List.head?_cons] at hle
  exact absurd (WithBot.coe_le_coe.mp hle) (not_le.mpr hlt)

end Order

/-! ### Runs -/

section Runs

variable [Fintype T]

/-- A bound on the steps that are left. -/
def left (s : State T K) : ℕ := ∑ t, (2 * (s.rest t).length + (s.held t).length)

variable [DecidableEq T]

lemma left_step [DecidableEq K] (hstep : s.step e = some s') : s'.left < s.left := by
  obtain ⟨t, held, rest, rfl, -, -, hlt⟩ := step_eq_some hstep
  refine Finset.sum_lt_sum (fun u _ => ?_) ⟨t, Finset.mem_univ t, by simpa [goto] using hlt⟩
  by_cases hu : u = t
  · subst hu
    simpa [goto] using hlt.le
  · simp [goto, hu]

/-- A run keeps the order, and it has no more steps than were left. -/
theorem Ordered.run [LinearOrder K] {events : List (Event T K)} (h : s.Ordered)
    (hrun : s.run events = some s') : s'.Ordered ∧ events.length + s'.left ≤ s.left := by
  induction events generalizing s with
  | nil =>
    cases hrun
    exact ⟨h, by simp⟩
  | cons e events ih =>
    rw [State.run, foldlM_cons] at hrun
    obtain ⟨between, hbetween, hrest⟩ := Option.bind_eq_some_iff.mp hrun
    obtain ⟨hordered, hleft⟩ := ih (h.step hbetween) hrest
    have := left_step hbetween
    rw [length_cons]
    exact ⟨hordered, by omega⟩

end Runs

end State

end Locks
