import Mathlib.Data.List.Basic

/-!
# Machines that are drained

A machine takes steps until it ends or fails, and emits values on the way. It is run with fuel; an
invariant of its steps and a measure that goes down with each of them tell what a run with enough
fuel emits and how it ends.
-/

namespace Drain

/-- What a step does: the machine is done, or goes on, with a value to emit or without one. -/
inductive Next (ω σ : Type)
  | done
  | go (state : σ)
  | emit (value : ω) (state : σ)

/-- What a run emits, and how it ends; a run out of fuel does not. -/
structure Run (ω ε : Type) where
  emitted : List ω
  ended : Option (Except ε Unit)

variable {ω σ ε : Type} {step : σ → Except ε (Next ω σ)}

def drain (step : σ → Except ε (Next ω σ)) : ℕ → σ → Run ω ε
  | 0, _ => ⟨[], none⟩
  | fuel + 1, state =>
    match step state with
    | .error e => ⟨[], some (.error e)⟩
    | .ok .done => ⟨[], some (.ok ())⟩
    | .ok (.go state) => drain step fuel state
    | .ok (.emit value state) =>
      let run := drain step fuel state
      ⟨value :: run.emitted, run.ended⟩

/-- More fuel does not change a run that ends. -/
lemma drain_of_le {fuel fuel' : ℕ} (hle : fuel ≤ fuel') {state : σ}
    (h : (drain step fuel state).ended ≠ none) :
    drain step fuel' state = drain step fuel state := by
  induction fuel generalizing fuel' state with
  | zero => exact absurd rfl h
  | succ fuel ih =>
    obtain ⟨fuel', rfl⟩ : ∃ n, fuel' = n + 1 := ⟨fuel' - 1, by omega⟩
    rw [drain, drain]
    rw [drain] at h
    cases hstep : step state with
    | error e => rfl
    | ok next =>
      rw [hstep] at h
      cases next with
      | done => rfl
      | go state => exact ih (Nat.le_of_succ_le_succ hle) h
      | emit value state =>
        dsimp only
        rw [ih (Nat.le_of_succ_le_succ hle) h]

/-- What a step has to keep of an invariant, which is about the values emitted so far, too. -/
def Keeps (I : List ω → σ → Prop) (measure : σ → ℕ) (P : List ω → Prop) (E : List ω → ε → Prop)
    (emitted : List ω) (state : σ) (next : Except ε (Next ω σ)) : Prop :=
  match next with
  | .error e => E emitted e
  | .ok .done => P emitted
  | .ok (.go state') => I emitted state' ∧ measure state' < measure state
  | .ok (.emit value state') => I (emitted ++ [value]) state' ∧ measure state' < measure state

/-- The rule for runs: with enough fuel a run ends, and well unless a step failed. -/
theorem drain_spec {I : List ω → σ → Prop} {measure : σ → ℕ} {P : List ω → Prop}
    {E : List ω → ε → Prop}
    (hstep : ∀ emitted state, I emitted state → Keeps I measure P E emitted state (step state))
    {fuel : ℕ} : ∀ {emitted : List ω} {state : σ}, I emitted state → measure state < fuel →
      ((drain step fuel state).ended = some (.ok ()) ∧
        P (emitted ++ (drain step fuel state).emitted)) ∨
      ∃ e, (drain step fuel state).ended = some (.error e) ∧
        E (emitted ++ (drain step fuel state).emitted) e := by
  induction fuel with
  | zero => exact fun _ h => absurd h (Nat.not_lt_zero _)
  | succ fuel ih =>
    intro emitted state hI hfuel
    have hkeeps := hstep emitted state hI
    unfold Keeps at hkeeps
    rw [drain]
    cases hnext : step state with
    | error e =>
      rw [hnext] at hkeeps
      exact .inr ⟨e, rfl, by simpa using hkeeps⟩
    | ok next =>
      rw [hnext] at hkeeps
      cases next with
      | done => exact .inl ⟨rfl, by simpa using hkeeps⟩
      | go state' => exact ih hkeeps.1 (by have := hkeeps.2; omega)
      | emit value state' =>
        have hrun := ih hkeeps.1 (by have := hkeeps.2; omega)
        simp only [List.append_assoc, List.singleton_append] at hrun
        exact hrun

end Drain
