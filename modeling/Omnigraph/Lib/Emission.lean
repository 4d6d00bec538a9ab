import Mathlib.Tactic.Common

/-!
# Programs that emit

A program that hands findings to a sink while it runs, and may fail. What it emits before a failure
stays emitted. The findings are kept as a list; feeding them to a sink, in order, is running the
program with that sink.
-/

/-- What a program emits, and how it ends. -/
structure Emission (ω ε α : Type) where
  emitted : List ω
  result : Except ε α

namespace Emission

open List

variable {ω ε α β σ : Type} {p : ω → Prop}

instance : Monad (Emission ω ε) where
  pure a := ⟨[], .ok a⟩
  bind x f :=
    match x.result with
    | .error e => ⟨x.emitted, .error e⟩
    | .ok a => ⟨x.emitted ++ (f a).emitted, (f a).result⟩

def emit (w : ω) : Emission ω ε Unit := ⟨[w], .ok ()⟩

def emitIf (c : Prop) [Decidable c] (w : ω) : Emission ω ε Unit :=
  if c then emit w else pure ()

/-- A computation that emits nothing. -/
def lift (x : Except ε α) : Emission ω ε α := ⟨[], x⟩

/-- The sink is given the findings one after the other; its own failure ends the run. -/
def feed (x : Emission ω ε α) (sink : σ → ω → Except ε σ) (s : σ) : Except ε (α × σ) := do
  let s ← x.emitted.foldlM sink s
  let a ← x.result
  return (a, s)

/-- The program ends well, without a finding of the kind `p`. -/
def Quiet (p : ω → Prop) (x : Emission ω ε α) (a : α) : Prop :=
  x.result = .ok a ∧ ∀ w ∈ x.emitted, ¬ p w

instance [DecidableEq ε] [DecidableEq α] [DecidablePred p] (x : Emission ω ε α) (a : α) :
    Decidable (Quiet p x a) :=
  inferInstanceAs (Decidable (x.result = .ok a ∧ ∀ w ∈ x.emitted, ¬ p w))

variable {a : α} {u : Unit} {w : ω} {x : Emission ω ε α} {c : Prop} {l : List α}

@[simp] lemma quiet_pure_iff {b : α} : Quiet p (pure a : Emission ω ε α) b ↔ a = b := by
  show (Except.ok a = Except.ok b ∧ ∀ w ∈ [], ¬ p w) ↔ _
  simp

@[simp] lemma quiet_emit_iff : Quiet p (emit w : Emission ω ε Unit) u ↔ ¬ p w := by
  simp [Quiet, emit]

@[simp] lemma quiet_lift_iff {x : Except ε α} :
    Quiet p (lift x : Emission ω ε α) a ↔ x = .ok a := by
  simp [Quiet, lift]

lemma quiet_bind_iff {f : α → Emission ω ε β} {b : β} :
    Quiet p (x >>= f) b ↔ ∃ a, Quiet p x a ∧ Quiet p (f a) b := by
  obtain ⟨emitted, result⟩ := x
  cases result with
  | error e =>
    show (Except.error e = Except.ok b ∧ _) ↔ _
    simp [Quiet]
  | ok a =>
    show ((f a).result = .ok b ∧ ∀ w ∈ emitted ++ (f a).emitted, ¬ p w) ↔ _
    simp only [Quiet, mem_append, or_imp, forall_and, Except.ok.injEq]
    constructor
    · rintro ⟨hb, hx, hf⟩
      exact ⟨a, ⟨rfl, hx⟩, hb, hf⟩
    · rintro ⟨a', ⟨rfl, hx⟩, hb, hf⟩
      exact ⟨hb, hx, hf⟩

lemma quiet_ite_iff [Decidable c] {y : Emission ω ε α} :
    Quiet p (if c then x else y) a ↔ (c → Quiet p x a) ∧ (¬ c → Quiet p y a) := by
  by_cases h : c <;> simp [h]

@[simp] lemma quiet_emitIf_iff [Decidable c] :
    Quiet p (emitIf c w : Emission ω ε Unit) u ↔ (c → ¬ p w) := by
  simp [emitIf, quiet_ite_iff]

/-- A loop is quiet when each of its rounds is. -/
lemma quiet_forM_iff {f : α → Emission ω ε PUnit} {u : PUnit} :
    Quiet p (l.forM f) u ↔ ∀ a ∈ l, Quiet p (f a) ⟨⟩ := by
  induction l with
  | nil => simp
  | cons a l ih =>
    rw [List.forM_eq_forM, forM_cons, quiet_bind_iff, forall_mem_cons, ← ih]
    constructor
    · rintro ⟨⟨⟩, ha, hrest⟩
      exact ⟨ha, hrest⟩
    · rintro ⟨ha, hrest⟩
      exact ⟨⟨⟩, ha, hrest⟩

/-- An invariant of the rounds done so far. -/
lemma Quiet.foldlM {f : β → α → Emission ω ε β} {I : List α → β → Prop}
    (hstep : ∀ pre a s s', I pre s → Quiet p (f s a) s' → I (pre ++ [a]) s') {s s' : β}
    (hstart : I [] s) (h : Quiet p (l.foldlM f s) s') : I l s' := by
  have hrun : ∀ (post pre : List α) (s : β), I pre s → Quiet p (post.foldlM f s) s' →
      I (pre ++ post) s' := by
    intro post
    induction post with
    | nil =>
      intro pre s hpre h
      rw [foldlM_nil, quiet_pure_iff] at h
      simpa [h] using hpre
    | cons a post ih =>
      intro pre s hpre h
      rw [foldlM_cons, quiet_bind_iff] at h
      obtain ⟨next, hnext, hrest⟩ := h
      have := ih (pre ++ [a]) next (hstep pre a s next hpre hnext) hrest
      simpa using this
  exact hrun l [] s hstart h

/-! ### What a sink is given -/

/-- The sink's state tells which findings it has been given. -/
def Records (sink : σ → ω → Except ε σ) (given : σ → List ω) : Prop :=
  ∀ s w s', sink s w = .ok s' → given s' = given s ++ [w]

/-- The sink, with the findings it has been given. -/
def recording (sink : σ → ω → Except ε σ) : List ω × σ → ω → Except ε (List ω × σ)
  | (given, s), w => (sink s w).map fun s => (given ++ [w], s)

lemma records_recording (sink : σ → ω → Except ε σ) :
    Records (recording sink) (Prod.fst : List ω × σ → List ω) := by
  rintro ⟨given, s⟩ w s' h
  rw [recording] at h
  cases hsink : sink s w with
  | error e =>
    rw [hsink] at h
    cases h
  | ok next =>
    rw [hsink] at h
    cases h
    rfl

variable {given : σ → List ω} {s s' : σ} {sink : σ → ω → Except ε σ}

lemma Records.foldlM (h : Records sink given) {l : List ω} (hfold : l.foldlM sink s = .ok s') :
    given s' = given s ++ l := by
  induction l generalizing s with
  | nil =>
    cases hfold
    simp
  | cons w l ih =>
    rw [foldlM_cons] at hfold
    cases hsink : sink s w with
    | error e =>
      rw [hsink] at hfold
      cases hfold
    | ok next =>
      rw [hsink] at hfold
      rw [ih hfold, h s w next hsink, append_assoc, singleton_append]

/-- A run that ends well gives the sink everything the program emits. -/
theorem quiet_of_feed (hrecords : Records sink given) (h : x.feed sink s = .ok (a, s'))
    (hnone : ∀ w ∈ given s', ¬ p w) : Quiet p x a := by
  unfold feed at h
  cases hfold : x.emitted.foldlM sink s with
  | error e =>
    rw [hfold] at h
    cases h
  | ok fed =>
    rw [hfold] at h
    cases hres : x.result with
    | error e =>
      rw [hres] at h
      cases h
    | ok b =>
      rw [hres] at h
      cases h
      refine ⟨hres, fun w hw => hnone w ?_⟩
      rw [hrecords.foldlM hfold]
      exact mem_append_right _ hw

end Emission
