import Mathlib.Data.List.Basic

/-!
# Programs that may stop after any durable step

A program over a durable state reads it, changes it in atomic steps and may fail. Running it gives
the states after each of its durable steps, in order, besides its final state and its result: a
program that stops halfway leaves one of these states, or the one it started from.

`wp m C Q` is the weakest precondition of `m`: every state a stopped run leaves satisfies `C`, and
the result and the final state of an uninterrupted run satisfy `Q`. Its rules are equivalences, so
they decide a run as well as they bound it.
-/

/-- What a run of a program leaves. -/
structure Outcome (σ ε α : Type) where
  trace : List σ
  final : σ
  result : Except ε α

/-- A program over the durable state `σ`. -/
def Durable (σ ε α : Type) : Type := σ → Outcome σ ε α

namespace Durable

variable {σ ε α β : Type}

/-- A computation that neither reads nor changes the state. -/
def lift (x : Except ε α) : Durable σ ε α := fun s => ⟨[], s, x⟩

/-- A computation on the current state. -/
def read (f : σ → Except ε α) : Durable σ ε α := fun s => ⟨[], s, f s⟩

/-- One durable step, which either happens as a whole or fails and changes nothing. -/
def step (f : σ → Except ε (σ × α)) : Durable σ ε α := fun s =>
  match f s with
  | .ok (t, a) => ⟨[t], t, .ok a⟩
  | .error e => ⟨[], s, .error e⟩

/-- A durable step that does not fail. -/
def write (f : σ → σ) : Durable σ ε Unit := step fun s => .ok (f s, ())

def fail (e : ε) : Durable σ ε α := lift (.error e)

/-- The run of the rest of a program after what its first part left. -/
def andThen (f : α → Durable σ ε β) : Outcome σ ε α → Outcome σ ε β
  | ⟨trace, s, .ok a⟩ => ⟨trace ++ (f a s).trace, (f a s).final, (f a s).result⟩
  | ⟨trace, s, .error e⟩ => ⟨trace, s, .error e⟩

instance : Monad (Durable σ ε) where
  pure a := lift (.ok a)
  bind m f s := andThen f (m s)

/-- A read decides how the program goes on. -/
lemma read_bind_apply (g : σ → Except ε α) (f : α → Durable σ ε β) (s : σ) :
    (read g >>= f) s = match g s with
      | .ok a => f a s
      | .error e => ⟨[], s, .error e⟩ := by
  show andThen f ⟨[], s, g s⟩ = _
  cases g s with
  | error e => rfl
  | ok a => rfl

/-! ### The weakest precondition -/

def wp (m : Durable σ ε α) (C : σ → Prop) (Q : Except ε α → σ → Prop) (s : σ) : Prop :=
  (∀ t ∈ (m s).trace, C t) ∧ Q (m s).result (m s).final

/-- What has to hold after a step for the rest of the program. -/
def Then (f : α → Durable σ ε β) (C : σ → Prop) (Q : Except ε β → σ → Prop) (r : Except ε α)
    (s : σ) : Prop :=
  match r with
  | .ok a => (f a).wp C Q s
  | .error e => Q (.error e) s

variable {a : α}

section Rules

variable {m : Durable σ ε α} {f : α → Durable σ ε β} {C C' : σ → Prop}
  {Q Q' : Except ε α → σ → Prop} {s : σ}

@[simp] lemma wp_lift {x : Except ε α} : (lift x : Durable σ ε α).wp C Q s ↔ Q x s := by
  simp [wp, lift]

@[simp] lemma wp_pure : (pure a : Durable σ ε α).wp C Q s ↔ Q (.ok a) s := wp_lift

@[simp] lemma wp_fail {e : ε} : (fail e : Durable σ ε α).wp C Q s ↔ Q (.error e) s := wp_lift

@[simp] lemma wp_read {g : σ → Except ε α} : (read g).wp C Q s ↔ Q (g s) s := by
  simp [wp, read]

lemma wp_step {g : σ → Except ε (σ × α)} :
    (step g).wp C Q s ↔ match g s with
      | .ok (t, a) => C t ∧ Q (.ok a) t
      | .error e => Q (.error e) s := by
  unfold wp step
  rcases g s with e | ⟨t, a⟩
  · simp
  · simp

@[simp] lemma wp_write {g : σ → σ} {Q : Except ε Unit → σ → Prop} :
    (write g).wp C Q s ↔ C (g s) ∧ Q (.ok ()) (g s) := wp_step

@[simp] lemma then_ok {Q : Except ε β → σ → Prop} :
    Then f C Q (.ok a) s ↔ (f a).wp C Q s := Iff.rfl

@[simp] lemma wp_bind {Q : Except ε β → σ → Prop} :
    (m >>= f).wp C Q s ↔ m.wp C (Then f C Q) s := by
  show (∀ t ∈ (andThen f (m s)).trace, C t) ∧
    Q (andThen f (m s)).result (andThen f (m s)).final ↔ _
  unfold wp
  rcases m s with ⟨trace, t, a | e⟩
  · simp [andThen, Then]
  · simp [andThen, wp, or_imp, forall_and, and_assoc]

lemma wp_mono (h : m.wp C Q s) (hC : ∀ t, C t → C' t) (hQ : ∀ r t, Q r t → Q' r t) :
    m.wp C' Q' s :=
  ⟨fun t ht => hC t (h.1 t ht), hQ _ _ h.2⟩

/-- A precondition knows the run it is about. -/
lemma wp_self (h : m.wp C Q s) :
    m.wp C (fun r t => Q r t ∧ r = (m s).result ∧ t = (m s).final) s :=
  ⟨h.1, h.2, rfl, rfl⟩

lemma wp_and : m.wp (fun t => C t ∧ C' t) (fun r t => Q r t ∧ Q' r t) s ↔
    m.wp C Q s ∧ m.wp C' Q' s := by
  simp only [wp, forall_and, and_assoc, and_left_comm]

end Rules

/-- A state that a run leaves if it may be stopped after any of its steps, or before the first. -/
def Leaves (m : Durable σ ε α) (s t : σ) : Prop :=
  t = s ∨ t ∈ (m s).trace ∨ t = (m s).final

lemma Leaves.of_wp {m : Durable σ ε α} {C : σ → Prop} {s t : σ} (h : Leaves m s t)
    (hwp : m.wp C (fun _ => C) s) (hs : C s) : C t := by
  rcases h with rfl | hmem | rfl
  · exact hs
  · exact hwp.1 t hmem
  · exact hwp.2

/-! ### Loops -/

section Loops

variable {C : σ → Prop} {l : List α} {f : α → Durable σ ε Unit}

@[simp] lemma wp_forM_nil {Q : Except ε Unit → σ → Prop} {s : σ} :
    (List.forM [] f).wp C Q s ↔ Q (.ok ()) s := wp_pure

@[simp] lemma wp_forM_cons {Q : Except ε Unit → σ → Prop} {s : σ} :
    (List.forM (a :: l) f).wp C Q s ↔
      (f a).wp C (Then (fun _ => List.forM l f) C Q) s := wp_bind

/-- The rule for loops whose body does not fail: `I` relates the elements done to the state. -/
lemma wp_forM {Q : Except ε Unit → σ → Prop} (I : List α → σ → Prop)
    (step : ∀ pre a post s, l = pre ++ a :: post → I pre s →
      (f a).wp C (fun r t => r = .ok () ∧ I (pre ++ [a]) t) s)
    (done : ∀ s, I l s → Q (.ok ()) s) {s : σ} (init : I [] s) : (l.forM f).wp C Q s := by
  have hrun : ∀ pre post s, l = pre ++ post → I pre s → (post.forM f).wp C Q s := by
    intro pre post
    induction post generalizing pre with
    | nil =>
      intro s hl hs
      rw [List.append_nil] at hl
      exact wp_forM_nil.mpr (done s (hl ▸ hs))
    | cons a post ih =>
      intro s hl hs
      apply wp_forM_cons.mpr
      apply wp_mono (step pre a post s hl hs) (fun _ h => h)
      rintro r t ⟨rfl, ht⟩
      exact ih (pre ++ [a]) t (by simp [hl]) ht
  exact hrun [] l s rfl init

variable {b : β}

@[simp] lemma wp_foldlM_nil {f : β → α → Durable σ ε β} {Q : Except ε β → σ → Prop} {s : σ} :
    (List.foldlM f b []).wp C Q s ↔ Q (.ok b) s := wp_pure

@[simp] lemma wp_foldlM_cons {f : β → α → Durable σ ε β} {Q : Except ε β → σ → Prop} {s : σ} :
    (List.foldlM f b (a :: l)).wp C Q s ↔
      (f b a).wp C (Then (fun b' => List.foldlM f b' l) C Q) s := by
  rw [List.foldlM_cons, wp_bind]

/-- The rule for loops with an accumulator whose body does not fail. -/
lemma wp_foldlM {f : β → α → Durable σ ε β} {Q : Except ε β → σ → Prop} (I : List α → β → σ → Prop)
    (step : ∀ pre a post b s, l = pre ++ a :: post → I pre b s →
      (f b a).wp C (fun r t => ∃ b', r = .ok b' ∧ I (pre ++ [a]) b' t) s)
    (done : ∀ b s, I l b s → Q (.ok b) s) {s : σ} (init : I [] b s) : (l.foldlM f b).wp C Q s := by
  have hrun : ∀ pre post b s, l = pre ++ post → I pre b s → (post.foldlM f b).wp C Q s := by
    intro pre post
    induction post generalizing pre with
    | nil =>
      intro b s hl hs
      rw [List.append_nil] at hl
      exact wp_foldlM_nil.mpr (done b s (hl ▸ hs))
    | cons a post ih =>
      intro b s hl hs
      apply wp_foldlM_cons.mpr
      apply wp_mono (step pre a post b s hl hs) (fun _ h => h)
      rintro r t ⟨b', rfl, ht⟩
      exact ih (pre ++ [a]) b' t (by simp [hl]) ht
  exact hrun [] l b s rfl init

end Loops

/-! ### Programs that keep a relation -/

/-- The program does not fail, and every state it leaves is related to the one it started from. -/
def Keeps (R : σ → σ → Prop) (m : Durable σ ε α) : Prop :=
  ∀ s, m.wp (R s) (fun r t => (∃ a, r = .ok a) ∧ R s t) s

section Keeps

variable {R : σ → σ → Prop} [IsPreorder σ R]

lemma keeps_pure (a : α) : Keeps R (pure a : Durable σ ε α) := by
  intro s
  rw [wp_pure]
  exact ⟨⟨a, rfl⟩, Std.Refl.refl s⟩

omit [IsPreorder σ R] in
lemma keeps_write {f : σ → σ} (h : ∀ s, R s (f s)) : Keeps R (write f : Durable σ ε Unit) := by
  intro s
  rw [wp_write]
  exact ⟨h s, ⟨(), rfl⟩, h s⟩

lemma keeps_read (f : σ → α) : Keeps R (read fun s => .ok (f s) : Durable σ ε α) := by
  intro s
  rw [wp_read]
  exact ⟨⟨_, rfl⟩, Std.Refl.refl s⟩

lemma Keeps.bind {m : Durable σ ε α} {f : α → Durable σ ε β} (hm : Keeps R m)
    (hf : ∀ a, Keeps R (f a)) : Keeps R (m >>= f) := by
  intro s
  rw [wp_bind]
  apply wp_mono (hm s) (fun _ h => h)
  rintro r t ⟨⟨a, rfl⟩, ht⟩
  rw [then_ok]
  refine wp_mono (hf a t) (fun u hu => IsTrans.trans _ _ _ ht hu) ?_
  rintro r u ⟨hr, hu⟩
  exact ⟨hr, IsTrans.trans _ _ _ ht hu⟩

lemma keeps_forM {f : α → Durable σ ε Unit} {l : List α} (hf : ∀ a ∈ l, Keeps R (f a)) :
    Keeps R (l.forM f) := by
  induction l with
  | nil => exact keeps_pure ()
  | cons a l ih => exact (hf a (by simp)).bind fun _ => ih fun b hb => hf b (by simp [hb])

lemma keeps_foldlM {f : β → α → Durable σ ε β} {l : List α} (hf : ∀ b, ∀ a ∈ l, Keeps R (f b a))
    (b : β) : Keeps R (l.foldlM f b) := by
  induction l generalizing b with
  | nil => exact keeps_pure b
  | cons a l ih =>
    rw [List.foldlM_cons]
    exact (hf b a (by simp)).bind fun b' => ih (fun b c hc => hf b c (by simp [hc])) b'

end Keeps

end Durable
