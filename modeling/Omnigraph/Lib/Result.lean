import Mathlib.Data.List.Forall2

/-!
# Fallible computations

`Ensures x P E` is the specification of a computation that may fail: its value satisfies `P`, or
its error satisfies `E`. The rules follow the shape of the computation; the rule for folds carries
an invariant over the elements consumed so far.
-/

universe u v

/-! ### Lists related member by member -/

section Forall

variable {α β : Type*} {R : α → β → Prop} {l : List α} {r : List β}

lemma List.Forall₂.exists_left (h : List.Forall₂ R l r) {b : β} (hb : b ∈ r) : ∃ a ∈ l, R a b := by
  induction h with
  | nil => cases hb
  | cons hab _ ih =>
    rcases List.mem_cons.mp hb with rfl | hb
    · exact ⟨_, by simp, hab⟩
    · obtain ⟨a, ha, hR⟩ := ih hb
      exact ⟨a, by simp [ha], hR⟩

lemma List.Forall₂.exists_right (h : List.Forall₂ R l r) {a : α} (ha : a ∈ l) : ∃ b ∈ r, R a b := by
  induction h with
  | nil => cases ha
  | cons hab _ ih =>
    rcases List.mem_cons.mp ha with rfl | ha
    · exact ⟨_, by simp, hab⟩
    · obtain ⟨b, hb, hR⟩ := ih ha
      exact ⟨b, by simp [hb], hR⟩

variable {γ : Type*} {f : α → γ} {g : β → γ}

lemma List.Forall₂.map_eq (h : List.Forall₂ R l r) (hfg : ∀ a b, R a b → f a = g b) :
    l.map f = r.map g := by
  rw [← List.forall₂_eq_eq_eq, List.forall₂_map_left_iff, List.forall₂_map_right_iff]
  exact h.imp hfg

/-- The same where the members of the first list are known. -/
lemma List.Forall₂.map_eq_of_mem (h : List.Forall₂ R l r) (hfg : ∀ a ∈ l, ∀ b, R a b → f a = g b) :
    l.map f = r.map g := by
  induction h with
  | nil => rfl
  | @cons a b l r hab _ ih =>
    rw [List.map_cons, List.map_cons, hfg a (by simp) b hab,
      ih fun a' ha' => hfg a' (by simp [ha'])]

end Forall

variable {ε : Type u} {α β : Type v}

lemma Except.bind_eq_ok_iff {x : Except ε α} {f : α → Except ε β} {b : β} :
    (x >>= f) = .ok b ↔ ∃ a, x = .ok a ∧ f a = .ok b := by
  cases x with
  | error e => simp [bind, Except.bind]
  | ok a => simp [bind, Except.bind]

lemma Except.ok_bind (a : α) (f : α → Except ε β) : (Except.ok a >>= f) = f a := rfl

lemma Except.bind_ok {x : Except ε α} {f : α → Except ε β} {a : α} {b : β} (hx : x = .ok a)
    (hf : f a = .ok b) : (x >>= f) = .ok b :=
  Except.bind_eq_ok_iff.mpr ⟨a, hx, hf⟩

lemma Except.bind_eq_error_iff {x : Except ε α} {f : α → Except ε β} {e : ε} :
    (x >>= f) = .error e ↔ x = .error e ∨ ∃ a, x = .ok a ∧ f a = .error e := by
  cases x with
  | error e' => simp [bind, Except.bind]
  | ok a => simp [bind, Except.bind]

lemma Except.pure_eq_ok_iff {a b : α} : (pure a : Except ε α) = .ok b ↔ a = b := by
  simp [pure, Except.pure]

lemma Except.map_eq_ok {x : Except ε α} {f : α → β} {b : β} (h : x.map f = .ok b) :
    ∃ a, x = .ok a ∧ b = f a := by
  cases x with
  | error e => cases h
  | ok a =>
    cases h
    exact ⟨a, rfl, rfl⟩

lemma Except.exists_eq_ok {x : Except ε α} (h : x.isOk = true) : ∃ a, x = .ok a := by
  cases x with
  | error e => cases h
  | ok a => exact ⟨a, rfl⟩

lemma Except.mapM_eq_ok_iff {f : α → Except ε β} {l : List α} {r : List β} :
    l.mapM f = .ok r ↔ List.Forall₂ (fun a b => f a = .ok b) l r := by
  induction l generalizing r with
  | nil =>
    simp only [List.mapM_nil, List.forall₂_nil_left_iff]
    exact ⟨fun h => by cases h; rfl, fun h => by rw [h]; rfl⟩
  | cons a l ih =>
    rw [List.mapM_cons, Except.bind_eq_ok_iff, List.forall₂_cons_left_iff]
    simp only [Except.bind_eq_ok_iff, ih]
    constructor
    · rintro ⟨b, hb, bs, hbs, hr⟩
      cases hr
      exact ⟨b, bs, hb, hbs, rfl⟩
    · rintro ⟨b, bs, hb, hbs, rfl⟩
      exact ⟨b, hb, bs, hbs, rfl⟩

lemma Except.exists_mapM_eq_ok_iff {f : α → Except ε β} {l : List α} :
    (∃ r, l.mapM f = .ok r) ↔ ∀ a ∈ l, ∃ b, f a = .ok b := by
  induction l with
  | nil => simp [pure, Except.pure]
  | cons a l ih =>
    simp only [List.mapM_cons, Except.bind_eq_ok_iff, List.mem_cons, forall_eq_or_imp, ← ih]
    constructor
    · rintro ⟨r, b, hb, bs, hbs, -⟩
      exact ⟨⟨b, hb⟩, bs, hbs⟩
    · rintro ⟨⟨b, hb⟩, bs, hbs⟩
      exact ⟨b :: bs, b, hb, bs, hbs, rfl⟩

lemma Except.mem_mapM {f : α → Except ε β} {l : List α} {r : List β} (h : l.mapM f = .ok r)
    {b : β} : b ∈ r ↔ ∃ a ∈ l, f a = .ok b := by
  have hf := Except.mapM_eq_ok_iff.mp h
  clear h
  induction hf with
  | nil => simp
  | cons hab _ ih =>
    simp only [List.mem_cons, ih, or_and_right, exists_or, exists_eq_left, hab, Except.ok.injEq]
    rw [eq_comm]

lemma Except.map_mapM {γ : Type*} {f : α → Except ε β} {g : α → γ} {g' : β → γ} {l : List α}
    {r : List β} (h : l.mapM f = .ok r) (hg : ∀ a b, f a = .ok b → g' b = g a) :
    r.map g' = l.map g := by
  have hf := Except.mapM_eq_ok_iff.mp h
  clear h
  induction hf with
  | nil => rfl
  | cons hab _ ih => rw [List.map_cons, List.map_cons, ih, hg _ _ hab]

/-- Computations that differ in their results only differ so as a list. -/
lemma Except.mapM_map_of_forall {f : α → Except ε β} {f' : α → Except ε β} {g : β → β} {l : List α}
    (h : ∀ a ∈ l, f' a = (f a).map g) : l.mapM f' = (l.mapM f).map (List.map g) := by
  induction l with
  | nil => rfl
  | cons a l ih =>
    rw [List.mapM_cons, List.mapM_cons, h a List.mem_cons_self,
      ih fun b hb => h b (List.mem_cons_of_mem _ hb)]
    cases f a with
    | error e => rfl
    | ok b =>
      cases l.mapM f with
      | error e => rfl
      | ok r => rfl

lemma Except.forM_eq_ok_iff {f : α → Except ε PUnit} {l : List α} {u : PUnit} :
    l.forM f = .ok u ↔ ∀ a ∈ l, f a = .ok ⟨⟩ := by
  induction l with
  | nil => simp [pure, Except.pure]
  | cons a l ih =>
    show (f a >>= fun _ => l.forM f) = .ok ⟨⟩ ↔ _
    rw [Except.bind_eq_ok_iff]
    simp only [ih, List.mem_cons, forall_eq_or_imp]
    exact ⟨fun ⟨_, h⟩ => h, fun h => ⟨⟨⟩, h⟩⟩

/-- The value of `x` satisfies `P`, or its error satisfies `E`. -/
def Ensures (x : Except ε α) (P : α → Prop) (E : ε → Prop) : Prop :=
  match x with
  | .ok a => P a
  | .error e => E e

namespace Ensures

variable {x : Except ε α} {P : α → Prop} {Q : β → Prop} {E : ε → Prop}

@[simp] lemma ok_iff {a : α} : Ensures (.ok a : Except ε α) P E ↔ P a := Iff.rfl

@[simp] lemma error_iff {e : ε} : Ensures (.error e : Except ε α) P E ↔ E e := Iff.rfl

lemma mono {P' : α → Prop} {E' : ε → Prop} (h : Ensures x P E) (hP : ∀ a, P a → P' a)
    (hE : ∀ e, E e → E' e) : Ensures x P' E' := by
  cases x with
  | ok a => exact hP a h
  | error e => exact hE e h

lemma value {a : α} (h : Ensures x P E) (hx : x = .ok a) : P a := by
  subst hx; exact h

/-- What is known of every value, whatever the errors are. -/
lemma of_ok (h : ∀ a, x = .ok a → P a) : Ensures x P (fun _ => True) := by
  cases x with
  | ok a => exact h a rfl
  | error e => trivial

lemma bind {f : α → Except ε β} (hx : Ensures x P E) (hf : ∀ a, P a → Ensures (f a) Q E) :
    Ensures (x >>= f) Q E := by
  cases x with
  | ok a => exact hf a hx
  | error e => exact hx

lemma ite {c : Prop} [Decidable c] {y : Except ε α} (hx : c → Ensures x P E)
    (hy : ¬ c → Ensures y P E) : Ensures (if c then x else y) P E := by
  by_cases hc : c
  · rw [if_pos hc]; exact hx hc
  · rw [if_neg hc]; exact hy hc

/-- The rule for folds: `I` relates what has been consumed to the accumulated value. -/
lemma foldlM {f : β → α → Except ε β} {l : List α} {b : β} (I : List α → β → Prop)
    (init : I [] b)
    (step : ∀ pre a post acc, l = pre ++ a :: post → I pre acc →
      Ensures (f acc a) (I (pre ++ [a])) E) :
    Ensures (l.foldlM f b) (I l) E := by
  have hrun : ∀ pre post acc, l = pre ++ post → I pre acc →
      Ensures (post.foldlM f acc) (I l) E := by
    intro pre post
    induction post generalizing pre with
    | nil =>
      intro acc hl hacc
      rw [List.append_nil] at hl
      exact hl ▸ hacc
    | cons a post ih =>
      intro acc hl hacc
      rw [List.foldlM_cons]
      exact Ensures.bind (step pre a post acc hl hacc) fun acc' hacc' =>
        ih (pre ++ [a]) acc' (by simp [hl]) hacc'
  exact hrun [] l b rfl init

end Ensures
