import Mathlib.Tactic

/-!
# Spreading along edges

Edges are consumed once one of their ends is known, and make their other end known as well, unless
it is anonymous. A pass goes over the edges that remain in their order; passes are repeated until
one consumes nothing. The ends that become known are those connected to a known one, and an edge is
left over when it is connected to none.
-/

namespace Spread

open List

variable {V α : Type*} [DecidableEq V] (src dst : α → V) (named : V → Prop) [DecidablePred named]

/-- Both ends of a consumed edge are known, as far as they are named. -/
def learn (known : List V) (a : α) : List V := ([src a, dst a].filter named) ++ known

/-- One pass: the edges consumed, the edges that remain and the ends known after it. -/
def pass : List α → List V → List α × List α × List V
  | [], known => ([], [], known)
  | a :: rest, known =>
    if src a ∉ known ∧ dst a ∉ known then
      let out := pass rest known
      (out.1, a :: out.2.1, out.2.2)
    else
      let out := pass rest (learn src dst named known a)
      (a :: out.1, out.2.1, out.2.2)

/-- Passes until one consumes nothing. -/
def order : ℕ → List α → List V → List α × List α × List V
  | 0, items, known => ([], items, known)
  | fuel + 1, items, known =>
    let out := pass src dst named items known
    if out.2.1.length = items.length then ([], items, known)
    else
      let more := order fuel out.2.1 out.2.2
      (out.1 ++ more.1, more.2)

/-- `v` is connected to a known end. -/
inductive Reached (items : List α) (known : V → Prop) : V → Prop
  | known {v : V} (h : known v) : Reached items known v
  | src {a : α} (ha : a ∈ items) (h : Reached items known (dst a)) (hn : named (src a)) :
      Reached items known (src a)
  | dst {a : α} (ha : a ∈ items) (h : Reached items known (src a)) (hn : named (dst a)) :
      Reached items known (dst a)

/-- What consuming edges one by one has done: `consumed` in this order, `left` not yet. -/
structure Consumed (items : List α) (known : List V) (out : List α × List α × List V) : Prop where
  perm : (out.1 ++ out.2.1).Perm items
  mem_iff : ∀ v, v ∈ out.2.2 ↔ v ∈ known ∨ (named v ∧ ∃ a ∈ out.1, v = src a ∨ v = dst a)
  /-- Every edge had a known end when it was consumed. -/
  ready : ∀ pre a post, out.1 = pre ++ a :: post →
    ∃ u, (u = src a ∨ u = dst a) ∧
      (u ∈ known ∨ (named u ∧ ∃ b ∈ pre, u = src b ∨ u = dst b))

variable {src dst named}

variable {a : α} {known : List V} {v : V} {items rest : List α} {out : List α × List α × List V}

lemma mem_learn :
    v ∈ learn src dst named known a ↔ (named v ∧ (v = src a ∨ v = dst a)) ∨ v ∈ known := by
  simp only [learn, mem_append, mem_filter, mem_cons, not_mem_nil, or_false,
    decide_eq_true_eq]
  tauto

omit [DecidableEq V] [DecidablePred named] in
lemma Consumed.refl (items : List α) (known : List V) :
    Consumed src dst named items known ([], items, known) :=
  ⟨List.Perm.refl _, by simp, by simp⟩

omit [DecidableEq V] [DecidablePred named] in
lemma Consumed.trans {mid : List α} {known' : List V} {first : List α}
    (h₁ : Consumed src dst named items known (first, mid, known'))
    (h₂ : Consumed src dst named mid known' out) :
    Consumed src dst named items known (first ++ out.1, out.2) := by
  refine ⟨?_, fun v => ?_, fun pre a post heq => ?_⟩
  · rw [append_assoc]
    exact (h₂.perm.append_left first).trans h₁.perm
  · rw [h₂.mem_iff v, h₁.mem_iff v, or_assoc, ← and_or_left]
    simp only [mem_append, or_and_right, exists_or]
  · rcases append_eq_append_iff.mp heq with ⟨mid', rfl, hout⟩ | ⟨mid', hfirst, hpost⟩
    · obtain ⟨u, hu, hknown⟩ := h₂.ready mid' a post hout
      refine ⟨u, hu, ?_⟩
      rw [h₁.mem_iff u] at hknown
      rcases hknown with (hknown | ⟨hn, b, hb, hub⟩) | ⟨hn, b, hb, hub⟩
      · exact .inl hknown
      · exact .inr ⟨hn, b, mem_append_left _ hb, hub⟩
      · exact .inr ⟨hn, b, mem_append_right _ hb, hub⟩
    · cases mid' with
      | nil =>
        -- the split falls between the two parts
        obtain ⟨u, hu, hknown⟩ := h₂.ready [] a post (by simpa using hpost.symm)
        refine ⟨u, hu, ?_⟩
        rw [h₁.mem_iff u] at hknown
        rcases hknown with hknown | ⟨-, b, hb, -⟩
        · simpa [hfirst] using hknown
        · simp at hb
      | cons c mid' =>
        rw [cons_append, List.cons.injEq] at hpost
        obtain ⟨rfl, -⟩ := hpost
        exact h₁.ready pre a mid' hfirst

/-- Consuming one edge that has a known end. -/
lemma Consumed.single (h : ¬ (src a ∉ known ∧ dst a ∉ known)) :
    Consumed src dst named (a :: rest) known
      ([a], rest, learn src dst named known a) := by
  refine ⟨List.Perm.refl _, fun v => ?_, fun pre b post heq => ?_⟩
  · rw [mem_learn]
    simp only [mem_singleton, exists_eq_left]
    tauto
  · have hpre : pre = [] := by
      cases pre with
      | nil => rfl
      | cons c pre => simp at heq
    subst hpre
    simp only [nil_append, List.cons.injEq] at heq
    obtain ⟨rfl, -⟩ := heq
    by_cases hs : src a ∈ known
    · exact ⟨src a, .inl rfl, .inl hs⟩
    · exact ⟨dst a, .inr rfl, .inl (by tauto)⟩

omit [DecidableEq V] [DecidablePred named] in
/-- Keeping an edge for later. -/
lemma Consumed.keep (h : Consumed src dst named rest known out) :
    Consumed src dst named (a :: rest) known
      (out.1, a :: out.2.1, out.2.2) :=
  ⟨(perm_middle).trans (h.perm.cons a), h.mem_iff, h.ready⟩

lemma pass_consumed (items : List α) (known : List V) :
    Consumed src dst named items known
      (pass src dst named items known) := by
  induction items generalizing known with
  | nil => exact Consumed.refl [] known
  | cons a rest ih =>
    rw [pass]
    split_ifs with h
    · exact (ih known).keep
    · exact (Consumed.single h).trans (ih _)

/-- A pass that consumes nothing found every edge with both ends unknown. -/
lemma pass_blocked (h : (pass src dst named items known).2.1.length = items.length) :
    ∀ a ∈ items, src a ∉ known ∧ dst a ∉ known := by
  induction items generalizing known with
  | nil => simp
  | cons a rest ih =>
    rw [pass] at h
    split_ifs at h with ha
    · have hrest := ih (by simpa using h)
      intro b hb
      rcases mem_cons.mp hb with rfl | hb
      · exact ha
      · exact hrest b hb
    · have hdone : Consumed src dst named rest (learn src dst named known a) _ :=
        pass_consumed rest (learn src dst named known a)
      have hle := hdone.perm.length_eq
      simp only [length_append] at hle
      simp only [length_cons] at h
      omega

lemma pass_length_le (items : List α) (known : List V) :
    (pass src dst named items known).2.1.length ≤ items.length := by
  have hdone : Consumed src dst named items known _ := pass_consumed items known
  have h := hdone.perm.length_eq
  rw [length_append] at h
  omega

lemma order_consumed (fuel : ℕ) (items : List α) (known : List V) :
    Consumed src dst named items known
      (order src dst named fuel items known) := by
  induction fuel generalizing items known with
  | zero => exact Consumed.refl items known
  | succ fuel ih =>
    rw [order]
    split_ifs with h
    · exact Consumed.refl items known
    · exact (pass_consumed items known).trans (ih _ _)

/-- With as many turns as edges, what is left over has no known end. -/
lemma order_blocked {fuel : ℕ} {items : List α} {known : List V} (hfuel : items.length ≤ fuel) :
    ∀ a ∈ (order src dst named fuel items known).2.1,
      src a ∉ (order src dst named fuel items known).2.2 ∧
        dst a ∉ (order src dst named fuel items known).2.2 := by
  induction fuel generalizing items known with
  | zero =>
    have : items = [] := eq_nil_of_length_eq_zero (by omega)
    subst this
    simp [order]
  | succ fuel ih =>
    rw [order]
    split_ifs with h
    · exact pass_blocked h
    · have hle := @pass_length_le V α _ src dst named _ items known
      exact ih (by omega)

/-- The ends known at last are those connected to a known one. -/
theorem mem_order_iff_reached :
    v ∈ (order src dst named items.length items known).2.2 ↔
      Reached src dst named items (· ∈ known) v := by
  have hdone : Consumed src dst named items known _ := order_consumed items.length items known
  have hblocked := @order_blocked V α _ src dst named _ items.length items known le_rfl
  set out := order src dst named items.length items known with hout
  have hitem : ∀ a, a ∈ out.1 ∨ a ∈ out.2.1 ↔ a ∈ items := by
    intro a
    rw [← mem_append]
    exact hdone.perm.mem_iff
  constructor
  · intro hv
    -- both ends of a consumed edge are reached, by induction on when it was consumed
    have hends : ∀ (n : ℕ) (pre : List α) (a : α) (post : List α), pre.length = n →
        out.1 = pre ++ a :: post → ∀ u, named u → (u = src a ∨ u = dst a) →
        Reached src dst named items (· ∈ known) u := by
      intro n
      induction n using Nat.strong_induction_on with
      | _ n ih =>
        intro pre a post hn heq u hu hua
        have ha : a ∈ items := (hitem a).mp (.inl (by rw [heq]; simp))
        obtain ⟨w, hw, hready⟩ := hdone.ready pre a post heq
        have hreach : Reached src dst named items (· ∈ known) w := by
          rcases hready with hknown | ⟨hwn, b, hb, hwb⟩
          · exact .known hknown
          · obtain ⟨pre', post', rfl⟩ := append_of_mem hb
            exact ih pre'.length (by simp at hn; omega) pre' b (post' ++ a :: post) rfl
              (by rw [heq]; simp) w hwn hwb
        rcases hua with rfl | rfl <;> rcases hw with rfl | rfl
        · exact hreach
        · exact .src ha hreach hu
        · exact .dst ha hreach hu
        · exact hreach
    rcases (hdone.mem_iff v).mp hv with hknown | ⟨hn, a, ha, hva⟩
    · exact .known hknown
    · obtain ⟨pre, post, heq⟩ := append_of_mem ha
      exact hends pre.length pre a post rfl heq v hn hva
  · intro h
    induction h with
    | known h => exact (hdone.mem_iff _).mpr (.inl h)
    | src ha _ hn ih =>
      -- an item with a reached end is not left over
      rcases (hitem _).mpr ha with hout | hleft
      · exact (hdone.mem_iff _).mpr (.inr ⟨hn, _, hout, .inl rfl⟩)
      · exact absurd ih (hblocked _ hleft).2
    | dst ha _ hn ih =>
      rcases (hitem _).mpr ha with hout | hleft
      · exact (hdone.mem_iff _).mpr (.inr ⟨hn, _, hout, .inr rfl⟩)
      · exact absurd ih (hblocked _ hleft).1

/-- Every edge is consumed exactly when each is connected to a known end. -/
theorem order_perm_iff :
    (order src dst named items.length items known).1.Perm items ↔
      ∀ a ∈ items, Reached src dst named items (· ∈ known) (src a) ∨
        Reached src dst named items (· ∈ known) (dst a) := by
  have hdone : Consumed src dst named items known _ := order_consumed items.length items known
  have hblocked := @order_blocked V α _ src dst named _ items.length items known le_rfl
  constructor
  · intro hperm a ha
    obtain ⟨pre, post, heq⟩ := append_of_mem (hperm.mem_iff.mpr ha)
    obtain ⟨u, hu, hready⟩ := hdone.ready pre a post heq
    have hmem : u ∈ (order src dst named items.length items known).2.2 := by
      refine (hdone.mem_iff u).mpr (hready.imp_right ?_)
      rintro ⟨hn, b, hb, hub⟩
      exact ⟨hn, b, by rw [heq]; exact mem_append_left _ hb, hub⟩
    rcases hu with rfl | rfl
    · exact .inl (mem_order_iff_reached.mp hmem)
    · exact .inr (mem_order_iff_reached.mp hmem)
  · intro hall
    have hnil : (order src dst named items.length items known).2.1 = [] := by
      apply eq_nil_iff_forall_not_mem.mpr
      intro a ha
      have hitem : a ∈ items := hdone.perm.mem_iff.mp (mem_append_right _ ha)
      rcases hall a hitem with h | h
      · exact (hblocked a ha).1 (mem_order_iff_reached.mpr h)
      · exact (hblocked a ha).2 (mem_order_iff_reached.mpr h)
    have hperm := hdone.perm
    rwa [hnil, append_nil] at hperm

end Spread
