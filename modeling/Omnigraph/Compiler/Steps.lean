import Omnigraph.Compiler.Lower
import Omnigraph.Lib.Spread

/-!
# The expands of a block

Traversals are lowered one by one, each once one of its ends is bound. A step either closes a cycle
or introduces the other end, with the filters that waited for it. The order of the steps is that of
spreading along the traversals from the variables bound before.
-/

namespace Omnigraph.Compiler

open List Traversal

/-- `v` is an end of `t`. -/
def Traversal.Touches (t : Traversal) (v : String) : Prop := t.src = v ∨ t.dst = v

instance (t : Traversal) (v : String) : Decidable (t.Touches v) :=
  inferInstanceAs (Decidable (_ ∨ _))

/-- The node type the lowered direction of a traversal gives one of its ends. -/
def sideType (env : LowerEnv) (t : Traversal) (v : String) : Option String :=
  (env.catalog.lookupEdgeByName t.edgeName).map fun edge =>
    if t.dst = v then edge.farType (loweredDirection env.typeCtx t edge)
    else edge.nearType (loweredDirection env.typeCtx t edge)

/-- The step leads to `v`, which was not bound before. A cycle-closing step leads to a temporary
variable. -/
def Step.Introduces (s : Step) (v : String) : Prop := s.closing = false ∧ s.expand.dstVar = v

/-- The expand of a step is one of its traversal: same edge type, hops and edge binding, between its
two ends, or from its source to the temporary variable of its destination. -/
structure Step.Shape (env : LowerEnv) (s : Step) (edge : EdgeType) : Prop where
  edge_eq : env.catalog.lookupEdgeByName s.traversal.edgeName = some edge
  edgeType : s.expand.edgeType = edge.name
  minHops : s.expand.minHops = s.traversal.minHops
  maxHops : s.expand.maxHops = s.traversal.maxHops
  edgeBinding : s.expand.edgeBinding = s.traversal.namedEdgeBinding
  ends : (s.closing = true ∧ s.expand.srcVar = s.traversal.src ∧
        s.expand.dstVar = tempVar s.traversal ∧
        s.expand.direction = loweredDirection env.typeCtx s.traversal edge ∧
        s.expand.dstType = edge.farType s.expand.direction) ∨
      (s.closing = false ∧ s.traversal.src ≠ s.traversal.dst ∧
        s.expand.srcVar = s.traversal.src ∧ s.expand.dstVar = s.traversal.dst ∧
        s.expand.direction = loweredDirection env.typeCtx s.traversal edge ∧
        s.expand.dstType = edge.farType s.expand.direction) ∨
      (s.closing = false ∧ s.traversal.src ≠ s.traversal.dst ∧
        s.expand.srcVar = s.traversal.dst ∧ s.expand.dstVar = s.traversal.src ∧
        s.expand.direction = (loweredDirection env.typeCtx s.traversal edge).reverse ∧
        s.expand.dstType = edge.nearType (loweredDirection env.typeCtx s.traversal edge))

/-- What lowering one traversal does to the state. -/
inductive StepTaken (env : LowerEnv) (st st' : ExpandState) (s : Step) : Prop
  | closes (hclosing : s.closing = true) (hsrc : s.traversal.src ∈ st.bound)
      (hdst : s.traversal.dst ∈ st.bound) (hfilters : s.expand.dstFilters = [])
      (hbound : st'.bound = st.bound) (hdeferred : st'.deferredFilters = st.deferredFilters)
  | introduces (v u : String) (hintro : s.Introduces v) (hv : v ∉ st.bound) (hu : u ∈ st.bound)
      (hends : (s.traversal.src = u ∧ s.traversal.dst = v) ∨
        (s.traversal.dst = u ∧ s.traversal.src = v))
      (htype : sideType env s.traversal v = some s.expand.dstType)
      (hfilters : s.expand.dstFilters = (st.deferredFilters.lookup v).getD [])
      (hbound : st'.bound = bindIntroduced v st.bound)
      (hdeferred : st'.deferredFilters = st.deferredFilters.erase v)

variable {st' : ExpandState} {t : Traversal}

/-- Lowering a traversal with a bound end adds one step. -/
lemma lowerTraversal_ok {env : LowerEnv} {st : ExpandState}
    (hready : ¬ (t.src ∉ st.bound ∧ t.dst ∉ st.bound)) (h : lowerTraversal env t st = .ok st') :
    ∃ s edge, st'.steps = st.steps ++ [s] ∧ s.traversal = t ∧ s.Shape env edge ∧
      StepTaken env st st' s := by
  unfold lowerTraversal at h
  cases hedge : env.catalog.lookupEdgeByName t.edgeName with
  | none => rw [hedge] at h; cases h
  | some edge =>
    rw [hedge] at h
    dsimp only at h
    split_ifs at h with hboth hdst
    · cases h
      exact ⟨_, edge, rfl, rfl, ⟨hedge, rfl, rfl, rfl, rfl, .inl ⟨rfl, rfl, rfl, rfl, rfl⟩⟩,
        .closes rfl hboth.1 hboth.2 rfl rfl rfl⟩
    · cases h
      have hsrc : t.src ∉ st.bound := fun hsrc => hboth ⟨hsrc, hdst⟩
      have hne : t.src ≠ t.dst := fun heq => hsrc (heq ▸ hdst)
      refine ⟨_, edge, rfl, rfl, ⟨hedge, rfl, rfl, rfl, rfl,
        .inr (.inr ⟨rfl, hne, rfl, rfl, rfl, rfl⟩)⟩,
        .introduces t.src t.dst ⟨rfl, rfl⟩ hsrc hdst (.inr ⟨rfl, rfl⟩) ?_ rfl rfl rfl⟩
      simp only [sideType, hedge, Option.map_some, if_neg hne.symm]
    · cases h
      have hsrc : t.src ∈ st.bound := by
        by_contra hsrc
        exact hready ⟨hsrc, hdst⟩
      have hne : t.src ≠ t.dst := fun heq => hdst (heq ▸ hsrc)
      refine ⟨_, edge, rfl, rfl, ⟨hedge, rfl, rfl, rfl, rfl,
        .inr (.inl ⟨rfl, hne, rfl, rfl, rfl, rfl⟩)⟩,
        .introduces t.dst t.src ⟨rfl, rfl⟩ hdst hsrc (.inl ⟨rfl, rfl⟩) ?_ rfl rfl rfl⟩
      simp only [sideType, hedge, Option.map_some, if_true]

/-! ### Runs of steps -/

/-- The states reached by lowering ready traversals one after the other. -/
inductive Trace (env : LowerEnv) (bound : List String)
    (waiting : HashMap String (List IRFilter)) : ExpandState → Prop
  | start : Trace env bound waiting ⟨[], bound, waiting⟩
  | step {st st' : ExpandState} {t : Traversal} (h : Trace env bound waiting st)
      (hready : ¬ (t.src ∉ st.bound ∧ t.dst ∉ st.bound))
      (hst : lowerTraversal env t st = .ok st') : Trace env bound waiting st'

namespace Trace

variable {env : LowerEnv} {bound : List String} {waiting : HashMap String (List IRFilter)}
  {st : ExpandState}

variable (h : Trace env bound waiting st)

include h in
lemma shape : ∀ s ∈ st.steps, ∃ edge, s.Shape env edge := by
  induction h with
  | start => simp
  | step _ hready hst ih =>
    obtain ⟨s, edge, hsteps, -, hshape, -⟩ := lowerTraversal_ok hready hst
    intro s' hs'
    rw [hsteps, mem_append, mem_singleton] at hs'
    rcases hs' with hs' | rfl
    · exact ih s' hs'
    · exact ⟨edge, hshape⟩

variable {v : String}

include h in
/-- Bound are the variables bound before and the ends of the traversals lowered. -/
lemma mem_bound : v ∈ st.bound ↔ v ∈ bound ∨ (v ≠ "_" ∧ ∃ s ∈ st.steps, s.traversal.Touches v) := by
  induction h with
  | start => simp
  | @step st st' t _ hready hst ih =>
    obtain ⟨s, edge, hsteps, -, -, htaken⟩ := lowerTraversal_ok hready hst
    rw [hsteps]
    simp only [mem_append, mem_singleton, or_and_right, exists_or, exists_eq_left,
      and_or_left]
    rw [← or_assoc, ← ih]
    cases htaken with
    | closes _ hsrc hdst _ hbound _ =>
      rw [hbound]
      constructor
      · exact .inl
      · rintro (hv | ⟨-, rfl | rfl⟩)
        · exact hv
        · exact hsrc
        · exact hdst
    | introduces w u hintro _ hu hends _ _ hbound _ =>
      rw [hbound, bindIntroduced]
      constructor
      · intro hv
        split_ifs at hv with hw
        · rcases mem_cons.mp hv with rfl | hv
          · exact .inr ⟨hw, hends.elim (fun h => .inr h.2) fun h => .inl h.2⟩
          · exact .inl hv
        · exact .inl hv
      · intro hv
        have hcases : v ∈ st.bound ∨ (v ≠ "_" ∧ v = w) := by
          rcases hv with hv | ⟨hn, htouch⟩
          · exact .inl hv
          · rcases hends with ⟨rfl, rfl⟩ | ⟨rfl, rfl⟩ <;> rcases htouch with rfl | rfl
            · exact .inl hu
            · exact .inr ⟨hn, rfl⟩
            · exact .inr ⟨hn, rfl⟩
            · exact .inl hu
        split_ifs with hw
        · exact mem_cons.mpr (hcases.symm.imp_left And.right)
        · rcases hcases with hv | ⟨hn, rfl⟩
          · exact hv
          · exact absurd hn hw

include h in
/-- A variable bound before is never introduced. -/
lemma not_introduces (hv : v ∈ bound) : ∀ s ∈ st.steps, ¬ s.Introduces v := by
  induction h with
  | start => simp
  | step htrace hready hst ih =>
    obtain ⟨s, edge, hsteps, -, -, htaken⟩ := lowerTraversal_ok hready hst
    intro s' hs' hintro'
    rw [hsteps, mem_append, mem_singleton] at hs'
    rcases hs' with hs' | rfl
    · exact ih s' hs' hintro'
    · cases htaken with
      | closes hclosing => rw [hintro'.1] at hclosing; cases hclosing
      | introduces w u hintro hw =>
        obtain rfl : w = v := hintro.2.symm.trans hintro'.2
        exact hw (htrace.mem_bound.mpr (.inl hv))

/-- The first step that touches a variable not bound before introduces it: with the type the
traversal gives it and the filters that waited for it. -/
structure Introduced (env : LowerEnv) (waiting : HashMap String (List IRFilter))
    (steps : List Step) (v : String) (s : Step) : Prop where
  first : steps.find? (fun s => s.traversal.Touches v) = some s
  introduces : s.Introduces v
  filters : s.expand.dstFilters = (waiting.lookup v).getD []
  type : sideType env s.traversal v = some s.expand.dstType
  unique : ∀ s' ∈ steps, s'.Introduces v → s' = s

include h in
/-- A variable that is not bound is brought in by a step, or its filters still wait. -/
lemma introduced_or_waiting (hv : v ∉ bound) (hn : v ≠ "_") :
    ((∀ s ∈ st.steps, ¬ s.traversal.Touches v) ∧
        st.deferredFilters.lookup v = waiting.lookup v) ∨
      ∃ s, Introduced env waiting st.steps v s := by
  induction h with
  | start => exact .inl ⟨by simp, rfl⟩
  | @step st st' t htrace hready hst ih =>
    obtain ⟨s, edge, hsteps, -, -, htaken⟩ := lowerTraversal_ok hready hst
    rcases ih with ⟨hfresh, hwaiting⟩ | ⟨s₀, hs₀⟩
    · have hnot : v ∉ st.bound := fun hmem => by
        rcases htrace.mem_bound.mp hmem with hmem | ⟨-, s', hs', htouch⟩
        · exact hv hmem
        · exact hfresh s' hs' htouch
      by_cases htouch : s.traversal.Touches v
      · -- the step that is taken is the first one to touch `v`
        right
        cases htaken with
        | closes _ hsrc hdst =>
          rcases htouch with rfl | rfl
          · exact absurd hsrc hnot
          · exact absurd hdst hnot
        | introduces w u hintro _ hu hends htype hfilters =>
          obtain rfl : w = v := by
            rcases hends with ⟨rfl, rfl⟩ | ⟨rfl, rfl⟩ <;> rcases htouch with rfl | rfl
            · exact absurd hu hnot
            · rfl
            · rfl
            · exact absurd hu hnot
          refine ⟨s, ?_, hintro, by rw [hfilters, hwaiting], htype, ?_⟩
          · rw [hsteps, List.find?_append]
            have hnone : st.steps.find? (fun s => decide (s.traversal.Touches w)) = none :=
              List.find?_eq_none.mpr fun s' hs' => by simpa using hfresh s' hs'
            rw [hnone]
            simp [htouch]
          · intro s' hs' hintro'
            rw [hsteps, mem_append, mem_singleton] at hs'
            rcases hs' with hs' | rfl
            · obtain ⟨edge', hshape⟩ := htrace.shape s' hs'
              exfalso
              apply hfresh s' hs'
              rcases hshape.ends with ⟨hc, -⟩ | ⟨-, -, -, hdst, -⟩ | ⟨-, -, -, hdst, -⟩
              · rw [hintro'.1] at hc; cases hc
              · exact .inr (hdst.symm.trans hintro'.2)
              · exact .inl (hdst.symm.trans hintro'.2)
            · rfl
      · left
        refine ⟨?_, ?_⟩
        · intro s' hs'
          rw [hsteps, mem_append, mem_singleton] at hs'
          rcases hs' with hs' | rfl
          · exact hfresh s' hs'
          · exact htouch
        · cases htaken with
          | closes _ _ _ _ _ hdeferred => rw [hdeferred, hwaiting]
          | introduces w u hintro _ hu hends _ _ _ hdeferred =>
            have hne : v ≠ w := by
              rintro rfl
              exact htouch (hends.elim (fun h => .inr h.2) fun h => .inl h.2)
            rw [hdeferred, AList.lookup_erase_ne hne, hwaiting]
    · right
      refine ⟨s₀, ?_, hs₀.introduces, hs₀.filters, hs₀.type, ?_⟩
      · rw [hsteps, List.find?_append, hs₀.first]
        rfl
      · intro s' hs' hintro'
        rw [hsteps, mem_append, mem_singleton] at hs'
        rcases hs' with hs' | rfl
        · exact hs₀.unique s' hs' hintro'
        · exfalso
          have hmem : v ∈ st.bound := htrace.mem_bound.mpr (.inr ⟨hn, s₀,
            mem_of_find?_eq_some hs₀.first,
            by simpa using List.find?_some hs₀.first⟩)
          cases htaken with
          | closes hclosing => rw [hintro'.1] at hclosing; cases hclosing
          | introduces w u hintro hw =>
            obtain rfl : w = v := hintro.2.symm.trans hintro'.2
            exact hw hmem

end Trace

/-! ### The loop -/

/-- Traversals reached one after the other, when the list is gone through again and again in its
order from the variables in `bound`. -/
def reachOrder (traversals : List Traversal) (bound : List String) : List Traversal :=
  (Spread.order src dst (· ≠ "_") traversals.length traversals bound).1

/-- `v` is connected to a variable of `known` by traversals of the list. -/
def Reached (traversals : List Traversal) (known : String → Prop) (v : String) : Prop :=
  Spread.Reached src dst (· ≠ "_") traversals known v

section Loop

variable {env : LowerEnv} {bound : List String} {waiting : HashMap String (List IRFilter)}

/-- The run of the loop lowers the traversals that spreading consumes, in that order. -/
structure Follows (env : LowerEnv) (bound : List String)
    (waiting : HashMap String (List IRFilter)) (st st' : ExpandState) (consumed : List Traversal)
    (known : List String) : Prop where
  trace : Trace env bound waiting st'
  order : st'.steps.map Step.traversal = st.steps.map Step.traversal ++ consumed
  same : ∀ v, v ∈ st'.bound ↔ v ∈ known

variable {known : List String} {ts : List Traversal}

lemma lowerTraversal_follows {st : ExpandState} (htrace : Trace env bound waiting st)
    (hsame : ∀ v, v ∈ st.bound ↔ v ∈ known) (hready : ¬ (t.src ∉ st.bound ∧ t.dst ∉ st.bound))
    (hst : lowerTraversal env t st = .ok st') :
    Follows env bound waiting st st' [t]
      (Spread.learn src dst (· ≠ "_") known t) := by
  have htrace' := Trace.step htrace hready hst
  obtain ⟨s, edge, hsteps, ht, -, -⟩ := lowerTraversal_ok hready hst
  refine ⟨htrace', by rw [hsteps]; simp [ht], fun v => ?_⟩
  rw [htrace'.mem_bound, Spread.mem_learn, ← hsame v, htrace.mem_bound, hsteps]
  simp only [mem_append, mem_singleton, or_and_right, exists_or, exists_eq_left, ht,
    Traversal.Touches, @eq_comm _ _ v]
  generalize (∃ s ∈ st.steps, v = s.traversal.src ∨ v = s.traversal.dst) = touched
  tauto

/-- A pass takes the traversals that have a bound end. -/
lemma expandPass_follows {next : List Traversal} {st : ExpandState}
    (htrace : Trace env bound waiting st) (hsame : ∀ v, v ∈ st.bound ↔ v ∈ known)
    (h : expandPass env ts st = .ok (next, st')) :
    next = (Spread.pass src dst (· ≠ "_") ts known).2.1 ∧
      Follows env bound waiting st st'
        (Spread.pass src dst (· ≠ "_") ts known).1
        (Spread.pass src dst (· ≠ "_") ts known).2.2 := by
  induction ts generalizing st next known with
  | nil =>
    cases h
    exact ⟨rfl, htrace, by simp [Spread.pass], hsame⟩
  | cons t rest ih =>
    rw [expandPass] at h
    rw [Spread.pass]
    have hready : (t.src ∉ st.bound ∧ t.dst ∉ st.bound) ↔ (t.src ∉ known ∧ t.dst ∉ known) := by
      rw [hsame, hsame]
    by_cases hfree : t.src ∉ st.bound ∧ t.dst ∉ st.bound
    · rw [if_pos hfree, Except.bind_eq_ok_iff] at h
      obtain ⟨⟨next', st₁⟩, hpass, heq⟩ := h
      cases heq
      rw [if_pos (hready.mp hfree)]
      obtain ⟨hnext, hfollows⟩ := ih htrace hsame hpass
      exact ⟨by rw [hnext], hfollows⟩
    · rw [if_neg hfree, Except.bind_eq_ok_iff] at h
      obtain ⟨st₁, hst₁, hpass⟩ := h
      rw [if_neg (fun hk => hfree (hready.mpr hk))]
      have hone := lowerTraversal_follows htrace hsame hfree hst₁
      obtain ⟨hnext, hfollows⟩ := ih hone.trace hone.same hpass
      refine ⟨hnext, hfollows.trace, ?_, hfollows.same⟩
      rw [hfollows.order, hone.order, append_assoc, singleton_append]

/-- The loop takes the traversals in the order of their spread. -/
lemma expandLoop_follows {fuel : ℕ} {st : ExpandState} (htrace : Trace env bound waiting st)
    (hsame : ∀ v, v ∈ st.bound ↔ v ∈ known) (h : expandLoop env fuel ts st = .ok st') :
    Follows env bound waiting st st'
      (Spread.order src dst (· ≠ "_") fuel ts known).1
      (Spread.order src dst (· ≠ "_") fuel ts known).2.2 := by
  induction fuel generalizing ts st known with
  | zero =>
    cases h
    exact ⟨htrace, by simp [Spread.order], hsame⟩
  | succ fuel ih =>
    rw [expandLoop] at h
    rw [Spread.order]
    by_cases hempty : ts.isEmpty = true
    · rw [if_pos hempty] at h
      cases h
      rw [List.isEmpty_iff.mp hempty]
      exact ⟨htrace, by simp [Spread.pass], hsame⟩
    · rw [if_neg hempty, Except.bind_eq_ok_iff] at h
      obtain ⟨⟨next, st₁⟩, hpass, hloop⟩ := h
      obtain ⟨rfl, hfollows⟩ := expandPass_follows htrace hsame hpass
      dsimp only at hloop
      split_ifs at hloop ⊢ with hlen
      · cases hloop
        -- a pass that keeps every traversal has consumed none
        have hdone := @Spread.pass_consumed String Traversal _ src dst
          (· ≠ "_") _ ts known
        have hnone : (Spread.pass src dst (· ≠ "_") ts known).1 = [] := by
          have hlength := hdone.perm.length_eq
          rw [length_append, hlen] at hlength
          exact eq_nil_of_length_eq_zero (by omega)
        refine ⟨hfollows.trace, by rw [hfollows.order, hnone], fun v => ?_⟩
        rw [hfollows.same v, hdone.mem_iff v, hnone]
        simp
      · have hrest := ih hfollows.trace hfollows.same hloop
        refine ⟨hrest.trace, ?_, hrest.same⟩
        rw [hrest.order, hfollows.order, append_assoc]

/-- The expands of a block: the steps follow `reachOrder`, and bound at last are the variables
connected to one that was bound before. Only which variables are bound matters, not their order. -/
theorem expandLoop_spec (hsame : ∀ v, v ∈ bound ↔ v ∈ known)
    (h : expandLoop env ts.length ts ⟨[], bound, waiting⟩ = .ok st') :
    Trace env bound waiting st' ∧ st'.steps.map Step.traversal = reachOrder ts known ∧
      ∀ v, v ∈ st'.bound ↔ Reached ts (· ∈ known) v := by
  have hfollows := expandLoop_follows Trace.start hsame h
  refine ⟨hfollows.trace, by simpa [reachOrder] using hfollows.order, fun v => ?_⟩
  rw [hfollows.same v]
  exact Spread.mem_order_iff_reached

/-- Every traversal is reached exactly when each is connected to a bound variable. -/
lemma reachOrder_perm_iff {bound : List String} :
    (reachOrder ts bound).Perm ts ↔
      ∀ t ∈ ts, Reached ts (· ∈ bound) t.src ∨ Reached ts (· ∈ bound) t.dst :=
  Spread.order_perm_iff

end Loop

end Omnigraph.Compiler
