import Omnigraph.Compiler.Deferral
import Omnigraph.Compiler.Orientation

/-!
# What a lowered block keeps of its clauses

A block keeps a traversal if it is expanded, and a binding if its type and each of its inline
matches stand at a scan of the variable, at the expand that introduces it or in a filter. Scanned
bindings are always kept. A deferred one is kept if an expand introduces its variable with the
declared type and the filters that waited under its name are its own.
-/

namespace Omnigraph.Compiler

open List

/-! ### Scans and waiting filters -/

/-- The inline matches of a binding as filters. -/
def inlineFilters (env : LowerEnv) (b : Binding) : List IRFilter :=
  match buildBindingFilters env b with
  | .ok filters => filters
  | .error _ => []

variable {b : Binding} {env : LowerEnv} {filters : List IRFilter}

lemma inlineFilters_eq (h : buildBindingFilters env b = .ok filters) :
    inlineFilters env b = filters := by
  rw [inlineFilters, h]

/-- The filters of the last binding of a variable that has inline matches. -/
def lastInline (env : LowerEnv) (bindings : List Binding) (v : String) : List IRFilter :=
  ((bindings.filter fun b => b.var = v ∧ inlineFilters env b ≠ []).getLast?.map
    (inlineFilters env)).getD []

/-- What lowering the bindings has done. -/
structure Scanned (env : LowerEnv) (deferred bound : List String) (bindings : List Binding)
    (st : ScanState) : Prop where
  scans : ∀ op, op ∈ st.scans ↔ ∃ b ∈ bindings, b.var ∉ deferred ∧
    op = .nodeScan b.var b.typeName (inlineFilters env b)
  bound : ∀ v, v ∈ st.bound ↔ v ∈ bound ∨ ∃ b ∈ bindings, b.var ∉ deferred ∧ b.var = v
  waiting : ∀ v ∈ deferred, (st.deferredFilters.lookup v).getD [] = lastInline env bindings v

variable {bindings : List Binding} {v : String} {bound deferred : List String} {st' : ScanState}

lemma lastInline_append_singleton :
    lastInline env (bindings ++ [b]) v =
      if b.var = v ∧ inlineFilters env b ≠ [] then inlineFilters env b
      else lastInline env bindings v := by
  unfold lastInline
  rw [filter_append]
  split_ifs with h
  · rw [filter_cons_of_pos (by simpa using h), filter_nil, List.getLast?_append]
    simp
  · rw [filter_cons_of_neg (by simpa using h), filter_nil, append_nil]

/-- Lowering a binding adds its scan and the filters it settles. -/
lemma Scanned.lowerBinding {pre : List Binding} {st : ScanState}
    (hst : Scanned env deferred bound pre st) (h : lowerBinding env deferred st b = .ok st') :
    Scanned env deferred bound (pre ++ [b]) st' := by
  unfold Compiler.lowerBinding at h
  rw [Except.bind_eq_ok_iff] at h
  obtain ⟨filters, hfilters, h⟩ := h
  have hinline := inlineFilters_eq hfilters
  split_ifs at h with hdef hempty
  · -- a deferred binding without inline matches leaves everything as it is
    cases h
    have hnil : inlineFilters env b = [] := by rw [hinline, List.isEmpty_iff.mp hempty]
    refine ⟨fun op => ?_, fun v => ?_, fun v hv => ?_⟩
    · rw [hst.scans op]
      simp [hdef, or_and_right, exists_or]
    · rw [hst.bound v]
      simp [hdef, or_and_right, exists_or]
    · rw [hst.waiting v hv, lastInline_append_singleton, if_neg (by simp [hnil])]
  · cases h
    have hne : inlineFilters env b ≠ [] := by
      rw [hinline]
      exact fun heq => hempty (by simp [heq])
    refine ⟨fun op => ?_, fun v => ?_, fun v hv => ?_⟩
    · rw [hst.scans op]
      simp [hdef, or_and_right, exists_or]
    · rw [hst.bound v]
      simp [hdef, or_and_right, exists_or]
    · rw [lastInline_append_singleton, HashMap.lookup_insert_ite]
      by_cases hvb : b.var = v
      · rw [if_pos hvb.symm, if_pos ⟨hvb, hne⟩, hinline]
        rfl
      · rw [if_neg (Ne.symm hvb), if_neg (fun h => hvb h.1), hst.waiting v hv]
  · cases h
    refine ⟨fun op => ?_, fun v => ?_, fun v hv => ?_⟩
    · rw [mem_append, hst.scans op, mem_singleton]
      simp [hdef, hinline, or_and_right, exists_or]
    · rw [mem_cons, hst.bound v]
      simp only [mem_append, mem_singleton, or_and_right, exists_or, exists_eq_left,
        hdef, not_false_eq_true, true_and, @eq_comm _ v]
      rw [or_comm, or_assoc]
    · have hne : ¬ (b.var = v ∧ inlineFilters env b ≠ []) := by
        rintro ⟨rfl, -⟩
        exact hdef hv
      rw [hst.waiting v hv, lastInline_append_singleton, if_neg hne]

lemma scanned_foldlM (h : bindings.foldlM (lowerBinding env deferred) ⟨[], bound, ∅⟩ = .ok st') :
    Scanned env deferred bound bindings st' := by
  refine Ensures.value (Ensures.foldlM (E := fun _ => True)
    (fun pre st => Scanned env deferred bound pre st) ?_ ?_) h
  · exact ⟨by simp, by simp, by simp [lastInline]⟩
  · intro pre b post st _ hst
    exact Ensures.of_ok fun st' hst' => hst.lowerBinding hst'

/-! ### Complete blocks -/

/-- The expands among some operations; those inside anti-joins do not count. -/
def expandsOf (ops : List IROp) : List Expand :=
  ops.filterMap fun op => match op with
    | .expand e => some e
    | _ => none

/-- The type of a binding and each of its inline matches stand at a scan of its variable, at the
expand that introduces it or in a filter. -/
structure Block.Keeps (env : LowerEnv) (block : Block) (b : Binding) : Prop where
  type : (∃ filters, .nodeScan b.var b.typeName filters ∈ block.scans) ∨
    ∃ s ∈ block.steps, s.Introduces b.var ∧ s.expand.dstType = b.typeName
  filters : ∀ f ∈ inlineFilters env b,
    (∃ typeName filters, .nodeScan b.var typeName filters ∈ block.scans ∧ f ∈ filters) ∨
    (∃ s ∈ block.steps, s.Introduces b.var ∧ f ∈ s.expand.dstFilters) ∨ .filter f ∈ block.ops

/-- No clause of the block is lost: the operations of its pipeline begin with those of the block,
their expands are those of the steps, one for each traversal clause, and every binding is kept. -/
structure Scope.Complete (env : LowerEnv) (scope : Scope) (block : Block) : Prop where
  lowered : lowerBlock env scope.clauses scope.bound = .ok block
  pipeline : block.ops <+: scope.ops
  expands : expandsOf scope.ops = block.steps.map Step.expand
  shape : ∀ s ∈ block.steps, ∃ edge, s.Shape env edge
  traversals : (block.steps.map Step.traversal).Perm (traversalsOf scope.clauses)
  bindings : ∀ b ∈ bindingsOf scope.clauses, block.Keeps env b

/-- The variables a block starts to expand from. -/
def startVars (clauses : List Clause) (bound : List String) : List String :=
  ((bindingsOf clauses).map Binding.var).filter
    (· ∉ deferredSet (bindingsOf clauses) (traversalsOf clauses)) ++ bound

/-- The traversal that first reaches a variable. -/
def introducer (clauses : List Clause) (bound : List String) (v : String) : Option Traversal :=
  (reachOrder (traversalsOf clauses) (startVars clauses bound)).find? (·.Touches v)

/-- The explicit filters of a block. -/
def explicitFilters (env : LowerEnv) (clauses : List Clause) : List IRFilter :=
  (filtersOf clauses).map (lowerFilter env
    (localBindings env.catalog (bindingsOf clauses) (traversalsOf clauses)))

/-- When a block keeps all its clauses. -/
structure Kept (env : LowerEnv) (clauses : List Clause) (bound : List String) : Prop where
  /-- Every traversal is connected to a variable bound in the block or before it. -/
  connected : ∀ t ∈ traversalsOf clauses, ∃ v, t.Touches v ∧
    Reached (traversalsOf clauses) (fun u => u ∈ bound ∨ ∃ b ∈ bindingsOf clauses, b.var = u) v
  /-- A deferred variable is not bound before the block. -/
  fresh : ∀ b ∈ bindingsOf clauses, Deferred clauses b.var → b.var ∉ bound
  /-- The traversal that reaches it first gives it the type of its bindings. -/
  typed : ∀ b ∈ bindingsOf clauses, Deferred clauses b.var →
    (introducer clauses bound b.var).bind (sideType env · b.var) = some b.typeName
  /-- Each inline match of its bindings is one of the last binding that has any, or an explicit
  filter. -/
  matched : ∀ b ∈ bindingsOf clauses, Deferred clauses b.var → ∀ f ∈ inlineFilters env b,
    f ∈ lastInline env (bindingsOf clauses) b.var ∨ f ∈ explicitFilters env clauses

/-! ### The two agree -/

/-- A block as lowered, with what is known of its parts. -/
structure Block.Parts (env : LowerEnv) (clauses : List Clause) (bound : List String)
    (block : Block) : Prop where
  scans : ∀ op, op ∈ block.scans ↔ ∃ b ∈ bindingsOf clauses,
    b.var ∉ deferredSet (bindingsOf clauses) (traversalsOf clauses) ∧
      op = .nodeScan b.var b.typeName (inlineFilters env b)
  order : block.steps.map Step.traversal =
    reachOrder (traversalsOf clauses) (startVars clauses bound)
  shape : ∀ s ∈ block.steps, ∃ edge, s.Shape env edge
  /-- A variable the block starts from is not introduced. -/
  started : ∀ v ∈ startVars clauses bound, ∀ s ∈ block.steps, ¬ s.Introduces v
  /-- A deferred one is, once a step touches it. -/
  introduced : ∀ v ∈ deferredSet (bindingsOf clauses) (traversalsOf clauses), v ∉ bound →
    v ≠ "_" → (∃ s ∈ block.steps, s.traversal.Touches v) →
    ∃ s ∈ block.steps, introducer clauses bound v = some s.traversal ∧ s.Introduces v ∧
      s.expand.dstFilters = lastInline env (bindingsOf clauses) v ∧
      sideType env s.traversal v = some s.expand.dstType ∧
      ∀ s' ∈ block.steps, s'.Introduces v → s' = s
  reached : ∀ v, v ∈ block.bound ↔ Reached (traversalsOf clauses) (· ∈ startVars clauses bound) v
  touched : ∀ v ∈ block.bound, v ∉ startVars clauses bound →
    ∃ s ∈ block.steps, s.traversal.Touches v
  filters : block.filters = explicitFilters env clauses

variable {clauses : List Clause} {block : Block} {f : IRFilter}

lemma mem_startVars :
    v ∈ startVars clauses bound ↔ v ∈ bound ∨ ∃ b ∈ bindingsOf clauses,
      b.var ∉ deferredSet (bindingsOf clauses) (traversalsOf clauses) ∧ b.var = v := by
  rw [startVars, mem_append, or_comm, mem_filter, List.mem_map]
  refine or_congr_right ⟨?_, ?_⟩
  · rintro ⟨⟨b, hb, rfl⟩, hdef⟩
    exact ⟨b, hb, by simpa using hdef, rfl⟩
  · rintro ⟨b, hb, hdef, rfl⟩
    exact ⟨⟨b, hb, rfl⟩, by simpa using hdef⟩

lemma deferred_not_start (hdef : v ∈ deferredSet (bindingsOf clauses) (traversalsOf clauses))
    (hv : v ∉ bound) : v ∉ startVars clauses bound := by
  rw [mem_startVars]
  rintro (h | ⟨b, -, hnot, rfl⟩)
  · exact hv h
  · exact hnot hdef

lemma lowerBlock_parts (h : lowerBlock env clauses bound = .ok block) :
    block.Parts env clauses bound := by
  obtain ⟨scanned, expanded, hscanned, hexpanded, rfl⟩ := lowerBlock_ok h
  have hscan := scanned_foldlM hscanned
  have hsame : ∀ v, v ∈ scanned.bound ↔ v ∈ startVars clauses bound := by
    intro v
    rw [hscan.bound v, mem_startVars]
  obtain ⟨htrace, horder, hbound⟩ := expandLoop_spec hsame hexpanded
  refine ⟨hscan.scans, horder, htrace.shape, ?_, ?_, hbound, ?_, rfl⟩
  · exact fun v hv => htrace.not_introduces ((hsame v).mpr hv)
  · rintro v hdef hv hn ⟨s₁, hs₁, htouch⟩
    have hstart : v ∉ scanned.bound := fun hmem => deferred_not_start hdef hv ((hsame v).mp hmem)
    rcases htrace.introduced_or_waiting hstart hn with ⟨hnone, -⟩ | ⟨s, hs⟩
    · exact absurd htouch (hnone s₁ hs₁)
    · refine ⟨s, mem_of_find?_eq_some hs.first, ?_, hs.introduces, ?_, hs.type, hs.unique⟩
      · rw [introducer, ← horder, List.find?_map]
        have hfirst := hs.first
        simp only [Function.comp_def]
        rw [hfirst]
        rfl
      · rw [hs.filters, hscan.waiting v hdef]
  · intro v hv hstart
    rcases htrace.mem_bound.mp hv with hmem | ⟨-, htouch⟩
    · exact absurd ((hsame v).mp hmem) hstart
    · exact htouch

/-- Starting from the scanned bindings reaches what starting from all of them would: a deferred
variable is connected to a scanned one. -/
lemma reached_start_iff :
    Reached (traversalsOf clauses) (· ∈ startVars clauses bound) v ↔
      Reached (traversalsOf clauses)
        (fun u => u ∈ bound ∨ ∃ b ∈ bindingsOf clauses, b.var = u) v := by
  constructor
  · intro h
    induction h with
    | known h =>
      refine .known ((mem_startVars.mp h).imp_right ?_)
      rintro ⟨b, hb, -, hv⟩
      exact ⟨b, hb, hv⟩
    | src ha _ hn ih => exact .src ha ih hn
    | dst ha _ hn ih => exact .dst ha ih hn
  · intro h
    induction h with
    | known h =>
      rcases h with h | ⟨b, hb, rfl⟩
      · exact .known (mem_startVars.mpr (.inl h))
      · obtain ⟨r, hr, hdef, hlink⟩ := exists_root hb
        exact hlink.reached (.known (mem_startVars.mpr (.inr ⟨r, hr, hdef, rfl⟩)))
    | src ha _ hn ih => exact .src ha ih hn
    | dst ha _ hn ih => exact .dst ha ih hn

/-- An inline match compares with a value, never with another property. -/
lemma inlineFilters_right (hf : f ∈ inlineFilters env b) (v property : String) :
    f.right ≠ .propAccess v property := by
  unfold inlineFilters buildBindingFilters at hf
  cases htype : env.catalog.nodeTypes.lookup b.typeName with
  | none => rw [htype] at hf; cases hf
  | some nodeType =>
    rw [htype] at hf
    dsimp only at hf
    cases hmap : b.propMatches.mapM (buildBindingFilter env.paramNames b.var nodeType) with
    | error e => rw [hmap] at hf; cases hf
    | ok filters =>
      rw [hmap] at hf
      obtain ⟨pm, -, hpm⟩ := (Except.mem_mapM hmap).mp hf
      unfold buildBindingFilter at hpm
      cases hprop : nodeType.properties.lookup pm.propName with
      | none => rw [hprop] at hpm; cases hpm
      | some prop =>
        rw [hprop] at hpm
        cases hpm
        cases hvalue : pm.value with
        | literal l => simp [lowerMatchValue]
        | now => simp [lowerMatchValue]
        | var name =>
          simp only [lowerMatchValue, lowerName]
          split_ifs <;> simp

lemma filter_mem_steps {steps : List Step} :
    IROp.filter f ∈ steps.flatMap Step.ops ↔
      ∃ s ∈ steps, s.closing = true ∧ f = closingFilter s.traversal := by
  simp only [mem_flatMap, Step.ops]
  refine exists_congr fun s => and_congr_right fun _ => ?_
  by_cases hc : s.closing = true
  · simp [hc]
  · simp [hc]

variable (h : block.Parts env clauses bound)

include h in
/-- Among the operations of a block an inline match is a filter only if an explicit one is equal to
it. -/
lemma Block.Parts.filter_mem_iff (hf : f ∈ inlineFilters env b) :
    IROp.filter f ∈ block.ops ↔ f ∈ explicitFilters env clauses := by
  rw [Block.ops, mem_append, mem_append, filter_mem_steps, h.filters]
  constructor
  · rintro ((hscan | ⟨s, -, -, rfl⟩) | hexp)
    · obtain ⟨b', -, -, hop⟩ := (h.scans _).mp hscan
      cases hop
    · exact absurd rfl (inlineFilters_right hf _ _)
    · simpa using hexp
  · exact fun hexp => .inr (List.mem_map.mpr ⟨f, hexp, rfl⟩)

include h in
/-- A scanned binding is kept. -/
lemma Block.Parts.keeps_scanned (hb : b ∈ bindingsOf clauses)
    (hdef : b.var ∉ deferredSet (bindingsOf clauses) (traversalsOf clauses)) :
    block.Keeps env b := by
  have hscan : IROp.nodeScan b.var b.typeName (inlineFilters env b) ∈ block.scans :=
    (h.scans _).mpr ⟨b, hb, hdef, rfl⟩
  exact ⟨.inl ⟨_, hscan⟩, fun f hf => .inl ⟨_, _, hscan, hf⟩⟩

include h in
/-- A deferred variable is scanned nowhere. -/
lemma Block.Parts.not_scanned {typeName : String}
    (hdef : v ∈ deferredSet (bindingsOf clauses) (traversalsOf clauses)) :
    IROp.nodeScan v typeName filters ∉ block.scans := by
  intro hscan
  obtain ⟨b, -, hnot, hop⟩ := (h.scans _).mp hscan
  cases hop
  exact hnot hdef

include h in
/-- What it takes to keep a deferred binding. -/
lemma Block.Parts.keeps_deferred_iff (hb : b ∈ bindingsOf clauses)
    (hdef : b.var ∈ deferredSet (bindingsOf clauses) (traversalsOf clauses)) :
    block.Keeps env b ↔ b.var ∉ bound ∧
      (introducer clauses bound b.var).bind (sideType env · b.var) = some b.typeName ∧
      ∀ f ∈ inlineFilters env b,
        f ∈ lastInline env (bindingsOf clauses) b.var ∨ f ∈ explicitFilters env clauses := by
  by_cases hbound : b.var ∈ bound
  · -- bound before the block: neither scanned nor introduced
    refine iff_of_false (fun hkeeps => ?_) (fun hcond => hcond.1 hbound)
    rcases hkeeps.type with ⟨_, hscan⟩ | ⟨s, hs, hintro, -⟩
    · exact h.not_scanned hdef hscan
    · exact h.started _ (mem_startVars.mpr (.inl hbound)) s hs hintro
  · have hnamed : b.var ≠ "_" := by
      obtain ⟨-, _, b₀, _, -, hne, hlink, -⟩ := mem_deferredSet_iff.mp hdef
      exact hlink.named hne
    have htouched : ∃ s ∈ block.steps, s.traversal.Touches b.var := by
      refine h.touched _ ((h.reached _).mpr (reached_start_iff.mpr (.known (.inr ⟨b, hb, rfl⟩)))) ?_
      exact deferred_not_start hdef hbound
    obtain ⟨s, hs, hfirst, hintro, hfilters, htype, huniq⟩ :=
      h.introduced _ hdef hbound hnamed htouched
    rw [hfirst, Option.bind_some, htype, Option.some.injEq]
    constructor
    · intro hkeeps
      refine ⟨hbound, ?_, fun f hf => ?_⟩
      · rcases hkeeps.type with ⟨_, hscan⟩ | ⟨s', hs', hintro', htype'⟩
        · exact absurd hscan (h.not_scanned hdef)
        · rw [← huniq s' hs' hintro', htype']
      · rcases hkeeps.filters f hf with ⟨_, _, hscan, -⟩ | ⟨s', hs', hintro', hf'⟩ | hop
        · exact absurd hscan (h.not_scanned hdef)
        · rw [huniq s' hs' hintro', hfilters] at hf'
          exact .inl hf'
        · exact .inr ((h.filter_mem_iff hf).mp hop)
    · rintro ⟨-, htype', hmatched⟩
      refine ⟨.inr ⟨s, hs, hintro, htype'⟩, fun f hf => ?_⟩
      rcases hmatched f hf with hf' | hf'
      · exact .inr (.inl ⟨s, hs, hintro, by rw [hfilters]; exact hf'⟩)
      · exact .inr (.inr ((h.filter_mem_iff hf).mpr hf'))

include h in
/-- Every traversal is expanded exactly when each is connected to a bound variable. -/
lemma Block.Parts.traversals_iff :
    (block.steps.map Step.traversal).Perm (traversalsOf clauses) ↔
      ∀ t ∈ traversalsOf clauses, ∃ v, t.Touches v ∧ Reached (traversalsOf clauses)
        (fun u => u ∈ bound ∨ ∃ b ∈ bindingsOf clauses, b.var = u) v := by
  rw [h.order, reachOrder_perm_iff]
  refine forall_congr' fun t => imp_congr_right fun _ => ?_
  rw [reached_start_iff, reached_start_iff]
  constructor
  · rintro (h | h)
    · exact ⟨t.src, .inl rfl, h⟩
    · exact ⟨t.dst, .inr rfl, h⟩
  · rintro ⟨v, rfl | rfl, h⟩
    · exact .inl h
    · exact .inr h

/-! ### The pipeline of a block -/

lemma expandsOf_append (ops ops' : List IROp) :
    expandsOf (ops ++ ops') = expandsOf ops ++ expandsOf ops' := by
  rw [expandsOf, filterMap_append]
  rfl

lemma lowerNegations_expandsOf {ops : List IROp} (h : lowerNegations env clauses bound = .ok ops) :
    expandsOf ops = [] := by
  induction clauses generalizing ops with
  | nil => cases h; rfl
  | cons clause rest ih =>
    simp only [lowerNegations, Except.bind_eq_ok_iff] at h
    obtain ⟨own, hown, others, hothers, hops⟩ := h
    cases hops
    have hnone : expandsOf own = [] := by
      cases clause with
      | negation inner =>
        simp only [lowerNegation, Except.bind_eq_ok_iff] at hown
        obtain ⟨_, -, _, -, heq⟩ := hown
        cases heq
        rfl
      | binding b => rw [lowerNegation] at hown <;> simp_all [expandsOf]
      | traversal t => rw [lowerNegation] at hown <;> simp_all [expandsOf]
      | filter f => rw [lowerNegation] at hown <;> simp_all [expandsOf]
    rw [expandsOf_append, hnone, ih hothers]
    rfl

include h in
lemma Block.Parts.expandsOf_ops : expandsOf block.ops = block.steps.map Step.expand := by
  have hscans : expandsOf block.scans = [] := by
    refine filterMap_eq_nil_iff.mpr fun op hop => ?_
    obtain ⟨b, -, -, rfl⟩ := (h.scans op).mp hop
    rfl
  have hfilters : expandsOf (block.filters.map .filter) = [] := by
    refine filterMap_eq_nil_iff.mpr fun op hop => ?_
    obtain ⟨f, -, rfl⟩ := List.mem_map.mp hop
    rfl
  have hsteps : ∀ steps : List Step,
      expandsOf (steps.flatMap Step.ops) = steps.map Step.expand := by
    intro steps
    induction steps with
    | nil => rfl
    | cons s steps ih =>
      rw [flatMap_cons, expandsOf_append, ih, map_cons, Step.ops]
      cases s.closing <;> rfl
  rw [Block.ops, expandsOf_append, expandsOf_append, hscans, hfilters, hsteps]
  simp

/-- A block loses no clause exactly when it is connected and its deferred bindings are kept. -/
lemma Scope.Lowered.complete_iff {params : ParamTypes} {scope : Scope}
    (h : scope.Lowered env params) :
    (∃ block, scope.Complete env block) ↔ Kept env scope.clauses scope.bound := by
  obtain ⟨block, antiJoins, hblock, hanti, hops⟩ := lowerClauses_ok h.lowered
  have hparts := lowerBlock_parts hblock
  constructor
  · rintro ⟨block', hcomplete⟩
    obtain rfl : block' = block := Except.ok.inj (hcomplete.lowered.symm.trans hblock)
    have hkeeps : ∀ b ∈ bindingsOf scope.clauses, Deferred scope.clauses b.var → _ :=
      fun b hb hdef => (hparts.keeps_deferred_iff hb
        (mem_deferredSet_iff.mpr ⟨⟨b, hb, rfl⟩, hdef⟩)).mp (hcomplete.bindings b hb)
    exact ⟨hparts.traversals_iff.mp hcomplete.traversals, fun b hb hdef => (hkeeps b hb hdef).1,
      fun b hb hdef => (hkeeps b hb hdef).2.1, fun b hb hdef => (hkeeps b hb hdef).2.2⟩
  · intro hkept
    refine ⟨block, hblock, by rw [hops]; exact prefix_append _ _, ?_, hparts.shape,
      hparts.traversals_iff.mpr hkept.connected, fun b hb => ?_⟩
    · rw [hops, expandsOf_append, lowerNegations_expandsOf hanti, append_nil,
        hparts.expandsOf_ops]
    · by_cases hdef : b.var ∈ deferredSet (bindingsOf scope.clauses) (traversalsOf scope.clauses)
      · have hd := (mem_deferredSet_iff.mp hdef).2
        exact (hparts.keeps_deferred_iff hb hdef).mpr
          ⟨hkept.fresh b hb hd, hkept.typed b hb hd, hkept.matched b hb hd⟩
      · exact hparts.keeps_scanned hb hdef

/-- Lowering an accepted query loses no clause, at the top or in any `not` block, exactly when each
of its blocks meets `Kept`. -/
theorem lowerQuery_complete_iff {catalog : Catalog} {query : QueryDecl} {ctx : TypeContext}
    (h : typecheckQuery catalog query = .ok ctx) :
    ∃ params ir, parseDeclaredParamTypes query.params = .ok params ∧
      lowerQuery catalog query ctx = .ok ir ∧
      ((∀ scope, Inside (query.lowerEnv catalog ctx) params (query.scope ir.pipeline) scope →
          ∃ block, scope.Complete (query.lowerEnv catalog ctx) block) ↔
        ∀ scope, Inside (query.lowerEnv catalog ctx) params (query.scope ir.pipeline) scope →
          Kept (query.lowerEnv catalog ctx) scope.clauses scope.bound) := by
  obtain ⟨params, ir, hparams, hir, htop⟩ := lowerQuery_exists h
  refine ⟨params, ir, hparams, hir, ?_⟩
  exact forall_congr' fun scope => forall_congr' fun hinside =>
    (hinside.lowered htop).complete_iff

/-- `$a knows $c` -/
def knowsTraversal : Traversal := ⟨"a", "knows", "c", 1, some 1, false, none⟩

/-- `$a: Person  $a knows $c  $c: Person { name: "Ann" }` -/
def friendsQuery : QueryDecl :=
  staffQuery [.binding ⟨"a", "Person", []⟩, .traversal knowsTraversal,
    .binding ⟨"c", "Person", [⟨"name", .literal (.string "Ann")⟩]⟩]

theorem lowerQuery_complete_friends : ∃ ctx ir,
    typecheckQuery staffCatalog friendsQuery = .ok ctx ∧
      lowerQuery staffCatalog friendsQuery ctx = .ok ir ∧
      ∃ block, (friendsQuery.scope ir.pipeline).Complete
        (friendsQuery.lowerEnv staffCatalog ctx) block := by
  obtain ⟨params, ir, hparams, hir, hiff⟩ :=
    @lowerQuery_complete_iff staffCatalog friendsQuery _ rfl
  refine ⟨_, ir, rfl, hir, hiff.mpr (fun scope hinside => ?_) _ .top⟩
  -- there is no `not` block
  have htop : scope = friendsQuery.scope ir.pipeline :=
    hinside.eq_top (by simp [QueryDecl.scope, friendsQuery, staffQuery])
  subst htop
  have hbindings : ∀ b ∈ bindingsOf friendsQuery.matchClause, b = ⟨"a", "Person", []⟩ ∨
      b = ⟨"c", "Person", [⟨"name", .literal (.string "Ann")⟩]⟩ := by
    simp [bindingsOf, friendsQuery, staffQuery, Clause.binding?]
  refine ⟨fun t ht => ⟨"a", ?_, .known (.inr ⟨⟨"a", "Person", []⟩, mem_cons_self, rfl⟩)⟩,
    fun _ _ _ => not_mem_nil, fun b hb _ => ?_, fun b hb _ f hf => ?_⟩
  · rw [mem_singleton.mp ht]
    exact .inl rfl
  · rcases hbindings b hb with rfl | rfl
    · rfl
    · rfl
  · rcases hbindings b hb with rfl | rfl
    · cases hf
    · exact .inl hf

/-- `$a knows $c`, with no binding -/
def unboundQuery : QueryDecl := staffQuery [.traversal knowsTraversal]

/-- With no binding to start from the traversal is dropped: the pipeline is empty. -/
theorem lowerQuery_drops_traversal : ∃ ctx ir,
    typecheckQuery staffCatalog unboundQuery = .ok ctx ∧
      lowerQuery staffCatalog unboundQuery ctx = .ok ir ∧ ir.pipeline = [] ∧
      ¬ ∃ block, (unboundQuery.scope ir.pipeline).Complete
        (unboundQuery.lowerEnv staffCatalog ctx) block := by
  refine ⟨_, _, rfl, rfl, rfl, ?_⟩
  rintro ⟨block, hcomplete⟩
  cases hcomplete.lowered
  exact absurd hcomplete.traversals.length_eq (by decide)

end Omnigraph.Compiler
