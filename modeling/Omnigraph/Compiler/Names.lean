import Omnigraph.Compiler.Scoping

/-!
# The operations of a block and their names

The scans of a block stand in the order of its bindings and the expands in the order the traversals
are reached. Each expand starts at a known end and leads to the target of its traversal, with the
filters of the last binding of that variable.
-/

namespace Omnigraph.Compiler

open List

/-! ### Scans -/

/-- The scan of a binding. -/
def scanOf (env : LowerEnv) (b : Binding) : IROp :=
  .nodeScan b.var b.typeName (inlineFilters env b)

/-- The scans, in the order of the bindings; only deferred variables have filters that wait. -/
structure ScannedInOrder (env : LowerEnv) (deferred : List String) (bindings : List Binding)
    (st : ScanState) : Prop where
  scans : st.scans = (bindings.filter (·.var ∉ deferred)).map (scanOf env)
  waiting : ∀ v ∉ deferred, st.deferredFilters.lookup v = none

variable {deferred bound : List String} {env : LowerEnv} {st' : ScanState} {bindings : List Binding}

lemma ScannedInOrder.lowerBinding {pre : List Binding} {b : Binding} {st : ScanState}
    (hst : ScannedInOrder env deferred pre st) (h : lowerBinding env deferred st b = .ok st') :
    ScannedInOrder env deferred (pre ++ [b]) st' := by
  unfold Compiler.lowerBinding at h
  rw [Except.bind_eq_ok_iff] at h
  obtain ⟨filters, hfilters, h⟩ := h
  have hinline := inlineFilters_eq hfilters
  split_ifs at h with hdef hempty
  · cases h
    exact ⟨by simp [hst.scans, hdef], hst.waiting⟩
  · cases h
    refine ⟨by simp [hst.scans, hdef], fun v hv => ?_⟩
    have hne : v ≠ b.var := by
      rintro rfl
      exact hv hdef
    show (st.deferredFilters.insert b.var filters).lookup v = none
    rw [AList.lookup_insert_ne hne]
    exact hst.waiting v hv
  · cases h
    exact ⟨by simp [hst.scans, hdef, scanOf, hinline], hst.waiting⟩

lemma scannedInOrder_foldlM
    (h : bindings.foldlM (lowerBinding env deferred) ⟨[], bound, ∅⟩ = .ok st') :
    ScannedInOrder env deferred bindings st' := by
  refine Ensures.value (Ensures.foldlM (E := fun _ => True)
    (fun pre st => ScannedInOrder env deferred pre st) ?_ ?_) h
  · exact ⟨rfl, fun v _ => rfl⟩
  · intro pre b post st _ hst
    exact Ensures.of_ok fun st' hst' => hst.lowerBinding hst'

/-! ### Steps -/

/-- How a step is taken when `known` is known. -/
structure Step.TakenAt (waiting : HashMap String (List IRFilter)) (known : List String)
    (s : Step) : Prop where
  ready : s.traversal.src ∈ known ∨ s.traversal.dst ∈ known
  closing : s.closing = true ↔ s.traversal.Closes known
  src : s.expand.srcVar ∈ known
  dst : s.expand.dstVar = s.traversal.target known
  edge : s.expand.edgeBinding = s.traversal.namedEdgeBinding
  filters : s.expand.dstFilters =
    if s.traversal.Closes known then [] else (waiting.lookup s.expand.dstVar).getD []

/-- Steps taken one after the other. -/
def StepsTaken (waiting : HashMap String (List IRFilter)) : List String → List Step → Prop
  | _, [] => True
  | known, s :: steps =>
    s.TakenAt waiting known ∧ StepsTaken waiting (learn known s.traversal) steps

variable {known : List String} {waiting : HashMap String (List IRFilter)} {v : String}
  {st : ExpandState}

lemma stepsTaken_append_singleton {steps : List Step} {s : Step} :
    StepsTaken waiting known (steps ++ [s]) ↔ StepsTaken waiting known steps ∧
      s.TakenAt waiting ((steps.map Step.traversal).foldl learn known) := by
  induction steps generalizing known with
  | nil => simp [StepsTaken]
  | cons s' steps ih =>
    rw [cons_append, StepsTaken, StepsTaken, ih, and_assoc]
    rfl

lemma mem_foldl_learn {ts : List Traversal} :
    v ∈ ts.foldl learn known ↔ v ∈ known ∨ (v ≠ "_" ∧ ∃ t ∈ ts, t.Touches v) := by
  induction ts generalizing known with
  | nil => simp
  | cons t ts ih =>
    rw [foldl_cons, ih, learn, Spread.mem_learn]
    simp only [mem_cons, exists_eq_or_imp, Traversal.Touches, @eq_comm _ v]
    generalize (∃ t ∈ ts, t.src = v ∨ t.dst = v) = later
    tauto

/-- A name nothing waits under stays so. -/
lemma Trace.lookup_none (h : Trace env bound waiting st) (hv : waiting.lookup v = none) :
    st.deferredFilters.lookup v = none := by
  induction h with
  | start => exact hv
  | step _ hready hst ih =>
    obtain ⟨s, edge, -, -, -, htaken⟩ := lowerTraversal_ok hready hst
    cases htaken with
    | closes _ _ _ _ _ hdeferred => rw [hdeferred, ih]
    | introduces w u _ _ _ _ _ _ _ hdeferred =>
      rw [hdeferred]
      by_cases hvw : v = w
      · rw [hvw, AList.lookup_erase]
      · rw [AList.lookup_erase_ne hvw, ih]

/-- What waits under a variable that is not bound yet has waited from the start. -/
lemma Trace.lookup_waiting (h : Trace env bound waiting st) (hanon : waiting.lookup "_" = none)
    (hv : v ∉ st.bound) : st.deferredFilters.lookup v = waiting.lookup v := by
  by_cases hn : v = "_"
  · rw [hn, hanon, h.lookup_none hanon]
  · have hstart : v ∉ bound := fun hmem => hv (h.mem_bound.mpr (.inl hmem))
    rcases h.introduced_or_waiting hstart hn with ⟨-, hlookup⟩ | ⟨s, hs⟩
    · exact hlookup
    · refine absurd (h.mem_bound.mpr (.inr ⟨hn, s, mem_of_find?_eq_some hs.first, ?_⟩)) hv
      simpa using List.find?_some hs.first

/-- A trace takes its steps one after the other. -/
lemma Trace.stepsTaken (h : Trace env bound waiting st) (hanon : waiting.lookup "_" = none)
    (hsame : ∀ v, v ∈ bound ↔ v ∈ known) : StepsTaken waiting known st.steps := by
  induction h with
  | start => trivial
  | @step st st' t htrace hready hst ih =>
    obtain ⟨s, edge, hsteps, ht, hshape, htaken⟩ := lowerTraversal_ok hready hst
    rw [hsteps, stepsTaken_append_singleton]
    refine ⟨ih, ?_⟩
    generalize hnow : (st.steps.map Step.traversal).foldl learn known = now
    have hbound : ∀ v, v ∈ st.bound ↔ v ∈ now := by
      intro v
      rw [← hnow, mem_foldl_learn, htrace.mem_bound, hsame v]
      simp
    cases htaken with
    | closes hclosing hsrc hdst hfilters =>
      have hcloses : s.traversal.Closes now := ⟨(hbound _).mp hsrc, (hbound _).mp hdst⟩
      rcases hshape.ends with ⟨-, hsrcVar, hdstVar, -⟩ | ⟨hopen, -⟩ | ⟨hopen, -⟩
      · refine ⟨.inl hcloses.1, by simp [hclosing, hcloses], by rw [hsrcVar]; exact hcloses.1, ?_,
          hshape.edgeBinding, by rw [if_pos hcloses, hfilters]⟩
        rw [hdstVar, Traversal.target, if_pos hcloses]
      · rw [hclosing] at hopen; cases hopen
      · rw [hclosing] at hopen; cases hopen
    | introduces v u hintro hv hu hends htype hfilters =>
      have hopen : ¬ s.traversal.Closes now := by
        rintro ⟨hsrc, hdst⟩
        rcases hends with ⟨-, rfl⟩ | ⟨-, rfl⟩
        · exact hv ((hbound _).mpr hdst)
        · exact hv ((hbound _).mpr hsrc)
      have hdstVar : s.expand.dstVar = s.traversal.target now := by
        rw [hintro.2, Traversal.target, if_neg hopen]
        rcases hends with ⟨-, rfl⟩ | ⟨rfl, rfl⟩
        · rw [if_neg (fun hmem => hv ((hbound _).mpr hmem))]
        · rw [if_pos ((hbound _).mp hu)]
      refine ⟨?_, by simp [hintro.1, hopen], ?_, hdstVar, hshape.edgeBinding, ?_⟩
      · rcases hends with ⟨rfl, -⟩ | ⟨rfl, -⟩
        · exact .inl ((hbound _).mp hu)
        · exact .inr ((hbound _).mp hu)
      · rcases hshape.ends with ⟨hc, -⟩ | ⟨-, hne, hsrcVar, hdst', -⟩ | ⟨-, hne, hsrcVar, hdst', -⟩
        · rw [hintro.1] at hc; cases hc
        · have hvdst : v = s.traversal.dst := hintro.2.symm.trans hdst'
          rcases hends with ⟨hsu, -⟩ | ⟨-, hsv⟩
          · rw [hsrcVar, hsu]; exact (hbound _).mp hu
          · exact absurd (hsv.trans hvdst) hne
        · have hvsrc : v = s.traversal.src := hintro.2.symm.trans hdst'
          rcases hends with ⟨-, hdv⟩ | ⟨hdu, -⟩
          · exact absurd (hdv.trans hvsrc).symm hne
          · rw [hsrcVar, hdu]; exact (hbound _).mp hu
      · rw [if_neg hopen, hfilters, htrace.lookup_waiting hanon hv, hintro.2]

/-! ### Blocks -/

/-- The operations of a block in terms of its clauses. -/
structure Block.InOrder (env : LowerEnv) (clauses : List Clause) (bound : List String)
    (block : Block) (waiting : HashMap String (List IRFilter)) : Prop where
  scans : block.scans = (scannedBindings clauses).map (scanOf env)
  steps : StepsTaken waiting (startVars clauses bound) block.steps
  order : block.steps.map Step.traversal = takenTraversals clauses bound
  waiting : ∀ v ∉ startVars clauses bound,
    (waiting.lookup v).getD [] = lastInline env (bindingsOf clauses) v
  filters : block.filters = explicitFilters env clauses
  bound : ∀ v, v ∈ block.bound ↔ v ∈ boundAfter clauses bound

/-- The anonymous variable connects nothing, so it is not deferred. -/
lemma anonymous_not_deferred (clauses : List Clause) :
    "_" ∉ deferredSet (bindingsOf clauses) (traversalsOf clauses) := by
  intro hdef
  obtain ⟨-, _, b₀, _, -, hne, hlink, -⟩ := mem_deferredSet_iff.mp hdef
  exact hlink.named hne rfl

lemma lastInline_of_not_bound (h : ∀ b ∈ bindings, b.var ≠ v) : lastInline env bindings v = [] := by
  have hnone : bindings.filter (fun b => b.var = v ∧ inlineFilters env b ≠ []) = [] :=
    filter_eq_nil_iff.mpr fun b hb => by simp [h b hb]
  rw [lastInline, hnone]
  rfl

variable {clauses : List Clause}

lemma lowerBlock_inOrder {bound₀ : List String} {block : Block}
    (hsame : ∀ v, v ∈ bound₀ ↔ v ∈ bound) (h : lowerBlock env clauses bound₀ = .ok block) :
    ∃ waiting, block.InOrder env clauses bound waiting := by
  obtain ⟨scanned, expanded, hscanned, hexpanded, rfl⟩ := lowerBlock_ok h
  have hscan := scanned_foldlM hscanned
  have horder := scannedInOrder_foldlM hscanned
  have hstart : ∀ v, v ∈ scanned.bound ↔ v ∈ startVars clauses bound := by
    intro v
    rw [hscan.bound v, mem_startVars, hsame v]
  obtain ⟨htrace, hsteps, -⟩ := expandLoop_spec hstart hexpanded
  refine ⟨scanned.deferredFilters, horder.scans,
    htrace.stepsTaken (horder.waiting _ (anonymous_not_deferred clauses)) hstart, hsteps,
    fun v hv => ?_, rfl, fun v => ?_⟩
  · by_cases hdef : v ∈ deferredSet (bindingsOf clauses) (traversalsOf clauses)
    · exact hscan.waiting v hdef
    · rw [horder.waiting v hdef, lastInline_of_not_bound fun b hb hbv => ?_]
      · rfl
      · exact hv (mem_startVars.mpr (.inr ⟨b, hb, by rwa [hbv], hbv⟩))
  · show v ∈ expanded.bound ↔ _
    rw [htrace.mem_bound, boundAfter, mem_foldl_learn, hstart v, takenTraversals, ← hsteps]
    simp

/-- The filters a variable is introduced with read the variable and what the matches compare
with. -/
lemma lastInline_reads (h : Lowerable env clauses) {u : String} :
    (∃ f ∈ lastInline env (bindingsOf clauses) v, u ∈ f.reads) ↔
      (lastMatches clauses v ≠ [] ∧ u = v) ∨
        u ∈ matchVars env.paramNames (lastMatches clauses v) := by
  have hinline : ∀ b ∈ bindingsOf clauses,
      buildBindingFilters env b = .ok (inlineFilters env b) := by
    intro b hb
    obtain ⟨filters, hfilters⟩ := h.bindings b hb
    rw [inlineFilters_eq hfilters, hfilters]
  have hempty : ∀ b ∈ bindingsOf clauses, inlineFilters env b ≠ [] ↔ b.propMatches ≠ [] := by
    intro b hb
    have hbuild := hinline b hb
    unfold buildBindingFilters at hbuild
    cases htype : env.catalog.nodeTypes.lookup b.typeName with
    | none => rw [htype] at hbuild; cases hbuild
    | some nodeType =>
      rw [htype] at hbuild
      have hlen := (Except.mapM_eq_ok_iff.mp hbuild).length_eq
      rw [ne_eq, ne_eq, ← length_eq_zero_iff, ← length_eq_zero_iff, hlen]
  have hfilter : (bindingsOf clauses).filter (fun b => b.var = v ∧ inlineFilters env b ≠ []) =
      (bindingsOf clauses).filter (fun b => b.var = v ∧ b.propMatches ≠ []) :=
    filter_congr fun b hb => by simp [hempty b hb]
  rw [lastInline, lastMatches, hfilter]
  cases hlast : ((bindingsOf clauses).filter
      (fun b => b.var = v ∧ b.propMatches ≠ [])).getLast? with
  | none => simp [matchVars]
  | some b =>
    obtain ⟨hb, hbv⟩ := mem_filter.mp (mem_of_getLast? hlast)
    have hvar : b.var = v := (by simpa using hbv : b.var = v ∧ _).1
    simp only [Option.map_some, Option.getD_some]
    rw [buildBindingFilters_reads (hinline b hb), hvar]

end Omnigraph.Compiler
