import Omnigraph.Compiler.Names

/-!
# When a lowered query is well scoped

The pipeline of a query is well scoped exactly when in each of its blocks no variable is scanned
twice, no two traversals that close a cycle share their destination, the names of the block are new
in it, the variables its filters and inline matches name are connected to a bound one, and each of
its `not` blocks names an outer node variable.
-/

namespace Omnigraph.Compiler

open List Traversal

/-! ### Positions in a list -/

lemma forall_split_cons {α : Type*} {P : List α → α → Prop} {a : α} {l : List α} :
    (∀ pre b post, a :: l = pre ++ b :: post → P pre b) ↔
      P [] a ∧ ∀ pre b post, l = pre ++ b :: post → P (a :: pre) b := by
  constructor
  · intro h
    refine ⟨h [] a l rfl, fun pre b post heq => h (a :: pre) b post (by rw [heq]; rfl)⟩
  · rintro ⟨hhead, htail⟩ pre b post heq
    cases pre with
    | nil =>
      cases heq
      exact hhead
    | cons c pre =>
      rw [cons_append, List.cons.injEq] at heq
      obtain ⟨rfl, heq⟩ := heq
      exact htail pre b post heq

/-! ### Scans -/

lemma wellScoped_scans {env : LowerEnv} {bs : List Binding} {scope : Set String}
    (hbs : ∀ b ∈ bs, buildBindingFilters env b = .ok (inlineFilters env b)) :
    WellScoped (bs.map (scanOf env)) scope ↔ (bs.map Binding.var).Nodup ∧
      (∀ b ∈ bs, b.var ∉ scope) ∧ ∀ pre b post, bs = pre ++ b :: post →
        ∀ u ∈ matchVars env.paramNames b.propMatches,
          u = b.var ∨ u ∈ scope ∨ ∃ b' ∈ pre, b'.var = u := by
  induction bs generalizing scope with
  | nil => simp [WellScoped]
  | cons b bs ih =>
    have hextend : (scanOf env b).extend scope = {u | u = b.var ∨ u ∈ scope} := by
      ext u
      simp [IROp.extend, scanOf, IROp.introduces]
    have hreads : (∀ f ∈ inlineFilters env b, ∀ u ∈ f.reads, u ∈ (scanOf env b).extend scope) ↔
        ∀ u ∈ matchVars env.paramNames b.propMatches, u = b.var ∨ u ∈ scope := by
      have hiff := @buildBindingFilters_reads env b _ (hbs b mem_cons_self)
      rw [hextend]
      constructor
      · intro h u hu
        obtain ⟨f, hf, huf⟩ := hiff.mpr (.inr hu)
        exact h f hf u huf
      · intro h f hf u hu
        rcases hiff.mp ⟨f, hf, hu⟩ with ⟨-, rfl⟩ | hu
        · exact .inl rfl
        · exact h u hu
    rw [map_cons, WellScoped, scanOf, IROp.WellScoped, ← scanOf, hreads, hextend,
      ih fun b' hb' => hbs b' (mem_cons_of_mem _ hb'), map_cons, nodup_cons,
      forall_split_cons]
    constructor
    · rintro ⟨⟨hfresh, hown⟩, hnodup, hrest, hmatches⟩
      refine ⟨⟨fun hmem => ?_, hnodup⟩, fun b' hb' => ?_, fun u hu => ?_,
        fun pre b' post heq u hu => ?_⟩
      · obtain ⟨b', hb', hvar⟩ := List.mem_map.mp hmem
        exact hrest b' hb' (.inl hvar)
      · rcases mem_cons.mp hb' with rfl | hb'
        · exact hfresh
        · exact fun hmem => hrest b' hb' (.inr hmem)
      · exact (hown u hu).imp_right .inl
      · rcases hmatches pre b' post heq u hu with h | (h | h) | ⟨b'', hb'', h⟩
        · exact .inl h
        · exact .inr (.inr ⟨b, mem_cons_self, h.symm⟩)
        · exact .inr (.inl h)
        · exact .inr (.inr ⟨b'', mem_cons_of_mem _ hb'', h⟩)
    · rintro ⟨⟨hnew, hnodup⟩, hfresh, hown, hmatches⟩
      refine ⟨⟨hfresh b mem_cons_self, fun u hu => ?_⟩, hnodup, fun b' hb' => ?_,
        fun pre b' post heq u hu => ?_⟩
      · simpa using hown u hu
      · rintro (h | h)
        · exact hnew (List.mem_map.mpr ⟨b', hb', h⟩)
        · exact hfresh b' (mem_cons_of_mem _ hb') h
      · rcases hmatches pre b' post heq u hu with h | h | ⟨b'', hb'', h⟩
        · exact .inl h
        · exact .inr (.inl (.inr h))
        · rcases mem_cons.mp hb'' with rfl | hb''
          · exact .inr (.inl (.inl h.symm))
          · exact .inr (.inr ⟨b'', hb'', h⟩)

/-! ### Steps -/

lemma tempVar_ne_anonymous (t : Traversal) : tempVar t ≠ "_" := by
  intro heq
  have hlen := congrArg String.length heq
  rw [tempVar, String.length_append] at hlen
  have htemp : "__temp_".length = 7 := rfl
  have hanon : "_".length = 1 := rfl
  omega

variable {known : List String} {s : Step}

lemma Step.TakenAt.introduces {waiting : HashMap String (List IRFilter)}
    (h : s.TakenAt waiting known) :
    (IROp.expand s.expand).introduces = s.traversal.names known := by
  rw [IROp.introduces, names, h.dst, h.edge]

lemma Step.TakenAt.extend {waiting : HashMap String (List IRFilter)} (h : s.TakenAt waiting known)
    (scope : Set String) :
    extendAll s.ops scope = {u | u ∈ s.traversal.names known ∨ u ∈ scope} := by
  ext u
  rw [mem_extendAll, Step.ops, flatMap_cons, h.introduces]
  cases s.closing <;> simp [IROp.introduces]

/-- The variables read by the filters that wait under a name. -/
def waitingReads (waiting : HashMap String (List IRFilter)) (v : String) : Set String :=
  {u | ∃ f ∈ (waiting.lookup v).getD [], u ∈ f.reads}

/-- The operations of a step: its names are new, and its filters read its own names or earlier
ones. The filter that closes a cycle compares two names that are in scope. -/
lemma Step.TakenAt.wellScoped_iff {waiting : HashMap String (List IRFilter)}
    (h : s.TakenAt waiting known) {scope : Set String} (hknown : ∀ v ∈ known, v ∈ scope) :
    WellScoped s.ops scope ↔ (s.traversal.names known).Nodup ∧
      (∀ u ∈ s.traversal.names known, u ∉ scope) ∧
      (¬ s.traversal.Closes known → ∀ u ∈ waitingReads waiting (s.traversal.target known),
        u ∈ s.traversal.names known ∨ u ∈ scope) := by
  have hextend : ∀ u, u ∈ (IROp.expand s.expand).extend scope ↔
      u ∈ s.traversal.names known ∨ u ∈ scope := by
    intro u
    rw [IROp.extend, Set.mem_union, h.introduces]
    rfl
  have hexpand : (IROp.expand s.expand).WellScoped scope ↔ (s.traversal.names known).Nodup ∧
      (∀ u ∈ s.traversal.names known, u ∉ scope) ∧
      (¬ s.traversal.Closes known → ∀ u ∈ waitingReads waiting (s.traversal.target known),
        u ∈ s.traversal.names known ∨ u ∈ scope) := by
    rw [IROp.WellScoped, h.introduces, h.filters, h.dst, and_iff_right (hknown _ h.src)]
    refine and_congr_right fun _ => and_congr_right fun _ => ?_
    simp only [hextend]
    split_ifs with hcloses
    · simp [hcloses]
    · constructor
      · rintro hall - u ⟨f, hf, hu⟩
        exact hall f hf u hu
      · exact fun hall f hf u hu => hall hcloses u ⟨f, hf, hu⟩
  rw [← hexpand, Step.ops]
  cases hclosing : s.closing with
  | false => simp [WellScoped]
  | true =>
    have hcloses := h.closing.mp hclosing
    simp only [if_true, WellScoped, and_true, and_iff_left_iff_imp]
    intro _
    rw [IROp.WellScoped]
    intro u hu
    rw [hextend]
    simp only [closingFilter, IRFilter.reads, IRExpr.reads, cons_append, nil_append,
      mem_cons, not_mem_nil, or_false] at hu
    rcases hu with rfl | rfl
    · left
      simp [names, target, hcloses, tempVar_ne_anonymous]
    · exact .inr (hknown _ hcloses.2)

variable {t : Traversal} {v : String} {steps : List Step}

lemma mem_learn_of_mem (h : v ∈ known) : v ∈ learn known t :=
  Spread.mem_learn.mpr (.inr h)

/-- The ends a traversal makes known are among its names. -/
lemma learn_subset (hready : t.src ∈ known ∨ t.dst ∈ known) (hv : v ∈ learn known t) :
    v ∈ t.names known ∨ v ∈ known := by
  rcases Spread.mem_learn.mp hv with ⟨hn, hend⟩ | hv
  · by_cases hmem : v ∈ known
    · exact .inr hmem
    · left
      have hopen : ¬ t.Closes known := by
        rintro ⟨hsrc, hdst⟩
        rcases hend with rfl | rfl
        · exact hmem hsrc
        · exact hmem hdst
      have htarget : t.target known = v := by
        rw [target, if_neg hopen]
        rcases hend with rfl | rfl
        · rw [if_pos (hready.resolve_left hmem)]
        · rw [if_neg hmem]
      simp [names, htarget, hn]
  · exact .inr hv

/-- Steps are well scoped if they bring in new names and their filters see theirs. -/
lemma wellScoped_steps {waiting : HashMap String (List IRFilter)}
    (h : StepsTaken waiting known steps) {scope : Set String} (hknown : ∀ v ∈ known, v ∈ scope) :
    WellScoped (steps.flatMap Step.ops) scope ↔
      (namesOf known (steps.map Step.traversal)).Nodup ∧
      (∀ u ∈ namesOf known (steps.map Step.traversal), u ∉ scope) ∧
      ∀ pre t post, steps.map Step.traversal = pre ++ t :: post →
        ¬ t.Closes (pre.foldl learn known) →
        ∀ u ∈ waitingReads waiting (t.target (pre.foldl learn known)),
          u ∈ namesOf known (pre ++ [t]) ∨ u ∈ scope := by
  induction steps generalizing known scope with
  | nil => simp [WellScoped, namesOf]
  | cons s steps ih =>
    obtain ⟨htaken, hsteps⟩ := h
    have hknown' : ∀ v ∈ learn known s.traversal,
        v ∈ {u | u ∈ s.traversal.names known ∨ u ∈ scope} :=
      fun v hv => (learn_subset htaken.ready hv).imp_right (hknown v)
    rw [flatMap_cons, wellScoped_append, htaken.extend, htaken.wellScoped_iff hknown,
      ih hsteps hknown', map_cons, namesOf, nodup_append', forall_split_cons]
    simp only [mem_append, nil_append, foldl_nil, foldl_cons, namesOf,
      append_nil, cons_append, Set.mem_ofPred_eq, not_or, disjoint_left]
    constructor
    · rintro ⟨⟨hnodup, hfresh, hown⟩, hnodup', hfresh', hreads⟩
      refine ⟨⟨hnodup, hnodup', fun u hu hu' => (hfresh' u hu').1 hu⟩, ?_, hown, ?_⟩
      · rintro u (hu | hu)
        · exact hfresh u hu
        · exact (hfresh' u hu).2
      · intro pre t post heq hopen u hu
        rcases hreads pre t post heq hopen u hu with h | h | h
        · exact .inl (.inr h)
        · exact .inl (.inl h)
        · exact .inr h
    · rintro ⟨⟨hnodup, hnodup', hdisj⟩, hfresh, hown, hreads⟩
      refine ⟨⟨hnodup, fun u hu => hfresh u (.inl hu), hown⟩, hnodup',
        fun u hu => ⟨fun hu' => hdisj hu' hu, hfresh u (.inr hu)⟩, ?_⟩
      intro pre t post heq hopen u hu
      rcases hreads pre t post heq hopen u hu with (h | h) | h
      · exact .inr (.inl h)
      · exact .inl h
      · exact .inr (.inr h)

/-! ### The names by kind -/

/-- The ends that become known, in the order they do. -/
def nodesOf : List String → List Traversal → List String
  | _, [] => []
  | known, t :: ts =>
    (if t.Closes known then [] else [t.target known].filter (· ≠ "_")) ++
      nodesOf (learn known t) ts

/-- Names are ends, temporary names and names of edge rows. -/
lemma namesOf_perm (known : List String) (ts : List Traversal) :
    (namesOf known ts).Perm (nodesOf known ts ++ ((closingOf known ts).map tempVar ++
      ts.filterMap namedEdgeBinding)) := by
  induction ts generalizing known with
  | nil => exact List.Perm.refl _
  | cons t ts ih =>
    have hedge : (t :: ts).filterMap namedEdgeBinding =
        t.namedEdgeBinding.toList ++ ts.filterMap namedEdgeBinding := by
      rw [filterMap_cons]
      cases t.namedEdgeBinding <;> rfl
    refine perm_iff_count.mpr fun v => ?_
    have hih := (ih (learn known t)).count_eq v
    rw [namesOf, nodesOf, closingOf, hedge, names]
    by_cases hcloses : t.Closes known
    · simp only [if_pos hcloses, target, nil_append, map_append, map_cons,
        map_nil, ne_eq, tempVar_ne_anonymous, not_false_eq_true, decide_true,
        filter_cons_of_pos, filter_nil, count_append] at hih ⊢
      omega
    · simp only [if_neg hcloses, nil_append, count_append] at hih ⊢
      omega

/-- Each traversal has a known end when its turn comes. -/
def ReadyInOrder : List String → List Traversal → Prop
  | _, [] => True
  | known, t :: ts => (t.src ∈ known ∨ t.dst ∈ known) ∧ ReadyInOrder (learn known t) ts

lemma StepsTaken.ready {waiting : HashMap String (List IRFilter)}
    (h : StepsTaken waiting known steps) : ReadyInOrder known (steps.map Step.traversal) := by
  induction steps generalizing known with
  | nil => trivial
  | cons s steps ih => exact ⟨h.1.ready, ih h.2⟩

lemma target_cases (hopen : ¬ t.Closes known) :
    t.Touches (t.target known) ∧ t.target known ∉ known := by
  rw [target, if_neg hopen]
  split_ifs with hdst
  · exact ⟨.inl rfl, fun hsrc => hopen ⟨hsrc, hdst⟩⟩
  · exact ⟨.inr rfl, hdst⟩

lemma mem_learn : v ∈ learn known t ↔ (v ≠ "_" ∧ t.Touches v) ∨ v ∈ known := by
  rw [learn, Spread.mem_learn, Traversal.Touches, @eq_comm _ v, @eq_comm _ v]

lemma of_mem_nodesOf {ts : List Traversal} (h : v ∈ nodesOf known ts) :
    v ∉ known ∧ v ≠ "_" ∧ ∃ t ∈ ts, t.Touches v := by
  induction ts generalizing known with
  | nil => cases h
  | cons t ts ih =>
    rcases mem_append.mp h with h | h
    · split_ifs at h with hcloses
      · cases h
      · obtain ⟨rfl, hn⟩ : v = t.target known ∧ v ≠ "_" := by simpa using h
        obtain ⟨htouch, hnew⟩ := target_cases hcloses
        exact ⟨hnew, hn, t, mem_cons_self, htouch⟩
    · obtain ⟨hnew, hn, t', ht', htouch⟩ := ih h
      exact ⟨fun hmem => hnew (mem_learn_of_mem hmem), hn, t', mem_cons_of_mem _ ht', htouch⟩

lemma mem_nodesOf {known : List String} {ts : List Traversal} (hready : ReadyInOrder known ts)
    {v : String} :
    v ∈ nodesOf known ts ↔ v ∉ known ∧ v ≠ "_" ∧ ∃ t ∈ ts, t.Touches v := by
  refine ⟨of_mem_nodesOf, ?_⟩
  induction ts generalizing known with
  | nil => simp
  | cons t ts ih =>
    rintro ⟨hnew, hn, t', ht', htouch⟩
    rw [nodesOf, mem_append]
    by_cases hown : t.Touches v
    · left
      have hopen : ¬ t.Closes known := by
        rintro ⟨hsrc, hdst⟩
        rcases hown with rfl | rfl
        · exact hnew hsrc
        · exact hnew hdst
      have htarget : t.target known = v := by
        rw [target, if_neg hopen]
        rcases hown with rfl | rfl
        · rw [if_pos (hready.1.resolve_left hnew)]
        · rw [if_neg hnew]
      simp [hopen, htarget, hn]
    · right
      rcases mem_cons.mp ht' with rfl | ht'
      · exact absurd htouch hown
      · refine ih hready.2 ⟨fun hmem => ?_, hn, t', ht', htouch⟩
        rcases mem_learn.mp hmem with ⟨-, h⟩ | h
        · exact hown h
        · exact hnew h

lemma nodesOf_nodup (known : List String) (ts : List Traversal) : (nodesOf known ts).Nodup := by
  induction ts generalizing known with
  | nil => exact nodup_nil
  | cons t ts ih =>
    rw [nodesOf]
    split_ifs with hcloses
    · exact ih _
    · refine nodup_append'.mpr ⟨(nodup_singleton _).filter _, ih _, fun v hv hv' => ?_⟩
      obtain ⟨rfl, hn⟩ : v = t.target known ∧ v ≠ "_" := by simpa using hv
      exact (of_mem_nodesOf hv').1 (mem_learn.mpr (.inl ⟨hn, (target_cases hcloses).1⟩))

/-! ### The condition -/

/-- A block whose pipeline is well scoped, apart from its `not` blocks. `bound` are the variables
bound before it, `scope` all the names introduced before it. -/
structure BlockScoped (paramNames : List String) (clauses : List Clause) (bound : List String)
    (scope : Set String) : Prop where
  /-- No variable is scanned twice. -/
  scanned_once : ((scannedBindings clauses).map Binding.var).Nodup
  scanned_fresh : ∀ b ∈ scannedBindings clauses, b.var ∉ scope
  /-- The ends that traversals introduce are not edge rows or temporary names of a block around. -/
  ends_fresh : ∀ t ∈ takenTraversals clauses bound, ∀ v, t.Touches v → v ≠ "_" →
    v ∉ startVars clauses bound → v ∉ scope
  edges_fresh : ∀ t ∈ takenTraversals clauses bound, ∀ w ∈ t.namedEdgeBinding, w ∉ scope
  /-- No two traversals that close a cycle share their destination. -/
  closed_once : ((closingOf (startVars clauses bound) (takenTraversals clauses bound)).map
    dst).Nodup
  /-- Temporary names are not in use. -/
  temps_fresh : ∀ t ∈ closingOf (startVars clauses bound) (takenTraversals clauses bound),
    tempVar t ∉ scope ∧ (∀ b ∈ scannedBindings clauses, b.var ≠ tempVar t) ∧
      ∀ t' ∈ takenTraversals clauses bound,
        ¬ t'.Touches (tempVar t) ∧ tempVar t ∉ t'.namedEdgeBinding
  /-- The variables of the explicit filters are connected to a bound one. -/
  filters : ∀ f ∈ filtersOf clauses, ∀ u ∈ f.vars paramNames, u ∈ scopeAfter clauses bound scope
  /-- Inline matches of a scanned binding compare with itself or an earlier variable. -/
  scanned_matches : ∀ pre b post, scannedBindings clauses = pre ++ b :: post →
    ∀ u ∈ matchVars paramNames b.propMatches, u = b.var ∨ u ∈ scope ∨ ∃ b' ∈ pre, b'.var = u
  /-- So do those of a binding whose variable a traversal introduces. -/
  reached_matches : ∀ pre t post, takenTraversals clauses bound = pre ++ t :: post →
    ¬ t.Closes (pre.foldl learn (startVars clauses bound)) →
    ∀ u ∈ matchVars paramNames
        (lastMatches clauses (t.target (pre.foldl learn (startVars clauses bound)))),
      u ∈ namesOf (startVars clauses bound) (pre ++ [t]) ∨ u ∈ scope ∨
        ∃ b ∈ scannedBindings clauses, b.var = u

/-- The variables by which a clause of a `not` block can tie it to the block around: the ends of a
traversal, the variable of a binding, and the first variable on either side of a filter. -/
def Clause.anchors : Clause → List String
  | .traversal t => [t.src, t.dst]
  | .filter f => (exprVar f.left).toList ++ (exprVar f.right).toList
  | .binding b => [b.var]
  | .negation _ => []

/-- The first of them that is bound around the `not` block. -/
def anchorOf (bound : List String) (inner : List Clause) : Option String :=
  (inner.flatMap Clause.anchors).find? (· ∈ bound)

mutual

/-- A `not` block is tied to a variable bound around it and well scoped itself. -/
def NegationScoped (paramNames : List String) : Clause → List String → Set String → Prop
  | .negation inner, bound, scope =>
    (∃ v ∈ anchorOf bound inner, v ≠ "") ∧ BlockScoped paramNames inner bound scope ∧
      NegationsScoped paramNames inner (boundAfter inner bound) (scopeAfter inner bound scope)
  | _, _, _ => True

def NegationsScoped (paramNames : List String) : List Clause → List String → Set String → Prop
  | [], _, _ => True
  | clause :: rest, bound, scope =>
    NegationScoped paramNames clause bound scope ∧ NegationsScoped paramNames rest bound scope

end

/-- A block and the `not` blocks in it, at any depth. -/
def ClausesScoped (paramNames : List String) (clauses : List Clause) (bound : List String)
    (scope : Set String) : Prop :=
  BlockScoped paramNames clauses bound scope ∧
    NegationsScoped paramNames clauses (boundAfter clauses bound) (scopeAfter clauses bound scope)

/-! ### Blocks -/

lemma takenTraversals_perm (clauses : List Clause) (bound : List String) :
    ∃ left, (takenTraversals clauses bound ++ left).Perm (traversalsOf clauses) :=
  ⟨_, (Spread.order_consumed _ _ _).perm⟩

lemma mem_of_taken {clauses : List Clause} {bound : List String}
    (h : t ∈ takenTraversals clauses bound) : t ∈ traversalsOf clauses := by
  obtain ⟨left, hperm⟩ := takenTraversals_perm clauses bound
  exact hperm.subset (mem_append_left _ h)

lemma namesOf_append (known : List String) (ts ts' : List Traversal) :
    namesOf known (ts ++ ts') = namesOf known ts ++ namesOf (ts.foldl learn known) ts' := by
  induction ts generalizing known with
  | nil => rfl
  | cons t ts ih => rw [cons_append, namesOf, namesOf, ih, append_assoc, foldl_cons]

lemma mem_scannedBindings {clauses : List Clause} {b : Binding} :
    b ∈ scannedBindings clauses ↔ b ∈ bindingsOf clauses ∧
      b.var ∉ deferredSet (bindingsOf clauses) (traversalsOf clauses) := by
  rw [scannedBindings, mem_filter, decide_eq_true_eq]

lemma mem_startVars_iff {clauses : List Clause} {bound : List String} :
    v ∈ startVars clauses bound ↔ v ∈ bound ∨ ∃ b ∈ scannedBindings clauses, b.var = v := by
  rw [mem_startVars]
  simp only [mem_scannedBindings, and_assoc]

/-- The anonymous variable has matches to be introduced with only if it is scanned. -/
lemma named_of_lastMatches {clauses : List Clause} {bound : List String}
    (hv : v ∉ startVars clauses bound) (h : lastMatches clauses v ≠ []) : v ≠ "_" := by
  rintro rfl
  apply h
  have hnone : (bindingsOf clauses).filter (fun b => b.var = "_" ∧ b.propMatches ≠ []) = [] := by
    refine filter_eq_nil_iff.mpr fun b hb => ?_
    have hne : b.var ≠ "_" := fun heq => hv (mem_startVars.mpr
      (.inr ⟨b, hb, by rw [heq]; exact anonymous_not_deferred clauses, heq⟩))
    simp [hne]
  rw [lastMatches, hnone]
  rfl

section Block

variable {env : LowerEnv} {clauses : List Clause} {bound : List String} {block : Block}
  {waiting : HashMap String (List IRFilter)} {scope : Set String}

/-- The names in scope behind the scans. -/
lemma extendAll_scans (bs : List Binding) :
    extendAll (bs.map (scanOf env)) scope = {v | v ∈ scope ∨ ∃ b ∈ bs, b.var = v} := by
  ext v
  rw [mem_extendAll]
  simp only [mem_flatMap, List.mem_map, Set.mem_ofPred_eq]
  constructor
  · rintro (⟨op, ⟨b, hb, rfl⟩, hv⟩ | hv)
    · exact .inr ⟨b, hb, by simpa [scanOf, IROp.introduces, eq_comm] using hv⟩
    · exact .inl hv
  · rintro (hv | ⟨b, hb, rfl⟩)
    · exact .inr hv
    · exact .inl ⟨_, ⟨b, hb, rfl⟩, by simp [scanOf, IROp.introduces]⟩

lemma StepsTaken.introduces (h : StepsTaken waiting known steps) :
    (steps.flatMap Step.ops).flatMap IROp.introduces =
      namesOf known (steps.map Step.traversal) := by
  induction steps generalizing known with
  | nil => rfl
  | cons s steps ih =>
    have hown : s.ops.flatMap IROp.introduces = s.traversal.names known := by
      rw [Step.ops, flatMap_cons, h.1.introduces]
      cases s.closing <;> simp [IROp.introduces]
    rw [flatMap_cons, flatMap_append, hown, ih h.2, map_cons, namesOf]

lemma extendAll_filters (fs : List IRFilter) : extendAll (fs.map .filter) scope = scope := by
  ext v
  rw [mem_extendAll, flatMap_map]
  simp [IROp.introduces]

lemma extendAll_append (ops ops' : List IROp) :
    extendAll (ops ++ ops') scope = extendAll ops' (extendAll ops scope) :=
  foldl_append

variable (h : block.InOrder env clauses bound waiting)

include h in
/-- The names in scope behind a block are those behind its expands. -/
lemma Block.InOrder.extendAll :
    extendAll (block.scans ++ block.steps.flatMap Step.ops) scope =
      scopeAfter clauses bound scope ∧
    Compiler.extendAll block.ops scope = scopeAfter clauses bound scope := by
  have hsteps : Compiler.extendAll (block.scans ++ block.steps.flatMap Step.ops) scope =
      scopeAfter clauses bound scope := by
    ext v
    have hscans := Set.ext_iff.mp (@extendAll_scans env scope (scannedBindings clauses)) v
    rw [mem_extendAll] at hscans
    rw [mem_extendAll, flatMap_append, h.steps.introduces, h.order, mem_append, h.scans,
      or_right_comm, hscans]
    simp only [Set.mem_ofPred_eq, scopeAfter, or_assoc]
  refine ⟨hsteps, ?_⟩
  rw [Block.ops, extendAll_append, hsteps, extendAll_filters]

/-- What a block starts from is in scope behind its scans. -/
lemma start_subset (hsub : ∀ v ∈ bound, v ∈ scope) (hv : v ∈ startVars clauses bound) :
    v ∈ scope ∨ ∃ b ∈ scannedBindings clauses, b.var = v :=
  (mem_startVars_iff.mp hv).imp_left (hsub v)

variable {ctx ctx' : TypeContext}

/-- The names of the traversals are new exactly when they are so by kind. -/
lemma names_fresh_iff {catalog : Catalog} (htyped : BlockTyped catalog clauses ctx ctx')
    (hsub : ∀ v ∈ bound, v ∈ scope)
    (hready : ReadyInOrder (startVars clauses bound) (takenTraversals clauses bound)) :
    ((namesOf (startVars clauses bound) (takenTraversals clauses bound)).Nodup ∧
      ∀ u ∈ namesOf (startVars clauses bound) (takenTraversals clauses bound),
        ¬ (u ∈ scope ∨ ∃ b ∈ scannedBindings clauses, b.var = u)) ↔
    (∀ t ∈ takenTraversals clauses bound, ∀ v, t.Touches v → v ≠ "_" →
      v ∉ startVars clauses bound → v ∉ scope) ∧
    (∀ t ∈ takenTraversals clauses bound, ∀ w ∈ t.namedEdgeBinding, w ∉ scope) ∧
    ((closingOf (startVars clauses bound) (takenTraversals clauses bound)).map
      dst).Nodup ∧
    ∀ t ∈ closingOf (startVars clauses bound) (takenTraversals clauses bound),
      tempVar t ∉ scope ∧ (∀ b ∈ scannedBindings clauses, b.var ≠ tempVar t) ∧
        ∀ t' ∈ takenTraversals clauses bound,
          ¬ t'.Touches (tempVar t) ∧ tempVar t ∉ t'.namedEdgeBinding := by
  set start := startVars clauses bound with hstart
  set taken := takenTraversals clauses bound with htaken
  have hnodes := fun v => @mem_nodesOf start taken hready v
  have hedges : ∀ w, w ∈ taken.filterMap namedEdgeBinding ↔
      ∃ t ∈ taken, w ∈ t.namedEdgeBinding := fun w => mem_filterMap
  have honce : (taken.filterMap namedEdgeBinding).Nodup := by
    obtain ⟨left, hperm⟩ := takenTraversals_perm clauses bound
    have hall := (hperm.filterMap namedEdgeBinding).nodup_iff.mpr htyped.once
    rw [filterMap_append] at hall
    exact (nodup_append'.mp hall).1
  have htemps : ((closingOf start taken).map tempVar).Nodup ↔
      ((closingOf start taken).map dst).Nodup := by
    have hmap : (closingOf start taken).map tempVar =
        ((closingOf start taken).map dst).map ("__temp_" ++ ·) := by
      rw [List.map_map]
      rfl
    rw [hmap]
    exact nodup_map_iff fun a b hab => (String.append_right_inj _).mp hab
  have hmem : ∀ u, u ∈ namesOf start taken ↔ u ∈ nodesOf start taken ∨
      (∃ t ∈ closingOf start taken, tempVar t = u) ∨ ∃ t ∈ taken, u ∈ t.namedEdgeBinding := by
    intro u
    rw [(namesOf_perm start taken).mem_iff, mem_append, mem_append, List.mem_map, hedges]
  rw [(namesOf_perm start taken).nodup_iff, nodup_append', nodup_append', htemps]
  constructor
  · rintro ⟨⟨-, ⟨hclosed, -, hte⟩, hn⟩, hfresh⟩
    have htemp : ∀ t ∈ closingOf start taken, tempVar t ∉ scope ∧
        ∀ b ∈ scannedBindings clauses, b.var ≠ tempVar t := by
      intro t ht
      have hnew := hfresh (tempVar t) ((hmem _).mpr (.inr (.inl ⟨t, ht, rfl⟩)))
      exact ⟨fun h => hnew (.inl h), fun b hb heq => hnew (.inr ⟨b, hb, heq⟩)⟩
    refine ⟨fun t ht v hv hn' hs => ?_, fun t ht w hw => ?_, hclosed, fun t ht => ?_⟩
    · exact fun hmem' => hfresh v ((hmem v).mpr (.inl ((hnodes v).mpr ⟨hs, hn', t, ht, hv⟩)))
        (.inl hmem')
    · exact fun hmem' => hfresh w ((hmem w).mpr (.inr (.inr ⟨t, ht, hw⟩))) (.inl hmem')
    · refine ⟨(htemp t ht).1, (htemp t ht).2, fun t' ht' => ⟨fun htouch => ?_, fun hedge => ?_⟩⟩
      · have hs : tempVar t ∉ start := fun hmem' => by
          rcases start_subset hsub hmem' with h | ⟨b, hb, h⟩
          · exact (htemp t ht).1 h
          · exact (htemp t ht).2 b hb h
        have hnode := (hnodes _).mpr ⟨hs, tempVar_ne_anonymous t, t', ht', htouch⟩
        exact hn hnode (mem_append_left _ (List.mem_map.mpr ⟨t, ht, rfl⟩))
      · exact hte (List.mem_map.mpr ⟨t, ht, rfl⟩) ((hedges _).mpr ⟨t', ht', hedge⟩)
  · rintro ⟨hends, hedge, hclosed, htemp⟩
    refine ⟨⟨nodesOf_nodup _ _, ⟨hclosed, honce, ?_⟩, ?_⟩, fun u hu => ?_⟩
    · rintro u hu hu'
      obtain ⟨t, ht, rfl⟩ := List.mem_map.mp hu
      obtain ⟨t', ht', h⟩ := (hedges _).mp hu'
      exact ((htemp t ht).2.2 t' ht').2 h
    · rintro u hu hu'
      obtain ⟨-, hn, t, ht, htouch⟩ := (hnodes u).mp hu
      rcases mem_append.mp hu' with hu' | hu'
      · obtain ⟨t', ht', rfl⟩ := List.mem_map.mp hu'
        exact ((htemp t' ht').2.2 t ht).1 htouch
      · obtain ⟨t', ht', h⟩ := (hedges _).mp hu'
        exact htyped.edge_not_end (mem_of_taken ht') (mem_of_taken ht) h htouch
    · rintro (hscope | ⟨b, hb, rfl⟩)
      · rcases (hmem u).mp hu with hu | ⟨t, ht, rfl⟩ | ⟨t, ht, hu⟩
        · obtain ⟨hs, hn, t, ht, htouch⟩ := (hnodes u).mp hu
          exact hends t ht u htouch hn hs hscope
        · exact (htemp t ht).1 hscope
        · exact hedge t ht u hu hscope
      · rcases (hmem _).mp hu with hu | ⟨t, ht, hu⟩ | ⟨t, ht, hu⟩
        · exact ((hnodes _).mp hu).1 (mem_startVars_iff.mpr (.inr ⟨b, hb, rfl⟩))
        · exact (htemp t ht).2.1 b hb hu.symm
        · exact htyped.edge_not_bound (mem_of_taken ht) hu (mem_scannedBindings.mp hb).1 rfl

include h in
/-- What the filters waiting under a target read, apart from the target itself. -/
lemma waitingReads_iff (hlow : Lowerable env clauses)
    (hknown : ∀ v ∈ startVars clauses bound, v ∈ known) (hopen : ¬ t.Closes known)
    {P : String → Prop} (htarget : ∀ u ∈ t.names known, P u) :
    (∀ u ∈ waitingReads waiting (t.target known), P u) ↔
      ∀ u ∈ matchVars env.paramNames (lastMatches clauses (t.target known)), P u := by
  have hstart : t.target known ∉ startVars clauses bound :=
    fun hmem => (target_cases hopen).2 (hknown _ hmem)
  have hreads : ∀ u, u ∈ waitingReads waiting (t.target known) ↔
      (lastMatches clauses (t.target known) ≠ [] ∧ u = t.target known) ∨
        u ∈ matchVars env.paramNames (lastMatches clauses (t.target known)) := by
    intro u
    rw [← lastInline_reads hlow, ← h.waiting _ hstart]
    rfl
  constructor
  · exact fun hall u hu => hall u ((hreads u).mpr (.inr hu))
  · intro hall u hu
    rcases (hreads u).mp hu with ⟨hne, rfl⟩ | hu
    · apply htarget
      have hn := named_of_lastMatches hstart hne
      simp [names, hn]
    · exact hall u hu

include h in
/-- A block is well scoped, apart from its `not` blocks, exactly when it meets the condition. -/
lemma Block.InOrder.wellScoped_iff (hlow : Lowerable env clauses)
    (htyped : BlockTyped env.catalog clauses ctx ctx') (hsub : ∀ v ∈ bound, v ∈ scope) :
    WellScoped block.ops scope ↔ BlockScoped env.paramNames clauses bound scope := by
  have hready := h.steps.ready
  rw [h.order] at hready
  have hbuild : ∀ b ∈ scannedBindings clauses,
      buildBindingFilters env b = .ok (inlineFilters env b) := by
    intro b hb
    obtain ⟨filters, hfilters⟩ := hlow.bindings b (mem_scannedBindings.mp hb).1
    rw [inlineFilters_eq hfilters, hfilters]
  have hstart : ∀ v ∈ startVars clauses bound,
      v ∈ {v | v ∈ scope ∨ ∃ b ∈ scannedBindings clauses, b.var = v} :=
    fun v hv => start_subset hsub hv
  have hfilters : WellScoped (block.filters.map .filter) (scopeAfter clauses bound scope) ↔
      ∀ f ∈ filtersOf clauses, ∀ u ∈ f.vars env.paramNames,
        u ∈ scopeAfter clauses bound scope := by
    rw [h.filters, explicitFilters, List.map_map]
    induction filtersOf clauses with
    | nil => simp [WellScoped]
    | cons f fs ih =>
      have hsame : ∀ g : IRFilter, (IROp.filter g).extend (scopeAfter clauses bound scope) =
          scopeAfter clauses bound scope := by
        intro g
        ext u
        simp [IROp.extend, IROp.introduces]
      rw [map_cons, WellScoped, Function.comp_apply, hsame, ih, IROp.WellScoped,
        lowerFilter_reads, forall_mem_cons]
  have hreads : ∀ pre t post, takenTraversals clauses bound = pre ++ t :: post →
      ¬ t.Closes (pre.foldl learn (startVars clauses bound)) →
      ((∀ u ∈ waitingReads waiting (t.target (pre.foldl learn (startVars clauses bound))),
          u ∈ namesOf (startVars clauses bound) (pre ++ [t]) ∨
            u ∈ {v | v ∈ scope ∨ ∃ b ∈ scannedBindings clauses, b.var = v}) ↔
        ∀ u ∈ matchVars env.paramNames
            (lastMatches clauses (t.target (pre.foldl learn (startVars clauses bound)))),
          u ∈ namesOf (startVars clauses bound) (pre ++ [t]) ∨
            u ∈ {v | v ∈ scope ∨ ∃ b ∈ scannedBindings clauses, b.var = v}) := by
    intro pre t post _ hopen
    refine waitingReads_iff h hlow (fun v hv => mem_foldl_learn.mpr (.inl hv)) hopen fun u hu => ?_
    left
    rw [namesOf_append, mem_append]
    exact .inr (by simpa [namesOf] using hu)
  rw [Block.ops, wellScoped_append, (h.extendAll).1, hfilters, wellScoped_append, h.scans,
    extendAll_scans, wellScoped_scans hbuild, wellScoped_steps h.steps hstart, h.order]
  have hnames := names_fresh_iff htyped hsub hready
  constructor
  · rintro ⟨⟨⟨honce, hfresh, hmatches⟩, hnodup, hnew, hreached⟩, hread⟩
    obtain ⟨hends, hedges, hclosed, htemps⟩ := hnames.mp ⟨hnodup, hnew⟩
    exact ⟨honce, hfresh, hends, hedges, hclosed, htemps, hread, hmatches,
      fun pre t post heq hopen => (hreads pre t post heq hopen).mp (hreached pre t post heq hopen)⟩
  · intro hblock
    obtain ⟨hnodup, hnew⟩ := hnames.mpr
      ⟨hblock.ends_fresh, hblock.edges_fresh, hblock.closed_once, hblock.temps_fresh⟩
    exact ⟨⟨⟨hblock.scanned_once, hblock.scanned_fresh, hblock.scanned_matches⟩, hnodup, hnew,
      fun pre t post heq hopen => (hreads pre t post heq hopen).mpr
        (hblock.reached_matches pre t post heq hopen)⟩, hblock.filters⟩

end Block

/-! ### Queries -/

/-- The outer variable of an anti-join is the first anchor that is bound. -/
lemma findOuterVar_eq {bound₀ bound : List String} (hsame : ∀ v, v ∈ bound₀ ↔ v ∈ bound)
    (inner : List Clause) : findOuterVar bound₀ inner = anchorOf bound inner := by
  have hdecide : ∀ v, decide (v ∈ bound₀) = decide (v ∈ bound) := fun v => by simp [hsame v]
  unfold anchorOf
  induction inner with
  | nil => rfl
  | cons clause rest ih =>
    rw [flatMap_cons, List.find?_append, ← ih]
    cases clause with
    | negation inner' => rfl
    | binding b =>
      simp only [findOuterVar, Clause.anchors, List.find?_cons, ← hdecide, List.find?_nil]
      by_cases hb : b.var ∈ bound₀ <;> simp [hb]
    | traversal t =>
      simp only [findOuterVar, Clause.anchors, List.find?_cons, ← hdecide, List.find?_nil]
      by_cases hsrc : t.src ∈ bound₀ <;> by_cases hdst : t.dst ∈ bound₀ <;> simp [hsrc, hdst]
    | filter f =>
      have hopt : ∀ o : Option String,
          o.toList.find? (fun v => decide (v ∈ bound)) = o.filter (· ∈ bound₀) := by
        intro o
        cases o with
        | none => rfl
        | some v => simp [Option.filter, ← hdecide, List.find?_cons]; split_ifs <;> simp_all
      rw [findOuterVar, Clause.anchors, List.find?_append, hopt, hopt]

/-- Anti-joins leave the scope as it is. -/
lemma antiJoin_extend (outerVar : String) (inner : List IROp) (scope : Set String) :
    (IROp.antiJoin outerVar inner).extend scope = scope := by
  ext v
  simp [IROp.extend, IROp.introduces]

/-- What is bound behind a block is in scope there. -/
lemma boundAfter_subset {clauses : List Clause} {bound : List String} {scope : Set String}
    (hsub : ∀ v ∈ bound, v ∈ scope)
    (hready : ReadyInOrder (startVars clauses bound) (takenTraversals clauses bound)) :
    ∀ v ∈ boundAfter clauses bound, v ∈ scopeAfter clauses bound scope := by
  intro v hv
  by_cases hstart : v ∈ startVars clauses bound
  · exact (start_subset hsub hstart).imp_right .inl
  · rcases mem_foldl_learn.mp hv with hv | ⟨hn, t, ht, htouch⟩
    · exact absurd hv hstart
    · have hnode := (mem_nodesOf hready).mpr ⟨hstart, hn, t, ht, htouch⟩
      exact .inr (.inr ((namesOf_perm _ _).mem_iff.mpr (mem_append_left _ hnode)))

mutual

/-- A negated block is scoped on its own, under the names around it. -/
lemma lowerNegation_wellScoped {env : LowerEnv} {params : ParamTypes} (clause : Clause)
    {ctx ctx' : TypeContext} (h : typecheckClause env.catalog params clause ctx = .ok ctx')
    {bound₀ bound : List String} (hsame : ∀ v, v ∈ bound₀ ↔ v ∈ bound) {scope : Set String}
    (hsub : ∀ v ∈ bound, v ∈ scope) {ops : List IROp}
    (hops : lowerNegation env clause bound₀ = .ok ops) :
    (WellScoped ops scope ↔ NegationScoped env.paramNames clause bound scope) ∧
      extendAll ops scope = scope := by
  match clause with
  | .binding b =>
    rw [lowerNegation] at hops
    · cases hops
      simp [WellScoped, NegationScoped, extendAll]
    · simp
  | .traversal t =>
    rw [lowerNegation] at hops
    · cases hops
      simp [WellScoped, NegationScoped, extendAll]
    · simp
  | .filter f =>
    rw [lowerNegation] at hops
    · cases hops
      simp [WellScoped, NegationScoped, extendAll]
    · simp
  | .negation inner =>
    obtain ⟨-, innerCtx, hinner⟩ := typecheckClause_negation_ok h
    simp only [lowerNegation, Except.bind_eq_ok_iff] at hops
    obtain ⟨block, hblock, antiJoins, hanti, heq⟩ := hops
    cases heq
    obtain ⟨waiting, horder⟩ := lowerBlock_inOrder hsame hblock
    have hready := horder.steps.ready
    rw [horder.order] at hready
    have hafter := boundAfter_subset hsub hready
    have hnot := lowerNegations_wellScoped inner hinner horder.bound hafter hanti
    refine ⟨?_, antiJoin_extend _ _ _⟩
    rw [WellScoped, WellScoped, and_true, IROp.WellScoped, wellScoped_append, horder.extendAll.2,
      hnot, horder.wellScoped_iff (Lowerable.of_typecheck hinner) (typecheckClauses_typed hinner)
        hsub, findOuterVar_eq hsame, NegationScoped]
    rw [← and_assoc]
    refine and_congr_left fun _ => ?_
    cases hanchor : anchorOf bound inner with
    | none => simp
    | some v =>
      have hv : v ∈ bound := by simpa using List.find?_some hanchor
      simp [hsub v hv]

lemma lowerNegations_wellScoped {env : LowerEnv} {params : ParamTypes} (clauses : List Clause)
    {ctx ctx' : TypeContext} (h : typecheckClauses env.catalog params clauses ctx = .ok ctx')
    {bound₀ bound : List String} (hsame : ∀ v, v ∈ bound₀ ↔ v ∈ bound) {scope : Set String}
    (hsub : ∀ v ∈ bound, v ∈ scope) {ops : List IROp}
    (hops : lowerNegations env clauses bound₀ = .ok ops) :
    WellScoped ops scope ↔ NegationsScoped env.paramNames clauses bound scope := by
  match clauses with
  | [] =>
    cases hops
    simp [WellScoped, NegationsScoped]
  | clause :: rest =>
    obtain ⟨mid, hclause, hrest⟩ := typecheckClauses_cons_ok.mp h
    simp only [lowerNegations, Except.bind_eq_ok_iff] at hops
    obtain ⟨own, hown, others, hothers, heq⟩ := hops
    cases heq
    obtain ⟨hiff, hextend⟩ := lowerNegation_wellScoped clause hclause hsame hsub hown
    rw [wellScoped_append, hextend, hiff,
      lowerNegations_wellScoped rest hrest hsame hsub hothers, NegationsScoped]

end

/-- The pipeline of an accepted query is well scoped exactly when its blocks, at any depth, are. -/
theorem lowerQuery_wellScoped_iff {catalog : Catalog} {query : QueryDecl} {ctx : TypeContext}
    (h : typecheckQuery catalog query = .ok ctx) :
    ∃ ir, lowerQuery catalog query ctx = .ok ir ∧
      (WellScoped ir.pipeline ∅ ↔
        ClausesScoped (query.params.map Param.name) query.matchClause [] ∅) := by
  obtain ⟨params, ir, -, hir, ⟨ctx', haccepted⟩, hlowered⟩ := lowerQuery_exists h
  obtain ⟨block, antiJoins, hblock, hanti, hops⟩ := lowerClauses_ok hlowered
  obtain ⟨waiting, horder⟩ := lowerBlock_inOrder (fun _ => Iff.rfl) hblock
  have hready := horder.steps.ready
  rw [horder.order] at hready
  have hnil : ∀ v ∈ ([] : List String), v ∈ (∅ : Set String) := by simp
  refine ⟨ir, hir, ?_⟩
  have hpipeline : ir.pipeline = block.ops ++ antiJoins := hops
  rw [hpipeline, wellScoped_append, horder.extendAll.2,
    horder.wellScoped_iff (Lowerable.of_typecheck haccepted) (typecheckClauses_typed haccepted)
      hnil,
    lowerNegations_wellScoped query.matchClause haccepted horder.bound
      (boundAfter_subset hnil hready) hanti]
  rfl

/-- `$a: Person  $a knows $c  $c: Person { name: "Ann" }`, where `$c` is introduced by the
traversal with the match on its name. -/
theorem lowerQuery_wellScoped_friends : ∃ ctx ir,
    typecheckQuery staffCatalog friendsQuery = .ok ctx ∧
      lowerQuery staffCatalog friendsQuery ctx = .ok ir ∧ WellScoped ir.pipeline ∅ := by
  obtain ⟨ir, hir, hiff⟩ := @lowerQuery_wellScoped_iff staffCatalog friendsQuery _ rfl
  refine ⟨_, ir, rfl, hir, hiff.mpr ⟨?_, trivial, trivial, trivial, trivial⟩⟩
  have hscanned : scannedBindings friendsQuery.matchClause = [⟨"a", "Person", []⟩] := rfl
  have htaken : takenTraversals friendsQuery.matchClause [] = [knowsTraversal] := by decide +kernel
  have hclosing : closingOf (startVars friendsQuery.matchClause [])
      (takenTraversals friendsQuery.matchClause []) = [] := by decide +kernel
  refine ⟨?_, fun _ _ => id, fun _ _ _ _ _ _ => id, fun _ _ _ _ => id, ?_, ?_, ?_, ?_, ?_⟩
  · rw [hscanned]
    exact nodup_singleton _
  · rw [hclosing]
    exact nodup_nil
  · rw [hclosing]
    simp
  · intro f hf
    cases hf
  · intro pre b post heq u hu
    rw [hscanned, singleton_eq_append_iff] at heq
    rcases heq with ⟨rfl, heq⟩ | ⟨rfl, heq⟩
    · cases heq
      cases hu
    · cases heq
  · intro pre t post heq _ u hu
    rw [htaken] at heq
    cases pre with
    | nil =>
      cases heq
      cases hu
    | cons t' pre => simp at heq

/-- `$a: Person  $a knows $b  $b knows $c  $c knows $a  $b knows $a` -/
def mutualQuery : QueryDecl :=
  staffQuery [.binding ⟨"a", "Person", []⟩, .traversal ⟨"a", "knows", "b", 1, some 1, false, none⟩,
    .traversal ⟨"b", "knows", "c", 1, some 1, false, none⟩,
    .traversal ⟨"c", "knows", "a", 1, some 1, false, none⟩,
    .traversal ⟨"b", "knows", "a", 1, some 1, false, none⟩]

/-- Both cycles are closed at `$a`, so two expands lead to `__temp_a`. -/
theorem lowerQuery_reuses_temp : ∃ ctx ir,
    typecheckQuery staffCatalog mutualQuery = .ok ctx ∧
      lowerQuery staffCatalog mutualQuery ctx = .ok ir ∧ ¬ WellScoped ir.pipeline ∅ := by
  refine ⟨_, _, rfl, rfl, ?_⟩
  rintro ⟨-, -, -, -, -, hsecond, -⟩
  rw [IROp.WellScoped] at hsecond
  -- in scope since the expand before the last filter
  exact hsecond.2.2.1 "__temp_a" mem_cons_self (.inr (.inl mem_cons_self))

end Omnigraph.Compiler
