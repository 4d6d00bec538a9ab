import Omnigraph.Compiler.Orientation

/-!
# How the context grows

A clause leaves every variable it finds with the type it has, and gives types to its own: a binding
and the named ends of a traversal are nodes, a named edge row is an edge. So a name that is an edge
row of a block is no node variable of it, and no other traversal of the block has it.
-/

namespace Omnigraph.Compiler

open List Except

/-- What `ctx` says of a variable `ctx'` says too. -/
def TypeContext.Extends (ctx ctx' : TypeContext) : Prop :=
  ∀ v bound, ctx.bindings.lookup v = some bound → ctx'.bindings.lookup v = some bound

namespace TypeContext.Extends

variable {ctx ctx' ctx'' : TypeContext}

lemma refl (ctx : TypeContext) : ctx.Extends ctx := fun _ _ h => h

lemma trans (h : ctx.Extends ctx') (h' : ctx'.Extends ctx'') : ctx.Extends ctx'' :=
  fun v bound hv => h' v bound (h v bound hv)

variable {v : String}

lemma mem (h : ctx.Extends ctx') (hv : v ∈ ctx.bindings) : v ∈ ctx'.bindings := by
  obtain ⟨bound, hbound⟩ := HashMap.mem_iff_exists_lookup.mp hv
  exact HashMap.mem_of_lookup (h v bound hbound)

/-- A fresh variable may be added. -/
lemma insert {bound : BoundVariable} (hv : v ∉ ctx.bindings)
    (h : ctx'.bindings = ctx.bindings.insert v bound) : ctx.Extends ctx' := by
  intro w bound' hw
  have hne : w ≠ v := by
    rintro rfl
    exact hv (HashMap.mem_of_lookup hw)
  rw [h, AList.lookup_insert_ne hne, hw]

end TypeContext.Extends

/-! ### Single clauses -/

variable {edge : EdgeType} {named : TypeContext} {t : Traversal} {direction : Direction}

lemma bindEdgeBinding_ok {ctx : TypeContext} (h : bindEdgeBinding t edge ctx = .ok named) :
    ctx.Extends named ∧ ∀ w ∈ t.namedEdgeBinding,
      w ∉ ctx.bindings ∧ named.bindings.lookup w = some (.edge edge.name) := by
  unfold bindEdgeBinding at h
  split_ifs at h with hhops
  · cases h
  · cases hname : t.namedEdgeBinding with
    | none =>
      rw [hname] at h
      cases h
      exact ⟨.refl _, by simp⟩
    | some w =>
      rw [hname] at h
      dsimp only at h
      split_ifs at h with hends hbound
      · cases h
      · cases h
      · cases h
        refine ⟨.insert hbound rfl, fun w' hw' => ?_⟩
        obtain rfl : w = w' := Option.some.inj hw'
        exact ⟨hbound, AList.lookup_insert _⟩

lemma inferDirection_extends {ctx ctx' : TypeContext}
    (h : inferDirection t edge ctx = .ok (direction, ctx')) : ctx.Extends ctx' := by
  obtain ⟨-, ⟨-, hbind⟩ | ⟨-, hbind⟩ | ⟨ctx₁, hbind₁, hbind₂⟩⟩ := inferDirection_cases h
  · exact (bindTraversalEndpoint_ok hbind).2.1
  · exact (bindTraversalEndpoint_ok hbind).2.1
  · exact TypeContext.Extends.trans (bindTraversalEndpoint_ok hbind₁).2.1
      (bindTraversalEndpoint_ok hbind₂).2.1

/-- What a traversal clause adds to the context. -/
structure TraversalTyped (catalog : Catalog) (t : Traversal) (ctx ctx' : TypeContext) : Prop where
  grows : ctx.Extends ctx'
  ends : ∀ v, t.Touches v → v ≠ "_" → ∃ typeName, ctx'.bindings.lookup v = some (.node typeName)
  edge : ∀ w ∈ t.namedEdgeBinding, w ∉ ctx.bindings ∧ ∃ edge,
    catalog.lookupEdgeByName t.edgeName = some edge ∧
      ctx'.bindings.lookup w = some (.edge edge.name)

lemma typecheckTraversal_typed {catalog : Catalog} {ctx ctx' : TypeContext}
    (h : typecheckTraversal catalog t ctx = .ok ctx') : TraversalTyped catalog t ctx ctx' := by
  obtain ⟨edge, direction, named, typed, hchecked⟩ := typecheckTraversal_ok h
  obtain ⟨hnamed, hedge⟩ := bindEdgeBinding_ok hchecked.named_eq
  have htyped := inferDirection_extends hchecked.typed_eq
  obtain ⟨hsrc, hdst, -⟩ := inferDirection_ok hchecked.typed_eq
  refine ⟨fun v bound hv => ?_, ?_, fun w hw => ⟨(hedge w hw).1, edge, hchecked.edge_eq, ?_⟩⟩
  · rw [hchecked.bindings_eq]
    exact htyped v bound (hnamed v bound hv)
  · rw [hchecked.bindings_eq]
    rintro v (rfl | rfl) hn
    · exact ⟨_, hsrc hn⟩
    · exact ⟨_, hdst hn⟩
  · rw [hchecked.bindings_eq]
    exact htyped w _ (hedge w hw).2

variable {b : Binding} {params : ParamTypes} {clause : Clause}

lemma typecheckBinding_typed {catalog : Catalog} {ctx ctx' : TypeContext}
    (h : typecheckBinding catalog params b ctx = .ok ctx') :
    ctx.Extends ctx' ∧ ctx'.bindings.lookup b.var = some (.node b.typeName) := by
  unfold typecheckBinding at h
  cases htype : catalog.nodeTypes.lookup b.typeName with
  | none => rw [htype] at h; cases h
  | some nodeType =>
    rw [htype] at h
    dsimp only at h
    simp only [bind_eq_ok_iff] at h
    obtain ⟨_, -, _, hrebind, heq⟩ := h
    cases heq
    refine ⟨fun v bound hv => ?_, AList.lookup_insert _⟩
    show (ctx.bindings.insert b.var _).lookup v = _
    rw [HashMap.lookup_insert_ite]
    split_ifs with heq
    · -- a variable that is bound again keeps its type
      subst heq
      unfold checkRebind at hrebind
      rw [hv] at hrebind
      cases bound with
      | edge typeName => cases hrebind
      | node typeName =>
        dsimp only at hrebind
        split_ifs at hrebind with hsame
        · rw [hsame]
        · cases hrebind
    · exact hv

lemma typecheckClause_extends {catalog : Catalog} {ctx ctx' : TypeContext}
    (h : typecheckClause catalog params clause ctx = .ok ctx') : ctx.Extends ctx' := by
  cases clause with
  | binding b =>
    rw [typecheckClause] at h
    exact (typecheckBinding_typed h).1
  | traversal t =>
    rw [typecheckClause] at h
    exact (typecheckTraversal_typed h).grows
  | filter f =>
    rw [typecheckClause, bind_eq_ok_iff] at h
    obtain ⟨_, -, heq⟩ := h
    cases heq
    exact .refl _
  | negation inner =>
    rw [(typecheckClause_negation_ok h).1]
    exact .refl _

/-! ### Blocks -/

lemma typecheckClauses_extends {catalog : Catalog} {clauses : List Clause} {ctx ctx' : TypeContext}
    (h : typecheckClauses catalog params clauses ctx = .ok ctx') : ctx.Extends ctx' := by
  induction clauses generalizing ctx with
  | nil =>
    cases h
    exact .refl _
  | cons clause rest ih =>
    obtain ⟨mid, hclause, hrest⟩ := typecheckClauses_cons_ok.mp h
    exact (typecheckClause_extends hclause).trans (ih hrest)

/-! ### Aliases

Only the return clause names results, so no clause sees an alias. -/

lemma bindTraversalEndpoint_aliases {ctx ctx' : TypeContext} {var expected : String}
    (h : bindTraversalEndpoint ctx var expected edge = .ok ctx') : ctx'.aliases = ctx.aliases := by
  unfold bindTraversalEndpoint at h
  split_ifs at h with hanon
  · cases h
    rfl
  · cases hvar : ctx.bindings.lookup var with
    | none =>
      rw [hvar] at h
      cases h
      rfl
    | some existing =>
      rw [hvar] at h
      dsimp only at h
      rw [bind_eq_ok_iff] at h
      obtain ⟨existingType, -, h⟩ := h
      split_ifs at h
      · cases h
        rfl
      · cases h

lemma inferDirection_aliases {ctx ctx' : TypeContext}
    (h : inferDirection t edge ctx = .ok (direction, ctx')) : ctx'.aliases = ctx.aliases := by
  obtain ⟨-, ⟨-, hbind⟩ | ⟨-, hbind⟩ | ⟨ctx₁, hbind₁, hbind₂⟩⟩ := inferDirection_cases h
  · exact bindTraversalEndpoint_aliases hbind
  · exact bindTraversalEndpoint_aliases hbind
  · rw [bindTraversalEndpoint_aliases hbind₂, bindTraversalEndpoint_aliases hbind₁]

lemma bindEdgeBinding_aliases {ctx : TypeContext} (h : bindEdgeBinding t edge ctx = .ok named) :
    named.aliases = ctx.aliases := by
  unfold bindEdgeBinding at h
  split_ifs at h
  · cases h
  · split at h
    · cases h
      rfl
    · split_ifs at h
      · cases h
      · cases h
      · cases h
        rfl

lemma typecheckClause_aliases {catalog : Catalog} {ctx ctx' : TypeContext}
    (h : typecheckClause catalog params clause ctx = .ok ctx') : ctx'.aliases = ctx.aliases := by
  cases clause with
  | binding b =>
    rw [typecheckClause] at h
    unfold typecheckBinding at h
    split at h
    · cases h
    · simp only [bind_eq_ok_iff] at h
      obtain ⟨_, -, _, -, heq⟩ := h
      cases heq
      rfl
  | traversal t =>
    rw [typecheckClause] at h
    unfold typecheckTraversal at h
    split at h
    · cases h
    · simp only [bind_eq_ok_iff] at h
      obtain ⟨_, -, _, -, named, hnamed, ⟨direction, typed⟩, htyped, heq⟩ := h
      cases heq
      show typed.aliases = _
      rw [inferDirection_aliases htyped, bindEdgeBinding_aliases hnamed]
  | filter f =>
    rw [typecheckClause, bind_eq_ok_iff] at h
    obtain ⟨_, -, heq⟩ := h
    cases heq
    rfl
  | negation inner => rw [(typecheckClause_negation_ok h).1]

lemma typecheckClauses_aliases {catalog : Catalog} {clauses : List Clause} {ctx ctx' : TypeContext}
    (h : typecheckClauses catalog params clauses ctx = .ok ctx') : ctx'.aliases = ctx.aliases := by
  induction clauses generalizing ctx with
  | nil =>
    cases h
    rfl
  | cons clause rest ih =>
    obtain ⟨mid, hclause, hrest⟩ := typecheckClauses_cons_ok.mp h
    rw [ih hrest, typecheckClause_aliases hclause]

lemma Inside.aliases {env : LowerEnv} {top scope : Scope} (h : Inside env params top scope) :
    scope.ctx.aliases = top.ctx.aliases := by
  induction h with
  | top => rfl
  | negation _ _ hctx _ _ _ ih => rw [typecheckClauses_aliases hctx, ih]

/-! ### Kinds of variables -/

/-- What each variable of a checked block stands for. -/
structure BlockTyped (catalog : Catalog) (clauses : List Clause) (ctx ctx' : TypeContext) :
    Prop where
  grows : ctx.Extends ctx'
  bindings : ∀ b ∈ bindingsOf clauses, ctx'.bindings.lookup b.var = some (.node b.typeName)
  ends : ∀ t ∈ traversalsOf clauses, ∀ v, t.Touches v → v ≠ "_" →
    ∃ typeName, ctx'.bindings.lookup v = some (.node typeName)
  edges : ∀ t ∈ traversalsOf clauses, ∀ w ∈ t.namedEdgeBinding, ∃ edge,
    catalog.lookupEdgeByName t.edgeName = some edge ∧
      ctx'.bindings.lookup w = some (.edge edge.name)
  fresh : ∀ w ∈ (traversalsOf clauses).filterMap Traversal.namedEdgeBinding, w ∉ ctx.bindings
  once : ((traversalsOf clauses).filterMap Traversal.namedEdgeBinding).Nodup

variable {w : String}

lemma Traversal.named_of_edgeBinding (h : w ∈ t.namedEdgeBinding) : w ≠ "_" := by
  have hw := Option.mem_filter_iff.mp h
  simpa using hw.2

/-- What the type checker accepts is typed, clause by clause. -/
theorem typecheckClauses_typed {catalog : Catalog} {clauses : List Clause} {ctx ctx' : TypeContext}
    (h : typecheckClauses catalog params clauses ctx = .ok ctx') :
    BlockTyped catalog clauses ctx ctx' := by
  induction clauses generalizing ctx with
  | nil =>
    cases h
    exact ⟨.refl _, by simp [bindingsOf], by simp [traversalsOf], by simp [traversalsOf],
      by simp [traversalsOf], by simp [traversalsOf]⟩
  | cons clause rest ih =>
    obtain ⟨mid, hclause, hrest⟩ := typecheckClauses_cons_ok.mp h
    have hgrows := typecheckClause_extends hclause
    have hih := ih hrest
    -- a clause that is neither a binding nor a traversal adds nothing
    have hskip (hb : bindingsOf (clause :: rest) = bindingsOf rest)
        (ht : traversalsOf (clause :: rest) = traversalsOf rest) :
        BlockTyped catalog (clause :: rest) ctx ctx' := by
      refine ⟨hgrows.trans hih.grows, by rw [hb]; exact hih.bindings, by rw [ht]; exact hih.ends,
        by rw [ht]; exact hih.edges, ?_, by rw [ht]; exact hih.once⟩
      rw [ht]
      exact fun w hw hmem => hih.fresh w hw (hgrows.mem hmem)
    cases clause with
    | filter f => exact hskip rfl rfl
    | negation inner => exact hskip rfl rfl
    | binding b =>
      rw [typecheckClause] at hclause
      have hb := (typecheckBinding_typed hclause).2
      refine ⟨hgrows.trans hih.grows, ?_, hih.ends, hih.edges,
        fun w hw hmem => hih.fresh w hw (hgrows.mem hmem), hih.once⟩
      intro b' hb'
      rcases mem_cons.mp (show b' ∈ b :: bindingsOf rest from hb') with rfl | hb'
      · exact hih.grows _ _ hb
      · exact hih.bindings b' hb'
    | traversal t =>
      rw [typecheckClause] at hclause
      have ht := typecheckTraversal_typed hclause
      have hlist : traversalsOf (.traversal t :: rest) = t :: traversalsOf rest := rfl
      have hcases : ∀ w, w ∈ (t :: traversalsOf rest).filterMap Traversal.namedEdgeBinding →
          w ∈ t.namedEdgeBinding ∨
          w ∈ (traversalsOf rest).filterMap Traversal.namedEdgeBinding := by
        intro w hw
        obtain ⟨t', ht', hw'⟩ := mem_filterMap.mp hw
        rcases mem_cons.mp ht' with rfl | ht'
        · exact .inl hw'
        · exact .inr (mem_filterMap.mpr ⟨t', ht', hw'⟩)
      refine ⟨hgrows.trans hih.grows, hih.bindings, ?_, ?_, ?_, ?_⟩
      · rw [hlist]
        intro t' ht' v hv hn
        rcases mem_cons.mp ht' with rfl | ht'
        · obtain ⟨typeName, hlookup⟩ := ht.ends v hv hn
          exact ⟨typeName, hih.grows _ _ hlookup⟩
        · exact hih.ends t' ht' v hv hn
      · rw [hlist]
        intro t' ht' w hw
        rcases mem_cons.mp ht' with rfl | ht'
        · obtain ⟨-, edge, hedge, hlookup⟩ := ht.edge w hw
          exact ⟨edge, hedge, hih.grows _ _ hlookup⟩
        · exact hih.edges t' ht' w hw
      · rw [hlist]
        intro w hw hmem
        rcases hcases w hw with hw | hw
        · exact (ht.edge w hw).1 hmem
        · exact hih.fresh w hw (hgrows.mem hmem)
      · rw [hlist, filterMap_cons]
        cases hname : t.namedEdgeBinding with
        | none => exact hih.once
        | some w =>
          refine nodup_cons.mpr ⟨fun hw => ?_, hih.once⟩
          obtain ⟨-, edge, -, hlookup⟩ := ht.edge w hname
          exact hih.fresh w hw (HashMap.mem_of_lookup hlookup)

namespace BlockTyped

variable {catalog : Catalog} {clauses : List Clause} {ctx ctx' : TypeContext}
  (h : BlockTyped catalog clauses ctx ctx')
include h

/-- The name of an edge row is no end of a traversal. -/
lemma edge_not_end {t' : Traversal} (ht : t ∈ traversalsOf clauses)
    (ht' : t' ∈ traversalsOf clauses) (hw : w ∈ t.namedEdgeBinding) : ¬ t'.Touches w := by
  intro htouch
  obtain ⟨edge, -, hedge⟩ := h.edges t ht w hw
  obtain ⟨typeName, hnode⟩ := h.ends t' ht' w htouch (Traversal.named_of_edgeBinding hw)
  rw [hedge] at hnode
  cases hnode

/-- It is no variable of a binding either. -/
lemma edge_not_bound (ht : t ∈ traversalsOf clauses) (hw : w ∈ t.namedEdgeBinding)
    (hb : b ∈ bindingsOf clauses) : b.var ≠ w := by
  rintro rfl
  obtain ⟨edge, -, hedge⟩ := h.edges t ht _ hw
  rw [h.bindings b hb] at hedge
  cases hedge

end BlockTyped

end Omnigraph.Compiler
