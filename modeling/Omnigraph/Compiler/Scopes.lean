import Omnigraph.Compiler.Lower

/-!
# Blocks of an accepted query

A query that passes the type checker is lowered without error. Its blocks, the match clause and
every `not` block at any depth, are checked in a context, started from a set of bound variables and
lowered to a pipeline of their own.
-/

namespace Omnigraph.Compiler

open List Except

/-! ### Clauses one by one -/

variable {catalog : Catalog} {clause : Clause} {ctx ctx' : TypeContext} {params : ParamTypes}
  {post pre clauses inner : List Clause}

lemma typecheckClauses_cons_ok {rest : List Clause} :
    typecheckClauses catalog params (clause :: rest) ctx = .ok ctx' ↔
      ∃ mid, typecheckClause catalog params clause ctx = .ok mid ∧
        typecheckClauses catalog params rest mid = .ok ctx' := by
  rw [typecheckClauses, bind_eq_ok_iff]

lemma typecheckClauses_append_ok :
    typecheckClauses catalog params (pre ++ post) ctx = .ok ctx' ↔
      ∃ mid, typecheckClauses catalog params pre ctx = .ok mid ∧
        typecheckClauses catalog params post mid = .ok ctx' := by
  induction pre generalizing ctx with
  | nil => simp [typecheckClauses]
  | cons clause pre ih =>
    simp only [cons_append, typecheckClauses_cons_ok, ih]
    constructor
    · rintro ⟨c₁, h₁, c₂, h₂, h₃⟩
      exact ⟨c₂, ⟨c₁, h₁, h₂⟩, h₃⟩
    · rintro ⟨c₂, ⟨c₁, h₁, h₂⟩, h₃⟩
      exact ⟨c₁, h₁, c₂, h₂, h₃⟩

/-- Every clause of an accepted block is accepted in some context. -/
lemma typecheckClause_of_mem (h : typecheckClauses catalog params clauses ctx = .ok ctx')
    (hmem : clause ∈ clauses) :
    ∃ before after, typecheckClause catalog params clause before = .ok after := by
  obtain ⟨pre, post, rfl⟩ := append_of_mem hmem
  obtain ⟨before, -, hrest⟩ := typecheckClauses_append_ok.mp h
  obtain ⟨after, hafter, -⟩ := typecheckClauses_cons_ok.mp hrest
  exact ⟨before, after, hafter⟩

lemma typecheckClause_negation_ok
    (h : typecheckClause catalog params (.negation inner) ctx = .ok ctx') :
    ctx' = ctx ∧ ∃ innerCtx, typecheckClauses catalog params inner ctx = .ok innerCtx := by
  rw [typecheckClause, bind_eq_ok_iff] at h
  obtain ⟨innerCtx, hinner, hrest⟩ := h
  split_ifs at hrest with href
  · cases hrest
    exact ⟨rfl, innerCtx, hinner⟩
  · cases hrest

/-- How a traversal was accepted. -/
structure TraversalChecked (catalog : Catalog) (t : Traversal) (ctx ctx' : TypeContext)
    (edge : EdgeType) (direction : Direction) (named typed : TypeContext) : Prop where
  edge_eq : catalog.lookupEdgeByName t.edgeName = some edge
  undirected : checkUndirected t edge = .ok ()
  named_eq : bindEdgeBinding t edge ctx = .ok named
  typed_eq : inferDirection t edge named = .ok (direction, typed)
  bindings_eq : ctx'.bindings = typed.bindings
  traversals_eq : ctx'.traversals = typed.traversals ++
    [{ src := t.src, dst := t.dst, edgeType := edge.name,
       direction := if t.undirected then .both else direction,
       minHops := t.minHops, maxHops := t.maxHops, edgeBinding := t.namedEdgeBinding }]

variable {t : Traversal}

lemma typecheckTraversal_ok (h : typecheckTraversal catalog t ctx = .ok ctx') :
    ∃ edge direction named typed,
      TraversalChecked catalog t ctx ctx' edge direction named typed := by
  unfold typecheckTraversal at h
  cases hedge : catalog.lookupEdgeByName t.edgeName with
  | none => rw [hedge] at h; cases h
  | some edge =>
    rw [hedge] at h
    dsimp only at h
    simp only [bind_eq_ok_iff] at h
    obtain ⟨_, -, _, hund, named, hnamed, ⟨direction, typed⟩, htyped, hctx⟩ := h
    cases hctx
    exact ⟨edge, direction, named, typed, hedge, hund, hnamed, htyped, rfl, rfl⟩

/-! ### Accepted blocks are lowered -/

/-- Everything `lowerBlock` looks up is in the catalog. -/
structure Lowerable (env : LowerEnv) (clauses : List Clause) : Prop where
  bindings : ∀ b ∈ bindingsOf clauses, ∃ filters, buildBindingFilters env b = .ok filters
  edges : ∀ t ∈ traversalsOf clauses, ∃ edge, env.catalog.lookupEdgeByName t.edgeName = some edge

variable {b : Binding} {env : LowerEnv} {ts : List Traversal}

lemma mem_bindingsOf : b ∈ bindingsOf clauses ↔ .binding b ∈ clauses := by
  rw [bindingsOf, mem_filterMap]
  constructor
  · rintro ⟨clause, hmem, h⟩
    cases clause <;> cases h
    exact hmem
  · exact fun h => ⟨.binding b, h, rfl⟩

lemma mem_traversalsOf : t ∈ traversalsOf clauses ↔ .traversal t ∈ clauses := by
  rw [traversalsOf, mem_filterMap]
  constructor
  · rintro ⟨clause, hmem, h⟩
    cases clause <;> cases h
    exact hmem
  · exact fun h => ⟨.traversal t, h, rfl⟩

lemma buildBindingFilters_of_typecheck (h : typecheckBinding env.catalog params b ctx = .ok ctx') :
    ∃ filters, buildBindingFilters env b = .ok filters := by
  unfold typecheckBinding at h
  unfold buildBindingFilters
  cases htype : env.catalog.nodeTypes.lookup b.typeName with
  | none => rw [htype] at h; cases h
  | some nodeType =>
    rw [htype] at h
    dsimp only at h ⊢
    rw [bind_eq_ok_iff] at h
    obtain ⟨⟨⟩, hprops, -⟩ := h
    apply exists_mapM_eq_ok_iff.mpr
    intro pm hpm
    have hpm' := forM_eq_ok_iff.mp hprops pm hpm
    unfold checkPropMatch at hpm'
    unfold buildBindingFilter
    cases hprop : nodeType.properties.lookup pm.propName with
    | none => rw [hprop] at hpm'; cases hpm'
    | some prop => exact ⟨_, rfl⟩

lemma Lowerable.of_typecheck (h : typecheckClauses env.catalog params clauses ctx = .ok ctx') :
    Lowerable env clauses := by
  refine ⟨fun b hb => ?_, fun t ht => ?_⟩
  · obtain ⟨before, after, hb'⟩ := typecheckClause_of_mem h (mem_bindingsOf.mp hb)
    rw [typecheckClause] at hb'
    exact buildBindingFilters_of_typecheck hb'
  · obtain ⟨before, after, ht'⟩ := typecheckClause_of_mem h (mem_traversalsOf.mp ht)
    rw [typecheckClause] at ht'
    obtain ⟨edge, _, _, _, hchecked⟩ := typecheckTraversal_ok ht'
    exact ⟨edge, hchecked.edge_eq⟩

lemma lowerTraversal_exists (h : ∃ edge, env.catalog.lookupEdgeByName t.edgeName = some edge)
    (st : ExpandState) : ∃ st', lowerTraversal env t st = .ok st' := by
  obtain ⟨edge, hedge⟩ := h
  unfold lowerTraversal
  rw [hedge]
  dsimp only
  split_ifs
  · exact ⟨_, rfl⟩
  · exact ⟨_, rfl⟩
  · exact ⟨_, rfl⟩

/-- A pass succeeds, and what it keeps it was given. -/
lemma expandPass_exists (h : ∀ t ∈ ts, ∃ edge, env.catalog.lookupEdgeByName t.edgeName = some edge)
    (st : ExpandState) :
    ∃ next st', expandPass env ts st = .ok (next, st') ∧ ∀ t ∈ next, t ∈ ts := by
  induction ts generalizing st with
  | nil => exact ⟨[], st, rfl, by simp⟩
  | cons t rest ih =>
    have hrest := fun t' ht' => h t' (mem_cons_of_mem _ ht')
    rw [expandPass]
    split_ifs with hfree
    · obtain ⟨next, st', hpass, hsub⟩ := ih hrest st
      refine ⟨t :: next, st', by rw [hpass]; rfl, fun t' ht' => ?_⟩
      rcases mem_cons.mp ht' with rfl | ht'
      · exact mem_cons_self
      · exact mem_cons_of_mem _ (hsub t' ht')
    · obtain ⟨st₁, hst₁⟩ := lowerTraversal_exists (h t mem_cons_self) st
      obtain ⟨next, st', hpass, hsub⟩ := ih hrest st₁
      exact ⟨next, st', by rw [hst₁]; exact hpass, fun t' ht' =>
        mem_cons_of_mem _ (hsub t' ht')⟩

lemma expandLoop_exists (h : ∀ t ∈ ts, ∃ edge, env.catalog.lookupEdgeByName t.edgeName = some edge)
    (fuel : ℕ) (st : ExpandState) : ∃ st', expandLoop env fuel ts st = .ok st' := by
  induction fuel generalizing ts st with
  | zero => exact ⟨st, rfl⟩
  | succ fuel ih =>
    rw [expandLoop]
    split_ifs with hempty
    · exact ⟨st, rfl⟩
    · obtain ⟨next, st', hpass, hsub⟩ := expandPass_exists h st
      rw [hpass]
      show ∃ out, (if next.length = ts.length then .ok st' else expandLoop env fuel next st') =
        .ok out
      split_ifs
      · exact ⟨st', rfl⟩
      · exact ih (fun t ht => h t (hsub t ht)) st'

lemma lowerBindings_exists {env : LowerEnv} {deferred : List String} {bs : List Binding}
    (h : ∀ b ∈ bs, ∃ filters, buildBindingFilters env b = .ok filters) (st : ScanState) :
    ∃ st', bs.foldlM (lowerBinding env deferred) st = .ok st' := by
  induction bs generalizing st with
  | nil => exact ⟨st, rfl⟩
  | cons b bs ih =>
    obtain ⟨filters, hfilters⟩ := h b mem_cons_self
    obtain ⟨st₁, hst₁⟩ : ∃ st₁, lowerBinding env deferred st b = .ok st₁ := by
      simp only [lowerBinding, hfilters, bind, Except.bind]
      split_ifs
      · exact ⟨_, rfl⟩
      · exact ⟨_, rfl⟩
      · exact ⟨_, rfl⟩
    rw [foldlM_cons, hst₁]
    exact ih (fun b' hb' => h b' (mem_cons_of_mem _ hb')) st₁

lemma Lowerable.lowerBlock (h : Lowerable env clauses) (bound : List String) :
    ∃ block, lowerBlock env clauses bound = .ok block := by
  obtain ⟨scanned, hscanned⟩ := @lowerBindings_exists env
    (deferredSet (bindingsOf clauses) (traversalsOf clauses)) _ h.bindings ⟨[], bound, ∅⟩
  obtain ⟨expanded, hexpanded⟩ := expandLoop_exists h.edges (traversalsOf clauses).length
    ⟨[], scanned.bound, scanned.deferredFilters⟩
  simp only [Compiler.lowerBlock, bind_eq_ok_iff]
  exact ⟨_, scanned, hscanned, expanded, hexpanded, rfl⟩

mutual

lemma lowerNegation_exists {env : LowerEnv} {params : ParamTypes} (clause : Clause)
    {ctx ctx' : TypeContext} (h : typecheckClause env.catalog params clause ctx = .ok ctx')
    (bound : List String) : ∃ ops, lowerNegation env clause bound = .ok ops := by
  match clause with
  | .binding b => exact ⟨[], by rw [lowerNegation]; simp⟩
  | .traversal t => exact ⟨[], by rw [lowerNegation]; simp⟩
  | .filter f => exact ⟨[], by rw [lowerNegation]; simp⟩
  | .negation inner =>
    obtain ⟨-, innerCtx, hinner⟩ := typecheckClause_negation_ok h
    obtain ⟨block, hblock⟩ := (Lowerable.of_typecheck hinner).lowerBlock bound
    obtain ⟨antiJoins, hanti⟩ := lowerNegations_exists inner hinner block.bound
    simp only [lowerNegation, Except.bind_eq_ok_iff]
    exact ⟨_, block, hblock, antiJoins, hanti, rfl⟩

lemma lowerNegations_exists {env : LowerEnv} {params : ParamTypes} (clauses : List Clause)
    {ctx ctx' : TypeContext} (h : typecheckClauses env.catalog params clauses ctx = .ok ctx')
    (bound : List String) : ∃ ops, lowerNegations env clauses bound = .ok ops := by
  match clauses with
  | [] => exact ⟨[], rfl⟩
  | clause :: rest =>
    obtain ⟨mid, hclause, hrest⟩ := typecheckClauses_cons_ok.mp h
    obtain ⟨own, hown⟩ := lowerNegation_exists clause hclause bound
    obtain ⟨others, hothers⟩ := lowerNegations_exists rest hrest bound
    exact ⟨own ++ others, by rw [lowerNegations, hown, hothers]; rfl⟩

end

/-! ### Blocks at any depth -/

/-- A block with what it starts from: the context it is checked in, the variables bound before it,
and the pipeline it becomes. -/
structure Scope where
  ctx : TypeContext
  bound : List String
  clauses : List Clause
  ops : List IROp

/-- `top` and the `not` blocks in it, at any depth. The pipeline of a `not` block is the one of its
anti-join. -/
inductive Inside (env : LowerEnv) (params : ParamTypes) (top : Scope) : Scope → Prop
  | top : Inside env params top top
  | negation {outer : Scope} {pre inner post : List Clause} {ctx : TypeContext} {block : Block}
      {before after ops : List IROp} {outerVar : String}
      (h : Inside env params top outer)
      (hclauses : outer.clauses = pre ++ .negation inner :: post)
      (hctx : typecheckClauses env.catalog params pre outer.ctx = .ok ctx)
      (hblock : lowerBlock env outer.clauses outer.bound = .ok block)
      (hbefore : lowerNegations env pre block.bound = .ok before)
      (hops : outer.ops = block.ops ++ before ++ .antiJoin outerVar ops :: after) :
      Inside env params top ⟨ctx, block.bound, inner, ops⟩

/-- The block is accepted, and its pipeline is what it is lowered to. -/
structure Scope.Lowered (env : LowerEnv) (params : ParamTypes) (scope : Scope) : Prop where
  accepted : ∃ ctx', typecheckClauses env.catalog params scope.clauses scope.ctx = .ok ctx'
  lowered : lowerClauses env scope.clauses scope.bound = .ok scope.ops

variable {bound : List String} {ops : List IROp} {top : Scope}

lemma lowerClauses_ok (h : lowerClauses env clauses bound = .ok ops) :
    ∃ block antiJoins, lowerBlock env clauses bound = .ok block ∧
      lowerNegations env clauses block.bound = .ok antiJoins ∧ ops = block.ops ++ antiJoins := by
  simp only [lowerClauses, bind_eq_ok_iff] at h
  obtain ⟨block, hblock, antiJoins, hanti, hops⟩ := h
  cases hops
  exact ⟨block, antiJoins, hblock, hanti, rfl⟩

lemma lowerNegations_append_ok (h : lowerNegations env (pre ++ post) bound = .ok ops) :
    ∃ before after, lowerNegations env pre bound = .ok before ∧
      lowerNegations env post bound = .ok after ∧ ops = before ++ after := by
  induction pre generalizing ops with
  | nil => exact ⟨[], ops, rfl, h, rfl⟩
  | cons clause pre ih =>
    simp only [cons_append, lowerNegations, bind_eq_ok_iff] at h ⊢
    obtain ⟨own, hown, others, hothers, hops⟩ := h
    cases hops
    obtain ⟨before, after, hbefore, hafter, rfl⟩ := ih hothers
    exact ⟨own ++ before, after, ⟨own, hown, before, hbefore, rfl⟩, hafter, by simp⟩

lemma lowerNegations_negation_ok
    (h : lowerNegations env (.negation inner :: post) bound = .ok ops) :
    ∃ outerVar innerOps after, lowerClauses env inner bound = .ok innerOps ∧
      ops = .antiJoin outerVar innerOps :: after := by
  simp only [lowerNegations, lowerNegation, bind_eq_ok_iff] at h
  obtain ⟨own, ⟨block, hblock, antiJoins, hanti, hown⟩, others, hothers, hops⟩ := h
  cases hown
  cases hops
  refine ⟨_, block.ops ++ antiJoins, others, ?_, rfl⟩
  simp only [lowerClauses, bind_eq_ok_iff]
  exact ⟨block, hblock, antiJoins, hanti, rfl⟩

/-- The blocks inside an accepted one are accepted and lowered the same way. -/
theorem Inside.lowered {scope : Scope} (h : Inside env params top scope)
    (htop : top.Lowered env params) : scope.Lowered env params := by
  induction h with
  | top => exact htop
  | negation _ hclauses hctx hblock hbefore hops ih =>
    obtain ⟨⟨ctx', haccepted⟩, hlowered⟩ := ih
    rw [hclauses] at haccepted
    obtain ⟨mid, hmid, hrest⟩ := typecheckClauses_append_ok.mp haccepted
    obtain rfl : mid = _ := Except.ok.inj (hmid.symm.trans hctx)
    obtain ⟨_, hneg, -⟩ := typecheckClauses_cons_ok.mp hrest
    refine ⟨(typecheckClause_negation_ok hneg).2, ?_⟩
    obtain ⟨block', antiJoins, hblock', hanti, hops'⟩ := lowerClauses_ok hlowered
    obtain rfl : block' = _ := Except.ok.inj (hblock'.symm.trans hblock)
    rw [hclauses] at hanti
    obtain ⟨before', after', hbefore', hafter', rfl⟩ := lowerNegations_append_ok hanti
    obtain rfl : before' = _ := Except.ok.inj (hbefore'.symm.trans hbefore)
    obtain ⟨_, innerOps, _, hinner, rfl⟩ := lowerNegations_negation_ok hafter'
    rw [hops, append_assoc] at hops'
    have htail := append_cancel_left (append_cancel_left hops')
    cases htail
    exact hinner

/-- A block without `not` blocks is the only one in it. -/
lemma Inside.eq_top {scope : Scope} (h : Inside env params top scope)
    (hno : ∀ inner, .negation inner ∉ top.clauses) : scope = top := by
  induction h with
  | top => rfl
  | @negation _ _ inner _ _ _ _ _ _ _ _ hclauses _ _ _ _ ih =>
    rw [ih] at hclauses
    exact absurd (by rw [hclauses]; simp) (hno inner)

/-- The match clause of a query as a block. -/
def QueryDecl.scope (query : QueryDecl) (ops : List IROp) : Scope :=
  ⟨TypeContext.empty, [], query.matchClause, ops⟩

/-- How a read query was accepted. -/
lemma typecheckQuery_ok {query : QueryDecl} (h : typecheckQuery catalog query = .ok ctx) :
    query.mutations = [] ∧ ∃ params clausesCtx, parseDeclaredParamTypes query.params = .ok params ∧
      typecheckClauses catalog params query.matchClause TypeContext.empty = .ok clausesCtx := by
  unfold typecheckQuery at h
  split_ifs at h with hmut
  · cases h
  · simp only [typecheckReadQuery, bind_eq_ok_iff] at h
    obtain ⟨params, hparams, clausesCtx, hclauses, -⟩ := h
    exact ⟨not_not.mp hmut, params, clausesCtx, hparams, hclauses⟩

/-- An accepted query is lowered, and so is every block in it. -/
theorem lowerQuery_exists {catalog : Catalog} {query : QueryDecl} {ctx : TypeContext}
    (h : typecheckQuery catalog query = .ok ctx) :
    ∃ params ir, parseDeclaredParamTypes query.params = .ok params ∧
      lowerQuery catalog query ctx = .ok ir ∧
      (query.scope ir.pipeline).Lowered (query.lowerEnv catalog ctx) params := by
  obtain ⟨hmut, params, clausesCtx, hparams, hclauses⟩ := typecheckQuery_ok h
  have hclauses' : typecheckClauses (query.lowerEnv catalog ctx).catalog params query.matchClause
      TypeContext.empty = .ok clausesCtx := hclauses
  obtain ⟨block, hblock⟩ := (Lowerable.of_typecheck hclauses').lowerBlock []
  obtain ⟨antiJoins, hanti⟩ := lowerNegations_exists query.matchClause hclauses' block.bound
  have hlowered : lowerClauses (query.lowerEnv catalog ctx) query.matchClause [] =
      .ok (block.ops ++ antiJoins) := by
    simp only [lowerClauses, Except.bind_eq_ok_iff]
    exact ⟨block, hblock, antiJoins, hanti, rfl⟩
  obtain ⟨ir, hir, hpipeline⟩ : ∃ ir, lowerQuery catalog query ctx = .ok ir ∧
      ir.pipeline = block.ops ++ antiJoins := by
    unfold lowerQuery
    rw [if_neg (not_not.mpr hmut)]
    simp only [Except.bind_eq_ok_iff]
    exact ⟨_, ⟨_, hlowered, rfl⟩, rfl⟩
  refine ⟨params, ir, hparams, hir, ⟨clausesCtx, hclauses⟩, ?_⟩
  rw [hpipeline]
  exact hlowered

end Omnigraph.Compiler
