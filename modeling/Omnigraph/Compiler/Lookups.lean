import Omnigraph.Compiler.Typecheck

/-!
# What the checker reads of a catalog

The checker looks names up and never walks over a catalog: two catalogs that answer every lookup
alike give every query the same result.
-/

namespace Omnigraph.Compiler

/-- What is read of an edge type. -/
def EdgeType.view (e : EdgeType) : String × String × String × (String → Option PropType) :=
  (e.name, e.fromType, e.toType, fun name => e.properties.lookup name)

/-- What is read of a node type. -/
def NodeType.view (n : NodeType) : String → Option PropType := fun name => n.properties.lookup name

/-- Two catalogs that answer every lookup alike. -/
structure Catalog.SameLookups (c c' : Catalog) : Prop where
  nodes : ∀ name, (c.nodeTypes.lookup name).map NodeType.view =
    (c'.nodeTypes.lookup name).map NodeType.view
  edges : ∀ name, (c.lookupEdgeByName name).map EdgeType.view =
    (c'.lookupEdgeByName name).map EdgeType.view

section Lookups

variable {c c' : Catalog}

lemma Catalog.SameLookups.node (h : c.SameLookups c') (name : String) :
    (c.nodeTypes.lookup name = none ∧ c'.nodeTypes.lookup name = none) ∨
      ∃ n n', c.nodeTypes.lookup name = some n ∧ c'.nodeTypes.lookup name = some n' ∧
        ∀ p, n.properties.lookup p = n'.properties.lookup p := by
  have hview := h.nodes name
  cases hn : c.nodeTypes.lookup name with
  | none =>
    rw [hn] at hview
    exact .inl ⟨rfl, Option.map_eq_none_iff.mp hview.symm⟩
  | some n =>
    rw [hn] at hview
    obtain ⟨n', hn', hview⟩ := Option.map_eq_some_iff.mp hview.symm
    exact .inr ⟨n, n', rfl, hn', fun p => (congrFun hview p).symm⟩

/-- The edge types found agree in all but the representation of their properties. -/
lemma Catalog.SameLookups.edge (h : c.SameLookups c') (name : String) :
    (c.lookupEdgeByName name = none ∧ c'.lookupEdgeByName name = none) ∨
      ∃ e ps, c.lookupEdgeByName name = some e ∧
        c'.lookupEdgeByName name = some { e with properties := ps } ∧
        ∀ p, e.properties.lookup p = ps.lookup p := by
  have hview := h.edges name
  cases he : c.lookupEdgeByName name with
  | none =>
    rw [he] at hview
    exact .inl ⟨rfl, Option.map_eq_none_iff.mp hview.symm⟩
  | some e =>
    rw [he] at hview
    obtain ⟨e', he', hview⟩ := Option.map_eq_some_iff.mp hview.symm
    obtain ⟨name', from', to', ps⟩ := e'
    obtain ⟨rfl, hview⟩ := Prod.mk.inj hview
    obtain ⟨rfl, hview⟩ := Prod.mk.inj hview
    obtain ⟨rfl, hview⟩ := Prod.mk.inj hview
    exact .inr ⟨e, ps, rfl, he', fun p => (congrFun hview p).symm⟩

variable (h : c.SameLookups c')

include h

lemma boundProperty_congr (property : String) (bound : BoundVariable) :
    boundProperty c property bound = boundProperty c' property bound := by
  cases bound with
  | node typeName =>
    rcases h.node typeName with ⟨h1, h2⟩ | ⟨n, n', h1, h2, hprops⟩
    · simp only [boundProperty, h1, h2]
    · simp only [boundProperty, h1, h2, hprops]
  | edge typeName =>
    rcases h.edge typeName with ⟨h1, h2⟩ | ⟨e, ps, h1, h2, hprops⟩
    · simp only [boundProperty, h1, h2]
    · simp only [boundProperty, h1, h2, hprops]

lemma nearestDim_congr (ctx : TypeContext) (var property : String) :
    nearestDim c ctx var property = nearestDim c' ctx var property := by
  unfold nearestDim
  cases ctx.bindings.lookup var with
  | none => rfl
  | some bound =>
    cases bound with
    | edge _ => rfl
    | node typeName =>
      rcases h.node typeName with ⟨h1, h2⟩ | ⟨n, n', h1, h2, hprops⟩
      · simp only [h1, h2]
      · simp only [h1, h2, hprops]

lemma resolveExprType_congr (ctx : TypeContext) (params : ParamTypes) : ∀ expr : Expr,
    resolveExprType c ctx params expr = resolveExprType c' ctx params expr
  | .now => rfl
  | .propAccess var property => by
    simp only [resolveExprType, resolvePropAccess, boundProperty_congr h]
  | .nearest var property query => by
    simp only [resolveExprType, nearestDim_congr h, resolveExprType_congr ctx params query]
  | .search field query => by
    simp only [resolveExprType, resolveExprType_congr ctx params field,
      resolveExprType_congr ctx params query]
  | .fuzzy field query none => by
    simp only [resolveExprType, resolveExprType_congr ctx params field,
      resolveExprType_congr ctx params query]
  | .fuzzy field query (some edits) => by
    simp only [resolveExprType, resolveExprType_congr ctx params field,
      resolveExprType_congr ctx params query, resolveExprType_congr ctx params edits]
  | .matchText field query => by
    simp only [resolveExprType, resolveExprType_congr ctx params field,
      resolveExprType_congr ctx params query]
  | .bm25 field query => by
    simp only [resolveExprType, resolveExprType_congr ctx params field,
      resolveExprType_congr ctx params query]
  | .rrf primary secondary none => by
    simp only [resolveExprType, resolveExprType_congr ctx params primary,
      resolveExprType_congr ctx params secondary]
  | .rrf primary secondary (some k) => by
    simp only [resolveExprType, resolveExprType_congr ctx params primary,
      resolveExprType_congr ctx params secondary, resolveExprType_congr ctx params k]
  | .var name => rfl
  | .literal lit => rfl
  | .aggregate func arg => by simp only [resolveExprType, resolveExprType_congr ctx params arg]
  | .aliasRef name => rfl

lemma typecheckBinding_congr (params : ParamTypes) (binding : Binding) (ctx : TypeContext) :
    typecheckBinding c params binding ctx = typecheckBinding c' params binding ctx := by
  unfold typecheckBinding
  rcases h.node binding.typeName with ⟨h1, h2⟩ | ⟨n, n', h1, h2, hprops⟩
  · simp only [h1, h2]
  · have hmatch : checkPropMatch params binding.typeName n =
        checkPropMatch params binding.typeName n' := by
      funext pm
      simp only [checkPropMatch, hprops]
    simp only [h1, h2, hmatch]

lemma typecheckTraversal_congr (traversal : Traversal) (ctx : TypeContext) :
    typecheckTraversal c traversal ctx = typecheckTraversal c' traversal ctx := by
  unfold typecheckTraversal
  rcases h.edge traversal.edgeName with ⟨h1, h2⟩ | ⟨e, ps, h1, h2, -⟩
  · simp only [h1, h2]
  · -- the properties of the edge are not read
    simp only [h1, h2]
    rfl

end Lookups

section Clauses

variable {c c' : Catalog}

mutual

lemma typecheckClause_congr (h : c.SameLookups c') (params : ParamTypes) :
    ∀ (clause : Clause) (ctx : TypeContext),
    typecheckClause c params clause ctx = typecheckClause c' params clause ctx
  | .binding b, ctx => by simp only [typecheckClause, typecheckBinding_congr h]
  | .traversal t, ctx => by simp only [typecheckClause, typecheckTraversal_congr h]
  | .filter f, ctx => by simp only [typecheckClause, typecheckFilter, resolveExprType_congr h]
  | .negation inner, ctx => by simp only [typecheckClause, typecheckClauses_congr h params inner]

lemma typecheckClauses_congr (h : c.SameLookups c') (params : ParamTypes) :
    ∀ (clauses : List Clause) (ctx : TypeContext), typecheckClauses c params clauses ctx =
      typecheckClauses c' params clauses ctx
  | [], ctx => rfl
  | clause :: rest, ctx => by
    simp only [typecheckClauses, typecheckClause_congr h params clause,
      typecheckClauses_congr h params rest]

end

theorem typecheckReadQuery_congr (h : c.SameLookups c') (query : QueryDecl) :
    typecheckReadQuery c query = typecheckReadQuery c' query := by
  have hproj : ∀ params, typecheckProjection c params = typecheckProjection c' params := by
    intro params
    funext ctx proj
    simp only [typecheckProjection, resolveExprType_congr h]
  have hord : ∀ params ctx, typecheckOrdering c params ctx = typecheckOrdering c' params ctx := by
    intro params ctx
    funext ord
    simp only [typecheckOrdering, resolveExprType_congr h]
  simp only [typecheckReadQuery, typecheckClauses_congr h, hproj, hord]

end Clauses

end Omnigraph.Compiler
