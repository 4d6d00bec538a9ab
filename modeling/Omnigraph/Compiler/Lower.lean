import Omnigraph.Compiler.Typecheck
import Omnigraph.Lib.Component

/-!
# Lowering read queries

Each block of clauses becomes a pipeline: the bindings are scanned, the traversals expanded as soon
as one of their ends is bound, then come the explicit filters and one anti-join for each `not`
block. Of the bindings that traversals connect only the first is scanned. The others are deferred:
their filters wait for the expand that introduces the variable.
-/

namespace Omnigraph.Compiler

/-- What stays fixed while a query is lowered. -/
structure LowerEnv where
  catalog : Catalog
  typeCtx : TypeContext
  paramNames : List String
  paramTypes : ParamTypes

/-! ### Expressions -/

/-- A name stands for a parameter if one is declared under it, else for a variable. -/
def lowerName (paramNames : List String) (name : String) : IRExpr :=
  if name ∈ paramNames then .param name else .var name

def lowerExpr (paramNames : List String) : Expr → IRExpr
  | .now => .param nowParamName
  | .propAccess v property => .propAccess v property
  | .nearest v property query => .nearest v property (lowerExpr paramNames query)
  | .search field query => .search (lowerExpr paramNames field) (lowerExpr paramNames query)
  | .fuzzy field query none =>
    .fuzzy (lowerExpr paramNames field) (lowerExpr paramNames query) none
  | .fuzzy field query (some maxEdits) =>
    .fuzzy (lowerExpr paramNames field) (lowerExpr paramNames query)
      (some (lowerExpr paramNames maxEdits))
  | .matchText field query => .matchText (lowerExpr paramNames field) (lowerExpr paramNames query)
  | .bm25 field query => .bm25 (lowerExpr paramNames field) (lowerExpr paramNames query)
  | .rrf primary secondary none =>
    .rrf (lowerExpr paramNames primary) (lowerExpr paramNames secondary) none
  | .rrf primary secondary (some k) =>
    .rrf (lowerExpr paramNames primary) (lowerExpr paramNames secondary)
      (some (lowerExpr paramNames k))
  | .var name => lowerName paramNames name
  | .literal l => .literal l
  | .aggregate func arg => .aggregate func (lowerExpr paramNames arg)
  | .aliasRef name => .aliasRef name

def lowerMatchValue (paramNames : List String) : MatchValue → IRExpr
  | .now => .param nowParamName
  | .literal l => .literal l
  | .var name => lowerName paramNames name

/-- The first variable an expression names. -/
def exprVar : Expr → Option String
  | .propAccess v _ => some v
  | .var name => some name
  | .nearest v _ _ => some v
  | .search field query | .matchText field query | .bm25 field query =>
    (exprVar field).or (exprVar query)
  | .fuzzy field query none => (exprVar field).or (exprVar query)
  | .fuzzy field query (some maxEdits) =>
    ((exprVar field).or (exprVar query)).or (exprVar maxEdits)
  | .rrf primary secondary none => (exprVar primary).or (exprVar secondary)
  | .rrf primary secondary (some k) => ((exprVar primary).or (exprVar secondary)).or (exprVar k)
  | .aggregate _ arg => exprVar arg
  | _ => none

/-! ### The clauses of a block by kind -/

def Clause.binding? : Clause → Option Binding
  | .binding b => some b
  | _ => none

def Clause.traversal? : Clause → Option Traversal
  | .traversal t => some t
  | _ => none

def Clause.filter? : Clause → Option Filter
  | .filter f => some f
  | _ => none

def bindingsOf (clauses : List Clause) : List Binding := clauses.filterMap Clause.binding?

def traversalsOf (clauses : List Clause) : List Traversal := clauses.filterMap Clause.traversal?

def filtersOf (clauses : List Clause) : List Filter := clauses.filterMap Clause.filter?

/-! ### Deferred bindings -/

/-- The traversals as an undirected graph. The anonymous variable connects nothing. -/
def adjacency (traversals : List Traversal) : List (String × String) :=
  traversals.flatMap fun t =>
    if t.src ≠ "_" ∧ t.dst ≠ "_" then [(t.src, t.dst), (t.dst, t.src)] else []

/-- One binding of the walk over components: the first binding of a component is its root, the
others are deferred. -/
def deferComponent (adj : List (String × String)) (bindingVars : List String)
    (st : List String × List String) (v : String) : List String × List String :=
  if v ∈ st.1 then st
  else
    let (visited, component) := Component.walk adj (adj.length + 1) [v] st.1
    (visited, st.2 ++ (component.filter (· ∈ bindingVars)).tail)

/-- The variables whose bindings are deferred. -/
def deferredSet (bindings : List Binding) (traversals : List Traversal) : List String :=
  let bindingVars := bindings.map Binding.var
  (bindingVars.foldl (deferComponent (adjacency traversals) bindingVars) ([], [])).2

/-! ### Bindings -/

/-- Membership for a list property, equality for any other. -/
def buildBindingFilter (paramNames : List String) (var : String) (nodeType : NodeType)
    (pm : PropMatch) : Result IRFilter :=
  match nodeType.properties.lookup pm.propName with
  | none => .error (.panic "binding property was validated during typecheck")
  | some prop => .ok ⟨.propAccess var pm.propName, if prop.list then .contains else .eq,
      lowerMatchValue paramNames pm.value⟩

def buildBindingFilters (env : LowerEnv) (binding : Binding) : Result (List IRFilter) :=
  match env.catalog.nodeTypes.lookup binding.typeName with
  | none => .error (.panic "binding type was validated during typecheck")
  | some nodeType =>
    binding.propMatches.mapM (buildBindingFilter env.paramNames binding.var nodeType)

/-- The scans emitted, the variables bound and the filters that wait for an expand. -/
structure ScanState where
  scans : List IROp
  bound : List String
  deferredFilters : HashMap String (List IRFilter)

def lowerBinding (env : LowerEnv) (deferred : List String) (st : ScanState) (binding : Binding) :
    Result ScanState := do
  let filters ← buildBindingFilters env binding
  if binding.var ∈ deferred then
    if filters.isEmpty then .ok st
    else .ok { st with deferredFilters := st.deferredFilters.insert binding.var filters }
  else
    .ok { st with scans := st.scans ++ [.nodeScan binding.var binding.typeName filters],
                  bound := binding.var :: st.bound }

/-! ### Traversals -/

/-- The type of the end that an edge walked in `direction` leads to. -/
def EdgeType.farType (edge : EdgeType) : Direction → String
  | .out => edge.toType
  | .into => edge.fromType
  | .both => edge.toType

/-- The type of the end that an edge walked in `direction` comes from. -/
def EdgeType.nearType (edge : EdgeType) : Direction → String
  | .out => edge.fromType
  | .into => edge.toType
  | .both => edge.fromType

def Direction.reverse : Direction → Direction
  | .out => .into
  | .into => .out
  | .both => .both

/-- The resolved traversal a lookup by ends and edge finds. Traversals inside `not` blocks are not
in the context. -/
def findResolved (typeCtx : TypeContext) (traversal : Traversal) (edge : EdgeType) :
    Option ResolvedTraversal :=
  typeCtx.traversals.find? fun rt =>
    rt.src = traversal.src && rt.dst = traversal.dst && rt.edgeType = edge.name

def loweredDirection (typeCtx : TypeContext) (traversal : Traversal) (edge : EdgeType) :
    Direction :=
  if traversal.undirected then .both
  else ((findResolved typeCtx traversal edge).map ResolvedTraversal.direction).getD .out

/-- The variable a cycle-closing expand leads to. -/
def tempVar (traversal : Traversal) : String := "__temp_" ++ traversal.dst

/-- The filter after a cycle-closing expand. -/
def closingFilter (traversal : Traversal) : IRFilter :=
  ⟨.propAccess (tempVar traversal) "id", .eq, .propAccess traversal.dst "id"⟩

/-- What a traversal is lowered to; `closing` if both ends were bound. -/
structure Step where
  traversal : Traversal
  closing : Bool
  expand : Expand

/-- The operations of a step: a cycle-closing expand is followed by its filter. -/
def Step.ops (step : Step) : List IROp :=
  .expand step.expand :: if step.closing then [.filter (closingFilter step.traversal)] else []

structure ExpandState where
  steps : List Step
  bound : List String
  deferredFilters : HashMap String (List IRFilter)

/-- A variable an expand introduces is bound from then on, unless it is anonymous. -/
def bindIntroduced (var : String) (bound : List String) : List String :=
  if var ≠ "_" then var :: bound else bound

/-- Both ends are bound: expand to a temporary variable and compare. -/
def closeCycle (traversal : Traversal) (edge : EdgeType) (direction : Direction)
    (st : ExpandState) : ExpandState :=
  { st with steps := st.steps ++ [⟨traversal, true,
      { srcVar := traversal.src, dstVar := tempVar traversal, edgeType := edge.name,
        direction := direction, dstType := edge.farType direction,
        minHops := traversal.minHops, maxHops := traversal.maxHops, dstFilters := [],
        edgeBinding := traversal.namedEdgeBinding }⟩] }

/-- Only the destination is bound: expand backwards to the source. -/
def expandReverse (traversal : Traversal) (edge : EdgeType) (direction : Direction)
    (st : ExpandState) : ExpandState :=
  { steps := st.steps ++ [⟨traversal, false,
      { srcVar := traversal.dst, dstVar := traversal.src, edgeType := edge.name,
        direction := direction.reverse, dstType := edge.nearType direction,
        minHops := traversal.minHops, maxHops := traversal.maxHops,
        dstFilters := (st.deferredFilters.lookup traversal.src).getD [],
        edgeBinding := traversal.namedEdgeBinding }⟩],
    bound := bindIntroduced traversal.src st.bound,
    deferredFilters := st.deferredFilters.erase traversal.src }

/-- Only the source is bound: expand to the destination. -/
def expandForward (traversal : Traversal) (edge : EdgeType) (direction : Direction)
    (st : ExpandState) : ExpandState :=
  { steps := st.steps ++ [⟨traversal, false,
      { srcVar := traversal.src, dstVar := traversal.dst, edgeType := edge.name,
        direction := direction, dstType := edge.farType direction,
        minHops := traversal.minHops, maxHops := traversal.maxHops,
        dstFilters := (st.deferredFilters.lookup traversal.dst).getD [],
        edgeBinding := traversal.namedEdgeBinding }⟩],
    bound := bindIntroduced traversal.dst st.bound,
    deferredFilters := st.deferredFilters.erase traversal.dst }

/-- Lower a traversal that has a bound end. -/
def lowerTraversal (env : LowerEnv) (traversal : Traversal) (st : ExpandState) :
    Result ExpandState :=
  match env.catalog.lookupEdgeByName traversal.edgeName with
  | none => .error (.plan ("lowering traversal referenced missing edge '" ++
      traversal.edgeName ++ "' after typecheck"))
  | some edge =>
    let direction := loweredDirection env.typeCtx traversal edge
    if traversal.src ∈ st.bound ∧ traversal.dst ∈ st.bound then
      .ok (closeCycle traversal edge direction st)
    else if traversal.dst ∈ st.bound then .ok (expandReverse traversal edge direction st)
    else .ok (expandForward traversal edge direction st)

/-- One pass over the traversals that remain; those with no bound end are kept for the next. -/
def expandPass (env : LowerEnv) :
    List Traversal → ExpandState → Result (List Traversal × ExpandState)
  | [], st => .ok ([], st)
  | t :: rest, st =>
    if t.src ∉ st.bound ∧ t.dst ∉ st.bound then do
      let (next, st) ← expandPass env rest st
      .ok (t :: next, st)
    else do
      let st ← lowerTraversal env t st
      expandPass env rest st

/-- Passes until nothing remains or a pass lowers nothing. A pass that lowers something leaves
fewer traversals, so as many passes as traversals are enough. -/
def expandLoop (env : LowerEnv) : ℕ → List Traversal → ExpandState → Result ExpandState
  | 0, _, st => .ok st
  | fuel + 1, remaining, st =>
    if remaining.isEmpty then .ok st
    else do
      let (next, st) ← expandPass env remaining st
      if next.length = remaining.length then .ok st else expandLoop env fuel next st

/-! ### Filters -/

/-- The types of the variables of a block: bindings win over the ends of traversals. -/
def localBindings (catalog : Catalog) (bindings : List Binding) (traversals : List Traversal) :
    HashMap String BoundVariable :=
  let orInsert (m : HashMap String BoundVariable) (v : String) (b : BoundVariable) :=
    if v ∈ m then m else m.insert v b
  let ofTraversal (m : HashMap String BoundVariable) (t : Traversal) :=
    match catalog.lookupEdgeByName t.edgeName with
    | none => m
    | some edge =>
      let m := orInsert (orInsert m t.src (.node edge.fromType)) t.dst (.node edge.toType)
      match t.edgeBinding with
      | some name => orInsert m name (.edge edge.name)
      | none => m
  bindings.foldl (fun m b => m.insert b.var (.node b.typeName)) (traversals.foldl ofTraversal ∅)

def isScalarStringProperty (catalog : Catalog) (property : String) : BoundVariable → Bool
  | .node typeName =>
    (((catalog.nodeTypes.lookup typeName).bind (·.properties.lookup property)).map
      PropType.isScalarString).getD false
  | .edge typeName =>
    (((catalog.lookupEdgeByName typeName).bind (·.properties.lookup property)).map
      PropType.isScalarString).getD false

/-- `contains` on a scalar `String` is the substring operator. -/
def resolveFilterOp (env : LowerEnv) (locals : HashMap String BoundVariable) (filter : Filter) :
    CompOp :=
  if filter.op ≠ .contains then filter.op
  else
    let leftIsScalarString := match filter.left with
      | .propAccess v property =>
        (((locals.lookup v).or (env.typeCtx.bindings.lookup v)).map
          (isScalarStringProperty env.catalog property)).getD false
      | .literal (.string _) => true
      | .var name => ((env.paramTypes.lookup name).map PropType.isScalarString).getD false
      | _ => false
    if leftIsScalarString then .stringContains else .contains

def lowerFilter (env : LowerEnv) (locals : HashMap String BoundVariable) (filter : Filter) :
    IRFilter :=
  ⟨lowerExpr env.paramNames filter.left, resolveFilterOp env locals filter,
    lowerExpr env.paramNames filter.right⟩

/-! ### Blocks -/

/-- A block lowered, apart from its `not` blocks. -/
structure Block where
  scans : List IROp
  steps : List Step
  filters : List IRFilter
  bound : List String

def Block.ops (block : Block) : List IROp :=
  block.scans ++ block.steps.flatMap Step.ops ++ block.filters.map .filter

def lowerBlock (env : LowerEnv) (clauses : List Clause) (bound : List String) : Result Block := do
  let bindings := bindingsOf clauses
  let traversals := traversalsOf clauses
  let scanned ← bindings.foldlM (lowerBinding env (deferredSet bindings traversals)) ⟨[], bound, ∅⟩
  let expanded ← expandLoop env traversals.length traversals
    ⟨[], scanned.bound, scanned.deferredFilters⟩
  let locals := localBindings env.catalog bindings traversals
  .ok ⟨scanned.scans, expanded.steps, (filtersOf clauses).map (lowerFilter env locals),
    expanded.bound⟩

/-- The outer variable an anti-join is keyed on: the first one a clause of the block mentions. -/
def findOuterVar (outerBound : List String) : List Clause → Option String
  | [] => none
  | .traversal t :: rest =>
    if t.src ∈ outerBound then some t.src
    else if t.dst ∈ outerBound then some t.dst
    else findOuterVar outerBound rest
  | .filter f :: rest =>
    (((exprVar f.left).filter (· ∈ outerBound)).or
      ((exprVar f.right).filter (· ∈ outerBound))).or (findOuterVar outerBound rest)
  | .binding b :: rest =>
    if b.var ∈ outerBound then some b.var else findOuterVar outerBound rest
  | .negation _ :: rest => findOuterVar outerBound rest

mutual

/-- A `not` block becomes an anti-join with a pipeline of its own, which starts from the variables
bound by the block around it. -/
def lowerNegation (env : LowerEnv) : Clause → List String → Result (List IROp)
  | .negation inner, bound => do
    let block ← lowerBlock env inner bound
    let antiJoins ← lowerNegations env inner block.bound
    .ok [.antiJoin ((findOuterVar bound inner).getD "") (block.ops ++ antiJoins)]
  | _, _ => .ok []

/-- The anti-joins of a block. -/
def lowerNegations (env : LowerEnv) : List Clause → List String → Result (List IROp)
  | [], _ => .ok []
  | clause :: rest, bound => do
    let antiJoin ← lowerNegation env clause bound
    let antiJoins ← lowerNegations env rest bound
    .ok (antiJoin ++ antiJoins)

end

def lowerClauses (env : LowerEnv) (clauses : List Clause) (bound : List String) :
    Result (List IROp) := do
  let block ← lowerBlock env clauses bound
  let antiJoins ← lowerNegations env clauses block.bound
  .ok (block.ops ++ antiJoins)

/-! ### Queries -/

/-- The types of the parameters; one with an unknown type is left out. -/
def declaredParamTypes (params : List Param) : ParamTypes :=
  params.foldl (fun m p =>
    match PropType.fromParamTypeName p.typeName p.nullable with
    | some t => m.insert p.name t
    | none => m) ∅

def QueryDecl.lowerEnv (query : QueryDecl) (catalog : Catalog) (typeCtx : TypeContext) :
    LowerEnv :=
  ⟨catalog, typeCtx, query.params.map Param.name, declaredParamTypes query.params⟩

def lowerQuery (catalog : Catalog) (query : QueryDecl) (typeCtx : TypeContext) :
    Result QueryIR :=
  if query.mutations ≠ [] then
    .error (.plan "cannot lower mutation query with read-query lowerer")
  else do
    let env := query.lowerEnv catalog typeCtx
    let pipeline ← lowerClauses env query.matchClause []
    .ok { name := query.name, params := query.params, pipeline := pipeline,
          returnExprs := query.returnClause.map fun p =>
            ⟨lowerExpr env.paramNames p.expr, p.asName⟩,
          orderBy := query.orderClause.map fun o =>
            ⟨lowerExpr env.paramNames o.expr, o.descending⟩,
          limit := query.limit }

end Omnigraph.Compiler
