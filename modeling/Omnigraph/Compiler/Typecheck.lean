import Omnigraph.Compiler.Syntax
import Omnigraph.Lib.Result

/-!
# Type checking read queries

Clauses are checked in the order they are written, against a context that grows: a binding gives
its variable a node type, a traversal types its two ends by the endpoints of its edge and records
the direction it was read in. A `not` block is checked in a copy of the context that is then
discarded.
-/

namespace Omnigraph.Compiler

/-- Errors of the compiler; `panic` is a failed `expect`. -/
inductive CompilerError
  | type (message : String)
  | plan (message : String)
  | panic (message : String)

abbrev Result (α : Type) := Except CompilerError α

def typeError {α : Type} (message : String) : Result α := .error (.type message)

/-- What a variable stands for. Node types and edge types have separate names. -/
inductive BoundVariable
  | node (typeName : String)
  | edge (typeName : String)

/-- The node type of a traversal endpoint. -/
def BoundVariable.requireTraversalEndpoint (var : String) : BoundVariable → Result String
  | .node typeName => .ok typeName
  | .edge _ => typeError <| "T23: edge binding `$" ++ var ++ "` cannot be used as a traversal " ++
      "endpoint; traversal endpoints must be node bindings"

inductive ResolvedType
  | scalar (prop : PropType)
  | node (typeName : String)
  | aggregate

def ResolvedType.displayName : ResolvedType → String
  | .scalar prop => prop.displayName
  | .node typeName => "node `" ++ typeName ++ "`"
  | .aggregate => "aggregate"

/-- A traversal with the direction it was read in. -/
structure ResolvedTraversal where
  src : String
  dst : String
  edgeType : String
  direction : Direction
  minHops : ℕ
  maxHops : Option ℕ
  edgeBinding : Option String

structure TypeContext where
  bindings : HashMap String BoundVariable
  aliases : HashMap String ResolvedType
  traversals : List ResolvedTraversal

abbrev ParamTypes := HashMap String PropType

/-! ### Literals -/

mutual

def literalType : Literal → Result PropType
  | .null => .ok (.ofScalar .string true)
  | .string _ => .ok (.ofScalar .string false)
  | .integer _ => .ok (.ofScalar .i64 false)
  | .float _ => .ok (.ofScalar .f64 false)
  | .bool _ => .ok (.ofScalar .bool false)
  | .date _ => .ok (.ofScalar .date false)
  | .dateTime _ => .ok (.ofScalar .dateTime false)
  | .list [] => .ok (.listOf .string false)
  | .list (item :: items) => do
    let first ← literalType item
    if first.list then typeError "nested list literals are not supported"
    else
      checkItemTypes first items
      .ok (.listOf first.scalar false)

def checkItemTypes (first : PropType) : List Literal → Result Unit
  | [] => .ok ()
  | item :: items => do
    let itemType ← literalType item
    if itemType.list || !typesCompatible first itemType then
      typeError "list literal elements must share a compatible scalar type"
    else checkItemTypes first items

end

def Literal.isNumber : Literal → Bool
  | .integer _ | .float _ => true
  | _ => false

def numericVectorLiteralDim : Literal → Option ℕ
  | .list items => if items ≠ [] ∧ items.all Literal.isNumber then some items.length else none
  | _ => none

def enumError (propName : String) (allowed : List String) (v : String) : Result Unit :=
  typeError <| "T3: property `" ++ propName ++ "` expects one of [" ++ ", ".intercalate allowed ++
    "], got '" ++ v ++ "'"

/-- The members of a list literal are members of the enum. -/
def checkEnumItems (propName : String) (allowed : List String) : List Literal → Result Unit
  | [] => .ok ()
  | .string v :: items =>
    if v ∈ allowed then checkEnumItems propName allowed items else enumError propName allowed v
  | _ :: items => checkEnumItems propName allowed items

def checkEnumLiteral (lit : Literal) (expected : PropType) (propName : String) : Result Unit :=
  match expected.enumValues with
  | none => .ok ()
  | some allowed =>
    match lit with
    | .string v => if v ∈ allowed then .ok () else enumError propName allowed v
    | .list items => if expected.list then checkEnumItems propName allowed items else .ok ()
    | _ => .ok ()

/-- A literal fits a type by its own type, and an enum also by its value. -/
def checkPlainLiteralType (lit : Literal) (expected : PropType) (propName : String) :
    Result Unit := do
  let litType ← literalType lit
  if !typesCompatible litType expected then
    typeError <| "T3: property `" ++ propName ++ "` has type " ++ expected.displayName ++
      " but got " ++ litType.displayName
  else checkEnumLiteral lit expected propName

def checkLiteralType (lit : Literal) (expected : PropType) (propName : String) : Result Unit :=
  match lit with
  | .null =>
    if expected.nullable then .ok ()
    else typeError <| "T3: property `" ++ propName ++ "` is non-nullable but got null"
  | _ =>
    match expected.list, expected.scalar, numericVectorLiteralDim lit with
    | false, .vector expectedDim, some actualDim =>
      if actualDim = expectedDim then .ok ()
      else typeError <| "T3: property `" ++ propName ++ "` has type Vector(" ++
        toString expectedDim ++ ") but got vector literal with " ++ toString actualDim ++
        " elements"
    | _, _, _ => checkPlainLiteralType lit expected propName

/-! ### Expressions -/

/-- The family of checks that an operand is a scalar `String`. -/
def requireString (code what : String) : ResolvedType → Result Unit
  | .scalar s =>
    if s.isScalarString then .ok ()
    else typeError <| code ++ ": " ++ what ++ " must be String, got " ++ s.displayName
  | _ => typeError <| code ++ ": " ++ what ++ " must be a scalar String expression"

/-- The family of checks that an operand is an integer. -/
def requireInteger (code what : String) : ResolvedType → Result Unit
  | .scalar s =>
    if !s.list && s.scalar.isInteger then .ok ()
    else typeError <| code ++ ": " ++ what ++ " must be an integer scalar, got " ++ s.displayName
  | _ => typeError <| code ++ ": " ++ what ++ " must be an integer scalar expression"

def requireRank : ResolvedType → Result Unit
  | .scalar s =>
    if s.scalar = .f64 && !s.list then .ok ()
    else typeError <| "T21: rrf rank expressions must evaluate to F64, got " ++ s.displayName
  | _ => typeError "T21: rrf rank expressions must be scalar numeric expressions"

def Expr.isRank : Expr → Bool
  | .nearest _ _ _ | .bm25 _ _ => true
  | _ => false

/-- Search runs on node columns only. -/
def rejectEdgeBindingSearchField (ctx : TypeContext) (field : Expr) (func : String) :
    Result Unit :=
  match field with
  | .propAccess var property =>
    match ctx.bindings.lookup var with
    | some (.edge _) => typeError <| "T23: " ++ func ++ " cannot target edge property `$" ++ var ++
        "." ++ property ++ "`; text/rank search runs on node columns — edge properties support " ++
        "comparison filters and projection"
    | _ => .ok ()
  | _ => .ok ()

def rejectBlobReadValue (resolved : ResolvedType) (expr : Expr) : Result Unit :=
  match resolved with
  | .scalar prop =>
    if prop.scalar = .blob then
      let subject := match expr with
        | .var name => "Blob parameter `$" ++ name ++ "`"
        | .aliasRef name => "Blob alias `" ++ name ++ "`"
        | _ => "Blob expression"
      typeError <| "T24: " ++ subject ++ " is not available as a .gq read value; Blob values " ++
        "require a dedicated API"
    else .ok ()
  | _ => .ok ()

/-- The property of a bound variable, or why there is none. -/
def boundProperty (catalog : Catalog) (property : String) : BoundVariable → Result PropType
  | .node typeName =>
    match catalog.nodeTypes.lookup typeName with
    | none => typeError <| "T6: type `" ++ typeName ++ "` not found in catalog"
    | some nodeType =>
      match nodeType.properties.lookup property with
      | none => typeError <| "T6: type `" ++ typeName ++ "` has no property `" ++ property ++ "`"
      | some prop => .ok prop
  | .edge typeName =>
    match catalog.lookupEdgeByName typeName with
    | none => typeError <| "T6: edge type `" ++ typeName ++ "` not found in catalog"
    | some edgeType =>
      match edgeType.properties.lookup property with
      | none => typeError <| "T6: edge `" ++ typeName ++ "` has no property `" ++ property ++ "`"
      | some prop => .ok prop

def resolvePropAccess (catalog : Catalog) (ctx : TypeContext) (var property : String) :
    Result ResolvedType :=
  match ctx.bindings.lookup var with
  | none => typeError <| "T6: variable `$" ++ var ++ "` is not bound"
  | some bound => do
    let prop ← boundProperty catalog property bound
    if prop.scalar = .blob then
      typeError <| "T24: Blob property `$" ++ var ++ "." ++ property ++
        "` is not available as a .gq read value; Blob values require a dedicated API"
    else .ok (.scalar prop)

/-- The dimension of the vector property a `nearest` searches. -/
def nearestDim (catalog : Catalog) (ctx : TypeContext) (var property : String) : Result ℕ :=
  match ctx.bindings.lookup var with
  | some (.edge _) => typeError <| "T23: nearest cannot target edge binding `$" ++ var ++
      "`; vector search runs on node columns"
  | none => typeError <| "T15: variable `$" ++ var ++ "` is not bound"
  | some (.node typeName) =>
    match catalog.nodeTypes.lookup typeName with
    | none => typeError <| "T15: type `" ++ typeName ++ "` not found in catalog"
    | some nodeType =>
      match nodeType.properties.lookup property with
      | none => typeError <| "T15: type `" ++ typeName ++ "` has no property `" ++ property ++ "`"
      | some prop =>
        match prop.scalar with
        | .vector dim =>
          if prop.list then typeError "T15: nearest does not support list-wrapped vectors"
          else .ok dim
        | _ => typeError <| "T15: nearest requires a Vector property, got " ++ typeName ++ "." ++
            property ++ ": " ++ prop.displayName

/-- The query of a `nearest` is a vector of the right dimension, or a text to embed. -/
def checkNearestQuery (vectorDim : ℕ) : ResolvedType → Result Unit
  | .scalar s =>
    match s.scalar, s.list with
    | .vector qdim, false =>
      if qdim = vectorDim then .ok ()
      else typeError <| "T15: nearest vector dimension mismatch: property is Vector(" ++
        toString vectorDim ++ "), query is Vector(" ++ toString qdim ++ ")"
    | .string, false => .ok ()
    | _, _ => typeError <| "T15: nearest query must be Vector(" ++ toString vectorDim ++
        ") or String, got " ++ s.displayName
  | _ => typeError "T15: nearest query must be a scalar expression"

def Expr.vectorLiteralDim : Expr → Option ℕ
  | .literal lit => numericVectorLiteralDim lit
  | _ => none

def resolveVariable (ctx : TypeContext) (params : ParamTypes) (name : String) :
    Result ResolvedType :=
  match params.lookup name, ctx.bindings.lookup name with
  | some prop, _ => .ok (.scalar prop)
  | none, some (.node typeName) => .ok (.node typeName)
  | none, some (.edge _) => typeError <| "T23: edge binding `$" ++ name ++ "` cannot be used " ++
      "bare; access one of its properties (`$" ++ name ++ ".\x7bprop\x7d`)"
  | none, none => typeError <| "variable `$" ++ name ++ "` is not bound"

def checkAggregate (func : AggFunc) : ResolvedType → Result Unit
  | .scalar s =>
    match func with
    | .sum | .avg =>
      if s.list || !s.scalar.isNumeric then
        typeError <| "T8: " ++ func.display ++ " requires numeric type, got " ++ s.displayName
      else .ok ()
    | .min | .max =>
      if s.list || (!s.scalar.isNumeric && s.scalar ≠ .string) then
        typeError <| "T8: " ++ func.display ++ " requires numeric or string type, got " ++
          s.displayName
      else .ok ()
    | .count => .ok ()
  | _ => .ok ()

def checkRrfLiteral : Expr → Result Unit
  | .literal (.integer v) =>
    if v ≤ 0 then typeError "T21: rrf k must be greater than 0" else .ok ()
  | _ => .ok ()

def resolveExprType (catalog : Catalog) (ctx : TypeContext) (params : ParamTypes) :
    Expr → Result ResolvedType
  | .now => .ok (.scalar (.ofScalar .dateTime false))
  | .propAccess var property => resolvePropAccess catalog ctx var property
  | .nearest var property query => do
    let vectorDim ← nearestDim catalog ctx var property
    match query.vectorLiteralDim with
    | some dim =>
      if dim = vectorDim then .ok (.scalar (.ofScalar .f64 false))
      else typeError <| "T15: nearest vector dimension mismatch: property is Vector(" ++
        toString vectorDim ++ "), query literal has " ++ toString dim ++ " elements"
    | none =>
      checkNearestQuery vectorDim (← resolveExprType catalog ctx params query)
      .ok (.scalar (.ofScalar .f64 false))
  | .search field query => do
    rejectEdgeBindingSearchField ctx field "search"
    requireString "T19" "search field" (← resolveExprType catalog ctx params field)
    requireString "T19" "search query" (← resolveExprType catalog ctx params query)
    .ok (.scalar (.ofScalar .bool false))
  | .fuzzy field query maxEdits => do
    rejectEdgeBindingSearchField ctx field "fuzzy"
    requireString "T19" "fuzzy field" (← resolveExprType catalog ctx params field)
    requireString "T19" "fuzzy query" (← resolveExprType catalog ctx params query)
    match maxEdits with
    | some edits =>
      requireInteger "T19" "fuzzy max_edits" (← resolveExprType catalog ctx params edits)
    | none => .ok ()
    .ok (.scalar (.ofScalar .bool false))
  | .matchText field query => do
    rejectEdgeBindingSearchField ctx field "match_text"
    requireString "T20" "match_text field" (← resolveExprType catalog ctx params field)
    requireString "T20" "match_text query" (← resolveExprType catalog ctx params query)
    .ok (.scalar (.ofScalar .bool false))
  | .bm25 field query => do
    rejectEdgeBindingSearchField ctx field "bm25"
    requireString "T20" "bm25 field" (← resolveExprType catalog ctx params field)
    requireString "T20" "bm25 query" (← resolveExprType catalog ctx params query)
    .ok (.scalar (.ofScalar .f64 false))
  | .rrf primary secondary k =>
    if !primary.isRank then
      typeError "T21: rrf primary expression must be nearest(...) or bm25(...)"
    else if !secondary.isRank then
      typeError "T21: rrf secondary expression must be nearest(...) or bm25(...)"
    else do
      let primaryTy ← resolveExprType catalog ctx params primary
      let secondaryTy ← resolveExprType catalog ctx params secondary
      requireRank primaryTy
      requireRank secondaryTy
      match k with
      | some kExpr =>
        requireInteger "T21" "rrf k" (← resolveExprType catalog ctx params kExpr)
        checkRrfLiteral kExpr
      | none => .ok ()
      .ok (.scalar (.ofScalar .f64 false))
  | .var name => resolveVariable ctx params name
  | .literal lit => do .ok (.scalar (← literalType lit))
  | .aggregate func arg => do
    let argType ← resolveExprType catalog ctx params arg
    rejectBlobReadValue argType arg
    checkAggregate func argType
    .ok .aggregate
  | .aliasRef name => .ok ((ctx.aliases.lookup name).getD .aggregate)

/-! ### Filters -/

/-- `contains` is membership in a list, or substring of a `String`. -/
def checkContains (l r : PropType) : Result Unit :=
  if l.isScalarString then
    if r.isScalarString then .ok ()
    else typeError <| "T7: string contains requires a String right operand, got " ++ r.displayName
  else if !l.list then
    typeError <| "T7: contains requires a list property (membership) or a String property " ++
      "(substring) on the left, got " ++ l.displayName
  else if r.list then typeError "T7: contains requires a scalar right operand"
  else if l.scalar.isVector || r.scalar.isVector then
    typeError "T7: vector membership filters are not supported"
  else if !typesCompatible (.ofScalar l.scalar l.nullable) r then
    typeError <| "T7: cannot test membership of " ++ r.displayName ++ " in " ++ l.displayName
  else .ok ()

/-- `starts_with` and `stringContains` compare texts. -/
def checkStringOp (op : CompOp) (l r : PropType) : Result Unit :=
  if !l.isScalarString then
    typeError <| "T7: " ++ op.display ++ " requires a String property on the left, got " ++
      l.displayName
  else if !r.isScalarString then
    typeError <| "T7: " ++ op.display ++ " requires a String right operand, got " ++ r.displayName
  else .ok ()

def checkComparison (l r : PropType) : Result Unit :=
  if l.list || r.list then
    typeError <| "T7: list comparisons in filters are not supported; use `contains` for list " ++
      "membership"
  else if l.scalar.isVector || r.scalar.isVector then
    typeError "T7: vector comparisons in filters are not supported"
  else if !typesCompatible l r then
    typeError <| "T7: cannot compare " ++ l.displayName ++ " with " ++ r.displayName
  else .ok ()

def checkOperands (op : CompOp) (left right : ResolvedType) : Result Unit :=
  match left, right with
  | .scalar l, .scalar r =>
    -- blobs are refused before any operator looks at its operands
    if l.scalar = .blob || r.scalar = .blob then
      typeError "T7: blob comparisons in filters are not supported"
    else match op with
      | .contains => checkContains l r
      | .startsWith | .stringContains => checkStringOp op l r
      | _ => checkComparison l r
  | _, _ => typeError <| "T7: filter comparisons require scalar operands, got " ++
      left.displayName ++ " and " ++ right.displayName

def typecheckFilter (catalog : Catalog) (params : ParamTypes) (filter : Filter)
    (ctx : TypeContext) : Result Unit := do
  let leftType ← resolveExprType catalog ctx params filter.left
  let rightType ← resolveExprType catalog ctx params filter.right
  checkOperands filter.op leftType rightType

/-! ### Bindings -/

def checkBindingLiteralType (lit : Literal) (expected : PropType) (property : String) :
    Result Unit :=
  if expected.list then do
    let litType ← literalType lit
    if litType.list then
      typeError <| "T3: list equality is not supported for property `" ++ property ++
        "`; use a scalar value to match list membership"
    else if !typesCompatible litType (.ofScalar expected.scalar expected.nullable) then
      typeError <| "T3: property `" ++ property ++ "` has type " ++ expected.displayName ++
        " but membership match got " ++ litType.displayName
    else .ok ()
  else checkLiteralType lit expected property

def checkBindingVariableType (actual expected : PropType) (property : String) : Result Unit :=
  if expected.list then
    if actual.list then
      typeError <| "T7: list equality is not supported for property `" ++ property ++
        "`; use a scalar parameter for membership matching"
    else if !typesCompatible actual (.ofScalar expected.scalar expected.nullable) then
      typeError <| "T7: cannot compare " ++ actual.displayName ++ " membership against " ++
        expected.displayName ++ " for property `" ++ property ++ "`"
    else .ok ()
  else if !typesCompatible actual expected then
    typeError <| "T7: cannot assign/compare " ++ actual.displayName ++ " with " ++
      expected.displayName ++ " for property `" ++ property ++ "`"
  else .ok ()

def checkNowMatchValueType (expected : PropType) (property : String) : Result Unit :=
  if expected.list || expected.scalar ≠ .dateTime then
    typeError <| "T7: cannot assign/compare DateTime with " ++ expected.displayName ++
      " for property `" ++ property ++ "`"
  else .ok ()

/-- A variable that is no parameter is not checked here. -/
def checkMatchValue (params : ParamTypes) (prop : PropType) (pm : PropMatch) : Result Unit :=
  match pm.value with
  | .literal lit => checkBindingLiteralType lit prop pm.propName
  | .var v =>
    match params.lookup v with
    | some actual => checkBindingVariableType actual prop pm.propName
    | none => .ok ()
  | .now => checkNowMatchValueType prop pm.propName

def checkPropMatch (params : ParamTypes) (typeName : String) (nodeType : NodeType)
    (pm : PropMatch) : Result Unit :=
  match nodeType.properties.lookup pm.propName with
  | none => typeError <| "T2: type `" ++ typeName ++ "` has no property `" ++ pm.propName ++ "`"
  | some prop =>
    if prop.scalar = .blob then
      typeError <| "T3: blob property `" ++ typeName ++ "." ++ pm.propName ++
        "` cannot be used in match patterns"
    else checkMatchValue params prop pm

/-- A variable may be bound again, to the same node type. -/
def checkRebind (ctx : TypeContext) (binding : Binding) : Result Unit :=
  match ctx.bindings.lookup binding.var with
  | none => .ok ()
  | some (.edge typeName) => typeError <| "T23: variable `$" ++ binding.var ++
      "` is bound to edge type `" ++ typeName ++ "` and cannot be rebound as node type `" ++
      binding.typeName ++ "`"
  | some (.node typeName) =>
    if typeName = binding.typeName then .ok ()
    else typeError <| "variable `$" ++ binding.var ++ "` already bound to type `" ++ typeName ++
      "`, cannot rebind to `" ++ binding.typeName ++ "`"

def typecheckBinding (catalog : Catalog) (params : ParamTypes) (binding : Binding)
    (ctx : TypeContext) : Result TypeContext :=
  match catalog.nodeTypes.lookup binding.typeName with
  | none => typeError <| "T1: unknown node type `" ++ binding.typeName ++ "`"
  | some nodeType => do
    binding.propMatches.forM (checkPropMatch params binding.typeName nodeType)
    checkRebind ctx binding
    .ok { ctx with bindings := ctx.bindings.insert binding.var (.node binding.typeName) }

/-! ### Traversals -/

def checkHops (traversal : Traversal) : Result Unit :=
  if traversal.minHops = 0 then typeError "T15: traversal min hop bound must be >= 1"
  else match traversal.maxHops with
    | some maxHops =>
      if maxHops < traversal.minHops then
        typeError <| "T15: invalid traversal bounds \x7b" ++ toString traversal.minHops ++ "," ++
          toString maxHops ++ "\x7d; max must be >= min"
      else .ok ()
    | none => typeError
        "T15: unbounded traversal is disabled; use bounded traversal \x7bmin,max\x7d"

def checkUndirected (traversal : Traversal) (edge : EdgeType) : Result Unit :=
  if traversal.undirected && edge.fromType ≠ edge.toType then
    typeError <| "T22: undirected traversal `<" ++ edge.name ++ ">` requires a " ++
      "same-endpoint-type edge, but `" ++ edge.name ++ ": " ++ edge.fromType ++ " -> " ++
      edge.toType ++ "` is asymmetric; use the directional form"
  else .ok ()

/-- The name of the edge row, unless it is the anonymous one. -/
def Traversal.namedEdgeBinding (traversal : Traversal) : Option String :=
  traversal.edgeBinding.filter (· ≠ "_")

/-- A named edge row needs a single hop and a fresh name. -/
def bindEdgeBinding (traversal : Traversal) (edge : EdgeType) (ctx : TypeContext) :
    Result TypeContext :=
  if traversal.edgeBinding.isSome && (traversal.minHops ≠ 1 || traversal.maxHops ≠ some 1) then
    typeError <| "T23: edge binding `$" ++ traversal.edgeBinding.getD "_" ++ "` cannot be " ++
      "combined with traversal bounds; a multi-hop traversal matches a path of edges, not one " ++
      "edge row"
  else match traversal.namedEdgeBinding with
    | none => .ok ctx
    | some binding =>
      if binding = traversal.src || binding = traversal.dst then
        typeError <| "T23: edge binding `$" ++ binding ++ "` cannot reuse a traversal endpoint " ++
          "name; edge bindings and node endpoints need distinct names"
      else if binding ∈ ctx.bindings then
        typeError <| "T23: variable `$" ++ binding ++
          "` is already bound; an edge binding needs " ++
          "a fresh name"
      else .ok { ctx with bindings := ctx.bindings.insert binding (.edge edge.name) }

def bindTraversalEndpoint (ctx : TypeContext) (var expectedType : String) (edge : EdgeType) :
    Result TypeContext :=
  if var = "_" then .ok ctx
  else match ctx.bindings.lookup var with
    | some existing => do
      let existingType ← existing.requireTraversalEndpoint var
      if existingType = expectedType then .ok ctx
      else typeError <| "T5: variable `$" ++ var ++ "` has type `" ++ existingType ++
        "` but edge `" ++ edge.name ++ "` expects `" ++ expectedType ++ "`"
    | none => .ok { ctx with bindings := ctx.bindings.insert var (.node expectedType) }

def endpointError {α : Type} (var typeName : String) (edge : EdgeType) : Result α :=
  typeError <| "T5: variable `$" ++ var ++ "` has type `" ++ typeName ++
    "`, which is not an endpoint of edge `" ++ edge.name ++ ": " ++ edge.fromType ++ " -> " ++
    edge.toType ++ "`"

/-- The direction a traversal is read in, inferred from the end that is bound already. -/
def inferDirection (traversal : Traversal) (edge : EdgeType) (ctx : TypeContext) :
    Result (Direction × TypeContext) :=
  match ctx.bindings.lookup traversal.src, ctx.bindings.lookup traversal.dst with
  | some bound, _ => do
    let srcType ← bound.requireTraversalEndpoint traversal.src
    if srcType = edge.fromType then
      .ok (.out, ← bindTraversalEndpoint ctx traversal.dst edge.toType edge)
    else if srcType = edge.toType then
      .ok (.into, ← bindTraversalEndpoint ctx traversal.dst edge.fromType edge)
    else endpointError traversal.src srcType edge
  | none, some bound => do
    let dstType ← bound.requireTraversalEndpoint traversal.dst
    if dstType = edge.toType then
      .ok (.out, ← bindTraversalEndpoint ctx traversal.src edge.fromType edge)
    else if dstType = edge.fromType then
      .ok (.into, ← bindTraversalEndpoint ctx traversal.src edge.toType edge)
    else endpointError traversal.dst dstType edge
  | none, none => do
    let ctx ← bindTraversalEndpoint ctx traversal.src edge.fromType edge
    .ok (.out, ← bindTraversalEndpoint ctx traversal.dst edge.toType edge)

def typecheckTraversal (catalog : Catalog) (traversal : Traversal) (ctx : TypeContext) :
    Result TypeContext :=
  match catalog.lookupEdgeByName traversal.edgeName with
  | none => typeError <| "T4: unknown edge type `" ++ traversal.edgeName ++ "`"
  | some edge => do
    checkHops traversal
    checkUndirected traversal edge
    let ctx ← bindEdgeBinding traversal edge ctx
    let (direction, ctx) ← inferDirection traversal edge ctx
    .ok { ctx with traversals := ctx.traversals ++
      [{ src := traversal.src, dst := traversal.dst, edgeType := edge.name,
         direction := if traversal.undirected then .both else direction,
         minHops := traversal.minHops, maxHops := traversal.maxHops,
         edgeBinding := traversal.namedEdgeBinding }] }

/-! ### Clauses -/

/-- `vars` names the variables bound outside. -/
def Expr.referencesAny (vars : String → Bool) : Expr → Bool
  | .propAccess v _ => vars v
  | .nearest v _ query => vars v || query.referencesAny vars
  | .search field query | .matchText field query | .bm25 field query =>
    field.referencesAny vars || query.referencesAny vars
  | .fuzzy field query none => field.referencesAny vars || query.referencesAny vars
  | .fuzzy field query (some maxEdits) =>
    field.referencesAny vars || query.referencesAny vars || maxEdits.referencesAny vars
  | .rrf primary secondary none => primary.referencesAny vars || secondary.referencesAny vars
  | .rrf primary secondary (some k) =>
    primary.referencesAny vars || secondary.referencesAny vars || k.referencesAny vars
  | .var name => vars name
  | .aggregate _ arg => arg.referencesAny vars
  | _ => false

/-- A clause of a `not` block that mentions a variable bound outside. -/
def Clause.referencesOuter (vars : String → Bool) : Clause → Bool
  | .traversal t => vars t.src || vars t.dst
  | .filter f => f.left.referencesAny vars || f.right.referencesAny vars
  | .binding b => vars b.var
  | .negation _ => false

mutual

def typecheckClause (catalog : Catalog) (params : ParamTypes) :
    Clause → TypeContext → Result TypeContext
  | .binding b, ctx => typecheckBinding catalog params b ctx
  | .traversal t, ctx => typecheckTraversal catalog t ctx
  | .filter f, ctx => do
    typecheckFilter catalog params f ctx
    .ok ctx
  | .negation inner, ctx => do
    -- the inner context is dropped: only its success counts
    let _ ← typecheckClauses catalog params inner ctx
    if inner.any (Clause.referencesOuter fun v => decide (v ∈ ctx.bindings)) then .ok ctx
    else typeError "T9: negation block must reference at least one outer-bound variable"

def typecheckClauses (catalog : Catalog) (params : ParamTypes) :
    List Clause → TypeContext → Result TypeContext
  | [], ctx => .ok ctx
  | clause :: rest, ctx => do
    let ctx ← typecheckClause catalog params clause ctx
    typecheckClauses catalog params rest ctx

end

/-! ### Queries -/

def parseDeclaredParamTypes (params : List Param) : Result ParamTypes :=
  params.foldlM (fun out p =>
    if p.name = nowParamName then
      typeError <| "parameter name `$" ++ nowParamName ++
        "` is reserved for runtime timestamp injection"
    else match PropType.fromParamTypeName p.typeName p.nullable with
      | none => typeError <| "unknown parameter type `" ++ p.typeName ++ "` for `$" ++ p.name ++ "`"
      | some propType => .ok (out.insert p.name propType)) ∅

def typecheckProjection (catalog : Catalog) (params : ParamTypes) (ctx : TypeContext)
    (proj : Projection) : Result TypeContext := do
  let resolved ← resolveExprType catalog ctx params proj.expr
  rejectBlobReadValue resolved proj.expr
  match proj.asName with
  | some name => .ok { ctx with aliases := ctx.aliases.insert name resolved }
  | none => .ok ctx

def typecheckOrdering (catalog : Catalog) (params : ParamTypes) (ctx : TypeContext)
    (ord : Ordering) : Result Unit := do
  let resolved ← resolveExprType catalog ctx params ord.expr
  rejectBlobReadValue resolved ord.expr

/-- The expressions behind the names of the return clause. -/
def aliasExprs (projections : List Projection) : HashMap String Expr :=
  projections.foldl (fun m p =>
    match p.asName with
    | some name => m.insert name p.expr
    | none => m) ∅

/-- Whether an expression holds one of a kind; `look` answers for the names it refers to. -/
def Expr.holds (hit : Expr → Bool) (look : String → Bool) : Expr → Bool
  | .nearest v property query => hit (.nearest v property query)
  | .rrf primary secondary k => hit (.rrf primary secondary k)
  | .aggregate _ arg => arg.holds hit look
  | .search field query | .matchText field query | .bm25 field query =>
    field.holds hit look || query.holds hit look
  | .fuzzy field query none => field.holds hit look || query.holds hit look
  | .fuzzy field query (some maxEdits) =>
    field.holds hit look || query.holds hit look || maxEdits.holds hit look
  | .aliasRef name => look name
  | _ => false

/-- The same, with the names of the return clause looked through. A name is followed once on a
path, so one turn for each name is enough. -/
def Expr.holdsThrough (hit : Expr → Bool) (aliases : HashMap String Expr) :
    ℕ → List String → Expr → Bool
  | 0, _, _ => false
  | fuel + 1, seen, expr =>
    expr.holds hit fun name =>
      if name ∈ seen then false
      else match aliases.lookup name with
        | some named => Expr.holdsThrough hit aliases fuel (name :: seen) named
        | none => false

def Expr.isNearest : Expr → Bool
  | .nearest .. => true
  | _ => false

def Expr.isRrf : Expr → Bool
  | .rrf .. => true
  | _ => false

def Expr.isAggregate : Expr → Bool
  | .aggregate .. => true
  | _ => false

def Expr.isAliasRef : Expr → Bool
  | .aliasRef _ => true
  | _ => false

def Expr.isGroupKey : Expr → Bool
  | .propAccess .. | .var _ => true
  | _ => false

def QueryDecl.orderHolds (query : QueryDecl) (hit : Expr → Bool) : Bool :=
  let aliases := aliasExprs query.returnClause
  query.orderClause.any fun ord => ord.expr.holdsThrough hit aliases (aliases.keys.length + 1) []

/-- The checks on ordering and grouping that look at the query as a whole. -/
def checkQueryShape (query : QueryDecl) : Result Unit :=
  if query.orderHolds Expr.isRrf && query.limit.isNone then
    typeError "T21: rrf ordering requires a limit clause"
  else if query.orderHolds Expr.isNearest && query.limit.isNone then
    typeError "T17: nearest ordering requires a limit clause"
  else if query.orderHolds Expr.isNearest && query.orderClause.any (·.expr.isAliasRef) then
    typeError <| "T18: alias-based ordering is not supported together with nearest in phase 1"
  else if query.returnClause.any (·.expr.isAggregate) &&
      query.returnClause.any (fun p => !p.expr.isAggregate && !p.expr.isGroupKey) then
    typeError <| "T9: non-aggregate expressions in an aggregate query must be " ++
      "property accesses or variables"
  else .ok ()

def TypeContext.empty : TypeContext := ⟨∅, ∅, []⟩

def typecheckReadQuery (catalog : Catalog) (query : QueryDecl) : Result TypeContext := do
  let params ← parseDeclaredParamTypes query.params
  let ctx ← typecheckClauses catalog params query.matchClause TypeContext.empty
  let ctx ← query.returnClause.foldlM (typecheckProjection catalog params) ctx
  query.orderClause.forM (typecheckOrdering catalog params ctx)
  checkQueryShape query
  .ok ctx

def typecheckQuery (catalog : Catalog) (query : QueryDecl) : Result TypeContext :=
  if query.mutations ≠ [] then
    typeError "mutation query cannot be typechecked with read-query API"
  else typecheckReadQuery catalog query

end Omnigraph.Compiler
