import Omnigraph.Lib.HashMap

/-!
# Queries and plans

The types a schema declares, the catalog built from it, the syntax tree of a read query and the
plan it is lowered to. A query matches a list of clauses; a `not` block holds clauses of its own,
and becomes an anti-join with a pipeline of its own.
-/

namespace Omnigraph.Compiler

/-! ### Types and the catalog -/

/-- The scalar types of properties and parameters. -/
inductive ScalarType
  | string
  | bool
  | i32
  | i64
  | u32
  | u64
  | f32
  | f64
  | date
  | dateTime
  | vector (dim : ℕ)
  | blob
  deriving DecidableEq, Repr

namespace ScalarType

def isNumeric : ScalarType → Bool
  | i32 | i64 | u32 | u64 | f32 | f64 => true
  | _ => false

def isInteger : ScalarType → Bool
  | i32 | i64 | u32 | u64 => true
  | _ => false

def isVector : ScalarType → Bool
  | vector _ => true
  | _ => false

/-- The name a scalar type has in error messages. -/
def display : ScalarType → String
  | string => "String"
  | bool => "Bool"
  | i32 => "I32"
  | i64 => "I64"
  | u32 => "U32"
  | u64 => "U64"
  | f32 => "F32"
  | f64 => "F64"
  | date => "Date"
  | dateTime => "DateTime"
  | blob => "Blob"
  | vector dim => s!"Vector({dim})"

/-- The dimension between `Vector(` and `)`, in decimal digits. -/
def vectorDim (digits : List Char) : Option ℕ :=
  if digits ≠ [] ∧ digits.all Char.isDigit then
    some (digits.foldl (fun n c => 10 * n + (c.toNat - '0'.toNat)) 0)
  else none

/-- The scalar type a declaration names. -/
def fromStrName (s : String) : Option ScalarType :=
  if "Vector(".toList.isPrefixOf s.toList ∧ s.toList.getLast? = some ')' then
    match vectorDim ((s.toList.drop 7).dropLast) with
    | some dim => if dim = 0 ∨ dim > 2147483647 then none else some (vector dim)
    | none => none
  else match s with
    | "String" => some string
    | "Bool" => some bool
    | "I32" => some i32
    | "I64" => some i64
    | "U32" => some u32
    | "U64" => some u64
    | "F32" => some f32
    | "F64" => some f64
    | "Date" => some date
    | "DateTime" => some dateTime
    | "Blob" => some blob
    | _ => none

end ScalarType

/-- The type of a property or of a parameter. -/
structure PropType where
  scalar : ScalarType
  nullable : Bool
  list : Bool
  enumValues : Option (List String)
  deriving DecidableEq, Repr

namespace PropType

def ofScalar (scalar : ScalarType) (nullable : Bool) : PropType := ⟨scalar, nullable, false, none⟩

def listOf (scalar : ScalarType) (nullable : Bool) : PropType := ⟨scalar, nullable, true, none⟩

/-- The type a parameter declaration names: a scalar, or a list of one in brackets. -/
def fromParamTypeName (s : String) (nullable : Bool) : Option PropType :=
  if s.toList.head? = some '[' ∧ s.toList.tail.getLast? = some ']' then
    (ScalarType.fromStrName (String.ofList s.toList.tail.dropLast)).map (listOf · nullable)
  else (ScalarType.fromStrName s).map (ofScalar · nullable)

def displayName (p : PropType) : String :=
  let base := match p.enumValues with
    | some values => "enum(" ++ ", ".intercalate values ++ ")"
    | none => p.scalar.display
  let wrapped := if p.list then "[" ++ base ++ "]" else base
  if p.nullable then wrapped ++ "?" else wrapped

/-- A scalar `String`, not a list of them. -/
def isScalarString (p : PropType) : Bool := p.scalar = .string && !p.list

end PropType

/-- Numeric types compare with one another, every other type only with itself. -/
def typesCompatible (a b : PropType) : Bool :=
  a.list == b.list && (a.scalar == b.scalar || (a.scalar.isNumeric && b.scalar.isNumeric))

/-- The way an edge is walked. -/
inductive Direction
  | out
  | into
  | both

/-- A node type, as far as queries read it. -/
structure NodeType where
  properties : HashMap String PropType

/-- An edge type, as far as queries read it. -/
structure EdgeType where
  name : String
  fromType : String
  toType : String
  properties : HashMap String PropType

/-- The catalog of a schema. -/
structure Catalog where
  nodeTypes : HashMap String NodeType
  edgeTypes : HashMap String EdgeType
  /-- The key of an edge type by its name in lower case. -/
  edgeNameIndex : HashMap String String

def normalizeEdgeName (name : String) : String := String.ofList (name.toList.map Char.toLower)

def Catalog.lookupEdgeByName (catalog : Catalog) (name : String) : Option EdgeType :=
  match catalog.edgeTypes.lookup name with
  | some edge => some edge
  | none =>
    match catalog.edgeNameIndex.lookup (normalizeEdgeName name) with
    | some key => catalog.edgeTypes.lookup key
    | none => none

/-! ### Queries -/

/-- A literal; a float is its bit pattern. -/
inductive Literal
  | null
  | string (s : String)
  | integer (i : ℤ)
  | float (bits : UInt64)
  | bool (b : Bool)
  | date (s : String)
  | dateTime (s : String)
  | list (items : List Literal)

inductive AggFunc
  | count
  | sum
  | avg
  | min
  | max
  deriving DecidableEq

def AggFunc.display : AggFunc → String
  | count => "count"
  | sum => "sum"
  | avg => "avg"
  | min => "min"
  | max => "max"

/-- Comparison operators. `stringContains` is not written by users: lowering resolves `contains` to
it. -/
inductive CompOp
  | eq
  | ne
  | gt
  | lt
  | ge
  | le
  | contains
  | startsWith
  | stringContains
  deriving DecidableEq

def CompOp.display : CompOp → String
  | eq => "="
  | ne => "!="
  | gt => ">"
  | lt => "<"
  | ge => ">="
  | le => "<="
  | contains | stringContains => "contains"
  | startsWith => "starts_with"

inductive Expr
  | now
  | propAccess (variable_ property : String)
  | nearest (variable_ property : String) (query : Expr)
  | search (field query : Expr)
  | fuzzy (field query : Expr) (maxEdits : Option Expr)
  | matchText (field query : Expr)
  | bm25 (field query : Expr)
  | rrf (primary secondary : Expr) (k : Option Expr)
  | var (name : String)
  | literal (l : Literal)
  | aggregate (func : AggFunc) (arg : Expr)
  | aliasRef (name : String)

inductive MatchValue
  | literal (l : Literal)
  | var (name : String)
  | now

structure PropMatch where
  propName : String
  value : MatchValue

/-- `$p: Person { name: "Alice" }` -/
structure Binding where
  var : String
  typeName : String
  propMatches : List PropMatch

/-- `$p knows $f`, or `$p <knows> $f` when undirected; `$p $w:knows $f` also names the edge. -/
structure Traversal where
  src : String
  edgeName : String
  dst : String
  minHops : ℕ
  maxHops : Option ℕ
  undirected : Bool
  edgeBinding : Option String
  deriving DecidableEq

structure Filter where
  left : Expr
  op : CompOp
  right : Expr

inductive Clause
  | binding (b : Binding)
  | traversal (t : Traversal)
  | filter (f : Filter)
  | negation (inner : List Clause)

structure Param where
  name : String
  typeName : String
  nullable : Bool

structure Projection where
  expr : Expr
  asName : Option String

structure Ordering where
  expr : Expr
  descending : Bool

structure MutationAssignment where
  property : String
  value : MatchValue

structure MutationPredicate where
  property : String
  op : CompOp
  value : MatchValue

inductive Mutation
  | insert (typeName : String) (assignments : List MutationAssignment)
  | update (typeName : String) (assignments : List MutationAssignment)
      (predicate : MutationPredicate)
  | delete (typeName : String) (predicate : MutationPredicate)

/-- A query: a read query has no mutations. -/
structure QueryDecl where
  name : String
  params : List Param
  matchClause : List Clause
  returnClause : List Projection
  orderClause : List Ordering
  limit : Option ℕ
  mutations : List Mutation

/-- The name the current time is passed under. -/
def nowParamName : String := "__nanograph_now"

/-! ### Plans -/

inductive IRExpr
  | propAccess (variable_ property : String)
  | nearest (variable_ property : String) (query : IRExpr)
  | search (field query : IRExpr)
  | fuzzy (field query : IRExpr) (maxEdits : Option IRExpr)
  | matchText (field query : IRExpr)
  | bm25 (field query : IRExpr)
  | rrf (primary secondary : IRExpr) (k : Option IRExpr)
  | var (name : String)
  | param (name : String)
  | literal (l : Literal)
  | aggregate (func : AggFunc) (arg : IRExpr)
  | aliasRef (name : String)

structure IRFilter where
  left : IRExpr
  op : CompOp
  right : IRExpr

/-- The arguments of an `Expand`. -/
structure Expand where
  srcVar : String
  dstVar : String
  edgeType : String
  direction : Direction
  dstType : String
  minHops : ℕ
  maxHops : Option ℕ
  dstFilters : List IRFilter
  edgeBinding : Option String

inductive IROp
  | nodeScan (variable_ typeName : String) (filters : List IRFilter)
  | expand (e : Expand)
  | filter (f : IRFilter)
  | antiJoin (outerVar : String) (inner : List IROp)

structure IRProjection where
  expr : IRExpr
  asName : Option String

structure IROrdering where
  expr : IRExpr
  descending : Bool

structure QueryIR where
  name : String
  params : List Param
  pipeline : List IROp
  returnExprs : List IRProjection
  orderBy : List IROrdering
  limit : Option ℕ

end Omnigraph.Compiler
