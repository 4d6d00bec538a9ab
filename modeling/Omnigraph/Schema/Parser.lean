import Omnigraph.Schema.Ir

/-!
# Parsing schemas

From the declarations the grammar reads to the syntax tree. Literals are decoded, property
annotations `@key`, `@unique` and `@index` become constraints, and every node takes over the
properties of the interfaces it implements: an interface that is listed earlier wins. Annotations
and constraints are validated on the result.
-/

namespace Omnigraph.Schema

open Compiler (PropType ScalarType)
open Sorted

/-! ### What the grammar reads -/

def isIdentChar (c : Char) : Bool := c.isAlphanum || c = '_'

/-- The names of properties and annotations. -/
def isIdent (s : String) : Bool :=
  match s.toList with
  | c :: cs => (c.isLower || c = '_') && cs.all isIdentChar
  | [] => false

/-- The names of types. -/
def isTypeName (s : String) : Bool :=
  match s.toList with
  | c :: cs => c.isUpper && cs.all isIdentChar
  | [] => false

abbrev Ident := { s : String // isIdent s = true }

abbrev TypeName := { s : String // isTypeName s = true }

/-- The printed text of a float. -/
abbrev FloatText :=
  { s : String // s.toList.all (fun c => c.isDigit || ['.', '-', 'e', 'i', 'n', 'f'].contains c) =
    true }

inductive RawBound
  | integer (n : ℤ)
  | float (text : FloatText)

inductive ConstraintArg
  | ident (name : Ident)
  | string (text : String)
  | literal (text : String)
  /-- `a..b`, `a..` and `..b`: the bounds that are written. -/
  | range (bounds : List RawBound)

inductive ConstraintName
  | key
  | unique
  | index
  | range
  | check

structure RawConstraint where
  name : ConstraintName
  args : List ConstraintArg

structure RawAnnotation where
  name : Ident
  value : Option String
  kwargs : List (Ident × String)

inductive CoreType
  | base (scalar : { s : ScalarType // s.isVector = false })
  | list (element : { s : ScalarType // s.isVector = false })
  | enum (values : List String)
  | vector (dim : ℕ)

structure RawProp where
  name : Ident
  coreType : CoreType
  nullable : Bool
  annotations : List RawAnnotation

structure RawInterface where
  name : TypeName
  properties : List RawProp

structure RawNode where
  name : TypeName
  annotations : List RawAnnotation
  implements : List TypeName
  properties : List RawProp
  constraints : List RawConstraint

structure RawEdge where
  name : TypeName
  fromType : TypeName
  toType : TypeName
  cardinality : Option (ℕ × Option ℕ)
  annotations : List RawAnnotation
  properties : List RawProp
  constraints : List RawConstraint

inductive RawDecl
  | interface (d : RawInterface)
  | node (d : RawNode)
  | edge (d : RawEdge)

/-! ### Literals and types -/

def parseError {α : Type} (message : String) : Result α := .error (.parse message)

/-- The characters of a literal with escapes decoded. -/
def decodeEscapes : List Char → Result (List Char)
  | [] => .ok []
  | '\\' :: c :: cs => do
    let decoded ← match c with
      | '"' => .ok '"'
      | '\\' => .ok '\\'
      | 'n' => .ok '\n'
      | 'r' => .ok '\r'
      | 't' => .ok '\t'
      | other => parseError s!"unsupported escape sequence: \\{other}"
    let rest ← decodeEscapes cs
    return decoded :: rest
  | ['\\'] => parseError "unterminated escape sequence"
  | c :: cs => do
    let rest ← decodeEscapes cs
    return c :: rest

/-- The text between the quotes, if there are quotes. -/
def unquoted (raw : List Char) : List Char :=
  if raw.head? = some '"' ∧ raw.tail.getLast? = some '"' then raw.tail.dropLast else raw

def decodeStringLiteral (raw : String) : Result String := do
  let decoded ← decodeEscapes (unquoted raw.toList)
  return String.ofList decoded

def u32Max : ℕ := 4294967295

def i32Max : ℕ := 2147483647

/-- An enumeration: its values are sorted. -/
def enumType (values : List String) (nullable : Bool) : PropType :=
  ⟨.string, nullable, false, some (canonical id values)⟩

def parseTypeRef (coreType : CoreType) (nullable : Bool) : Result PropType :=
  match coreType with
  | .base scalar => .ok (.ofScalar scalar.1 nullable)
  | .vector dim => do
    ensure (dim ≤ u32Max) (.parse <|
      "invalid Vector dimension: number too large to fit in target type")
    ensure (dim ≠ 0) (.parse "Vector dimension must be greater than zero")
    ensure (dim ≤ i32Max)
      (.parse s!"Vector dimension {dim} exceeds maximum supported {i32Max}")
    return .ofScalar (.vector dim) nullable
  | .list element => do
    ensure (element.1 ≠ .blob) (.parse "list of Blob is not supported")
    return .listOf element.1 nullable
  | .enum values => do
    ensure (values ≠ []) (.parse "enum type must include at least one value")
    ensure ((canonical id values).length = values.length)
      (.parse "enum type cannot include duplicate values")
    return enumType values nullable

/-! ### Annotations and constraints -/

/-- Insert into a map that is sorted by key. -/
def insertKwarg (k v : String) : List (String × String) → List (String × String)
  | [] => [(k, v)]
  | (k', v') :: l =>
    if k < k' then (k, v) :: (k', v') :: l
    else if k = k' then (k, v) :: l
    else (k', v') :: insertKwarg k v l

def parseKwarg (kwargs : List (String × String)) (kw : Ident × String) :
    Result (List (String × String)) := do
  let value ← decodeStringLiteral kw.2
  return insertKwarg kw.1.1 value kwargs

def parseValue : Option String → Result (Option String)
  | none => .ok none
  | some raw => (decodeStringLiteral raw).map some

def parseAnnotation (raw : RawAnnotation) : Result Annotation := do
  let value ← parseValue raw.value
  let kwargs ← raw.kwargs.foldlM parseKwarg []
  return ⟨raw.name.1, value, kwargs⟩

def extractIdent : ConstraintArg → Result String
  | .ident name => .ok name.1
  | _ => parseError "expected property name in constraint"

def extractString : ConstraintArg → Result String
  | .string text => decodeStringLiteral text
  | _ => parseError "expected string argument in constraint"

def RawBound.parse : RawBound → ConstraintBound
  | integer n => .integer n
  | float text => .float text.1

/-- The first bound that is written is the minimum. -/
def extractRangeBounds : ConstraintArg → Result (Option ConstraintBound × Option ConstraintBound)
  | .range bounds => .ok (bounds.head?.map RawBound.parse, bounds.tail.head?.map RawBound.parse)
  | _ => parseError "expected range bounds (min..max) in @range constraint"

def extractIdents (name : String) (args : List ConstraintArg) : Result (List String) := do
  let names ← args.mapM extractIdent
  ensure (names ≠ []) (.parse s!"@{name} constraint requires at least one property name")
  return names

def parseBodyConstraint (raw : RawConstraint) : Result Constraint :=
  match raw.name with
  | .key => (extractIdents "key" raw.args).map .key
  | .unique => (extractIdents "unique" raw.args).map .unique
  | .index => (extractIdents "index" raw.args).map .index
  | .range =>
    match raw.args with
    | property :: bounds :: _ => do
      let property ← extractIdent property
      let (min, max) ← extractRangeBounds bounds
      return .range property min max
    | _ => parseError "@range requires property name and bounds: @range(prop, min..max)"
  | .check =>
    match raw.args with
    | property :: pattern :: _ => do
      let property ← extractIdent property
      let pattern ← extractString pattern
      return .check property pattern
    | _ => parseError "@check requires property name and pattern: @check(prop, \"regex\")"

/-- The constraint a property annotation stands for. -/
def annotationConstraint (name : String) (a : Annotation) : Option Constraint :=
  if a.value = none then
    if a.name = "key" then some (.key [name])
    else if a.name = "unique" then some (.unique [name])
    else if a.name = "index" then some (.index [name])
    else none
  else none

/-- The constraints of the annotations of properties. -/
def desugarPropertyConstraints (properties : List PropDecl) : List Constraint :=
  properties.flatMap fun p => p.annotations.filterMap (annotationConstraint p.name)

/-! ### Declarations -/

def parsePropDecl (raw : RawProp) : Result PropDecl := do
  ensure (isReservedStorageSystemColumn raw.name.1 = false) (.parse <|
    s!"property name '{raw.name.1}' is reserved for a virtual storage system column; a graph " ++
    "created with a pre-RC Lance binary must be exported with that binary, renamed, and rebuilt")
  let propType ← parseTypeRef raw.coreType raw.nullable
  let annotations ← raw.annotations.mapM parseAnnotation
  return ⟨raw.name.1, propType, annotations⟩

def parseInterfaceDecl (raw : RawInterface) : Result InterfaceDecl := do
  let properties ← raw.properties.mapM parsePropDecl
  return ⟨raw.name.1, properties⟩

def directOrigins (properties : List PropDecl) : HashMap String NodePropertyOrigin :=
  HashMap.insertAll PropDecl.name (fun _ => ⟨true, []⟩) ∅ properties

def parseNodeDecl (raw : RawNode) : Result NodeDecl := do
  let annotations ← raw.annotations.mapM parseAnnotation
  let properties ← raw.properties.mapM parsePropDecl
  let body ← raw.constraints.mapM parseBodyConstraint
  let constraints := body ++ desugarPropertyConstraints properties
  return {
    name := raw.name.1
    annotations := annotations
    implements := raw.implements.map Subtype.val
    properties := properties
    constraints := constraints
    sourceConstraints := constraints
    propertyOrigins := directOrigins properties }

def parseCardinality : Option (ℕ × Option ℕ) → Result Cardinality
  | none => .ok .default
  | some (min, max) => do
    ensure (min ≤ u32Max) (.parse s!"invalid cardinality min: {min}")
    max.toList.forM fun m => do
      ensure (m ≤ u32Max) (.parse s!"invalid cardinality max: {m}")
      ensure (min ≤ m) (.parse s!"cardinality min ({min}) exceeds max ({m})")
    return ⟨min, max⟩

def parseEdgeDecl (raw : RawEdge) : Result EdgeDecl := do
  let cardinality ← parseCardinality raw.cardinality
  let annotations ← raw.annotations.mapM parseAnnotation
  let properties ← raw.properties.mapM parsePropDecl
  let body ← raw.constraints.mapM parseBodyConstraint
  return {
    name := raw.name.1
    fromType := raw.fromType.1
    toType := raw.toType.1
    cardinality := cardinality
    annotations := annotations
    properties := properties
    constraints := body ++ desugarPropertyConstraints properties }

def parseSchemaDecl : RawDecl → Result SchemaDecl
  | .interface raw => (parseInterfaceDecl raw).map .interface
  | .node raw => (parseNodeDecl raw).map .node
  | .edge raw => (parseEdgeDecl raw).map .edge

/-! ### Interfaces -/

/-- One more interface that contributes a property. -/
def addContribution (origins : HashMap String NodePropertyOrigin) (c : InterfacePropertyOrigin) :
    HashMap String NodePropertyOrigin :=
  let origin := (origins.lookup c.propertyName).getD ⟨false, []⟩
  origins.insert c.propertyName
    { origin with interfaceProperties := origin.interfaceProperties ++ [c] }

/-- A property of an interface: the node has it already, with the same type, or takes it over. -/
def takeOver (interface : InterfaceDecl) (node : NodeDecl) (p : PropDecl) : Result NodeDecl :=
  let origins := addContribution node.propertyOrigins ⟨interface.name, p.name⟩
  match node.properties.find? (fun q => q.name = p.name) with
  | some existing => do
    ensure (existing.propType = p.propType) (.parse <|
      s!"node {node.name} property '{p.name}' has type {existing.propType.displayName} but " ++
      s!"interface {interface.name} declares it as {p.propType.displayName}")
    return { node with propertyOrigins := origins }
  | none => .ok { node with
      propertyOrigins := origins
      properties := node.properties ++ [p]
      constraints := node.constraints ++ desugarPropertyConstraints [p] }

def interfaceMap (interfaces : List InterfaceDecl) : HashMap String InterfaceDecl :=
  HashMap.insertAll InterfaceDecl.name id ∅ interfaces

def implementInterface (interfaces : List InterfaceDecl) (node : NodeDecl) (name : String) :
    Result NodeDecl :=
  match (interfaceMap interfaces).lookup name with
  | none => parseError s!"node {node.name} implements unknown interface '{name}'"
  | some interface => interface.properties.foldlM (takeOver interface) node

def InterfacePropertyOrigin.sortKey (o : InterfacePropertyOrigin) : String ×ₗ String :=
  toLex (o.interfaceName, o.propertyName)

def NodePropertyOrigin.sorted (o : NodePropertyOrigin) : NodePropertyOrigin :=
  { o with interfaceProperties := canonical InterfacePropertyOrigin.sortKey o.interfaceProperties }

def sortOrigins (origins : HashMap String NodePropertyOrigin) : HashMap String NodePropertyOrigin :=
  HashMap.insertAll (fun e => e.1) (fun e => e.2.sorted) ∅ origins.entries

def resolveInterfaces (interfaces : List InterfaceDecl) (node : NodeDecl) : Result NodeDecl := do
  let node ← node.implements.foldlM (implementInterface interfaces) node
  return { node with propertyOrigins := sortOrigins node.propertyOrigins }

def resolveDecl (interfaces : List InterfaceDecl) : SchemaDecl → Result SchemaDecl
  | .node d => (resolveInterfaces interfaces d).map .node
  | d => .ok d

/-! ### Validation of annotations -/

/-- One annotation of this name, with a text. -/
def validateStringAnnotation (annotations : List Annotation) (label target : String) :
    Result Unit :=
  match annotations.filter (fun a => a.name = label) with
  | [] => .ok ()
  | a :: rest => do
    ensure (∃ value ∈ a.value, isBlank value = false)
      (.parse s!"@{label} on {target} requires a non-empty value")
    ensure (rest = []) (.parse s!"{target} declares @{label} multiple times")

/-- A property, and what its annotations are checked against. -/
structure PropertyContext where
  property : PropDecl
  typeName : String
  allProperties : List PropDecl
  isEdge : Bool

def isConstraintAnnotation (name : String) : Bool :=
  name = "key" || name = "unique" || name = "index"

/-- `@key`, `@unique` and `@index`: no value, and only once. -/
def validateConstraintAnnotation (ctx : PropertyContext) (seen : List String) (a : Annotation) :
    Result Unit := do
  let entity := s!"{ctx.typeName}.{ctx.property.name}"
  ensure (a.value = none) (.parse s!"@{a.name} on {entity} does not accept a value")
  ensure (a.name ∉ seen) (.parse s!"property {entity} declares @{a.name} multiple times")

/-- `@embed`: once, on a vector, with a `String` property of the same type as its source. -/
def validateEmbedAnnotation (ctx : PropertyContext) (seen : List String) (a : Annotation) :
    Result Unit := do
  let entity := s!"{ctx.typeName}.{ctx.property.name}"
  ensure (a.name ∉ seen) (.parse s!"property {entity} declares @embed multiple times")
  ensure (ctx.property.propType.scalar.isVector = true)
    (.parse s!"@embed is only supported on vector properties ({entity})")
  match a.value with
  | none => parseError s!"@embed on {entity} requires a source property name"
  | some source => do
    ensure (isBlank source = false)
      (.parse s!"@embed on {entity} requires a non-empty source property name")
    match ctx.allProperties.find? (fun p => p.name = source) with
    | none => parseError s!"@embed on {entity} references unknown source property {source}"
    | some decl => do
      ensure (decl.propType.list = false ∧ decl.propType.scalar = .string)
        (.parse s!"@embed source property {ctx.typeName}.{source} must be String")
      match a.kwargs.find? (fun kw => kw.1 ≠ "model") with
      | some kw => parseError <|
          s!"@embed on {entity} has unknown argument '{kw.1}=' (only 'model' is supported)"
      | none => .ok ()

def validateAnnotationKind (ctx : PropertyContext) (a : Annotation) : Result Unit := do
  let entity := s!"{ctx.typeName}.{ctx.property.name}"
  let typed := isConstraintAnnotation a.name || a.name = "embed"
  ensure (¬ (ctx.property.propType.list = true ∧ typed = true))
    (.parse s!"@{a.name} is not supported on list property {entity}")
  ensure (¬ (ctx.property.propType.scalar.isVector = true ∧ (a.name = "key" ∨ a.name = "unique")))
    (.parse s!"@{a.name} is not supported on vector property {entity}")
  ensure (¬ (ctx.property.propType.scalar = .blob ∧ typed = true))
    (.parse s!"@{a.name} is not supported on blob property {entity}")
  ensure (a.name ≠ "instruction")
    (.parse s!"@instruction is only supported on node and edge types (property {entity})")
  ensure (¬ (ctx.isEdge = true ∧ (a.name = "key" ∨ a.name = "embed")))
    (.parse s!"@{a.name} is not supported on edge properties (edge {entity})")

/-- One annotation of a property, after annotations named `seen`. -/
def validatePropertyAnnotation (ctx : PropertyContext) (seen : List String) (a : Annotation) :
    Result (List String) := do
  validateAnnotationKind ctx a
  if isConstraintAnnotation a.name then validateConstraintAnnotation ctx seen a
  else if a.name = "embed" then validateEmbedAnnotation ctx seen a
  else .ok ()
  return a.name :: seen

def validatePropertyAnnotations (ctx : PropertyContext) : Result Unit := do
  let target := s!"property {ctx.typeName}.{ctx.property.name}"
  validateStringAnnotation ctx.property.annotations "description" target
  let _ ← renameFromAnnotation ctx.property.annotations target
  let _ ← ctx.property.annotations.foldlM ( validatePropertyAnnotation ctx) []
  return ()

/-- A type has no `@key`, `@unique`, `@index` or `@embed`. -/
def refuseTypedAnnotations (annotations : List Annotation) (message : String) : Result Unit :=
  match annotations.find? (fun a => isConstraintAnnotation a.name || a.name = "embed") with
  | some a => parseError s!"@{a.name} {message}"
  | none => .ok ()

/-- Annotations of a node or edge type. -/
def validateTypeAnnotations (annotations : List Annotation) (target : String) (message : String) :
    Result Unit := do
  let _ ← renameFromAnnotation annotations target
  refuseTypedAnnotations annotations message
  validateStringAnnotation annotations "description" target
  validateStringAnnotation annotations "instruction" target

def validateDeclAnnotations : SchemaDecl → Result Unit
  | .interface d => d.properties.forM fun p => do
    let _ ← renameFromAnnotation p.annotations s!"property {d.name}.{p.name}"
    return ()
  | .node d => do
    validateTypeAnnotations d.annotations s!"node {d.name}"
      s!"is only supported on node properties or as body constraint (node {d.name})"
    d.properties.forM fun p => validatePropertyAnnotations ⟨p, d.name, d.properties, false⟩
  | .edge d => do
    validateTypeAnnotations d.annotations s!"edge {d.name}"
      s!"is not supported on edges (edge {d.name})"
    d.properties.forM fun p => validatePropertyAnnotations ⟨p, d.name, d.properties, true⟩

/-! ### Validation of constraints -/

inductive ConstraintValidationMode
  | admission
  | persistedContract
  deriving DecidableEq

/-- The declaration a column name finds: the last one. -/
def propertyNamed (properties : List PropDecl) (name : String) : Option PropDecl :=
  (HashMap.insertAll PropDecl.name id ∅ properties).lookup name

structure ConstraintContext where
  properties : List PropDecl
  typeName : String
  isEdge : Bool
  mode : ConstraintValidationMode

def requireProperty (ctx : ConstraintContext) (label name : String) : Result PropDecl :=
  match propertyNamed ctx.properties name with
  | some p => .ok p
  | none => parseError s!"@{label} on {ctx.typeName} references unknown property '{name}'"

def validateKeyColumn (ctx : ConstraintContext) (name : String) : Result Unit := do
  let p ← requireProperty ctx "key" name
  let entity := s!"{ctx.typeName}.{name}"
  ensure (p.propType.nullable = false) (.parse s!"@key property {entity} cannot be nullable")
  ensure (p.propType.list = false) (.parse s!"@key is not supported on list property {entity}")
  ensure (p.propType.scalar.isVector = false)
    (.parse s!"@key is not supported on vector property {entity}")
  ensure (p.propType.scalar ≠ .blob) (.parse s!"@key is not supported on blob property {entity}")

/-- Edges may also name their endpoints. -/
def isEndpointColumn (ctx : ConstraintContext) (name : String) : Bool :=
  ctx.isEdge && (name = "src" || name = "dst")

def validateUniqueColumn (ctx : ConstraintContext) (name : String) : Result Unit :=
  if isEndpointColumn ctx name then .ok () else do
    let p ← requireProperty ctx "unique" name
    ensure (¬ (p.propType.scalar = .blob ∧ ctx.mode = .admission))
      (.parse s!"@unique is not supported on blob property {ctx.typeName}.{name}")

def validateIndexColumn (ctx : ConstraintContext) (name : String) : Result Unit :=
  if isEndpointColumn ctx name then .ok () else do
    let p ← requireProperty ctx "index" name
    ensure (p.propType.scalar ≠ .blob)
      (.parse s!"@index is not supported on blob property {ctx.typeName}.{name}")

/-- One constraint, after `keys` key constraints. -/
def validateTypeConstraint (ctx : ConstraintContext) (keys : ℕ) : Constraint → Result ℕ
  | .key columns => do
    ensure (ctx.isEdge = false)
      (.parse s!"@key constraint is not supported on edges (edge {ctx.typeName})")
    ensure (keys = 0) (.parse
      s!"node type {ctx.typeName} has multiple @key constraints; only one is supported")
    columns.forM (validateKeyColumn ctx)
    return keys + 1
  | .unique columns => do
    columns.forM (validateUniqueColumn ctx)
    return keys
  | .index columns => do
    columns.forM (validateIndexColumn ctx)
    return keys
  | .range property _ _ => do
    ensure (ctx.isEdge = false)
      (.parse s!"@range constraint is not supported on edges (edge {ctx.typeName})")
    let p ← requireProperty ctx "range" property
    ensure (p.propType.scalar.isNumeric = true) (.parse <|
      s!"@range on {ctx.typeName}.{property} requires a numeric type, got " ++
      p.propType.displayName)
    return keys
  | .check property _ => do
    ensure (ctx.isEdge = false)
      (.parse s!"@check constraint is not supported on edges (edge {ctx.typeName})")
    let p ← requireProperty ctx "check" property
    ensure (p.propType.scalar = .string) (.parse <|
      s!"@check on {ctx.typeName}.{property} requires String type, got " ++
      p.propType.displayName)
    return keys

def validateTypeConstraints (ctx : ConstraintContext) (constraints : List Constraint) :
    Result Unit := do
  let _ ← constraints.foldlM (validateTypeConstraint ctx) 0
  return ()

def validateDeclConstraints (mode : ConstraintValidationMode) : SchemaDecl → Result Unit
  | .interface _ => .ok ()
  | .node d => validateTypeConstraints ⟨d.properties, d.name, false, mode⟩ d.constraints
  | .edge d => validateTypeConstraints ⟨d.properties, d.name, true, mode⟩ d.constraints

/-! ### The parser -/

def parseSchemaWithMode (mode : ConstraintValidationMode) (raw : List RawDecl) :
    Result SchemaFile := do
  let declarations ← raw.mapM parseSchemaDecl
  let interfaces := declarations.filterMap SchemaDecl.interface?
  let declarations ← declarations.mapM (resolveDecl interfaces)
  declarations.forM validateDeclAnnotations
  declarations.forM (validateDeclConstraints mode)
  return ⟨declarations⟩

/-- Parse a schema that is to be admitted. -/
def parseSchema (raw : List RawDecl) : Result SchemaFile := parseSchemaWithMode .admission raw

end Omnigraph.Schema
