import Omnigraph.Schema.Parser

/-!
# Compiling shapes

`compileSchemaShape` forgets the source order of a schema. Annotations, constraints and interfaces
are sorted without repetitions, properties and declarations are sorted by name. A property that a
node takes over from interfaces is compiled from the declarations in the interfaces: they must
agree.
-/

namespace Omnigraph.Schema

open Compiler (PropType ScalarType)
open Sorted

/-! ### Annotations and constraints -/

def canonicalAnnotations (annotations : List Annotation) : List Annotation :=
  canonical Annotation.json (annotations.filter fun a => ! isTypedAnnotation a.name)

def normalizeConstraint : Constraint → Constraint
  | .key columns => .key (canonical id columns)
  | .unique columns => .unique (canonical id columns)
  | .index columns => .index (canonical id columns)
  | other => other

def canonicalConstraints (constraints : List Constraint) : List Constraint :=
  dedupBy Constraint.same (sortOn constraintSortKey (constraints.map normalizeConstraint))

/-! ### Properties -/

/-- The constraint a property annotation stands for. -/
def annotationRelation (a : Annotation) : Option PropertyConstraintShape :=
  if a.value = none then
    if a.name = "key" then some .key
    else if a.name = "unique" then some .unique
    else if a.name = "index" then some .index
    else none
  else none

/-- The source of the first `@embed`. -/
def embedShape (annotations : List Annotation) : Option EmbedSourceShape :=
  (annotations.find? fun a => a.name = "embed").bind fun a =>
    a.value.map fun source => ⟨source, (a.kwargs.find? fun kw => kw.1 = "model").map Prod.snd⟩

def normalizeType (t : PropType) : PropType :=
  { t with enumValues := t.enumValues.map (canonical id) }

def propertyShape (p : PropDecl) (declaredDirectly : Bool) : Result PropertyShape := do
  let renameFrom ← renameFromAnnotation p.annotations s!"property {p.name}"
  return {
    name := p.name
    renameFrom := renameFrom
    propType := normalizeType p.propType
    annotations := canonicalAnnotations p.annotations
    propertyConstraints :=
      canonical PropertyConstraintShape.rank (p.annotations.filterMap annotationRelation)
    embedSource := embedShape p.annotations
    declaredDirectly := declaredDirectly
    satisfiesInterfaceProperties := [] }

/-- The properties of an interface or an edge. -/
def canonicalProperties (ownerName : String) (properties : List PropDecl) :
    Result (List PropertyShape) := do
  let shapes ← properties.mapM fun p => propertyShape p true
  let sorted := sortOn PropertyShape.name shapes
  ensure (sorted.IsChain fun a b => a.name ≠ b.name)
    (.catalog s!"duplicate property in schema shape for '{ownerName}'")
  return sorted

/-- The declaration an interface contributes. -/
def contributed (interfaces : HashMap String InterfaceDecl) (nodeName propertyName : String)
    (c : InterfacePropertyOrigin) : Result PropDecl :=
  match interfaces.lookup c.interfaceName with
  | none =>
    .error (.catalog <| s!"node '{nodeName}' property '{propertyName}' references missing " ++
      s!"interface '{c.interfaceName}'")
  | some interface =>
    match interface.properties.find? (fun p => p.name = c.propertyName) with
    | none => .error (.catalog <| s!"node '{nodeName}' property '{propertyName}' references " ++
        s!"missing interface property '{c.interfaceName}.{c.propertyName}'")
    | some p => .ok p

/-- What interfaces that contribute one property must agree on: its shape but for the hint. -/
def propertySemanticKey (p : PropDecl) : Result PropertyShape :=
  (propertyShape p false).map PropertyShape.cleared

/-- The first contribution; the others must mean the same. -/
def canonicalInterfaceProperty (interfaces : HashMap String InterfaceDecl)
    (nodeName propertyName : String) (contributions : List InterfacePropertyOrigin) :
    Result PropDecl := do
  let candidates ← contributions.mapM (contributed interfaces nodeName propertyName)
  match candidates with
  | [] => .error (.catalog
      s!"injected property '{nodeName}.{propertyName}' has no interface contributor")
  | first :: rest => do
    let semantics ← propertySemanticKey first
    rest.forM fun candidate => do
      let key ← propertySemanticKey candidate
      ensure (key = semantics) (.catalog <| s!"interfaces contributing " ++
        s!"'{nodeName}.{propertyName}' have incompatible property semantics")
    return first

/-- The declaration a property of a node is compiled from. -/
def sourceDecl (interfaces : HashMap String InterfaceDecl) (node : NodeDecl) (p : PropDecl)
    (declaredDirectly : Bool) (contributions : List InterfacePropertyOrigin) : Result PropDecl :=
  if declaredDirectly = true ∨ contributions = [] then .ok p
  else canonicalInterfaceProperty interfaces node.name p.name contributions

/-- A property of a node, with the interfaces it satisfies. -/
def nodePropertyShape (interfaces : HashMap String InterfaceDecl) (node : NodeDecl)
    (p : PropDecl) : Result PropertyShape := do
  let origin := node.propertyOrigins.lookup p.name
  let declaredDirectly := (origin.map NodePropertyOrigin.declaredDirectly).getD true
  let contributions := canonical InterfacePropertyOrigin.sortKey
    ((origin.map NodePropertyOrigin.interfaceProperties).getD [])
  let source ← sourceDecl interfaces node p declaredDirectly contributions
  let shape ← propertyShape source declaredDirectly
  return { shape with
    satisfiesInterfaceProperties := contributions.map fun c => ⟨c.interfaceName, c.propertyName⟩ }

/-! ### Declarations -/

def relationConstraint (name : String) : PropertyConstraintShape → Constraint
  | .key => .key [name]
  | .unique => .unique [name]
  | .index => .index [name]

/-- The constraints of the properties a node takes over. -/
def injectedConstraints (properties : List PropertyShape) : List Constraint :=
  (properties.filter fun p => !p.declaredDirectly).flatMap fun p =>
    p.propertyConstraints.map (relationConstraint p.name)

def compileInterface (d : InterfaceDecl) : Result InterfaceShape := do
  let properties ← canonicalProperties d.name d.properties
  return ⟨d.name, properties⟩

/-- The constraints written in the node itself. -/
def ownConstraints (d : NodeDecl) : List Constraint :=
  if d.propertyOrigins.keys = [] then d.constraints else d.sourceConstraints

def compileNode (interfaces : HashMap String InterfaceDecl) (d : NodeDecl) : Result NodeShape := do
  let properties ← d.properties.mapM (nodePropertyShape interfaces d)
  let properties := sortOn PropertyShape.name properties
  let renameFrom ← renameFromAnnotation d.annotations s!"node {d.name}"
  return {
    name := d.name
    renameFrom := renameFrom
    annotations := canonicalAnnotations d.annotations
    implements := canonical id d.implements
    properties := properties
    constraints := canonicalConstraints (ownConstraints d ++ injectedConstraints properties) }

def compileEdge (d : EdgeDecl) : Result EdgeShape := do
  let renameFrom ← renameFromAnnotation d.annotations s!"edge {d.name}"
  let properties ← canonicalProperties d.name d.properties
  return {
    name := d.name
    renameFrom := renameFrom
    fromType := d.fromType
    toType := d.toType
    cardinality := d.cardinality
    annotations := canonicalAnnotations d.annotations
    properties := properties
    constraints := canonicalConstraints d.constraints }

/-! ### The shape -/

/-- The edges in turn, after edges of the names `seen`. -/
def validateEdgeShapes (nodeNames : List String) : List String → List EdgeShape → Result Unit
  | _, [] => .ok ()
  | seen, e :: edges => do
    ensure (e.name ∉ seen) (.catalog s!"duplicate edge name '{e.name}' in schema shape")
    ensure (e.fromType ∈ nodeNames ∧ e.toType ∈ nodeNames)
      (.catalog s!"edge '{e.name}' has an unresolved endpoint")
    validateEdgeShapes nodeNames (e.name :: seen) edges

/-- The properties of the interfaces of a shape. -/
def interfaceProperties (shape : SchemaShape) : List ShapePropertyRef :=
  shape.interfaces.flatMap fun i => i.properties.map fun p => ⟨i.name, p.name⟩

def validateEmbedShape (node : NodeShape) (p : PropertyShape) (embed : EmbedSourceShape) :
    Result Unit :=
  ensure (embed.propertyName ∈ node.properties.map PropertyShape.name) (.catalog <|
    s!"property '{node.name}.{p.name}' embeds unknown source property '{embed.propertyName}'")

def validateNodeProperty (shape : SchemaShape) (node : NodeShape) (p : PropertyShape) :
    Result Unit := do
  p.satisfiesInterfaceProperties.forM fun r =>
    ensure (r ∈ interfaceProperties shape) (.catalog <| s!"node property '{node.name}.{p.name}' " ++
      "has an unresolved interface-property contribution")
  p.embedSource.toList.forM (validateEmbedShape node p)

def validateNodeShape (shape : SchemaShape) (node : NodeShape) : Result Unit := do
  node.implements.forM fun name =>
    ensure (name ∈ shape.interfaces.map InterfaceShape.name)
      (.catalog s!"node '{node.name}' implements unknown interface '{name}'")
  node.properties.forM (validateNodeProperty shape node)

def validateShape (shape : SchemaShape) : Result Unit := do
  ensure ((shape.interfaces.map InterfaceShape.name).Nodup)
    (.catalog "duplicate interface name in schema shape")
  ensure ((shape.nodes.map NodeShape.name).Nodup) (.catalog "duplicate node name in schema shape")
  validateEdgeShapes (shape.nodes.map NodeShape.name) [] shape.edges
  shape.nodes.forM (validateNodeShape shape)

/-- The shape of a schema. -/
def compileSchemaShape (schema : SchemaFile) : Result SchemaShape := do
  let interfaces ← schema.interfaces.mapM compileInterface
  let nodes ← schema.nodes.mapM (compileNode (interfaceMap schema.interfaces))
  let edges ← schema.edges.mapM compileEdge
  let shape : SchemaShape := ⟨sortOn InterfaceShape.name interfaces, sortOn NodeShape.name nodes,
    sortOn EdgeShape.name edges⟩
  validateShape shape
  return shape

end Omnigraph.Schema
