import Omnigraph.Schema.Shape

/-!
# Catalogs

The catalog is what queries and writes read of a schema. `buildCatalog` reads the syntax tree, where
nodes have taken over the properties of their interfaces; `buildCatalogFromIr` reads the accepted
schema, and orders the columns of a key by the identities of the properties.
-/

namespace Omnigraph.Schema

open Compiler (PropType ScalarType normalizeEdgeName)
open Sorted

/-! ### Columns -/

inductive DataType
  | utf8
  | boolean
  | int32
  | int64
  | uint32
  | uint64
  | float32
  | float64
  | date32
  | date64
  | largeBinary
  | fixedSizeList (dim : ℕ)
  | list (item : DataType)
  deriving Repr

def scalarToArrow : ScalarType → DataType
  | .string => .utf8
  | .bool => .boolean
  | .i32 => .int32
  | .i64 => .int64
  | .u32 => .uint32
  | .u64 => .uint64
  | .f32 => .float32
  | .f64 => .float64
  | .date => .date32
  | .dateTime => .date64
  | .blob => .largeBinary
  | .vector dim => .fixedSizeList dim

def toArrow (t : PropType) : DataType :=
  if t.list then .list (scalarToArrow t.scalar) else scalarToArrow t.scalar

structure Field where
  name : String
  dataType : DataType
  nullable : Bool

/-- A system column. -/
def systemField (name : String) : Field := ⟨name, .utf8, false⟩

def propertyField (p : String × PropType) : Field := ⟨p.1, toArrow p.2, p.2.nullable⟩

/-! ### Types -/

structure EmbedSource where
  source : String
  model : Option String

structure RangeConstraint where
  property : String
  min : Option ConstraintBound
  max : Option ConstraintBound

structure CheckConstraint where
  property : String
  pattern : String
  deriving DecidableEq

structure InterfaceType where
  name : String
  properties : HashMap String PropType

structure NodeType where
  name : String
  implements : List String
  properties : HashMap String PropType
  key : Option (List String)
  uniqueConstraints : List (List String)
  indices : List (List String)
  rangeConstraints : List RangeConstraint
  checkConstraints : List CheckConstraint
  embedSources : HashMap String EmbedSource
  blobProperties : List String
  arrowSchema : List Field

structure EdgeType where
  name : String
  fromType : String
  toType : String
  cardinality : Cardinality
  properties : HashMap String PropType
  uniqueConstraints : List (List String)
  indices : List (List String)
  blobProperties : List String
  arrowSchema : List Field

structure Catalog where
  nodeTypes : HashMap String NodeType
  edgeTypes : HashMap String EdgeType
  /-- The key of an edge type by its name in lower case. -/
  edgeNameIndex : HashMap String String
  interfaces : HashMap String InterfaceType

/-! ### What a list of constraints declares -/

def keyColumns : Constraint → Option (List String)
  | .key columns => some columns
  | _ => none

def uniqueColumns : Constraint → Option (List String)
  | .unique columns => some columns
  | _ => none

/-- A key also has an index. -/
def indexColumns : Constraint → Option (List String)
  | .key columns | .index columns => some columns
  | _ => none

/-- On edges there are no keys. -/
def edgeIndexColumns : Constraint → Option (List String)
  | .index columns => some columns
  | _ => none

def rangeConstraint : Constraint → Option RangeConstraint
  | .range property min max => some ⟨property, min, max⟩
  | _ => none

def checkConstraint : Constraint → Option CheckConstraint
  | .check property pattern => some ⟨property, pattern⟩
  | _ => none

def propertyTypes (properties : List (String × PropType)) : HashMap String PropType :=
  HashMap.insertAll Prod.fst Prod.snd ∅ properties

def blobNames (properties : List (String × PropType)) : List String :=
  (properties.filter fun p => p.2.scalar = .blob).map Prod.fst

def interfaceType (name : String) (properties : List (String × PropType)) : InterfaceType :=
  ⟨name, propertyTypes properties⟩

def nodeType (name : String) (implements : List String) (properties : List (String × PropType))
    (embeds : List (String × EmbedSource)) (constraints : List Constraint) : NodeType where
  name := name
  implements := implements
  properties := propertyTypes properties
  -- of several keys the last one stays
  key := (constraints.filterMap keyColumns).getLast?
  uniqueConstraints := constraints.filterMap uniqueColumns
  indices := constraints.filterMap indexColumns
  rangeConstraints := constraints.filterMap rangeConstraint
  checkConstraints := constraints.filterMap checkConstraint
  embedSources := HashMap.insertAll Prod.fst Prod.snd ∅ embeds
  blobProperties := blobNames properties
  arrowSchema := systemField "id" :: properties.map propertyField

def edgeType (name fromType toType : String) (cardinality : Cardinality)
    (properties : List (String × PropType)) (constraints : List Constraint) : EdgeType where
  name := name
  fromType := fromType
  toType := toType
  cardinality := cardinality
  properties := propertyTypes properties
  uniqueConstraints := constraints.filterMap uniqueColumns
  indices := constraints.filterMap edgeIndexColumns
  blobProperties := blobNames properties
  arrowSchema := systemField "id" :: systemField "src" :: systemField "dst" ::
    properties.map propertyField

/-- Names of edges are told apart without regard to case. -/
def indexEdgeName (index : HashMap String String) (name : String) :
    Result (HashMap String String) := do
  ensure (∀ existing ∈ index.lookup (normalizeEdgeName name), existing = name) (.catalog <|
    s!"edge name collision after case folding: '{name}' conflicts with " ++
    s!"'{(index.lookup (normalizeEdgeName name)).getD name}'")
  return index.insert (normalizeEdgeName name) name

/-! ### From the syntax tree -/

def declaredTypes (properties : List PropDecl) : List (String × PropType) :=
  properties.map fun p => (p.name, p.propType)

/-- The source of the first `@embed`. -/
def declaredEmbed (p : PropDecl) : Option (String × EmbedSource) :=
  (p.annotations.find? fun a => a.name = "embed").bind fun a => a.value.map fun source =>
    (p.name, ⟨source, (a.kwargs.find? fun kw => kw.1 = "model").map Prod.snd⟩)

def addNode (types : HashMap String NodeType) (d : NodeDecl) :
    Result (HashMap String NodeType) := do
  ensure ((types.lookup d.name).isNone) (.catalog s!"duplicate node type: {d.name}")
  return types.insert d.name (nodeType d.name d.implements (declaredTypes d.properties)
    (d.properties.filterMap declaredEmbed) d.constraints)

/-- The edge types so far, and their names in lower case. -/
abbrev EdgeTypes := HashMap String EdgeType × HashMap String String

def addEdge (nodes : HashMap String NodeType) (types : EdgeTypes) (d : EdgeDecl) :
    Result EdgeTypes := do
  ensure ((types.1.lookup d.name).isNone) (.catalog s!"duplicate edge type: {d.name}")
  ensure ((nodes.lookup d.fromType).isSome)
    (.catalog s!"edge {d.name} references unknown source type: {d.fromType}")
  ensure ((nodes.lookup d.toType).isSome)
    (.catalog s!"edge {d.name} references unknown target type: {d.toType}")
  let index ← indexEdgeName types.2 d.name
  return (types.1.insert d.name (edgeType d.name d.fromType d.toType d.cardinality
    (declaredTypes d.properties) d.constraints), index)

/-- The catalog of a syntax tree. -/
def buildCatalog (schema : SchemaFile) : Result Catalog := do
  let interfaces := HashMap.insertAll InterfaceDecl.name
    (fun d => interfaceType d.name (declaredTypes d.properties)) ∅ schema.interfaces
  let nodes ← schema.nodes.foldlM addNode ∅
  let (edges, index) ← schema.edges.foldlM (addEdge nodes) (∅, ∅)
  return ⟨nodes, edges, index, interfaces⟩

/-! ### From the accepted schema -/

def acceptedPropTypes (properties : List PropertyIR) : List (String × PropType) :=
  properties.map fun p => (p.name, p.propType)

def acceptedEmbed (p : PropertyIR) : Option (String × EmbedSource) :=
  p.embedSource.map fun embed => (p.name, ⟨embed.source.propertyName, embed.model⟩)

/-- A column of a key with its identity. -/
def stableField (node : String) : FieldRefIR → Result (ℕ × String)
  | .property r => .ok (r.propertyId, r.propertyName)
  | .system _ => .error (.catalog s!"node '{node}' @key must reference declared properties")

/-- The columns of a key, by identity. -/
def stableKey (node : String) (fields : List FieldRefIR) : Result (List String) := do
  let stable ← fields.mapM (stableField node)
  let sorted := sortOn Prod.fst stable
  ensure (sorted ≠ []) (.catalog s!"node '{node}' @key cannot be empty")
  ensure (sorted.IsChain fun a b => a.1 ≠ b.1)
    (.catalog s!"node '{node}' @key repeats a property identity")
  return sorted.map Prod.snd

def nodeConstraint (node : String) : ConstraintIR → Result Constraint
  | .key fields => (stableKey node fields).map .key
  | c => .ok (constraintFromIr c)

def addNodeIr (types : HashMap String NodeType) (n : NodeIR) :
    Result (HashMap String NodeType) := do
  let constraints ← n.constraints.mapM (nodeConstraint n.name)
  return types.insert n.name (nodeType n.name (n.implements.map TypeRefIR.typeName)
    (acceptedPropTypes n.properties) (n.properties.filterMap acceptedEmbed) constraints)

def addEdgeIr (types : EdgeTypes) (e : EdgeIR) : Result EdgeTypes := do
  let index ← indexEdgeName types.2 e.name
  return (types.1.insert e.name (edgeType e.name e.fromType.typeName e.toType.typeName
    e.cardinality (acceptedPropTypes e.properties) (e.constraints.map constraintFromIr)), index)

/-- The catalog of an accepted schema. -/
def buildCatalogFromIr (ir : SchemaIR) : Result Catalog := do
  validateSchemaIr ir
  let interfaces := HashMap.insertAll InterfaceIR.name
    (fun i => interfaceType i.name (acceptedPropTypes i.properties)) ∅ ir.interfaces
  let nodes ← ir.nodes.foldlM addNodeIr ∅
  let (edges, index) ← ir.edges.foldlM addEdgeIr (∅, ∅)
  return ⟨nodes, edges, index, interfaces⟩

end Omnigraph.Schema
