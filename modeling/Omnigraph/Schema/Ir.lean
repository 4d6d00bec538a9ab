import Omnigraph.Lib.Result
import Omnigraph.Schema.Syntax

/-!
# Accepted schemas

The schema a graph has accepted. Every type, property and table carries an identity; the three kinds
of identities are drawn from one counter, `nextIdentityId`, which never goes back. References carry
the identity they point to and, for messages, its name. `validateSchemaIr` refuses a schema whose
identities or references are inconsistent, and `schemaShapeFromIr` forgets the identities.
-/

namespace Omnigraph.Schema

open Compiler (PropType ScalarType)
open Sorted

/-! ### Identities -/

/-- A canonical upper-case ULID. -/
def isCanonicalUlid (s : String) : Bool :=
  s.length = 26 && s.toList.all (fun c => "0123456789ABCDEFGHJKMNPQRSTVWXYZ".toList.contains c) &&
    s.toList.head?.all (fun c => c.toNat ≤ '7'.toNat)

/-- The namespace of the identities of one graph. -/
structure SchemaIdentityDomain where
  text : String
  canonical : isCanonicalUlid text = true

def SchemaIdentityDomain.parse (value : String) : Result SchemaIdentityDomain :=
  if h : isCanonicalUlid value = true then .ok ⟨value, h⟩
  else .error (.invalidDomain s!"'{value}' is not a canonical uppercase ULID")

lemma SchemaIdentityDomain.parse_text (d : SchemaIdentityDomain) : parse d.text = .ok d := by
  simp [parse, d.canonical]

def schemaIrVersion : ℕ := 2

inductive TypeKind
  | interface
  | node
  | edge
  deriving DecidableEq

namespace TypeKind

def label : TypeKind → String
  | interface => "interface"
  | node => "node"
  | edge => "edge"

def rank : TypeKind → ℕ
  | interface => 0
  | node => 1
  | edge => 2

/-- Nodes and edges have tables. -/
def hasTable : TypeKind → Bool
  | interface => false
  | _ => true

end TypeKind

/-! ### The accepted schema -/

structure TypeRefIR where
  typeId : ℕ
  typeName : String

def TypeRefIR.sortKey (r : TypeRefIR) : ℕ ×ₗ String := toLex (r.typeId, r.typeName)

lemma TypeRefIR.sortKey_injective : Function.Injective sortKey := by
  rintro ⟨a, b⟩ ⟨a', b'⟩ h
  have h := toLex.injective h
  injection h with h1 h2
  subst h1 h2
  rfl

structure PropertyRefIR where
  ownerTypeId : ℕ
  ownerTypeName : String
  propertyId : ℕ
  propertyName : String
  deriving DecidableEq, Repr

def PropertyRefIR.sortKey (r : PropertyRefIR) : ℕ ×ₗ String ×ₗ ℕ ×ₗ String :=
  toLex (r.ownerTypeId, toLex (r.ownerTypeName, toLex (r.propertyId, r.propertyName)))

lemma PropertyRefIR.sortKey_injective : Function.Injective sortKey := by
  rintro ⟨a, b, c, d⟩ ⟨a', b', c', d'⟩ h
  obtain ⟨rfl, h⟩ := Prod.mk.inj (toLex.injective h)
  obtain ⟨rfl, h⟩ := Prod.mk.inj (toLex.injective h)
  obtain ⟨rfl, rfl⟩ := Prod.mk.inj (toLex.injective h)
  rfl

inductive SystemFieldRole
  | id
  | src
  | dst
  deriving DecidableEq, Repr

structure SystemFieldRefIR where
  stableTableId : ℕ
  tableTypeName : String
  tableIncarnationId : ℕ
  role : SystemFieldRole
  deriving Repr

inductive FieldRefIR
  | property (r : PropertyRefIR)
  | system (r : SystemFieldRefIR)
  deriving Repr

inductive ConstraintIR
  | key (fields : List FieldRefIR)
  | unique (fields : List FieldRefIR)
  | index (fields : List FieldRefIR)
  | range (field : FieldRefIR) (min max : Option ConstraintBound)
  | check (field : FieldRefIR) (pattern : String)

structure EmbedSourceIR where
  source : PropertyRefIR
  model : Option String
  deriving DecidableEq

structure PropertyIR where
  name : String
  propertyId : ℕ
  propType : PropType
  annotations : List Annotation
  propertyConstraints : List PropertyConstraintShape
  embedSource : Option EmbedSourceIR
  declaredDirectly : Bool
  satisfiesInterfaceProperties : List PropertyRefIR
  deriving DecidableEq

structure InterfaceIR where
  name : String
  typeId : ℕ
  properties : List PropertyIR

structure NodeIR where
  name : String
  typeId : ℕ
  tableIncarnationId : ℕ
  annotations : List Annotation
  implements : List TypeRefIR
  properties : List PropertyIR
  constraints : List ConstraintIR

structure EdgeIR where
  name : String
  typeId : ℕ
  tableIncarnationId : ℕ
  fromType : TypeRefIR
  toType : TypeRefIR
  cardinality : Cardinality
  annotations : List Annotation
  properties : List PropertyIR
  constraints : List ConstraintIR

structure SchemaIR where
  irVersion : ℕ
  schemaIdentityDomain : SchemaIdentityDomain
  nextIdentityId : ℕ
  interfaces : List InterfaceIR
  nodes : List NodeIR
  edges : List EdgeIR

/-- A type of the accepted schema, whatever its kind. -/
structure AcceptedType where
  kind : TypeKind
  name : String
  typeId : ℕ
  incarnation : Option ℕ
  properties : List PropertyIR
  deriving DecidableEq

def InterfaceIR.accepted (i : InterfaceIR) : AcceptedType :=
  ⟨.interface, i.name, i.typeId, none, i.properties⟩

def NodeIR.accepted (n : NodeIR) : AcceptedType :=
  ⟨.node, n.name, n.typeId, some n.tableIncarnationId, n.properties⟩

def EdgeIR.accepted (e : EdgeIR) : AcceptedType :=
  ⟨.edge, e.name, e.typeId, some e.tableIncarnationId, e.properties⟩

def acceptedTypes (ir : SchemaIR) : List AcceptedType :=
  ir.interfaces.map InterfaceIR.accepted ++ ir.nodes.map NodeIR.accepted ++
    ir.edges.map EdgeIR.accepted

/-- The identities a type holds: its own, that of its table and those of its properties. -/
def AcceptedType.ids (t : AcceptedType) : List ℕ :=
  t.typeId :: (t.incarnation.toList ++ t.properties.map PropertyIR.propertyId)

/-- Every identity of the schema. -/
def SchemaIR.ids (ir : SchemaIR) : List ℕ := (acceptedTypes ir).flatMap AcceptedType.ids

/-! ### Without identities -/

def SystemFieldRole.column : SystemFieldRole → String
  | id => "id"
  | src => "src"
  | dst => "dst"

def FieldRefIR.fieldName : FieldRefIR → String
  | property r => r.propertyName
  | system r => r.role.column

def constraintFromIr : ConstraintIR → Constraint
  | .key fields => .key (fields.map FieldRefIR.fieldName)
  | .unique fields => .unique (fields.map FieldRefIR.fieldName)
  | .index fields => .index (fields.map FieldRefIR.fieldName)
  | .range field min max => .range field.fieldName min max
  | .check field pattern => .check field.fieldName pattern

def shapePropertyRef (r : PropertyRefIR) : ShapePropertyRef := ⟨r.ownerTypeName, r.propertyName⟩

def propertyShapeFromIr (p : PropertyIR) : PropertyShape where
  name := p.name
  renameFrom := none
  propType := p.propType
  annotations := p.annotations
  propertyConstraints := p.propertyConstraints
  embedSource := p.embedSource.map fun embed => ⟨embed.source.propertyName, embed.model⟩
  declaredDirectly := p.declaredDirectly
  satisfiesInterfaceProperties :=
    canonical ShapePropertyRef.sortKey (p.satisfiesInterfaceProperties.map shapePropertyRef)

def interfaceShapeFromIr (i : InterfaceIR) : InterfaceShape :=
  ⟨i.name, i.properties.map propertyShapeFromIr⟩

def nodeShapeFromIr (n : NodeIR) : NodeShape where
  name := n.name
  renameFrom := none
  annotations := n.annotations
  -- identity order in the accepted schema, name order in the shape
  implements := canonical id (n.implements.map TypeRefIR.typeName)
  properties := n.properties.map propertyShapeFromIr
  constraints := n.constraints.map constraintFromIr

def edgeShapeFromIr (e : EdgeIR) : EdgeShape where
  name := e.name
  renameFrom := none
  fromType := e.fromType.typeName
  toType := e.toType.typeName
  cardinality := e.cardinality
  annotations := e.annotations
  properties := e.properties.map propertyShapeFromIr
  constraints := e.constraints.map constraintFromIr

/-! ### Validation -/

def isReservedStorageSystemColumn (name : String) : Bool :=
  name = "_rowid" || name = "_rowaddr" || name = "_rowoffset" ||
    name = "_row_created_at_version" || name = "_row_last_updated_at_version"

/-- Annotations with a meaning of their own: they are not kept among the others. -/
def isTypedAnnotation (name : String) : Bool :=
  name = "rename_from" || name = "embed" || name = "key" || name = "unique" || name = "index"

def invalidIr (message : String) : SchemaError := .invalidIr message

def ensureSortedUnique (values : List String) (entity : String) : Result Unit :=
  ensure (Increasing id values) (invalidIr s!"{entity} are not sorted and unique")

def ensureOpaque (annotations : List Annotation) (entity : String) : Result Unit :=
  match annotations.find? (fun a => isTypedAnnotation a.name) with
  | some a =>
    .error (invalidIr s!"typed annotation @{a.name} leaked into opaque annotations for '{entity}'")
  | none => .ok ()

def validateAnnotations (annotations : List Annotation) (entity : String) : Result Unit := do
  ensureOpaque annotations entity
  ensure (Increasing Annotation.json annotations)
    (invalidIr s!"annotations for '{entity}' are not sorted and unique")

/-- State of the first pass: the identities seen, the greatest of them and the names of types. -/
structure IdentityCheck where
  allIds : HashMap ℕ String
  maxId : ℕ
  typeNames : List (TypeKind × String)

def insertGlobalId (check : IdentityCheck) (id : ℕ) (entity : String) : Result IdentityCheck :=
  match check.allIds.lookup id with
  | some previous =>
    .error (invalidIr s!"identity value {id} is reused by '{previous}' and '{entity}'")
  | none => .ok { check with allIds := check.allIds.insert id entity, maxId := max check.maxId id }

/-- One property, after those named `seen`. -/
def validateProperty (owner : String) (state : IdentityCheck × List String)
    (property : PropertyIR) : Result (IdentityCheck × List String) := do
  let entity := s!"{owner}.{property.name}"
  ensure (isReservedStorageSystemColumn property.name = false) (invalidIr <|
    s!"property '{entity}' uses a name reserved for a virtual storage system column; a graph " ++
    "created with a pre-RC Lance binary must be exported with that binary, renamed, and rebuilt")
  ensure (property.name ∉ state.2) (invalidIr s!"duplicate property '{entity}'")
  let check ← insertGlobalId state.1 property.propertyId s!"property '{entity}'"
  validateAnnotations property.annotations entity
  ensureSortedUnique (property.propType.enumValues.getD []) "enum values"
  ensure (Increasing PropertyConstraintShape.rank property.propertyConstraints)
    (invalidIr s!"property constraints for '{entity}' are not sorted and unique")
  return (check, property.name :: state.2)

def validateIncarnation (check : IdentityCheck) (entry : AcceptedType) : Result IdentityCheck :=
  match entry.incarnation with
  | some incarnation =>
    insertGlobalId check incarnation s!"table incarnation for '{entry.name}'"
  | none => .ok check

def validateType (check : IdentityCheck) (entry : AcceptedType) : Result IdentityCheck := do
  let check ← insertGlobalId check entry.typeId s!"{entry.kind.label} type '{entry.name}'"
  ensure ((entry.kind, entry.name) ∉ check.typeNames)
    (invalidIr s!"duplicate {entry.kind.label} name '{entry.name}'")
  let check ← validateIncarnation
    { check with typeNames := (entry.kind, entry.name) :: check.typeNames } entry
  let result ← entry.properties.foldlM (validateProperty entry.name) (check, [])
  return result.1

def typeById (types : List AcceptedType) : HashMap ℕ AcceptedType :=
  HashMap.insertAll AcceptedType.typeId id ∅ types

def ownedProperties (types : List AcceptedType) : List (AcceptedType × PropertyIR) :=
  types.flatMap fun owner => owner.properties.map fun property => (owner, property)

def propertyById (types : List AcceptedType) : HashMap ℕ (AcceptedType × PropertyIR) :=
  HashMap.insertAll (fun p => p.2.propertyId) id ∅ (ownedProperties types)

def validatePropertyRef (types : List AcceptedType) (r : PropertyRefIR)
    (expectedOwner : Option ℕ) : Result Unit :=
  match (propertyById types).lookup r.propertyId with
  | none => .error (invalidIr s!"property reference {r.propertyId} points to a missing ID")
  | some (owner, property) =>
    ensure ((∀ expected ∈ expectedOwner, expected = r.ownerTypeId) ∧
        owner.typeId = r.ownerTypeId ∧ owner.name = r.ownerTypeName ∧
        property.name = r.propertyName ∧ ((typeById types).lookup r.ownerTypeId).isSome)
      (invalidIr <| "property reference name/id/owner mismatch for " ++
        s!"'{r.ownerTypeName}.{r.propertyName}'")

def validateTypeRef (types : List AcceptedType) (r : TypeRefIR) (expected : TypeKind) :
    Result Unit :=
  match (typeById types).lookup r.typeId with
  | none => .error (invalidIr s!"type reference {r.typeId} points to a missing ID")
  | some target =>
    ensure (target.kind = expected ∧ target.name = r.typeName)
      (invalidIr s!"type reference name/id mismatch for '{r.typeName}'")

def validateTypeRefs (types : List AcceptedType) (refs : List TypeRefIR) (expected : TypeKind) :
    Result Unit := do
  refs.forM fun r => validateTypeRef types r expected
  ensure (Increasing TypeRefIR.sortKey refs)
    (invalidIr "type references are not sorted and unique")

def validateConstraintOrder (constraints : List ConstraintIR) (entity : String) : Result Unit :=
  ensure (Increasing (fun c => constraintSortKey (constraintFromIr c)) constraints)
    (invalidIr s!"constraints for '{entity}' are not sorted and unique")

def ConstraintIR.fields : ConstraintIR → List FieldRefIR
  | key fields | unique fields | index fields => fields
  | range field _ _ | check field _ => [field]

def validateField (types : List AcceptedType) (kind : TypeKind) (ownerId incarnation : ℕ) :
    FieldRefIR → Result Unit
  | .property r => validatePropertyRef types r (some ownerId)
  | .system r =>
    ensure (r.stableTableId = ownerId ∧ r.tableIncarnationId = incarnation ∧
        ((typeById types).lookup ownerId).map AcceptedType.name = some r.tableTypeName ∧
        (kind = .node → r.role = .id) ∧ kind.hasTable)
      (invalidIr "invalid system-field reference")

def validateConstraints (types : List AcceptedType) (kind : TypeKind) (ownerId incarnation : ℕ)
    (constraints : List ConstraintIR) : Result Unit :=
  constraints.forM fun c => c.fields.forM (validateField types kind ownerId incarnation)

/-- A satisfied property must belong to an interface. -/
def validateSatisfied (types : List AcceptedType) (entity : String) (r : PropertyRefIR) :
    Result Unit := do
  validatePropertyRef types r none
  ensure (((typeById types).lookup r.ownerTypeId).map AcceptedType.kind = some .interface)
    (invalidIr s!"property '{entity}' satisfaction target is not an interface property")

def validateProvenance (types : List AcceptedType) (owner : AcceptedType)
    (property : PropertyIR) : Result Unit := do
  let entity := s!"{owner.name}.{property.name}"
  ensure (owner.kind = .interface →
      property.declaredDirectly = true ∧ property.satisfiesInterfaceProperties = [])
    (invalidIr s!"interface property '{entity}' has invalid concrete provenance")
  ensure (owner.kind = .node → property.declaredDirectly = false →
      property.satisfiesInterfaceProperties ≠ [])
    (invalidIr s!"injected node property '{entity}' has no interface provenance")
  property.embedSource.toList.forM fun embed =>
    validatePropertyRef types embed.source (some owner.typeId)
  property.satisfiesInterfaceProperties.forM (validateSatisfied types entity)
  ensure (Increasing PropertyRefIR.sortKey property.satisfiesInterfaceProperties)
    (invalidIr s!"interface satisfaction links for '{entity}' are not sorted and unique")

def validateOwner (types : List AcceptedType) (owner : AcceptedType) : Result Unit := do
  ensureSortedUnique (owner.properties.map PropertyIR.name) s!"properties of '{owner.name}'"
  owner.properties.forM (validateProvenance types owner)

/-- A satisfied interface is implemented, and the types agree. -/
def validateLink (types : List AcceptedType) (node : NodeIR) (property : PropertyIR)
    (r : PropertyRefIR) : Result Unit := do
  let entity := s!"{node.name}.{property.name}"
  ensure (r.ownerTypeId ∈ node.implements.map TypeRefIR.typeId)
    (invalidIr s!"node property '{entity}' satisfies an interface the node does not implement")
  ensure (((propertyById types).lookup r.propertyId).map (fun p => p.2.propType) =
      some property.propType)
    (invalidIr <| s!"node property '{entity}' is incompatible with satisfied interface property " ++
      s!"'{r.ownerTypeName}.{r.propertyName}'")

/-- Some property of the node satisfies this property of the interface. -/
def NodeIR.links (node : NodeIR) (interfaceId propertyId : ℕ) : Prop :=
  ∃ property ∈ node.properties, ∃ r ∈ property.satisfiesInterfaceProperties,
    r.ownerTypeId = interfaceId ∧ r.propertyId = propertyId

instance (node : NodeIR) (interfaceId propertyId : ℕ) :
    Decidable (node.links interfaceId propertyId) :=
  inferInstanceAs (Decidable (∃ property ∈ node.properties, _))

def validateImplemented (types : List AcceptedType) (node : NodeIR) (r : TypeRefIR) :
    Result Unit :=
  match (typeById types).lookup r.typeId with
  | none => .error (invalidIr s!"type reference {r.typeId} points to a missing ID")
  | some interface =>
    interface.properties.forM fun property =>
      ensure (node.links r.typeId property.propertyId)
        (invalidIr <| s!"node '{node.name}' does not link an effective property to interface " ++
          s!"contract '{interface.name}.{property.name}'")

def validateNode (types : List AcceptedType) (node : NodeIR) : Result Unit := do
  validateAnnotations node.annotations node.name
  validateTypeRefs types node.implements .interface
  node.properties.forM fun property =>
    property.satisfiesInterfaceProperties.forM (validateLink types node property)
  node.implements.forM (validateImplemented types node)
  validateConstraintOrder node.constraints node.name
  validateConstraints types .node node.typeId node.tableIncarnationId node.constraints

def validateEdge (types : List AcceptedType) (edge : EdgeIR) : Result Unit := do
  validateAnnotations edge.annotations edge.name
  edge.properties.forM fun property =>
    ensure (property.declaredDirectly = true ∧ property.satisfiesInterfaceProperties = [] ∧
        property.embedSource = none)
      (invalidIr s!"edge property '{edge.name}.{property.name}' has invalid interface provenance")
  validateTypeRef types edge.fromType .node
  validateTypeRef types edge.toType .node
  validateConstraintOrder edge.constraints edge.name
  validateConstraints types .edge edge.typeId edge.tableIncarnationId edge.constraints

/-- Refuse malformed identities and references. -/
def validateSchemaIr (ir : SchemaIR) : Result Unit := do
  ensure (ir.irVersion = schemaIrVersion)
    (invalidIr s!"unsupported ir_version {ir.irVersion} (expected {schemaIrVersion})")
  let _ ← SchemaIdentityDomain.parse ir.schemaIdentityDomain.text
  ensure (ir.nextIdentityId ≠ 0) (invalidIr "next_identity_id must be nonzero")
  let types := acceptedTypes ir
  let check ← types.foldlM validateType ⟨∅, 0, []⟩
  ensure (check.maxId < ir.nextIdentityId) (invalidIr <|
    s!"next_identity_id {ir.nextIdentityId} does not exceed allocated id {check.maxId}")
  ensureSortedUnique (ir.interfaces.map InterfaceIR.name) "interfaces"
  ensureSortedUnique (ir.nodes.map NodeIR.name) "nodes"
  ensureSortedUnique (ir.edges.map EdgeIR.name) "edges"
  types.forM (validateOwner types)
  ir.nodes.forM (validateNode types)
  ir.edges.forM (validateEdge types)

/-- The shape of an accepted schema. -/
def schemaShapeFromIr (ir : SchemaIR) : Result SchemaShape := do
  validateSchemaIr ir
  return ⟨ir.interfaces.map interfaceShapeFromIr, ir.nodes.map nodeShapeFromIr,
    ir.edges.map edgeShapeFromIr⟩

end Omnigraph.Schema
