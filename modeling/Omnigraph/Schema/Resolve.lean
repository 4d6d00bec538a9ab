import Omnigraph.Schema.Ir

/-!
# Identity resolution

A desired shape is resolved against the accepted schema. Types are matched first, by their exact
name or else by their rename hint, and the types that match nothing get new identities in the order
of kinds and names; then the same for the properties of each type, in the order of owners and names;
last come the tables of new node and edge types. All draw from the counter of the accepted schema.
-/

namespace Omnigraph.Schema

open Compiler (PropType ScalarType)
open Sorted

/-! ### The allocator -/

def u64Max : ℕ := 18446744073709551615

/-- The next identity and the counter after it. -/
def allocate (next : ℕ) : Result (ℕ × ℕ) :=
  if next = u64Max then .error .allocatorExhausted else .ok (next, next + 1)

def newAllocator (next : ℕ) : Result ℕ :=
  if next = 0 then .error (.zeroId "next_identity_id" next) else .ok next

/-- One new identity for each key, in order. -/
def allocateAll {κ : Type} : List κ → ℕ → Result (List (κ × ℕ) × ℕ)
  | [], next => .ok ([], next)
  | key :: keys, next => do
    let (id, next) ← allocate next
    let (ids, next) ← allocateAll keys next
    return ((key, id) :: ids, next)

/-! ### Matching types -/

inductive SchemaIdentityDiagnosticKind
  | inertInitializationRenameHint
  | ignoredExactMatchRenameHint

structure SchemaIdentityDiagnostic where
  kind : SchemaIdentityDiagnosticKind
  entity : String
  hint : String

/-- The diagnostic of a hint that has no effect. -/
def hintDiagnostic (kind : SchemaIdentityDiagnosticKind) (entity : String) (hint : Option String) :
    List SchemaIdentityDiagnostic :=
  hint.toList.map fun hint => ⟨kind, entity, hint⟩

abbrev TypeKey := TypeKind × String

def typeKeyOrder (key : TypeKey) : ℕ ×ₗ String := toLex (key.1.rank, key.2)

/-- A type of the desired shape, with its rename hint. Interfaces have none. -/
structure DesiredType where
  kind : TypeKind
  name : String
  renameFrom : Option String
  properties : List PropertyShape

def DesiredType.key (t : DesiredType) : TypeKey := (t.kind, t.name)

def InterfaceShape.desired (i : InterfaceShape) : DesiredType :=
  ⟨.interface, i.name, none, i.properties⟩

def NodeShape.desired (n : NodeShape) : DesiredType := ⟨.node, n.name, n.renameFrom, n.properties⟩

def EdgeShape.desired (e : EdgeShape) : DesiredType := ⟨.edge, e.name, e.renameFrom, e.properties⟩

/-- The types of a shape: interfaces, nodes, edges. -/
def shapeTypes (shape : SchemaShape) : List DesiredType :=
  shape.interfaces.map InterfaceShape.desired ++ shape.nodes.map NodeShape.desired ++
    shape.edges.map EdgeShape.desired

def acceptedByKey (accepted : List AcceptedType) : HashMap TypeKey AcceptedType :=
  HashMap.insertAll (fun t => (t.kind, t.name)) id ∅ accepted

/-- The accepted type a hint names. -/
def renamedType (accepted : List AcceptedType) (t : DesiredType) (hint : String) :
    Result AcceptedType :=
  match accepted.filter (fun a => a.name = hint) with
  | [] => .error (.resolution <| s!"{t.kind.label} '{t.name}' declares @rename_from(\"{hint}\") " ++
      "but no accepted declaration has that name")
  | candidates =>
    match candidates.filter (fun a => a.kind = t.kind) with
    | [a] => .ok a
    | _ => .error (.resolution <| s!"{t.kind.label} '{t.name}' cannot rename accepted '{hint}' " ++
        "across declaration kinds")

/-- The accepted type a desired one continues: by its exact name, or else by its hint. At
initialization a hint has no effect. -/
def matchType (accepted : List AcceptedType) (evolving : Bool) (t : DesiredType) :
    Result (Option AcceptedType × List SchemaIdentityDiagnostic) :=
  let entity := s!"{t.kind.label}:{t.name}"
  match (acceptedByKey accepted).lookup t.key with
  | some exact => .ok (some exact, hintDiagnostic .ignoredExactMatchRenameHint entity t.renameFrom)
  | none =>
    match t.renameFrom with
    | none => .ok (none, [])
    | some hint =>
      if evolving then (renamedType accepted t hint).map fun a => (some a, [])
      else .ok (none, hintDiagnostic .inertInitializationRenameHint entity (some hint))

structure AssignedType where
  typeId : ℕ
  incarnation : Option ℕ
  matched : Bool

abbrev Assignments := HashMap TypeKey AssignedType

structure TypeMatching where
  assignments : Assignments
  consumed : List ℕ
  diagnostics : List SchemaIdentityDiagnostic

/-- No accepted type may be continued twice. -/
def TypeMatching.assign (st : TypeMatching) (t : DesiredType) : Option AcceptedType →
    Result TypeMatching
  | some a =>
    if a.typeId ∈ st.consumed then
      .error (.resolution <|
        s!"accepted {a.kind.label} '{a.name}' is consumed by more than one desired declaration")
    else .ok { st with
      assignments := st.assignments.insert t.key ⟨a.typeId, a.incarnation, true⟩
      consumed := a.typeId :: st.consumed }
  | none => .ok { st with assignments := st.assignments.insert t.key ⟨1, none, false⟩ }

def matchTypeStep (accepted : List AcceptedType) (evolving : Bool) (st : TypeMatching)
    (t : DesiredType) : Result TypeMatching := do
  let (matched, diagnostics) ← matchType accepted evolving t
  TypeMatching.assign { st with diagnostics := st.diagnostics ++ diagnostics } t matched

def matchTypes (accepted : List AcceptedType) (evolving : Bool) (shape : SchemaShape) :
    Result TypeMatching :=
  (shapeTypes shape).foldlM (matchTypeStep accepted evolving) ⟨∅, [], []⟩

/-- The entries of a map in the order of their keys. -/
def inKeyOrder (assignments : Assignments) : List (TypeKey × AssignedType) :=
  sortOn (fun e => typeKeyOrder e.1) (assignments.entries.map fun e => (e.1, e.2))

/-- The types that continue no accepted one. -/
def newTypes (assignments : Assignments) : List (TypeKey × AssignedType) :=
  (inKeyOrder assignments).filter fun e => !e.2.matched

def setTypeId (assignments : Assignments) (e : (TypeKey × AssignedType) × ℕ) : Assignments :=
  assignments.insert e.1.1 { e.1.2 with typeId := e.2 }

/-- New identities for the new types. -/
def allocateTypes (assignments : Assignments) (next : ℕ) : Result (Assignments × ℕ) := do
  let (ids, next) ← allocateAll (newTypes assignments) next
  return (ids.foldl setTypeId assignments, next)

/-! ### Matching properties -/

abbrev PropertyKey := ℕ × String

abbrev PropertyAssignments := HashMap PropertyKey ℕ

structure PropertyMatching where
  assigned : PropertyAssignments
  consumed : List ℕ
  pending : List PropertyKey
  diagnostics : List SchemaIdentityDiagnostic

/-- The accepted property a hint names, under the same owner. -/
def renamedProperty (accepted : List AcceptedType) (ownerName : String) (owner : AcceptedType)
    (property : PropertyShape) (hint : String) : Result PropertyIR :=
  match owner.properties.filter (fun p => p.name = hint) with
  | [p] => .ok p
  | _ =>
    let elsewhere := accepted.any fun candidate =>
      candidate.typeId ≠ owner.typeId && candidate.properties.any fun p => p.name = hint
    let detail := if elsewhere then "property moves across stable owners are not supported"
      else "no accepted property with that name exists under the stable owner"
    .error (.resolution
      s!"property '{ownerName}.{property.name}' declares @rename_from(\"{hint}\"): {detail}")

/-- The accepted property a desired one continues. -/
def matchProperty (accepted : List AcceptedType) (evolving : Bool) (t : DesiredType)
    (acceptedOwner : Option AcceptedType) (property : PropertyShape) :
    Result (Option PropertyIR × List SchemaIdentityDiagnostic) :=
  let entity := s!"{t.kind.label}:{t.name}.{property.name}"
  match acceptedOwner with
  | some owner =>
    match owner.properties.find? (fun p => p.name = property.name) with
    | some exact =>
      .ok (some exact, hintDiagnostic .ignoredExactMatchRenameHint entity property.renameFrom)
    | none =>
      match property.renameFrom with
      | none => .ok (none, [])
      | some hint =>
        (renamedProperty accepted t.name owner property hint).map fun p => (some p, [])
  | none =>
    match property.renameFrom with
    | none => .ok (none, [])
    | some hint =>
      if evolving then .error (.resolution <|
        s!"new owner '{t.kind.label}:{t.name}' cannot import property identity with " ++
        s!"@rename_from(\"{hint}\")")
      else .ok (none, hintDiagnostic .inertInitializationRenameHint entity (some hint))

/-- No accepted property may be continued twice. -/
def PropertyMatching.assign (st : PropertyMatching) (key : PropertyKey) :
    Option PropertyIR → Result PropertyMatching
  | some p =>
    if p.propertyId ∈ st.consumed then
      .error (.resolution s!"accepted property id {p.propertyId} is consumed more than once")
    else .ok { st with
      assigned := st.assigned.insert key p.propertyId
      consumed := p.propertyId :: st.consumed }
  | none => .ok { st with pending := st.pending ++ [key] }

def matchPropertyStep (accepted : List AcceptedType) (evolving : Bool) (t : DesiredType)
    (ownerId : ℕ) (st : PropertyMatching) (property : PropertyShape) : Result PropertyMatching := do
  let acceptedOwner := accepted.find? (fun a => a.typeId = ownerId)
  let (matched, diagnostics) ← matchProperty accepted evolving t acceptedOwner property
  PropertyMatching.assign { st with diagnostics := st.diagnostics ++ diagnostics }
    (ownerId, property.name) matched

/-- The identity assigned to a type of the shape. -/
def assignedType (assignments : Assignments) (key : TypeKey) : Result AssignedType :=
  match assignments.lookup key with
  | some assigned => .ok assigned
  | none => .error (.resolution s!"unknown {key.1.label} '{key.2}'")

def matchOwnerStep (accepted : List AcceptedType) (evolving : Bool) (assignments : Assignments)
    (st : PropertyMatching) (t : DesiredType) : Result PropertyMatching := do
  let owner ← assignedType assignments t.key
  t.properties.foldlM (matchPropertyStep accepted evolving t owner.typeId) st

def matchProperties (accepted : List AcceptedType) (evolving : Bool) (assignments : Assignments)
    (shape : SchemaShape) : Result PropertyMatching :=
  (shapeTypes shape).foldlM (matchOwnerStep accepted evolving assignments) ⟨∅, [], [], []⟩

def propertyKeyOrder (key : PropertyKey) : ℕ ×ₗ String := toLex key

/-- New identities for the properties that continue no accepted one. -/
def allocateProperties (st : PropertyMatching) (next : ℕ) : Result (PropertyAssignments × ℕ) := do
  let (ids, next) ← allocateAll (sortOn propertyKeyOrder st.pending) next
  return (HashMap.insertAll Prod.fst Prod.snd st.assigned ids, next)

/-! ### Tables -/

/-- The node and edge types without a table, by identity. -/
def newTables (assignments : Assignments) : List (TypeKey × AssignedType) :=
  sortOn (fun e => e.2.typeId)
    ((inKeyOrder assignments).filter fun e => e.1.1.hasTable && e.2.incarnation.isNone)

def setIncarnation (assignments : Assignments) (e : (TypeKey × AssignedType) × ℕ) : Assignments :=
  assignments.insert e.1.1 { e.1.2 with incarnation := some e.2 }

def allocateIncarnations (assignments : Assignments) (next : ℕ) : Result (Assignments × ℕ) := do
  let (ids, next) ← allocateAll (newTables assignments) next
  return (ids.foldl setIncarnation assignments, next)

/-! ### Building the schema -/

def typeRef (assignments : Assignments) (kind : TypeKind) (name : String) : Result TypeRefIR := do
  let assigned ← assignedType assignments (kind, name)
  return ⟨assigned.typeId, name⟩

def propertyRef (properties : PropertyAssignments) (ownerTypeId : ℕ) (ownerName : String)
    (propertyName : String) : Result PropertyRefIR :=
  match properties.lookup (ownerTypeId, propertyName) with
  | some propertyId => .ok ⟨ownerTypeId, ownerName, propertyId, propertyName⟩
  | none => .error (.resolution s!"unknown property reference '{ownerName}.{propertyName}'")

def embedRef (properties : PropertyAssignments) (ownerTypeId : ℕ) (ownerName : String) :
    Option EmbedSourceShape → Result (Option EmbedSourceIR)
  | none => .ok none
  | some embed => do
    let source ← propertyRef properties ownerTypeId ownerName embed.propertyName
    return some ⟨source, embed.model⟩

def satisfiedRef (assignments : Assignments) (properties : PropertyAssignments)
    (r : ShapePropertyRef) : Result PropertyRefIR := do
  let interface ← assignedType assignments (.interface, r.ownerName)
  propertyRef properties interface.typeId r.ownerName r.propertyName

def buildProperty (assignments : Assignments) (properties : PropertyAssignments)
    (ownerTypeId : ℕ) (ownerName : String) (p : PropertyShape) : Result PropertyIR := do
  let self ← propertyRef properties ownerTypeId ownerName p.name
  let embedSource ← embedRef properties ownerTypeId ownerName p.embedSource
  let satisfies ← p.satisfiesInterfaceProperties.mapM (satisfiedRef assignments properties)
  return {
    name := p.name
    propertyId := self.propertyId
    propType := p.propType
    annotations := p.annotations
    propertyConstraints := p.propertyConstraints
    embedSource := embedSource
    declaredDirectly := p.declaredDirectly
    satisfiesInterfaceProperties := sortOn PropertyRefIR.sortKey satisfies }

/-- A table, for references to its columns. -/
structure TableRef where
  kind : TypeKind
  typeId : ℕ
  name : String
  incarnation : ℕ

/-- The system column of a name. -/
def systemRole (kind : TypeKind) (name : String) : Option SystemFieldRole :=
  if name = "id" then some .id
  else if name = "src" ∧ kind = .edge then some .src
  else if name = "dst" ∧ kind = .edge then some .dst
  else none

def fieldRef (properties : PropertyAssignments) (table : TableRef) (name : String) :
    Result FieldRefIR :=
  match systemRole table.kind name with
  | some role => .ok (.system ⟨table.typeId, table.name, table.incarnation, role⟩)
  | none => (propertyRef properties table.typeId table.name name).map .property

def buildConstraint (properties : PropertyAssignments) (table : TableRef) :
    Constraint → Result ConstraintIR
  | .key names => (names.mapM (fieldRef properties table)).map .key
  | .unique names => (names.mapM (fieldRef properties table)).map .unique
  | .index names => (names.mapM (fieldRef properties table)).map .index
  | .range name min max => (fieldRef properties table name).map (.range · min max)
  | .check name pattern => (fieldRef properties table name).map (.check · pattern)

/-- The table of an assigned node or edge type. -/
def assignedTable (key : TypeKey) (assigned : AssignedType) : Result TableRef :=
  match assigned.incarnation with
  | some incarnation => .ok ⟨key.1, assigned.typeId, key.2, incarnation⟩
  | none => .error (.resolution s!"{key.1.label} '{key.2}' has no table")

def buildInterface (assignments : Assignments) (properties : PropertyAssignments)
    (i : InterfaceShape) : Result InterfaceIR := do
  let assigned ← assignedType assignments (.interface, i.name)
  let built ← i.properties.mapM (buildProperty assignments properties assigned.typeId i.name)
  return ⟨i.name, assigned.typeId, built⟩

def buildNode (assignments : Assignments) (properties : PropertyAssignments) (n : NodeShape) :
    Result NodeIR := do
  let assigned ← assignedType assignments (.node, n.name)
  let table ← assignedTable (.node, n.name) assigned
  let implements ← n.implements.mapM (typeRef assignments .interface)
  let built ← n.properties.mapM (buildProperty assignments properties assigned.typeId n.name)
  let constraints ← n.constraints.mapM (buildConstraint properties table)
  return {
    name := n.name
    typeId := assigned.typeId
    tableIncarnationId := table.incarnation
    annotations := n.annotations
    implements := sortOn TypeRefIR.sortKey implements
    properties := built
    constraints := constraints }

def buildEdge (assignments : Assignments) (properties : PropertyAssignments) (e : EdgeShape) :
    Result EdgeIR := do
  let assigned ← assignedType assignments (.edge, e.name)
  let table ← assignedTable (.edge, e.name) assigned
  let fromType ← typeRef assignments .node e.fromType
  let toType ← typeRef assignments .node e.toType
  let built ← e.properties.mapM (buildProperty assignments properties assigned.typeId e.name)
  let constraints ← e.constraints.mapM (buildConstraint properties table)
  return {
    name := e.name
    typeId := assigned.typeId
    tableIncarnationId := table.incarnation
    fromType := fromType
    toType := toType
    cardinality := e.cardinality
    annotations := e.annotations
    properties := built
    constraints := constraints }

def buildSchema (domain : SchemaIdentityDomain) (assignments : Assignments)
    (properties : PropertyAssignments) (next : ℕ) (shape : SchemaShape) : Result SchemaIR := do
  let interfaces ← shape.interfaces.mapM (buildInterface assignments properties)
  let nodes ← shape.nodes.mapM (buildNode assignments properties)
  let edges ← shape.edges.mapM (buildEdge assignments properties)
  return ⟨schemaIrVersion, domain, next, interfaces, nodes, edges⟩

/-! ### Resolution -/

structure SchemaResolution where
  schemaIr : SchemaIR
  diagnostics : List SchemaIdentityDiagnostic

def resolve (domain : SchemaIdentityDomain) (next : ℕ) (accepted : Option SchemaIR)
    (shape : SchemaShape) : Result SchemaResolution := do
  let types := (accepted.map acceptedTypes).getD []
  let evolving := accepted.isSome
  let matching ← matchTypes types evolving shape
  let next ← newAllocator next
  let (assignments, next) ← allocateTypes matching.assignments next
  let properties ← matchProperties types evolving assignments shape
  let (propertyIds, next) ← allocateProperties properties next
  let (assignments, next) ← allocateIncarnations assignments next
  let ir ← buildSchema domain assignments propertyIds next shape
  validateSchemaIr ir
  return ⟨ir, matching.diagnostics ++ properties.diagnostics⟩

/-- Resolve the first schema of a graph. -/
def initializeSchemaIr (domain : SchemaIdentityDomain) (shape : SchemaShape) :
    Result SchemaResolution :=
  resolve domain 1 none shape

/-- Resolve a desired shape against the accepted schema. -/
def resolveSchemaIr (accepted : SchemaIR) (shape : SchemaShape) : Result SchemaResolution := do
  validateSchemaIr accepted
  resolve accepted.schemaIdentityDomain accepted.nextIdentityId (some accepted) shape

end Omnigraph.Schema
