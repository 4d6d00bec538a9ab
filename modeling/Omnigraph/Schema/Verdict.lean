import Omnigraph.Compiler.Lookups
import Omnigraph.Schema.Catalog

/-!
# Checking queries against a catalog

Read queries see the types of a catalog through `Catalog.forQueries`. Mutations are checked here: an
insertion must give every property that cannot be null, or the source it is embedded from, and walks
over the properties of the type in the order of a hash map. That order decides which of several
errors is reported, and nothing else.
-/

namespace Omnigraph.Schema

open Except

open Compiler (PropType ScalarType MatchValue MutationAssignment MutationPredicate Mutation
  QueryDecl ParamTypes TypeContext typeError typesCompatible parseDeclaredParamTypes
  typecheckReadQuery checkLiteralType checkNowMatchValueType)

/-! ### Read queries -/

def NodeType.forQueries (n : NodeType) : Compiler.NodeType := ⟨n.properties⟩

def EdgeType.forQueries (e : EdgeType) : Compiler.EdgeType :=
  ⟨e.name, e.fromType, e.toType, e.properties⟩

/-- What read queries see of a catalog. -/
def Catalog.forQueries (c : Catalog) : Compiler.Catalog where
  nodeTypes := HashMap.mapValues NodeType.forQueries c.nodeTypes
  edgeTypes := HashMap.mapValues EdgeType.forQueries c.edgeTypes
  edgeNameIndex := c.edgeNameIndex

/-! ### Mutations -/

/-- What a mutation changes. Node types and edge types have separate names. -/
inductive MutationTarget
  | node (typeName : String)
  | edge (typeName : String)

inductive CheckedQuery
  | read (ctx : TypeContext)
  | mutation (targets : List MutationTarget)

/-- A text may be assigned to a blob: it is the address of the value. -/
def assignable (actual expected : PropType) : Bool :=
  typesCompatible actual expected ||
    (expected.scalar = .blob && actual.scalar = .string && !actual.list)

def checkMatchValueType (params : ParamTypes) (expected : PropType) (property : String) :
    MatchValue → Compiler.Result Unit
  | .literal lit => checkLiteralType lit expected property
  | .var v =>
    match params.lookup v with
    | none => typeError <| "T14: mutation variable `$" ++ v ++
        "` must be a declared query parameter"
    | some actual =>
      if assignable actual expected then .ok ()
      else typeError <| "T7: cannot assign/compare " ++ actual.displayName ++ " with " ++
        expected.displayName ++ " for property `" ++ property ++ "`"
  | .now => checkNowMatchValueType expected property

def checkAssignmentName (seen : List String) (a : MutationAssignment) :
    Compiler.Result (List String) :=
  if a.property ∈ seen then
    typeError <| "T13: duplicate assignment for property `" ++ a.property ++ "`"
  else .ok (a.property :: seen)

def ensureNoDuplicateAssignmentNames (assignments : List MutationAssignment) :
    Compiler.Result Unit := do
  let _ ← assignments.foldlM checkAssignmentName []
  .ok ()

/-- The properties of a type, as a mutation finds them. -/
abbrev Properties := HashMap String PropType

def mutationProperty (typeName : String) (properties : Properties) (name : String) :
    Compiler.Result PropType :=
  match properties.lookup name with
  | some prop => .ok prop
  | none => typeError <| "T11: type `" ++ typeName ++ "` has no property `" ++ name ++ "`"

def checkAssignment (params : ParamTypes) (typeName : String) (properties : Properties)
    (a : MutationAssignment) : Compiler.Result Unit := do
  let prop ← mutationProperty typeName properties a.property
  checkMatchValueType params prop a.property a.value

/-- The type of the endpoints of an edge. -/
def endpointType : PropType := .ofScalar .string false

def isEndpoint (property : String) : Bool := property = "from" || property = "to"

/-- The endpoints of an edge are assigned like properties. -/
def checkEdgeAssignment (params : ParamTypes) (typeName : String) (properties : Properties)
    (a : MutationAssignment) : Compiler.Result Unit :=
  if isEndpoint a.property then checkMatchValueType params endpointType a.property a.value
  else checkAssignment params typeName properties a

/-- A property with its name. -/
abbrev PropertyEntry := Sigma fun _ : String => PropType

/-- Why an insertion without this property is refused. -/
def missingNodeProperty (typeName : String) (embeds : HashMap String EmbedSource)
    (assigned : List String) (e : PropertyEntry) : Option String :=
  if e.2.nullable || e.1 ∈ assigned then none
  else match embeds.lookup e.1 with
    | some embed =>
      if embed.source ∈ assigned then none
      else some <| "T12: insert for `" ++ typeName ++ "` must provide non-nullable property `" ++
        e.1 ++ "` or @embed source `" ++ embed.source ++ "`"
    | none => some <| "T12: insert for `" ++ typeName ++
        "` must provide non-nullable property `" ++ e.1 ++ "`"

def missingEdgeProperty (typeName : String) (assigned : List String) (e : PropertyEntry) :
    Option String :=
  if e.2.nullable || e.1 ∈ assigned then none
  else some <| "T12: insert for `" ++ typeName ++ "` must provide non-nullable property `" ++
    e.1 ++ "`"

def refuse : Option String → Compiler.Result Unit
  | some message => typeError message
  | none => .ok ()

/-- Properties that have to be given, in the order of the map. -/
def checkRequired (order : IterOrder PropertyEntry) (properties : Properties)
    (missing : PropertyEntry → Option String) : Compiler.Result Unit :=
  (order.walk properties.entries).forM fun e => refuse (missing e)

def requireEndpoint (typeName endpoint : String) (assigned : List String) : Compiler.Result Unit :=
  if endpoint ∈ assigned then .ok ()
  else typeError <| "T12: insert for `" ++ typeName ++ "` must provide required endpoint `" ++
    endpoint ++ "`"

def typecheckNodeInsert (order : IterOrder PropertyEntry) (params : ParamTypes)
    (typeName : String) (node : NodeType) (assignments : List MutationAssignment) :
    Compiler.Result MutationTarget := do
  assignments.forM (checkAssignment params typeName node.properties)
  checkRequired order node.properties
    (missingNodeProperty typeName node.embedSources (assignments.map MutationAssignment.property))
  .ok (.node typeName)

def typecheckEdgeInsert (order : IterOrder PropertyEntry) (params : ParamTypes)
    (typeName : String) (edge : EdgeType) (assignments : List MutationAssignment) :
    Compiler.Result MutationTarget := do
  let assigned := assignments.map MutationAssignment.property
  assignments.forM (checkEdgeAssignment params typeName edge.properties)
  requireEndpoint typeName "from" assigned
  requireEndpoint typeName "to" assigned
  checkRequired order edge.properties (missingEdgeProperty typeName assigned)
  .ok (.edge typeName)

/-- A blob cannot be compared. -/
def typecheckMutationPredicate (params : ParamTypes) (typeName : String) (properties : Properties)
    (predicate : MutationPredicate) : Compiler.Result Unit := do
  let prop ← mutationProperty typeName properties predicate.property
  if prop.scalar = .blob then
    typeError <| "T11: blob property `" ++ predicate.property ++
      "` cannot be used in WHERE predicates"
  else checkMatchValueType params prop predicate.property predicate.value

def typecheckEdgeMutationPredicate (params : ParamTypes) (typeName : String)
    (properties : Properties) (predicate : MutationPredicate) : Compiler.Result Unit :=
  if isEndpoint predicate.property then
    checkMatchValueType params endpointType predicate.property predicate.value
  else typecheckMutationPredicate params typeName properties predicate

def unknownType {α : Type} (typeName : String) : Compiler.Result α :=
  typeError <| "T10: unknown node/edge type `" ++ typeName ++ "`"

def requireAssignments (what : String) (assignments : List MutationAssignment) :
    Compiler.Result Unit :=
  if assignments = [] then
    typeError <| "T10: " ++ what ++ " mutation requires at least one assignment"
  else .ok ()

/-- The type of this name is a node type, or else an edge type. -/
def Catalog.dispatch {α : Type} (c : Catalog) (typeName : String)
    (node : NodeType → Compiler.Result α) (edge : EdgeType → Compiler.Result α) :
    Compiler.Result α :=
  match c.nodeTypes.lookup typeName, c.edgeTypes.lookup typeName with
  | some n, _ => node n
  | none, some e => edge e
  | none, none => unknownType typeName

def typecheckUpdate (params : ParamTypes) (typeName : String)
    (assignments : List MutationAssignment) (predicate : MutationPredicate) (node : NodeType) :
    Compiler.Result MutationTarget := do
  requireAssignments "update" assignments
  ensureNoDuplicateAssignmentNames assignments
  assignments.forM (checkAssignment params typeName node.properties)
  typecheckMutationPredicate params typeName node.properties predicate
  .ok (.node typeName)

def typecheckMutationWith (order : IterOrder PropertyEntry) (c : Catalog) (params : ParamTypes) :
    Mutation → Compiler.Result MutationTarget
  | .insert typeName assignments => do
    requireAssignments "insert" assignments
    ensureNoDuplicateAssignmentNames assignments
    c.dispatch typeName (fun n => typecheckNodeInsert order params typeName n assignments)
      (fun e => typecheckEdgeInsert order params typeName e assignments)
  | .update typeName assignments predicate =>
    c.dispatch typeName (typecheckUpdate params typeName assignments predicate)
      (fun _ => typeError <| "T16: update mutation for edge type `" ++ typeName ++
        "` is not supported")
  | .delete typeName predicate =>
    c.dispatch typeName
      (fun n => do
        typecheckMutationPredicate params typeName n.properties predicate
        .ok (.node typeName))
      (fun e => do
        typecheckEdgeMutationPredicate params typeName e.properties predicate
        .ok (.edge typeName))

def typecheckMutation (order : IterOrder PropertyEntry) (c : Catalog) (query : QueryDecl)
    (mutation : Mutation) : Compiler.Result MutationTarget := do
  let params ← parseDeclaredParamTypes query.params
  typecheckMutationWith order c params mutation

/-- A query with mutations, or a read query. -/
def typecheckQueryDecl (order : IterOrder PropertyEntry) (c : Catalog) (query : QueryDecl) :
    Compiler.Result CheckedQuery :=
  if query.mutations ≠ [] then
    (query.mutations.mapM (typecheckMutation order c query)).map .mutation
  else (typecheckReadQuery c.forQueries query).map .read

/-! ### Catalogs that agree -/

/-- The sets of columns that are listed. -/
def columnSets (columns : List (List String)) : Finset (Finset String) :=
  (columns.map List.toFinset).toFinset

/-- Equality of ranges as the source compares bounds. -/
def RangeConstraint.same (r r' : RangeConstraint) : Bool :=
  (Constraint.range r.property r.min r.max).same (.range r'.property r'.min r'.max)

/-- Two node types that differ in the order of things only. -/
structure NodeType.Agrees (a b : NodeType) : Prop where
  name : a.name = b.name
  implements : a.implements.toFinset = b.implements.toFinset
  properties : ∀ k, a.properties.lookup k = b.properties.lookup k
  key : a.key.map List.toFinset = b.key.map List.toFinset
  uniqueConstraints : columnSets a.uniqueConstraints = columnSets b.uniqueConstraints
  indices : columnSets a.indices = columnSets b.indices
  ranges : ∀ r ∈ a.rangeConstraints, ∃ r' ∈ b.rangeConstraints, r.same r' = true
  ranges' : ∀ r ∈ b.rangeConstraints, r ∈ a.rangeConstraints
  checkConstraints : a.checkConstraints.toFinset = b.checkConstraints.toFinset
  embedSources : ∀ k, a.embedSources.lookup k = b.embedSources.lookup k
  blobProperties : a.blobProperties.toFinset = b.blobProperties.toFinset

structure EdgeType.Agrees (a b : EdgeType) : Prop where
  name : a.name = b.name
  fromType : a.fromType = b.fromType
  toType : a.toType = b.toType
  cardinality : a.cardinality = b.cardinality
  properties : ∀ k, a.properties.lookup k = b.properties.lookup k
  uniqueConstraints : columnSets a.uniqueConstraints = columnSets b.uniqueConstraints
  indices : columnSets a.indices = columnSets b.indices
  blobProperties : a.blobProperties.toFinset = b.blobProperties.toFinset

structure InterfaceType.Agrees (a b : InterfaceType) : Prop where
  name : a.name = b.name
  properties : ∀ k, a.properties.lookup k = b.properties.lookup k

structure Catalog.Agrees (c c' : Catalog) : Prop where
  nodes : ∀ name, Option.Rel NodeType.Agrees (c.nodeTypes.lookup name) (c'.nodeTypes.lookup name)
  edges : ∀ name, Option.Rel EdgeType.Agrees (c.edgeTypes.lookup name) (c'.edgeTypes.lookup name)
  interfaces : ∀ name,
    Option.Rel InterfaceType.Agrees (c.interfaces.lookup name) (c'.interfaces.lookup name)
  edgeNameIndex : ∀ name, c.edgeNameIndex.lookup name = c'.edgeNameIndex.lookup name

section Verdict

variable {c c' : Catalog} {order order' : IterOrder PropertyEntry}

lemma optionRel_cases {α β : Type*} {R : α → β → Prop} {o : Option α} {o' : Option β}
    (h : Option.Rel R o o') : (o = none ∧ o' = none) ∨ ∃ a b, o = some a ∧ o' = some b ∧ R a b := by
  cases h with
  | none => exact .inl ⟨rfl, rfl⟩
  | some hab => exact .inr ⟨_, _, rfl, rfl, hab⟩

lemma Catalog.Agrees.edgeView (h : c.Agrees c') (name : String) :
    (c.forQueries.edgeTypes.lookup name).map Compiler.EdgeType.view =
      (c'.forQueries.edgeTypes.lookup name).map Compiler.EdgeType.view := by
  simp only [Catalog.forQueries, HashMap.lookup_mapValues, Option.map_map]
  rcases optionRel_cases (h.edges name) with ⟨h1, h2⟩ | ⟨e, e', h1, h2, hagree⟩
  · rw [h1, h2]
  · obtain ⟨hname, hfrom, hto, -, hprops, -, -, -⟩ := hagree
    simp only [h1, h2, Option.map_some, Function.comp_apply, Compiler.EdgeType.view,
      EdgeType.forQueries, hname, hfrom, hto, hprops]

/-- Read queries look up the same things. -/
lemma Catalog.Agrees.sameLookups (h : c.Agrees c') : c.forQueries.SameLookups c'.forQueries := by
  refine ⟨fun name => ?_, fun name => ?_⟩
  · simp only [Catalog.forQueries, HashMap.lookup_mapValues, Option.map_map]
    rcases optionRel_cases (h.nodes name) with ⟨h1, h2⟩ | ⟨n, n', h1, h2, hagree⟩
    · rw [h1, h2]
    · have hview : n.forQueries.view = n'.forQueries.view := funext hagree.properties
      simp only [h1, h2, Option.map_some, Function.comp_apply, hview]
  · have hview := h.edgeView name
    have hindex : c.forQueries.edgeNameIndex.lookup (Compiler.normalizeEdgeName name) =
        c'.forQueries.edgeNameIndex.lookup (Compiler.normalizeEdgeName name) :=
      h.edgeNameIndex _
    unfold Compiler.Catalog.lookupEdgeByName
    rw [hindex]
    cases he : c.forQueries.edgeTypes.lookup name with
    | some e =>
      rw [he] at hview
      obtain ⟨e', he', -⟩ := Option.map_eq_some_iff.mp hview.symm
      rw [he'] at hview ⊢
      exact hview
    | none =>
      rw [he] at hview
      rw [Option.map_eq_none_iff.mp hview.symm]
      cases c'.forQueries.edgeNameIndex.lookup (Compiler.normalizeEdgeName name) with
      | none => rfl
      | some key => exact h.edgeView key

variable {properties properties' : Properties}

lemma checkRequired_eq_ok_iff {missing : PropertyEntry → Option String} {u : Unit} :
    checkRequired order properties missing = .ok u ↔
      ∀ name prop, properties.lookup name = some prop → missing ⟨name, prop⟩ = none := by
  have hrefuse : ∀ m, refuse m = .ok () ↔ m = none := by
    intro m
    cases m <;> simp [refuse, typeError]
  simp only [checkRequired, forM_eq_ok_iff, hrefuse, IterOrder.mem_walk]
  constructor
  · exact fun h name prop hlook => h _ (HashMap.lookup_eq_some_iff_mem.mp hlook)
  · rintro h ⟨name, prop⟩ hmem
    exact h name prop (HashMap.lookup_eq_some_iff_mem.mpr hmem)

variable (h : ∀ k, properties.lookup k = properties'.lookup k)

include h in
lemma checkAssignment_congr (params : ParamTypes) (typeName : String) :
    checkAssignment params typeName properties = checkAssignment params typeName properties' := by
  funext a
  simp only [checkAssignment, mutationProperty, h]

include h in
lemma checkEdgeAssignment_congr (params : ParamTypes) (typeName : String) :
    checkEdgeAssignment params typeName properties =
      checkEdgeAssignment params typeName properties' := by
  funext a
  simp only [checkEdgeAssignment, checkAssignment_congr h]

include h in
lemma typecheckMutationPredicate_congr (params : ParamTypes) (typeName : String) :
    typecheckMutationPredicate params typeName properties =
      typecheckMutationPredicate params typeName properties' := by
  funext p
  simp only [typecheckMutationPredicate, mutationProperty, h]

lemma typecheckNodeInsert_iff {n n' : NodeType} (h : n.Agrees n') (params : ParamTypes)
    (typeName : String) (assignments : List MutationAssignment) (t : MutationTarget) :
    typecheckNodeInsert order params typeName n assignments = .ok t ↔
      typecheckNodeInsert order' params typeName n' assignments = .ok t := by
  simp only [typecheckNodeInsert, bind_eq_ok_iff, checkRequired_eq_ok_iff,
    missingNodeProperty, checkAssignment_congr h.properties, h.properties, h.embedSources]

lemma typecheckEdgeInsert_iff {e e' : EdgeType} (h : e.Agrees e') (params : ParamTypes)
    (typeName : String) (assignments : List MutationAssignment) (t : MutationTarget) :
    typecheckEdgeInsert order params typeName e assignments = .ok t ↔
      typecheckEdgeInsert order' params typeName e' assignments = .ok t := by
  simp only [typecheckEdgeInsert, bind_eq_ok_iff, checkRequired_eq_ok_iff,
    checkEdgeAssignment_congr h.properties, h.properties]

lemma Catalog.Agrees.dispatch {α : Type} (h : c.Agrees c')
    {node node' : NodeType → Compiler.Result α}
    {edge edge' : EdgeType → Compiler.Result α} (typeName : String) {r : α}
    (hnode : ∀ n n', n.Agrees n' → (node n = .ok r ↔ node' n' = .ok r))
    (hedge : ∀ e e', e.Agrees e' → (edge e = .ok r ↔ edge' e' = .ok r)) :
    c.dispatch typeName node edge = .ok r ↔ c'.dispatch typeName node' edge' = .ok r := by
  unfold Catalog.dispatch
  rcases optionRel_cases (h.nodes typeName) with ⟨h1, h2⟩ | ⟨n, n', h1, h2, hagree⟩
  · rcases optionRel_cases (h.edges typeName) with ⟨h3, h4⟩ | ⟨e, e', h3, h4, hagree⟩
    · simp only [h1, h2, h3, h4]
    · simp only [h1, h2, h3, h4]
      exact hedge e e' hagree
  · simp only [h1, h2]
    exact hnode n n' hagree

/-- Catalogs that agree accept the same mutations. -/
lemma typecheckMutation_iff (h : c.Agrees c') (query : QueryDecl) (mutation : Mutation)
    (t : MutationTarget) : typecheckMutation order c query mutation = .ok t ↔
      typecheckMutation order' c' query mutation = .ok t := by
  simp only [typecheckMutation, bind_eq_ok_iff]
  refine exists_congr fun params => and_congr_right fun _ => ?_
  cases mutation with
  | insert typeName assignments =>
    simp only [typecheckMutationWith, bind_eq_ok_iff]
    refine exists_congr fun _ => and_congr_right fun _ => exists_congr fun _ =>
      and_congr_right fun _ => ?_
    exact h.dispatch typeName
      (fun n n' hn => typecheckNodeInsert_iff hn params typeName assignments t)
      (fun e e' he => typecheckEdgeInsert_iff he params typeName assignments t)
  | update typeName assignments predicate =>
    refine h.dispatch typeName (fun n n' hn => ?_) fun _ _ _ => Iff.rfl
    simp only [typecheckUpdate, checkAssignment_congr hn.properties,
      typecheckMutationPredicate_congr hn.properties]
  | delete typeName predicate =>
    refine h.dispatch typeName (fun n n' hn => ?_) fun e e' he => ?_
    · simp only [typecheckMutationPredicate_congr hn.properties]
    · simp only [typecheckEdgeMutationPredicate, typecheckMutationPredicate_congr he.properties]

/-- Catalogs that agree accept the same queries, whatever the order of their maps. -/
theorem typecheckQueryDecl_iff (h : c.Agrees c') (query : QueryDecl) (r : CheckedQuery) :
    typecheckQueryDecl order c query = .ok r ↔ typecheckQueryDecl order' c' query = .ok r := by
  unfold typecheckQueryDecl
  rw [Compiler.typecheckReadQuery_congr h.sameLookups]
  split_ifs with hmut
  · have hstep : ∀ mutation t, typecheckMutation order c query mutation = .ok t ↔
        typecheckMutation order' c' query mutation = .ok t :=
      fun mutation t => typecheckMutation_iff h query mutation t
    have hmap : ∀ x : Compiler.Result (List MutationTarget),
        x.map CheckedQuery.mutation = .ok r ↔
          ∃ targets, x = .ok targets ∧ r = .mutation targets := by
      intro x
      constructor
      · exact fun hx => map_eq_ok hx
      · rintro ⟨targets, rfl, rfl⟩
        rfl
    simp only [hmap, mapM_eq_ok_iff, hstep]
  · exact Iff.rfl

end Verdict

end Omnigraph.Schema
