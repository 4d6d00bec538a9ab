import Omnigraph.Schema.Identity

/-!
# Back to the shape

`schemaShapeFromIr` undoes resolution. References are sorted by identity in the accepted schema, in
whatever order the identities were given out; projecting sorts them by name again. So the projection
is the shape that was resolved, without its rename hints and with its references in the order of
names.
-/

namespace Omnigraph.Schema

open Except Sorted

/-! ### Shapes with sorted references -/

def PropertyShape.projected (p : PropertyShape) : PropertyShape :=
  { p.cleared with
    satisfiesInterfaceProperties :=
      canonical ShapePropertyRef.sortKey p.satisfiesInterfaceProperties }

def InterfaceShape.projected (i : InterfaceShape) : InterfaceShape :=
  { i with properties := i.properties.map PropertyShape.projected }

def NodeShape.projected (n : NodeShape) : NodeShape :=
  { n with
    renameFrom := none
    implements := canonical id n.implements
    properties := n.properties.map PropertyShape.projected }

def EdgeShape.projected (e : EdgeShape) : EdgeShape :=
  { e with renameFrom := none, properties := e.properties.map PropertyShape.projected }

/-- The shape without hints and with sorted references. -/
def SchemaShape.projected (s : SchemaShape) : SchemaShape :=
  ⟨s.interfaces.map InterfaceShape.projected, s.nodes.map NodeShape.projected,
    s.edges.map EdgeShape.projected⟩

/-! ### Projecting what is built -/

section Build

variable {A : Assignments} {P : PropertyAssignments}

lemma satisfiedRef_shape {r : ShapePropertyRef} {q : PropertyRefIR}
    (h : satisfiedRef A P r = .ok q) : shapePropertyRef q = r := by
  simp only [satisfiedRef, bind_eq_ok_iff, propertyRef_eq_ok_iff] at h
  obtain ⟨x, -, -, -, howner, hname⟩ := h
  rw [shapePropertyRef, howner, hname]

variable {owner name : String} {ownerId : ℕ} {table : TableRef}

/-- A property is read back from what is built of it. -/
lemma propertyShape_buildProperty {p : PropertyShape} {q : PropertyIR}
    (h : buildProperty A P ownerId owner p = .ok q) : propertyShapeFromIr q = p.projected := by
  simp only [buildProperty, bind_eq_ok_iff, propertyRef_eq_ok_iff,
    mapM_eq_ok_iff] at h
  obtain ⟨r, -, embed, hembed, refs, hrefs, hret⟩ := h
  cases hret
  have hsatisfies : canonical ShapePropertyRef.sortKey
      ((sortOn PropertyRefIR.sortKey refs).map shapePropertyRef) =
      canonical ShapePropertyRef.sortKey p.satisfiesInterfaceProperties := by
    have hmap : refs.map shapePropertyRef = p.satisfiesInterfaceProperties := by
      have := hrefs.map_eq (f := id) (g := shapePropertyRef)
        fun _ _ hr => (satisfiedRef_shape hr).symm
      rw [← this, List.map_id]
    rw [← hmap]
    exact canonical_eq_of_perm ((sortOn_perm _ refs).map _)
      fun _ _ _ _ hk => ShapePropertyRef.sortKey_injective hk
  have hembed : embed.map (fun embed => (⟨embed.source.propertyName, embed.model⟩ :
      EmbedSourceShape)) = p.embedSource := by
    cases hp : p.embedSource with
    | none =>
      rw [hp] at hembed
      cases hembed
      rfl
    | some e =>
      rw [hp] at hembed
      simp only [embedRef, bind_eq_ok_iff, propertyRef_eq_ok_iff] at hembed
      obtain ⟨source, ⟨-, -, -, hname⟩, hret⟩ := hembed
      cases hret
      rw [Option.map_some, hname]
  unfold propertyShapeFromIr PropertyShape.projected PropertyShape.cleared
  rw [hsatisfies, hembed]

lemma map_propertyShape_build {ps : List PropertyShape} {qs : List PropertyIR}
    (h : List.Forall₂ (fun p q => buildProperty A P ownerId owner p = .ok q) ps qs) :
    qs.map propertyShapeFromIr = ps.map PropertyShape.projected :=
  (h.map_eq fun _ _ hq => (propertyShape_buildProperty hq).symm).symm

lemma fieldName_fieldRef {field : FieldRefIR} (h : fieldRef P table name = .ok field) :
    field.fieldName = name := by
  unfold fieldRef at h
  cases hrole : systemRole table.kind name with
  | some role =>
    rw [hrole] at h
    cases h
    unfold systemRole at hrole
    split_ifs at hrole with h1 h2 h3
    · cases hrole
      exact h1.symm
    · cases hrole
      exact h2.1.symm
    · cases hrole
      exact h3.1.symm
  | none =>
    rw [hrole] at h
    cases href : propertyRef P table.typeId table.name name with
    | error e =>
      rw [href] at h
      cases h
    | ok r =>
      rw [href] at h
      cases h
      exact (propertyRef_eq_ok_iff.mp href).2.2.2

lemma map_fieldName {names : List String} {fields : List FieldRefIR}
    (h : names.mapM (fieldRef P table) = .ok fields) : fields.map FieldRefIR.fieldName = names := by
  have := (mapM_eq_ok_iff.mp h).map_eq (f := id) (g := FieldRefIR.fieldName)
    fun _ _ hf => (fieldName_fieldRef hf).symm
  rw [← this, List.map_id]

/-- A constraint is read back from what is built of it. -/
lemma constraintFromIr_buildConstraint {c : Constraint} {b : ConstraintIR}
    (h : buildConstraint P table c = .ok b) : constraintFromIr b = c := by
  have hfields : ∀ {names : List String} {f : List FieldRefIR → ConstraintIR},
      (names.mapM (fieldRef P table)).map f = .ok b →
      ∃ fields, b = f fields ∧ fields.map FieldRefIR.fieldName = names := by
    intro names f hb
    cases hm : names.mapM (fieldRef P table) with
    | error e =>
      rw [hm] at hb
      cases hb
    | ok fields =>
      rw [hm] at hb
      cases hb
      exact ⟨fields, rfl, map_fieldName hm⟩
  have hfield : ∀ {name : String} {f : FieldRefIR → ConstraintIR},
      (fieldRef P table name).map f = .ok b → ∃ field, b = f field ∧ field.fieldName = name := by
    intro name f hb
    cases hm : fieldRef P table name with
    | error e =>
      rw [hm] at hb
      cases hb
    | ok field =>
      rw [hm] at hb
      cases hb
      exact ⟨field, rfl, fieldName_fieldRef hm⟩
  cases c with
  | key names =>
    obtain ⟨fields, rfl, hnames⟩ := hfields h
    rw [constraintFromIr, hnames]
  | unique names =>
    obtain ⟨fields, rfl, hnames⟩ := hfields h
    rw [constraintFromIr, hnames]
  | index names =>
    obtain ⟨fields, rfl, hnames⟩ := hfields h
    rw [constraintFromIr, hnames]
  | range name min max =>
    obtain ⟨field, rfl, hname⟩ := hfield h
    rw [constraintFromIr, hname]
  | check name pattern =>
    obtain ⟨field, rfl, hname⟩ := hfield h
    rw [constraintFromIr, hname]

lemma map_constraintFromIr {cs : List Constraint} {bs : List ConstraintIR}
    (h : List.Forall₂ (fun c b => buildConstraint P table c = .ok b) cs bs) :
    bs.map constraintFromIr = cs := by
  have := h.map_eq (f := id) (g := constraintFromIr)
    fun _ _ hb => (constraintFromIr_buildConstraint hb).symm
  rw [← this, List.map_id]

lemma interfaceShape_build {i : InterfaceShape} {a : InterfaceIR}
    (h : buildInterface A P i = .ok a) : interfaceShapeFromIr a = i.projected := by
  simp only [buildInterface, bind_eq_ok_iff, mapM_eq_ok_iff] at h
  obtain ⟨x, -, built, hbuilt, hret⟩ := h
  cases hret
  unfold interfaceShapeFromIr InterfaceShape.projected
  rw [map_propertyShape_build hbuilt]

lemma typeRef_name {kind : TypeKind} {r : TypeRefIR} (h : typeRef A kind name = .ok r) :
    r.typeName = name := by
  simp only [typeRef, bind_eq_ok_iff] at h
  obtain ⟨x, -, hret⟩ := h
  cases hret
  rfl

lemma nodeShape_build {n : NodeShape} {a : NodeIR} (h : buildNode A P n = .ok a) :
    nodeShapeFromIr a = n.projected := by
  simp only [buildNode, bind_eq_ok_iff, mapM_eq_ok_iff] at h
  obtain ⟨x, -, table, -, refs, hrefs, built, hbuilt, constraints, hconstraints, hret⟩ := h
  cases hret
  have himplements : canonical id ((sortOn TypeRefIR.sortKey refs).map TypeRefIR.typeName) =
      canonical id n.implements := by
    have hmap : refs.map TypeRefIR.typeName = n.implements := by
      have := hrefs.map_eq (f := id) (g := TypeRefIR.typeName) fun _ _ hr => (typeRef_name hr).symm
      rw [← this, List.map_id]
    rw [← hmap]
    exact canonical_eq_of_perm ((sortOn_perm _ refs).map _) fun _ _ _ _ hk => hk
  unfold nodeShapeFromIr NodeShape.projected
  rw [himplements, map_propertyShape_build hbuilt, map_constraintFromIr hconstraints]

lemma edgeShape_build {e : EdgeShape} {a : EdgeIR} (h : buildEdge A P e = .ok a) :
    edgeShapeFromIr a = e.projected := by
  simp only [buildEdge, bind_eq_ok_iff, mapM_eq_ok_iff] at h
  obtain ⟨x, -, table, -, f, hf, t, ht, built, hbuilt, constraints, hconstraints, hret⟩ := h
  cases hret
  unfold edgeShapeFromIr EdgeShape.projected
  rw [typeRef_name hf, typeRef_name ht, map_propertyShape_build hbuilt,
    map_constraintFromIr hconstraints]

end Build

/-! ### The round trip -/

/-- Projecting a resolved schema gives the shape back, without hints and with sorted references,
whatever the identities are. -/
theorem schemaShapeFromIr_resolve {domain : SchemaIdentityDomain} {next : ℕ}
    {accepted : Option SchemaIR} {shape : SchemaShape} {res : SchemaResolution}
    (h : resolve domain next accepted shape = .ok res) :
    schemaShapeFromIr res.schemaIr = .ok shape.projected := by
  obtain ⟨A, P, hbuild, hvalid, -⟩ := resolve_resolved h
  obtain ⟨-, -, -, hi, hn, he⟩ := buildSchema_eq_ok_iff.mp hbuild
  rw [schemaShapeFromIr, validateSchemaIr_eq_ok_iff.mpr hvalid]
  show Except.ok _ = _
  unfold SchemaShape.projected
  rw [hi.map_eq fun _ _ hb => (interfaceShape_build hb).symm,
    hn.map_eq fun _ _ hb => (nodeShape_build hb).symm,
    he.map_eq fun _ _ hb => (edgeShape_build hb).symm]

/-- Every schema of a history is valid and projects to the shape it was resolved from. -/
theorem Evolution.schemaShapeFromIr_eq {domain : SchemaIdentityDomain} {n : ℕ}
    {s : ℕ → SchemaShape} {ir : ℕ → SchemaIR} (h : Evolution domain n s ir) {k : ℕ} (hk : k ≤ n) :
    validateSchemaIr (ir k) = .ok () ∧ schemaShapeFromIr (ir k) = .ok (s k).projected := by
  refine ⟨validateSchemaIr_eq_ok_iff.mpr (h.valid hk), ?_⟩
  cases k with
  | zero =>
    obtain ⟨res, hres, hir⟩ := h.init
    rw [← hir]
    exact schemaShapeFromIr_resolve hres
  | succ k =>
    obtain ⟨res, hres, hir⟩ := h.step k hk
    rw [← hir]
    exact schemaShapeFromIr_resolve (resolveSchemaIr_eq_ok_iff.mp hres).2

/-- `Person`, renamed to `Human`. -/
theorem personHistory_schemaShapeFromIr_eq :
    schemaShapeFromIr (personSchemas 1) = .ok (personHistory 1).projected := by
  have h : Evolution graphDomain 1 personHistory personSchemas := by
    refine ⟨⟨⟨personSchemas 0, []⟩, by rfl, rfl⟩, fun k hk => ?_⟩
    interval_cases k
    exact ⟨⟨personSchemas 1, []⟩, by rfl, rfl⟩
  exact (h.schemaShapeFromIr_eq le_rfl).2

end Omnigraph.Schema
