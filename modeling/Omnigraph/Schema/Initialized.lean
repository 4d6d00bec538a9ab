import Omnigraph.Schema.Initialize

/-!
# Initialized schemas

A schema built from a well-formed shape with new identities is valid, so initialization succeeds.
-/

namespace Omnigraph.Schema

open List Except

open Compiler (PropType ScalarType)
open Sorted

/-! ### What is built -/

variable {q : PropertyIR} {r' : PropertyRefIR}

section Built

variable {A : Assignments} {P : PropertyAssignments}

/-- A built property, field by field. -/
structure BuiltProperty (A : Assignments) (P : PropertyAssignments) (ownerId : ℕ) (owner : String)
    (p : PropertyShape) (q : PropertyIR) : Prop where
  name : q.name = p.name
  propertyId : P.lookup (ownerId, p.name) = some q.propertyId
  propType : q.propType = p.propType
  annotations : q.annotations = p.annotations
  propertyConstraints : q.propertyConstraints = p.propertyConstraints
  declaredDirectly : q.declaredDirectly = p.declaredDirectly
  embedNone : p.embedSource = none → q.embedSource = none
  embed : ∀ e ∈ q.embedSource, ∃ e' ∈ p.embedSource,
    propertyRef P ownerId owner e'.propertyName = .ok e.source
  satisfied : ∃ refs, List.Forall₂ (fun r r' => satisfiedRef A P r = .ok r')
    p.satisfiesInterfaceProperties refs ∧
    q.satisfiesInterfaceProperties = sortOn PropertyRefIR.sortKey refs

lemma buildProperty_built {ownerId : ℕ} {owner : String} {p : PropertyShape}
    (h : buildProperty A P ownerId owner p = .ok q) : BuiltProperty A P ownerId owner p q := by
  simp only [buildProperty, bind_eq_ok_iff, propertyRef_eq_ok_iff,
    mapM_eq_ok_iff] at h
  obtain ⟨self, ⟨hself, -, -, -⟩, embed, hembed, refs, hrefs, hret⟩ := h
  cases hret
  refine ⟨rfl, hself, rfl, rfl, rfl, rfl, fun hnone => ?_, fun e he => ?_, refs, hrefs, rfl⟩
  · rw [hnone] at hembed
    cases hembed
    rfl
  · cases hsource : p.embedSource with
    | none =>
      rw [hsource] at hembed
      cases hembed
      cases he
    | some e' =>
      rw [hsource] at hembed
      simp only [embedRef, bind_eq_ok_iff] at hembed
      obtain ⟨source, hsrc, hret⟩ := hembed
      cases hret
      cases he
      exact ⟨e', rfl, hsrc⟩

lemma satisfiedRef_eq_ok {r : ShapePropertyRef} (h : satisfiedRef A P r = .ok r') :
    ∃ x, A.lookup (.interface, r.ownerName) = some x ∧
      propertyRef P x.typeId r.ownerName r.propertyName = .ok r' := by
  simp only [satisfiedRef, bind_eq_ok_iff, assignedType_eq_ok_iff] at h
  exact h

lemma typeRef_eq_ok {kind : TypeKind} {name : String} {r : TypeRefIR}
    (h : typeRef A kind name = .ok r) :
    ∃ x, A.lookup (kind, name) = some x ∧ r = ⟨x.typeId, name⟩ := by
  simp only [typeRef, bind_eq_ok_iff, assignedType_eq_ok_iff] at h
  obtain ⟨x, hx, hret⟩ := h
  cases hret
  exact ⟨x, hx, rfl⟩

/-- A built node, beyond what it has as a type. -/
structure BuiltNode (A : Assignments) (P : PropertyAssignments) (n : NodeShape) (a : NodeIR) :
    Prop where
  annotations : a.annotations = n.annotations
  implements : ∃ refs, List.Forall₂ (fun name r => typeRef A .interface name = .ok r)
    n.implements refs ∧ a.implements = sortOn TypeRefIR.sortKey refs
  constraints : List.Forall₂ (fun c b => buildConstraint P
    ⟨.node, a.typeId, n.name, a.tableIncarnationId⟩ c = .ok b) n.constraints a.constraints

lemma buildNode_builtNode {n : NodeShape} {a : NodeIR} (h : buildNode A P n = .ok a) :
    BuiltNode A P n a := by
  simp only [buildNode, bind_eq_ok_iff, assignedType_eq_ok_iff, assignedTable_eq_ok_iff,
    mapM_eq_ok_iff] at h
  obtain ⟨x, hx, table, ⟨i, hi, rfl⟩, refs, hrefs, built, -, cs, hcs, hret⟩ := h
  cases hret
  exact ⟨rfl, ⟨refs, hrefs, rfl⟩, hcs⟩

structure BuiltEdge (A : Assignments) (P : PropertyAssignments) (e : EdgeShape) (a : EdgeIR) :
    Prop where
  annotations : a.annotations = e.annotations
  fromType : typeRef A .node e.fromType = .ok a.fromType
  toType : typeRef A .node e.toType = .ok a.toType
  constraints : List.Forall₂ (fun c b => buildConstraint P
    ⟨.edge, a.typeId, e.name, a.tableIncarnationId⟩ c = .ok b) e.constraints a.constraints

lemma buildEdge_builtEdge {e : EdgeShape} {a : EdgeIR} (h : buildEdge A P e = .ok a) :
    BuiltEdge A P e a := by
  simp only [buildEdge, bind_eq_ok_iff, assignedType_eq_ok_iff, assignedTable_eq_ok_iff,
    mapM_eq_ok_iff] at h
  obtain ⟨x, hx, table, ⟨i, hi, rfl⟩, f, hf, t, ht, built, -, cs, hcs, hret⟩ := h
  cases hret
  exact ⟨rfl, hf, ht, hcs⟩

end Built

/-! ### Types and what is built from them -/

section Valid

variable {domain : SchemaIdentityDomain} {A : Assignments} {P : PropertyAssignments}
  {n1 n2 n3 : ℕ} {s : SchemaShape} {ir : SchemaIR}

/-- A desired type, its assignment and the type built from it. -/
structure BuiltFrom (A : Assignments) (P : PropertyAssignments) (s : SchemaShape) (ir : SchemaIR)
    (t : DesiredType) (x : AssignedType) (a : AcceptedType) : Prop where
  desired : t ∈ shapeTypes s
  accepted : a ∈ acceptedTypes ir
  assigned : A.lookup t.key = some x
  key : a.key = t.key
  typeId : a.typeId = x.typeId
  incarnation : a.incarnation = if t.kind.hasTable then x.incarnation else none
  properties : List.Forall₂ (BuiltProperty A P x.typeId t.name) t.properties a.properties

variable {a : AcceptedType} {t : DesiredType} {x : AssignedType} {i : ℕ}

lemma Built.builtFrom (ht : t ∈ shapeTypes s) (ha : a ∈ acceptedTypes ir) (h : Built A P t a) :
    ∃ x, BuiltFrom A P s ir t x a := by
  obtain ⟨x, hx, hid, hinc, hprops⟩ := h.assigned
  exact ⟨x, ht, ha, hx, h.key, hid, hinc, hprops.imp fun _ _ hq => buildProperty_built hq⟩

lemma exists_builtFrom_right (hir : buildSchema domain A P n3 s = .ok ir)
    (ha : a ∈ acceptedTypes ir) : ∃ t x, BuiltFrom A P s ir t x a := by
  obtain ⟨t, ht, hb⟩ := (buildSchema_built hir).exists_left ha
  obtain ⟨x, hx⟩ := hb.builtFrom ht ha
  exact ⟨t, x, hx⟩

lemma exists_builtFrom_left (hir : buildSchema domain A P n3 s = .ok ir) (ht : t ∈ shapeTypes s)
    (hx : A.lookup t.key = some x) : ∃ a, BuiltFrom A P s ir t x a := by
  obtain ⟨a, ha, hb⟩ := (buildSchema_built hir).exists_right ht
  obtain ⟨y, hy⟩ := hb.builtFrom ht ha
  have hxy := hy.assigned
  rw [hx] at hxy
  cases hxy
  exact ⟨a, hy⟩

lemma BuiltFrom.kind (h : BuiltFrom A P s ir t x a) : a.kind = t.kind := (Prod.mk.inj h.key).1

lemma BuiltFrom.name {t : DesiredType} {x : AssignedType} {a : AcceptedType}
    (h : BuiltFrom A P s ir t x a) : a.name = t.name := (Prod.mk.inj h.key).2

/-- A reference to a property of the shape points to what is built from it. -/
lemma BuiltFrom.propertyRefOk {t : DesiredType} {x : AssignedType} {a : AcceptedType}
    (h : BuiltFrom A P s ir t x a) {p : PropertyShape} (hp : p ∈ t.properties) {r : PropertyRefIR}
    (hr : propertyRef P x.typeId t.name p.name = .ok r) :
    PropertyRefOk (acceptedTypes ir) r ∧
      ∃ q ∈ a.properties, q.propertyId = r.propertyId ∧ q.propType = p.propType := by
  obtain ⟨hlook, howner, hname, hpname⟩ := propertyRef_eq_ok_iff.mp hr
  obtain ⟨q, hq, hb⟩ := h.properties.exists_right hp
  have hid : q.propertyId = r.propertyId := by
    have hq := hb.propertyId
    rw [hlook] at hq
    exact (Option.some.inj hq).symm
  refine ⟨⟨a, h.accepted, q, hq, ?_, ?_, hid, ?_⟩, q, hq, hid, hb.propType⟩
  · rw [h.typeId, howner]
  · rw [h.name, hname]
  · rw [hb.name, hpname]

lemma fieldOk {t : DesiredType} {x : AssignedType} {a : AcceptedType}
    (h : BuiltFrom A P s ir t x a) {i : ℕ} (hi : a.incarnation = some i) {name : String}
    (hcol : t.HasColumn name) {f : FieldRefIR}
    (hf : fieldRef P ⟨t.kind, a.typeId, t.name, i⟩ name = .ok f) :
    FieldOk (acceptedTypes ir) a f := by
  unfold fieldRef at hf
  cases hrole : systemRole t.kind name with
  | some role =>
    simp only [hrole] at hf
    cases hf
    refine ⟨rfl, hi.symm, h.name.symm, fun hnode => ?_⟩
    rw [h.kind] at hnode
    unfold systemRole at hrole
    rw [hnode] at hrole
    split_ifs at hrole with h1 h2 h3
    · cases hrole
      rfl
    · cases h2.2
    · cases h3.2
  | none =>
    rcases hcol with hcol | hcol
    · rw [hrole] at hcol
      cases hcol
    · simp only [hrole] at hf
      obtain ⟨r, hr, rfl⟩ := Except.map_eq_ok hf
      rw [h.typeId] at hr
      obtain ⟨p, hp, rfl⟩ := List.mem_map.mp hcol
      refine ⟨?_, (h.propertyRefOk hp hr).1⟩
      rw [h.typeId, (propertyRef_eq_ok_iff.mp hr).2.1]

lemma constraintsOk (h : BuiltFrom A P s ir t x a) (hi : a.incarnation = some i)
    {cs : List Constraint} {bs : List ConstraintIR} (hsorted : Increasing constraintSortKey cs)
    (hcols : ∀ c ∈ cs, ∀ name ∈ c.columns, t.HasColumn name)
    (hbuilt : List.Forall₂ (fun c b => buildConstraint P ⟨t.kind, a.typeId, t.name, i⟩ c = .ok b)
      cs bs) : ConstraintsOk (acceptedTypes ir) a bs := by
  refine ⟨?_, fun b hb f hf => ?_⟩
  · rw [← map_constraintFromIr hbuilt, Increasing.map] at hsorted
    exact hsorted
  · obtain ⟨c, hc, hcb⟩ := hbuilt.exists_left hb
    -- every field of the built constraint comes from a column
    have hfield : ∃ name ∈ c.columns, fieldRef P ⟨t.kind, a.typeId, t.name, i⟩ name = .ok f := by
      cases c with
      | key names =>
        obtain ⟨fs, hfs, rfl⟩ := map_eq_ok hcb
        exact (mem_mapM hfs).mp hf
      | unique names =>
        obtain ⟨fs, hfs, rfl⟩ := map_eq_ok hcb
        exact (mem_mapM hfs).mp hf
      | index names =>
        obtain ⟨fs, hfs, rfl⟩ := map_eq_ok hcb
        exact (mem_mapM hfs).mp hf
      | range name min max =>
        obtain ⟨g, hg, rfl⟩ := map_eq_ok hcb
        rw [mem_singleton.mp hf]
        exact ⟨name, by simp [Constraint.columns], hg⟩
      | check name pattern =>
        obtain ⟨g, hg, rfl⟩ := map_eq_ok hcb
        rw [mem_singleton.mp hf]
        exact ⟨name, by simp [Constraint.columns], hg⟩
    obtain ⟨name, hname, hf⟩ := hfield
    exact fieldOk h hi (hcols c hc name hname) hf

lemma propertyOk (h : WellFormed s) (hb : BuiltFrom A P s ir t x a) (hq : q ∈ a.properties) :
    PropertyOk q := by
  obtain ⟨p, hp, hbp⟩ := hb.properties.exists_left hq
  have hok := h.properties t hb.desired p hp
  refine ⟨?_, ?_, ?_, ?_⟩
  · rw [hbp.name]
    exact hok.notReserved
  · rw [hbp.annotations]
    exact hok.annotations
  · rw [hbp.propType]
    exact hok.enumSorted
  · rw [hbp.propertyConstraints]
    exact hok.constraintsSorted

lemma BuiltFrom.map_name (hb : BuiltFrom A P s ir t x a) :
    t.properties.map PropertyShape.name = a.properties.map PropertyIR.name :=
  hb.properties.map_eq fun _ _ hq => hq.name.symm

/-! ### Identities -/

/-- Where an identity of a built type comes from. -/
lemma mem_ids_cases (hfresh : FreshIds A P n1 n2 n3 (shapeTypes s)) (hb : BuiltFrom A P s ir t x a)
    (hi : i ∈ a.ids) :
    (i = x.typeId ∧ 0 < i ∧ i < n1) ∨
      (∃ name, P.lookup (x.typeId, name) = some i ∧ n1 ≤ i ∧ i < n2) ∨
      (x.incarnation = some i ∧ n2 ≤ i ∧ i < n3) := by
  simp only [AcceptedType.ids, mem_cons, mem_append, Option.mem_toList,
    List.mem_map] at hi
  rcases hi with rfl | hi | ⟨q, hq, rfl⟩
  · obtain ⟨y, hy, hpos, hlt, -⟩ := hfresh.type t hb.desired
    rw [hb.assigned] at hy
    cases hy
    rw [hb.typeId]
    exact .inl ⟨rfl, hpos, hlt⟩
  · have hinc : x.incarnation = some i := by
      have := hb.incarnation
      rw [hi] at this
      split_ifs at this
      exact this.symm
    exact .inr (.inr ⟨hinc, hfresh.table _ x hb.assigned i hinc⟩)
  · obtain ⟨p, -, hbp⟩ := hb.properties.exists_left hq
    exact .inr (.inl ⟨p.name, hbp.propertyId, hfresh.propertyBound _ _ hbp.propertyId⟩)

/-- Types with a common identity are the same. -/
lemma key_eq_of_mem_ids (hfresh : FreshIds A P n1 n2 n3 (shapeTypes s)) {u : DesiredType}
    {y : AssignedType} {b : AcceptedType} (ha : BuiltFrom A P s ir t x a)
    (hb : BuiltFrom A P s ir u y b) (hia : i ∈ a.ids) (hib : i ∈ b.ids) : a.key = b.key := by
  rw [ha.key, hb.key]
  -- the three kinds of identities lie in different ranges
  rcases mem_ids_cases hfresh ha hia with ⟨h1, b1, c1⟩ | ⟨name, h1, b1, c1⟩ | ⟨h1, b1, c1⟩ <;>
    rcases mem_ids_cases hfresh hb hib with ⟨h2, b2, c2⟩ | ⟨_, h2, b2, c2⟩ | ⟨h2, b2, c2⟩ <;>
    have hle := hfresh.le <;> try omega
  · exact hfresh.typeInj _ _ x y ha.assigned hb.assigned (h1.symm.trans h2)
  · have hkey := hfresh.propertyInj _ _ i h1 h2
    exact hfresh.typeInj _ _ x y ha.assigned hb.assigned (Prod.mk.inj hkey).1
  · exact hfresh.tableInj _ _ x y i ha.assigned hb.assigned h1 h2

/-- No id is used twice in what is built. -/
lemma nodup_ids_built (h : WellFormed s) (hfresh : FreshIds A P n1 n2 n3 (shapeTypes s))
    (hb : BuiltFrom A P s ir t x a) : a.ids.Nodup := by
  obtain ⟨y, hy, hpos, hlt, -⟩ := hfresh.type t hb.desired
  rw [hb.assigned] at hy
  cases hy
  have hle := hfresh.le
  have hbound : ∀ q ∈ a.properties, n1 ≤ q.propertyId ∧ q.propertyId < n2 := by
    intro q hq
    obtain ⟨p, -, hbp⟩ := hb.properties.exists_left hq
    exact hfresh.propertyBound _ _ hbp.propertyId
  have hinc : ∀ i ∈ a.incarnation, n2 ≤ i := by
    intro i hi
    have hx := hb.incarnation
    rw [hi] at hx
    split_ifs at hx
    exact (hfresh.table _ x hb.assigned i hx.symm).1
  rw [nodup_ids_iff]
  refine ⟨fun i hi hc => ?_, fun q hq => ⟨fun hc => ?_, fun hc => ?_⟩, ?_⟩
  · have := hinc i hi
    rw [hb.typeId] at hc
    omega
  · have := hbound q hq
    rw [hb.typeId] at hc
    omega
  · have h1 := hbound q hq
    have h2 := hinc _ (Option.mem_toList.mp hc)
    omega
  · -- properties of different names have different identities
    have hnames := (h.propertiesSorted t hb.desired).nodup_map
    rw [hb.map_name] at hnames
    refine (List.Nodup.of_map _ hnames).map_on ?_
    intro q hq r hr hqr
    obtain ⟨p, -, hbp⟩ := hb.properties.exists_left hq
    obtain ⟨p', -, hbp'⟩ := hb.properties.exists_left hr
    have hkey := hfresh.propertyInj _ _ _ hbp.propertyId (hqr ▸ hbp'.propertyId)
    have hname : q.name = r.name := by rw [hbp.name, hbp'.name, (Prod.mk.inj hkey).2]
    exact inj_on_of_nodup_map hnames hq hr hname

/-! ### References -/

variable (hir : buildSchema domain A P n3 s = .ok ir)

include hir

/-- What satisfies an interface property refers to the interface and the property built from it. -/
lemma satisfiedRef_ok {i : InterfaceShape} (hi : i ∈ s.interfaces) {q : PropertyShape}
    (hq : q ∈ i.properties) (h : satisfiedRef A P ⟨i.name, q.name⟩ = .ok r') :
    PropertyRefOk (acceptedTypes ir) r' ∧
      ∃ x a, BuiltFrom A P s ir i.desired x a ∧ r'.ownerTypeId = x.typeId ∧
        ∃ q' ∈ a.properties, q'.propertyId = r'.propertyId ∧ q'.propType = q.propType := by
  obtain ⟨x, hx, href⟩ := satisfiedRef_eq_ok h
  obtain ⟨a, ha⟩ := exists_builtFrom_left hir (InterfaceShape.desired_mem hi) hx
  obtain ⟨hok, q', hq', hid, htype⟩ := ha.propertyRefOk hq href
  exact ⟨hok, x, a, ha, (propertyRef_eq_ok_iff.mp href).2.1, q', hq', hid, htype⟩

lemma typeRef_ok {t : DesiredType} (ht : t ∈ shapeTypes s) {r : TypeRefIR}
    (h : typeRef A t.kind t.name = .ok r) : TypeRefOk (acceptedTypes ir) t.kind r := by
  obtain ⟨x, hx, rfl⟩ := typeRef_eq_ok h
  obtain ⟨a, ha⟩ := exists_builtFrom_left hir ht hx
  exact ⟨a, ha.accepted, ha.typeId, ha.kind, ha.name⟩

/-! ### Provenance -/

lemma provenanceOk (h : WellFormed s) (hb : BuiltFrom A P s ir t x a) (hq : q ∈ a.properties) :
    ProvenanceOk (acceptedTypes ir) a q := by
  obtain ⟨p, hp, hbp⟩ := hb.properties.exists_left hq
  have hok := h.properties t hb.desired p hp
  obtain ⟨refs, hrefs, hsatisfies⟩ := hbp.satisfied
  have hshape : refs.map shapePropertyRef = p.satisfiesInterfaceProperties := by
    have := hrefs.map_eq (f := id) (g := shapePropertyRef)
      fun _ _ hr => (satisfiedRef_shape hr).symm
    rw [← this, List.map_id]
  refine ⟨fun hkind => ?_, fun hkind hdirect => ?_, fun e he => ?_, fun r hr => ?_, ?_⟩
  · rw [hb.kind] at hkind
    obtain ⟨hdirect, hnil⟩ := hok.ofOther (by rw [hkind]; exact TypeKind.noConfusion)
    refine ⟨hbp.declaredDirectly.trans hdirect, ?_⟩
    rw [hnil] at hrefs
    cases hrefs
    exact hsatisfies
  · rw [hb.kind] at hkind
    have hne := hok.ofNode hkind (hbp.declaredDirectly ▸ hdirect)
    rw [hsatisfies]
    intro hnil
    have hlen := congrArg List.length hnil
    rw [length_sortOn, ← length_map shapePropertyRef, hshape] at hlen
    exact hne (length_eq_zero_iff.mp hlen)
  · obtain ⟨e', he', href⟩ := hbp.embed e he
    obtain ⟨p', hp', hname⟩ := List.mem_map.mp (hok.embed e' he')
    rw [← hname] at href
    refine ⟨?_, (hb.propertyRefOk hp' href).1⟩
    rw [hb.typeId, (propertyRef_eq_ok_iff.mp href).2.1]
  · rw [hsatisfies, mem_sortOn] at hr
    obtain ⟨r0, hr0, href⟩ := hrefs.exists_left hr
    obtain ⟨i, hi, hiname, p', hp', hpname⟩ := h.satisfied hb.desired hp hr0
    have hr0eq : r0 = ⟨i.name, p'.name⟩ := by rw [hiname, hpname]
    rw [hr0eq] at href
    obtain ⟨hrefok, y, b, hbi, howner, -⟩ := satisfiedRef_ok hir hi hp' href
    exact ⟨hrefok, b, hbi.accepted, hbi.typeId.trans howner.symm, hbi.kind⟩
  · rw [hsatisfies]
    apply sortOn_increasing
    have hnodup := hok.satisfiesNodup
    rw [← hshape] at hnodup
    exact (List.Nodup.of_map _ hnodup).map PropertyRefIR.sortKey_injective

/-! ### Types -/

lemma nodeOk (h : WellFormed s) {a : NodeIR} (ha : a ∈ ir.nodes) :
    NodeOk (acceptedTypes ir) a := by
  obtain ⟨-, -, -, -, hnodes, -⟩ := buildSchema_eq_ok_iff.mp hir
  obtain ⟨n, hn, hbuild⟩ := hnodes.exists_left ha
  have hok := h.nodes n hn
  obtain ⟨x, hb⟩ := (buildNode_built hbuild).builtFrom (NodeShape.desired_mem hn)
    (NodeIR.accepted_mem ha)
  have hbn := buildNode_builtNode hbuild
  obtain ⟨refs, hrefs, himpl⟩ := hbn.implements
  have hnames : refs.map TypeRefIR.typeName = n.implements := by
    have := hrefs.map_eq (f := id) (g := TypeRefIR.typeName) fun _ _ hr => (typeRef_name hr).symm
    rw [← this, List.map_id]
  have hmem : ∀ r, r ∈ a.implements ↔ r ∈ refs := by
    intro r
    rw [himpl, mem_sortOn]
  -- the reference to an interface the node implements
  have href : ∀ r ∈ a.implements, ∃ i ∈ s.interfaces, i.name ∈ n.implements ∧
      ∃ y b, BuiltFrom A P s ir i.desired y b ∧ r = ⟨y.typeId, i.name⟩ := by
    intro r hr
    obtain ⟨name, hname, hr⟩ := hrefs.exists_left ((hmem r).mp hr)
    obtain ⟨i, hi, rfl⟩ := hok.implements name hname
    obtain ⟨y, hy, rfl⟩ := typeRef_eq_ok hr
    obtain ⟨b, hbi⟩ := exists_builtFrom_left hir (InterfaceShape.desired_mem hi) hy
    exact ⟨i, hi, hname, y, b, hbi, rfl⟩
  refine ⟨?_, fun r hr => ?_, ?_, fun q hq r hr => ?_, fun r hr => ?_, ?_⟩
  · rw [hbn.annotations]
    exact hok.annotations
  · obtain ⟨i, -, -, y, b, hbi, rfl⟩ := href r hr
    exact ⟨b, hbi.accepted, hbi.typeId, hbi.kind, hbi.name⟩
  · rw [himpl]
    apply sortOn_increasing
    have hnodup := hok.implementsNodup
    rw [← hnames] at hnodup
    exact (List.Nodup.of_map _ hnodup).map TypeRefIR.sortKey_injective
  · obtain ⟨p, hp, hbp⟩ := hb.properties.exists_left hq
    obtain ⟨rs, hrs, hsatisfies⟩ := hbp.satisfied
    rw [hsatisfies, mem_sortOn] at hr
    obtain ⟨r0, hr0, hr⟩ := hrs.exists_left hr
    obtain ⟨himplements, i, hi, hiname, p', hp', hpname, htype⟩ := hok.links p hp r0 hr0
    have hr0eq : r0 = ⟨i.name, p'.name⟩ := by rw [hiname, hpname]
    rw [hr0eq] at hr
    obtain ⟨-, y, b, hbi, howner, q', hq', hid, hqtype⟩ := satisfiedRef_ok hir hi hp' hr
    refine ⟨?_, (b, q'), mem_ownedProperties.mpr ⟨hbi.accepted, hq'⟩, hid, ?_⟩
    · obtain ⟨r', hr', htref⟩ := hrefs.exists_right himplements
      obtain ⟨z, hz, rfl⟩ := typeRef_eq_ok htref
      have hyz := hbi.assigned
      rw [← hiname] at hz
      rw [show i.desired.key = (TypeKind.interface, i.name) from rfl, hz] at hyz
      cases hyz
      exact List.mem_map.mpr ⟨_, (hmem _).mpr hr', howner.symm⟩
    · rw [hbp.propType, hqtype, htype]
  · obtain ⟨i, hi, hname, y, b, hbi, rfl⟩ := href r hr
    refine ⟨b, hbi.accepted, hbi.typeId, fun q' hq' => ?_⟩
    obtain ⟨p', hp', hbp'⟩ := hbi.properties.exists_left hq'
    obtain ⟨p, hp, hlink⟩ := hok.implemented i hi hname p' hp'
    obtain ⟨q, hq, hbp⟩ := hb.properties.exists_right hp
    obtain ⟨rs, hrs, hsatisfies⟩ := hbp.satisfied
    obtain ⟨r', hr', hsat⟩ := hrs.exists_right hlink
    obtain ⟨z, hz, href'⟩ := satisfiedRef_eq_ok hsat
    have hyz := hbi.assigned
    rw [show i.desired.key = (TypeKind.interface, i.name) from rfl, hz] at hyz
    cases hyz
    obtain ⟨hlook, howner, -, -⟩ := propertyRef_eq_ok_iff.mp href'
    refine ⟨q, hq, r', ?_, howner, ?_⟩
    · rw [hsatisfies, mem_sortOn]
      exact hr'
    · have hid := hbp'.propertyId
      rw [hlook] at hid
      exact Option.some.inj hid
  · exact constraintsOk hb rfl hok.constraintsSorted hok.columns hbn.constraints

lemma edgeOk (h : WellFormed s) {a : EdgeIR} (ha : a ∈ ir.edges) :
    EdgeOk (acceptedTypes ir) a := by
  obtain ⟨-, -, -, -, -, hedges⟩ := buildSchema_eq_ok_iff.mp hir
  obtain ⟨e, he, hbuild⟩ := hedges.exists_left ha
  have hok := h.edges e he
  obtain ⟨x, hb⟩ := (buildEdge_built hbuild).builtFrom (EdgeShape.desired_mem he)
    (EdgeIR.accepted_mem ha)
  have hbe := buildEdge_builtEdge hbuild
  refine ⟨?_, fun q hq => ?_, ?_, ?_, ?_⟩
  · rw [hbe.annotations]
    exact hok.annotations
  · obtain ⟨p, hp, hbp⟩ := hb.properties.exists_left hq
    have hpok := h.properties _ (EdgeShape.desired_mem he) p hp
    obtain ⟨hdirect, hnil⟩ := hpok.ofOther TypeKind.noConfusion
    obtain ⟨refs, hrefs, hsatisfies⟩ := hbp.satisfied
    rw [hnil] at hrefs
    cases hrefs
    exact ⟨hbp.declaredDirectly.trans hdirect, hsatisfies, hbp.embedNone (hpok.ofEdge rfl)⟩
  · obtain ⟨n, hn, hname⟩ := hok.fromType
    have href := hbe.fromType
    rw [← hname] at href
    exact typeRef_ok hir (NodeShape.desired_mem hn) href
  · obtain ⟨n, hn, hname⟩ := hok.toType
    have href := hbe.toType
    rw [← hname] at href
    exact typeRef_ok hir (NodeShape.desired_mem hn) href
  · exact constraintsOk hb rfl hok.constraintsSorted hok.columns hbe.constraints

/-- Fresh ids on a well-formed shape give a valid schema. -/
theorem valid_of_freshIds (h : WellFormed s) (hfresh : FreshIds A P n1 n2 n3 (shapeTypes s)) :
    Valid ir := by
  obtain ⟨hversion, -, hnext, hi, hn, he⟩ := buildSchema_eq_ok_iff.mp hir
  have hbuilt := buildSchema_built hir
  have hkeys : ((acceptedTypes ir).map AcceptedType.key).Nodup := by
    rw [← Built.map_key hbuilt]
    exact h.keys_nodup
  have hlt : ∀ i ∈ ir.ids, i < n3 := by
    intro i hi
    obtain ⟨a, ha, hia⟩ := mem_flatMap.mp hi
    obtain ⟨t, x, hb⟩ := exists_builtFrom_right hir ha
    have hle := hfresh.le
    rcases mem_ids_cases hfresh hb hia with ⟨-, -, _⟩ | ⟨_, -, -, _⟩ | ⟨-, -, _⟩ <;> omega
  have hpos : 0 < n3 := by
    have hle := hfresh.le
    omega
  refine ⟨hversion, hnext ▸ hpos, ?_, ?_, hkeys, ?_, ?_, ?_, ?_, ?_, ?_, ?_, ?_⟩
  · rw [SchemaIR.ids, nodup_flatMap]
    refine ⟨fun a ha => ?_, ?_⟩
    · obtain ⟨t, x, hb⟩ := exists_builtFrom_right hir ha
      exact nodup_ids_built h hfresh hb
    · have hpair : (acceptedTypes ir).Pairwise fun a b => a.key ≠ b.key := by
        rw [List.Nodup, pairwise_map] at hkeys
        exact hkeys
      refine hpair.imp_of_mem ?_
      intro a b ha hb hne i hia hib
      obtain ⟨t, x, hba⟩ := exists_builtFrom_right hir ha
      obtain ⟨u, y, hbb⟩ := exists_builtFrom_right hir hb
      exact hne (key_eq_of_mem_ids hfresh hba hbb hia hib)
  · rw [hnext]
    exact hlt
  · intro a ha q hq
    obtain ⟨t, x, hb⟩ := exists_builtFrom_right hir ha
    exact propertyOk h hb hq
  · exact h.interfacesSorted.of_map_eq <| hi.map_eq fun _ _ hb =>
      (Prod.mk.inj (buildInterface_built hb).key).2.symm
  · exact h.nodesSorted.of_map_eq <| hn.map_eq fun _ _ hb =>
      (Prod.mk.inj (buildNode_built hb).key).2.symm
  · exact h.edgesSorted.of_map_eq <| he.map_eq fun _ _ hb =>
      (Prod.mk.inj (buildEdge_built hb).key).2.symm
  · intro a ha
    obtain ⟨t, x, hb⟩ := exists_builtFrom_right hir ha
    exact (h.propertiesSorted t hb.desired).of_map_eq (hb.map_name)
  · intro a ha q hq
    obtain ⟨t, x, hb⟩ := exists_builtFrom_right hir ha
    exact provenanceOk hir h hb hq
  · exact fun a ha => nodeOk hir h ha
  · exact fun a ha => edgeOk hir h ha

end Valid

/-- Every well-formed shape can be initialized, unless the identities are used up. -/
theorem initializeSchemaIr_ok {domain : SchemaIdentityDomain} {s : SchemaShape} (h : WellFormed s)
    (hne : initializeSchemaIr domain s ≠ .error .allocatorExhausted) :
    ∃ res, initializeSchemaIr domain s = .ok res := by
  obtain ⟨A, P, n1, n2, n3, hfresh, hrun⟩ := exists_freshIds h hne
  obtain ⟨ir, hir⟩ := hfresh.buildSchema_ok h domain
  obtain ⟨res, hres, -⟩ := hrun ir hir (valid_of_freshIds hir h hfresh)
  exact ⟨res, hres⟩

end Omnigraph.Schema
