import Omnigraph.Schema.Ir

/-!
# Valid schemas

What `validateSchemaIr` checks, without the order of its passes: `Valid`. Identities are used once
and lie below the counter, names are sorted, and references point to what they name.
-/

namespace Omnigraph.Schema

open List Option Except AcceptedType

open Compiler (PropType ScalarType)
open Sorted

/-! ### Conditions -/

/-- A reference to a type of this kind. -/
def TypeRefOk (types : List AcceptedType) (kind : TypeKind) (r : TypeRefIR) : Prop :=
  ∃ t ∈ types, t.typeId = r.typeId ∧ t.kind = kind ∧ t.name = r.typeName

/-- A reference to a property of a type. -/
def PropertyRefOk (types : List AcceptedType) (r : PropertyRefIR) : Prop :=
  ∃ t ∈ types, ∃ p ∈ t.properties, t.typeId = r.ownerTypeId ∧ t.name = r.ownerTypeName ∧
    p.propertyId = r.propertyId ∧ p.name = r.propertyName

structure AnnotationsOk (annotations : List Annotation) : Prop where
  opaqueOnly : ∀ a ∈ annotations, isTypedAnnotation a.name = false
  sorted : Increasing Annotation.json annotations

/-- What is checked of a property alone. -/
structure PropertyOk (p : PropertyIR) : Prop where
  notReserved : isReservedStorageSystemColumn p.name = false
  annotations : AnnotationsOk p.annotations
  enumSorted : Increasing id (p.propType.enumValues.getD [])
  constraintsSorted : Increasing PropertyConstraintShape.rank p.propertyConstraints

/-- What is checked of a property and its owner. -/
structure ProvenanceOk (types : List AcceptedType) (owner : AcceptedType) (p : PropertyIR) :
    Prop where
  ofInterface : owner.kind = .interface →
    p.declaredDirectly = true ∧ p.satisfiesInterfaceProperties = []
  ofNode : owner.kind = .node → p.declaredDirectly = false → p.satisfiesInterfaceProperties ≠ []
  embed : ∀ embed ∈ p.embedSource,
    owner.typeId = embed.source.ownerTypeId ∧ PropertyRefOk types embed.source
  satisfied : ∀ r ∈ p.satisfiesInterfaceProperties, PropertyRefOk types r ∧
    ∃ t ∈ types, t.typeId = r.ownerTypeId ∧ t.kind = .interface
  satisfiedSorted : Increasing PropertyRefIR.sortKey p.satisfiesInterfaceProperties

/-- A column of the table. -/
def FieldOk (types : List AcceptedType) (table : AcceptedType) : FieldRefIR → Prop
  | .property r => table.typeId = r.ownerTypeId ∧ PropertyRefOk types r
  | .system r => r.stableTableId = table.typeId ∧ some r.tableIncarnationId = table.incarnation ∧
      r.tableTypeName = table.name ∧ (table.kind = .node → r.role = .id)

structure ConstraintsOk (types : List AcceptedType) (table : AcceptedType)
    (constraints : List ConstraintIR) : Prop where
  sorted : Increasing (fun c => constraintSortKey (constraintFromIr c)) constraints
  fields : ∀ c ∈ constraints, ∀ field ∈ c.fields, FieldOk types table field

structure NodeOk (types : List AcceptedType) (node : NodeIR) : Prop where
  annotations : AnnotationsOk node.annotations
  implements : ∀ r ∈ node.implements, TypeRefOk types .interface r
  implementsSorted : Increasing TypeRefIR.sortKey node.implements
  links : ∀ p ∈ node.properties, ∀ r ∈ p.satisfiesInterfaceProperties,
    r.ownerTypeId ∈ node.implements.map TypeRefIR.typeId ∧
      ∃ q ∈ ownedProperties types, q.2.propertyId = r.propertyId ∧ q.2.propType = p.propType
  implemented : ∀ r ∈ node.implements, ∃ t ∈ types, t.typeId = r.typeId ∧
    ∀ p ∈ t.properties, node.links r.typeId p.propertyId
  constraints : ConstraintsOk types node.accepted node.constraints

structure EdgeOk (types : List AcceptedType) (edge : EdgeIR) : Prop where
  annotations : AnnotationsOk edge.annotations
  properties : ∀ p ∈ edge.properties, p.declaredDirectly = true ∧
    p.satisfiesInterfaceProperties = [] ∧ p.embedSource = none
  fromType : TypeRefOk types .node edge.fromType
  toType : TypeRefOk types .node edge.toType
  constraints : ConstraintsOk types edge.accepted edge.constraints

def AcceptedType.key (t : AcceptedType) : TypeKind × String := (t.kind, t.name)

/-- The schemas `validateSchemaIr` accepts. -/
structure Valid (ir : SchemaIR) : Prop where
  version : ir.irVersion = schemaIrVersion
  nextPos : 0 < ir.nextIdentityId
  idsNodup : ir.ids.Nodup
  idsLt : ∀ id ∈ ir.ids, id < ir.nextIdentityId
  keysNodup : ((acceptedTypes ir).map key).Nodup
  properties : ∀ t ∈ acceptedTypes ir, ∀ p ∈ t.properties, PropertyOk p
  interfacesSorted : Increasing InterfaceIR.name ir.interfaces
  nodesSorted : Increasing NodeIR.name ir.nodes
  edgesSorted : Increasing EdgeIR.name ir.edges
  propertiesSorted : ∀ t ∈ acceptedTypes ir, Increasing PropertyIR.name t.properties
  provenance : ∀ t ∈ acceptedTypes ir, ∀ p ∈ t.properties, ProvenanceOk (acceptedTypes ir) t p
  nodes : ∀ n ∈ ir.nodes, NodeOk (acceptedTypes ir) n
  edges : ∀ e ∈ ir.edges, EdgeOk (acceptedTypes ir) e

/-! ### Identities used once -/

variable {i : ℕ}

section Unique

variable {types : List AcceptedType} {t u : AcceptedType} {p q : PropertyIR}

/-- No identity is used twice. -/
def IdsNodup (types : List AcceptedType) : Prop := (types.flatMap AcceptedType.ids).Nodup

lemma IdsNodup.ids (h : IdsNodup types) (ht : t ∈ types) : t.ids.Nodup :=
  (nodup_flatMap.mp h).1 t ht

lemma IdsNodup.eq_of_mem_ids (h : IdsNodup types) (ht : t ∈ types) (hu : u ∈ types) (hi : i ∈ t.ids)
    (hi' : i ∈ u.ids) : t = u := by
  by_contra hne
  have hsymm : Std.Symm (Function.onFun List.Disjoint AcceptedType.ids) :=
    ⟨fun _ _ hab => List.Disjoint.symm hab⟩
  exact (nodup_flatMap.mp h).2.forall ht hu hne hi hi'

lemma AcceptedType.typeId_mem_ids (t : AcceptedType) : t.typeId ∈ t.ids := by simp [ids]

lemma AcceptedType.incarnation_mem_ids (h : t.incarnation = some i) : i ∈ t.ids := by
  simp [ids, h]

lemma AcceptedType.propertyId_mem_ids (h : p ∈ t.properties) : p.propertyId ∈ t.ids := by
  simp only [ids, mem_cons, mem_append, List.mem_map]
  exact .inr (.inr ⟨p, h, rfl⟩)

lemma IdsNodup.typeId_inj (h : IdsNodup types) (ht : t ∈ types) (hu : u ∈ types)
    (hid : t.typeId = u.typeId) : t = u :=
  h.eq_of_mem_ids ht hu t.typeId_mem_ids (hid ▸ u.typeId_mem_ids)

/-- A property's identity tells its owner and the property. -/
lemma IdsNodup.propertyId_inj (h : IdsNodup types) (ht : t ∈ types) (hu : u ∈ types)
    (hp : p ∈ t.properties) (hq : q ∈ u.properties) (hid : p.propertyId = q.propertyId) :
    t = u ∧ p = q := by
  have htu : t = u := h.eq_of_mem_ids ht hu (propertyId_mem_ids hp)
    (hid ▸ propertyId_mem_ids hq)
  subst htu
  refine ⟨rfl, ?_⟩
  have hnodup := (nodup_append.mp (nodup_cons.mp (h.ids ht)).2).2.1
  exact inj_on_of_nodup_map hnodup hp hq hid

lemma mem_ownedProperties : (t, p) ∈ ownedProperties types ↔ t ∈ types ∧ p ∈ t.properties := by
  simp only [ownedProperties, mem_flatMap, List.mem_map, Prod.mk.injEq]
  constructor
  · rintro ⟨_, ht, _, hp, rfl, rfl⟩
    exact ⟨ht, hp⟩
  · rintro ⟨ht, hp⟩
    exact ⟨t, ht, p, hp, rfl, rfl⟩

lemma IdsNodup.lookup_typeById (h : IdsNodup types) :
    (typeById types).lookup i = some t ↔ t ∈ types ∧ t.typeId = i := by
  have hfun : ∀ a ∈ types, ∀ b ∈ types, a.typeId = b.typeId → id a = id b :=
    fun a ha b hb hab => h.typeId_inj ha hb hab
  rw [typeById, HashMap.lookup_insertAll hfun]
  simp only [id_eq, AList.lookup_empty, reduceCtorEq, and_false, or_false]
  constructor
  · rintro ⟨_, ht, hi, rfl⟩
    exact ⟨ht, hi⟩
  · rintro ⟨ht, hi⟩
    exact ⟨t, ht, hi, rfl⟩

lemma IdsNodup.lookup_propertyById (h : IdsNodup types) :
    (propertyById types).lookup i = some (t, p) ↔
      t ∈ types ∧ p ∈ t.properties ∧ p.propertyId = i := by
  have hfun : ∀ a ∈ ownedProperties types, ∀ b ∈ ownedProperties types,
      a.2.propertyId = b.2.propertyId → id a = id b := by
    rintro ⟨a, a'⟩ ha ⟨b, b'⟩ hb hab
    obtain ⟨ha, ha'⟩ := mem_ownedProperties.mp ha
    obtain ⟨hb, hb'⟩ := mem_ownedProperties.mp hb
    obtain ⟨rfl, rfl⟩ := h.propertyId_inj ha hb ha' hb' hab
    rfl
  rw [propertyById, HashMap.lookup_insertAll hfun]
  simp only [id_eq, AList.lookup_empty, reduceCtorEq, and_false, or_false]
  constructor
  · rintro ⟨_, hmem, hi, rfl⟩
    exact ⟨(mem_ownedProperties.mp hmem).1, (mem_ownedProperties.mp hmem).2, hi⟩
  · rintro ⟨ht, hp, hi⟩
    exact ⟨(t, p), mem_ownedProperties.mpr ⟨ht, hp⟩, hi, rfl⟩

end Unique

/-! ### The first pass -/

/-- The identities and names seen so far. -/
structure IdentityCheck.Saw (check : IdentityCheck) (seen : List ℕ)
    (names : List (TypeKind × String)) : Prop where
  ids : ∀ i, i ∈ check.allIds ↔ i ∈ seen
  max : ∀ n, check.maxId < n ↔ 0 < n ∧ ∀ i ∈ seen, i < n
  names : ∀ k, k ∈ check.typeNames ↔ k ∈ names

/-- The state after one more identity. -/
def IdentityCheck.add (check : IdentityCheck) (i : ℕ) (entity : String) : IdentityCheck :=
  { check with allIds := check.allIds.insert i entity, maxId := Max.max check.maxId i }

variable {entity : String}

section FirstPass

variable {check check' : IdentityCheck} {seen : List ℕ} {names : List (TypeKind × String)}

lemma insertGlobalId_eq_ok_iff :
    insertGlobalId check i entity = .ok check' ↔
      i ∉ check.allIds ∧ check' = check.add i entity := by
  unfold insertGlobalId
  cases hlook : check.allIds.lookup i with
  | some previous =>
    have hmem : i ∈ check.allIds := HashMap.mem_of_lookup hlook
    simp [hmem]
  | none =>
    have hmem : i ∉ check.allIds := AList.lookup_eq_none.mp hlook
    simp only [hmem, not_false_eq_true, true_and, Except.ok.injEq]
    exact ⟨fun h => h.symm, fun h => h.symm⟩

variable (h : check.Saw seen names)

include h in
lemma IdentityCheck.Saw.add (i : ℕ) (entity : String) :
    (check.add i entity).Saw (seen ++ [i]) names := by
  refine ⟨fun j => ?_, fun n => ?_, h.names⟩
  · show j ∈ check.allIds.insert i entity ↔ _
    rw [AList.mem_insert, h.ids j, mem_append, mem_singleton, or_comm]
  · show Max.max check.maxId i < n ↔ _
    rw [max_lt_iff, h.max n]
    simp only [mem_append, mem_singleton, or_imp, forall_and, forall_eq, and_assoc]

lemma validateAnnotations_eq_ok_iff {annotations : List Annotation} {u : Unit} :
    validateAnnotations annotations entity = .ok u ↔ AnnotationsOk annotations := by
  simp only [validateAnnotations, bind_eq_ok_iff, ensure_eq_ok_iff]
  have hunknown : (∃ a, ensureOpaque annotations entity = .ok a) ↔
      ∀ a ∈ annotations, isTypedAnnotation a.name = false := by
    unfold ensureOpaque
    cases hfind : annotations.find? (fun a => isTypedAnnotation a.name) with
    | some a =>
      have ha := List.find?_some hfind
      have hmem := mem_of_find?_eq_some hfind
      simp only [reduceCtorEq, exists_const, false_iff, not_forall]
      exact ⟨a, hmem, by simp [ha]⟩
    | none =>
      rw [List.find?_eq_none] at hfind
      simpa using hfind
  constructor
  · rintro ⟨a, ha, hsorted⟩
    exact ⟨hunknown.mp ⟨a, ha⟩, hsorted⟩
  · rintro ⟨hall, hsorted⟩
    obtain ⟨a, ha⟩ := hunknown.mpr hall
    exact ⟨a, ha, hsorted⟩

variable {before : List String} {owner : String}

lemma validateProperty_eq_ok_iff {p : PropertyIR} :
    (∃ r, validateProperty owner (check, before) p = .ok r) ↔
      PropertyOk p ∧ p.name ∉ before ∧ p.propertyId ∉ check.allIds := by
  simp only [validateProperty, bind_eq_ok_iff, ensure_eq_ok_iff, insertGlobalId_eq_ok_iff,
    validateAnnotations_eq_ok_iff, ensureSortedUnique, pure_eq_ok_iff]
  constructor
  · rintro ⟨_, _, h1, _, h2, _, ⟨h3, -⟩, _, h4, _, h5, _, h6, -⟩
    exact ⟨⟨h1, h4, h5, h6⟩, h2, h3⟩
  · rintro ⟨⟨h1, h4, h5, h6⟩, h2, h3⟩
    exact ⟨_, (), h1, (), h2, _, ⟨h3, rfl⟩, (), h4, (), h5, (), h6, rfl⟩

include h in
lemma IdentityCheck.Saw.validateProperty {p : PropertyIR} {r : IdentityCheck × List String}
    (hr : Schema.validateProperty owner (check, before) p = .ok r) :
    r.1.Saw (seen ++ [p.propertyId]) names ∧ r.2 = p.name :: before := by
  simp only [Schema.validateProperty, bind_eq_ok_iff, insertGlobalId_eq_ok_iff,
    pure_eq_ok_iff] at hr
  obtain ⟨_, -, _, -, _, ⟨-, rfl⟩, _, -, _, -, _, -, rfl⟩ := hr
  exact ⟨h.add _ _, rfl⟩

include h in
/-- The properties of a type, after those named `before`. -/
lemma IdentityCheck.Saw.validateProperties {ps : List PropertyIR} :
    ((∃ r, ps.foldlM (Schema.validateProperty owner) (check, before) = .ok r) ↔
      (∀ p ∈ ps, PropertyOk p ∧ p.name ∉ before ∧ p.propertyId ∉ seen) ∧
        (ps.map PropertyIR.name).Nodup ∧ (ps.map PropertyIR.propertyId).Nodup) ∧
      ∀ r, ps.foldlM (Schema.validateProperty owner) (check, before) = .ok r →
        r.1.Saw (seen ++ ps.map PropertyIR.propertyId) names := by
  induction ps generalizing check before seen with
  | nil =>
    refine ⟨by simp [pure, Except.pure], fun r hr => ?_⟩
    cases hr
    simpa using h
  | cons p ps ih =>
    simp only [foldlM_cons, bind_eq_ok_iff]
    have hstep : ∀ r, Schema.validateProperty owner (check, before) p = .ok r →
        r.1.Saw (seen ++ [p.propertyId]) names ∧ r.2 = p.name :: before :=
      fun r hr => h.validateProperty hr
    refine ⟨⟨?_, ?_⟩, ?_⟩
    · rintro ⟨r, ⟨check', before'⟩, hp, hps⟩
      obtain ⟨hsaw, rfl⟩ := hstep _ hp
      obtain ⟨hpok, hname, hid⟩ := validateProperty_eq_ok_iff.mp ⟨_, hp⟩
      rw [h.ids] at hid
      obtain ⟨hall, hnames, hids⟩ := (ih hsaw).1.mp ⟨r, hps⟩
      refine ⟨?_, ?_, ?_⟩
      · intro q hq
        rcases mem_cons.mp hq with rfl | hq
        · exact ⟨hpok, hname, hid⟩
        · obtain ⟨hqok, hqname, hqid⟩ := hall q hq
          exact ⟨hqok, fun hc => hqname (by simp [hc]), fun hc => hqid (by simp [hc])⟩
      · rw [map_cons, nodup_cons]
        refine ⟨fun hc => ?_, hnames⟩
        obtain ⟨q, hq, hqn⟩ := List.mem_map.mp hc
        exact (hall q hq).2.1 (by simp [hqn])
      · rw [map_cons, nodup_cons]
        refine ⟨fun hc => ?_, hids⟩
        obtain ⟨q, hq, hqn⟩ := List.mem_map.mp hc
        exact (hall q hq).2.2 (by simp [hqn])
    · rintro ⟨hall, hnames, hids⟩
      rw [map_cons, nodup_cons] at hnames hids
      obtain ⟨hpok, hname, hid⟩ := hall p (by simp)
      obtain ⟨⟨check', before'⟩, hp⟩ := validateProperty_eq_ok_iff.mpr
        ⟨hpok, hname, fun hc => hid ((h.ids _).mp hc)⟩
      obtain ⟨hsaw, rfl⟩ := hstep _ hp
      have hrest : ∀ q ∈ ps, PropertyOk q ∧ q.name ∉ p.name :: before ∧
          q.propertyId ∉ seen ++ [p.propertyId] := by
        intro q hq
        obtain ⟨hqok, hqname, hqid⟩ := hall q (by simp [hq])
        refine ⟨hqok, fun hc => ?_, fun hc => ?_⟩
        · rcases mem_cons.mp hc with hc | hc
          · exact hnames.1 (List.mem_map.mpr ⟨q, hq, hc⟩)
          · exact hqname hc
        · rcases mem_append.mp hc with hc | hc
          · exact hqid hc
          · exact hids.1 (List.mem_map.mpr ⟨q, hq, mem_singleton.mp hc⟩)
      obtain ⟨r, hr⟩ := (ih hsaw).1.mpr ⟨hrest, hnames.2, hids.2⟩
      exact ⟨r, _, hp, hr⟩
    · rintro r ⟨⟨check', before'⟩, hp, hps⟩
      obtain ⟨hsaw, rfl⟩ := hstep _ hp
      simpa using (ih hsaw).2 r hps

/-- What is checked of one type. -/
structure TypeOk (t : AcceptedType) : Prop where
  ids : t.ids.Nodup
  names : (t.properties.map PropertyIR.name).Nodup
  properties : ∀ p ∈ t.properties, PropertyOk p

include h in
lemma IdentityCheck.Saw.named (key : TypeKind × String) :
    IdentityCheck.Saw { check with typeNames := key :: check.typeNames } seen (names ++ [key]) := by
  refine ⟨h.ids, h.max, fun k => ?_⟩
  rw [mem_cons, h.names k, mem_append, mem_singleton, or_comm]

include h in
/-- The table of a type: its identity must be new. -/
lemma IdentityCheck.Saw.validateIncarnation (t : AcceptedType) :
    ((∃ r, Schema.validateIncarnation check t = .ok r) ↔ ∀ i ∈ t.incarnation, i ∉ seen) ∧
      ∀ r, Schema.validateIncarnation check t = .ok r →
        r.Saw (seen ++ t.incarnation.toList) names := by
  unfold Schema.validateIncarnation
  cases t.incarnation with
  | none =>
    refine ⟨by simp, fun r hr => ?_⟩
    cases hr
    simpa using h
  | some i =>
    simp only [insertGlobalId_eq_ok_iff, h.ids]
    refine ⟨⟨fun ⟨_, hi, _⟩ j hj => by cases hj; exact hi, fun hi => ⟨_, hi i rfl, rfl⟩⟩, ?_⟩
    rintro r ⟨-, rfl⟩
    exact h.add i _

lemma nodup_ids_iff (t : AcceptedType) : t.ids.Nodup ↔
    (∀ i ∈ t.incarnation, i ≠ t.typeId) ∧
      (∀ p ∈ t.properties, p.propertyId ≠ t.typeId ∧ p.propertyId ∉ t.incarnation.toList) ∧
        (t.properties.map PropertyIR.propertyId).Nodup := by
  cases hinc : t.incarnation with
  | none =>
    simp only [AcceptedType.ids, hinc, toList_none, nil_append, nodup_cons,
      List.mem_map, not_exists, not_and]
    simp
  | some i =>
    simp only [AcceptedType.ids, hinc, toList_some, singleton_append, nodup_cons,
      List.mem_map, not_exists, not_and, mem_cons, not_or]
    simp only [mem_def, Option.some.injEq, forall_eq', forall_and]
    grind

include h in
/-- One type, after those that hold `seen` and are called `names`. -/
lemma IdentityCheck.Saw.validateType (t : AcceptedType) :
    ((∃ r, Schema.validateType check t = .ok r) ↔
      TypeOk t ∧ (∀ i ∈ t.ids, i ∉ seen) ∧ t.key ∉ names) ∧
      ∀ r, Schema.validateType check t = .ok r → r.Saw (seen ++ t.ids) (names ++ [t.key]) := by
  simp only [Schema.validateType, bind_eq_ok_iff, insertGlobalId_eq_ok_iff,
    ensure_eq_ok_iff, pure_eq_ok_iff]
  have hadd := fun entity => ((h.add t.typeId entity).named t.key)
  have hnames : ∀ entity, (t.kind, t.name) ∉ (check.add t.typeId entity).typeNames ↔
      t.key ∉ names := fun entity => not_congr (h.names t.key)
  refine ⟨⟨?_, ?_⟩, ?_⟩
  · rintro ⟨_, c, ⟨hid, rfl⟩, _, hname, d, hd, ⟨e, before⟩, he, rfl⟩
    obtain ⟨hinc, hsaw⟩ := (hadd _).validateIncarnation t
    obtain ⟨hall, hpnames, hpids⟩ := (hsaw d hd).validateProperties.1.mp ⟨_, he⟩
    have hinc := hinc.mp ⟨_, hd⟩
    rw [h.ids] at hid
    refine ⟨⟨?_, hpnames, fun p hp => (hall p hp).1⟩, ?_, (hnames _).mp hname⟩
    · rw [nodup_ids_iff]
      refine ⟨fun i hi hc => hinc i hi (by simp [hc]), fun p hp => ?_, hpids⟩
      have := (hall p hp).2.2
      simp only [mem_append, mem_singleton, not_or] at this
      exact ⟨this.1.2, this.2⟩
    · intro i hi
      simp only [AcceptedType.ids, mem_cons, mem_append, mem_toList,
        List.mem_map] at hi
      rcases hi with rfl | hi | ⟨p, hp, rfl⟩
      · exact hid
      · exact fun hc => hinc i hi (by simp [hc])
      · exact fun hc => (hall p hp).2.2 (by simp [hc])
  · rintro ⟨⟨hids, hpnames, hpok⟩, hnew, hname⟩
    obtain ⟨hinc, hprops, hpids⟩ := (nodup_ids_iff t).mp hids
    have hid : t.typeId ∉ check.allIds := by
      rw [h.ids]
      exact hnew _ t.typeId_mem_ids
    let entity := s!"{t.kind.label} type '{t.name}'"
    obtain ⟨hok, hsaw⟩ := (hadd entity).validateIncarnation t
    obtain ⟨d, hd⟩ := hok.mpr fun i hi hc => by
      rcases mem_append.mp hc with hc | hc
      · exact hnew i (incarnation_mem_ids hi) hc
      · exact hinc i hi (mem_singleton.mp hc)
    have hall : ∀ p ∈ t.properties, PropertyOk p ∧ p.name ∉ ([] : List String) ∧
        p.propertyId ∉ seen ++ [t.typeId] ++ t.incarnation.toList := by
      intro p hp
      refine ⟨hpok p hp, by simp, fun hc => ?_⟩
      rw [mem_append, mem_append, mem_singleton] at hc
      rcases hc with (hc | hc) | hc
      · exact hnew _ (propertyId_mem_ids hp) hc
      · exact (hprops p hp).1 hc
      · exact (hprops p hp).2 hc
    obtain ⟨e, he⟩ := (hsaw d hd).validateProperties.1.mpr ⟨hall, hpnames, hpids⟩
    exact ⟨_, _, ⟨hid, rfl⟩, (), (hnames entity).mpr hname, d, hd, e, he, rfl⟩
  · rintro r ⟨c, ⟨-, rfl⟩, _, -, d, hd, ⟨e, before⟩, he, rfl⟩
    have hsaw := ((hadd _).validateIncarnation t).2 d hd
    have := hsaw.validateProperties.2 _ he
    simpa [AcceptedType.ids] using this

/-- The first pass over all types. -/
lemma IdentityCheck.Saw.validateTypes {types : List AcceptedType} (h : check.Saw seen names) :
    ((∃ r, types.foldlM Schema.validateType check = .ok r) ↔
      (∀ t ∈ types, TypeOk t ∧ (∀ i ∈ t.ids, i ∉ seen) ∧ t.key ∉ names) ∧
        IdsNodup types ∧ (types.map key).Nodup) ∧
      ∀ r, types.foldlM Schema.validateType check = .ok r →
        r.Saw (seen ++ types.flatMap AcceptedType.ids) (names ++ types.map key) := by
  induction types generalizing check seen names with
  | nil =>
    refine ⟨by simp [IdsNodup, pure, Except.pure], fun r hr => ?_⟩
    cases hr
    simpa using h
  | cons t types ih =>
    simp only [foldlM_cons, bind_eq_ok_iff]
    obtain ⟨hok, hsaw⟩ := h.validateType t
    refine ⟨⟨?_, ?_⟩, ?_⟩
    · rintro ⟨r, c, hc, hr⟩
      obtain ⟨htok, htids, htkey⟩ := hok.mp ⟨c, hc⟩
      obtain ⟨hall, hids, hkeys⟩ := (ih (hsaw c hc)).1.mp ⟨r, hr⟩
      refine ⟨?_, ?_, ?_⟩
      · intro u hu
        rcases mem_cons.mp hu with rfl | hu
        · exact ⟨htok, htids, htkey⟩
        · obtain ⟨huok, huids, hukey⟩ := hall u hu
          exact ⟨huok, fun i hi hc => huids i hi (by simp [hc]), fun hc => hukey (by simp [hc])⟩
      · rw [IdsNodup, flatMap_cons, nodup_append]
        refine ⟨htok.ids, hids, fun i hi j hj hij => ?_⟩
        obtain ⟨u, hu, hju⟩ := mem_flatMap.mp hj
        exact (hall u hu).2.1 j hju (by simp [← hij, hi])
      · rw [map_cons, nodup_cons]
        refine ⟨fun hc => ?_, hkeys⟩
        obtain ⟨u, hu, huk⟩ := List.mem_map.mp hc
        exact (hall u hu).2.2 (by simp [huk])
    · rintro ⟨hall, hids, hkeys⟩
      rw [IdsNodup, flatMap_cons, nodup_append] at hids
      rw [map_cons, nodup_cons] at hkeys
      obtain ⟨c, hc⟩ := hok.mpr (hall t (by simp))
      have hrest : ∀ u ∈ types, TypeOk u ∧ (∀ i ∈ u.ids, i ∉ seen ++ t.ids) ∧
          u.key ∉ names ++ [t.key] := by
        intro u hu
        obtain ⟨huok, huids, hukey⟩ := hall u (by simp [hu])
        refine ⟨huok, fun i hi hc => ?_, fun hc => ?_⟩
        · rcases mem_append.mp hc with hc | hc
          · exact huids i hi hc
          · exact hids.2.2 i hc i (mem_flatMap.mpr ⟨u, hu, hi⟩) rfl
        · rcases mem_append.mp hc with hc | hc
          · exact hukey hc
          · exact hkeys.1 (List.mem_map.mpr ⟨u, hu, mem_singleton.mp hc⟩)
      obtain ⟨r, hr⟩ := (ih (hsaw c hc)).1.mpr ⟨hrest, hids.2.1, hkeys.2⟩
      exact ⟨r, c, hc, hr⟩
    · rintro r ⟨c, hc, hr⟩
      simpa using (ih (hsaw c hc)).2 r hr

end FirstPass

/-! ### References -/

section References

variable {types : List AcceptedType}

variable {kind : TypeKind} {r : PropertyRefIR} {incarnation : ℕ} {table : AcceptedType}
  {node : NodeIR}

lemma IdsNodup.validateTypeRef (h : IdsNodup types) {r : TypeRefIR} {u : Unit} :
    validateTypeRef types r kind = .ok u ↔ TypeRefOk types kind r := by
  unfold Schema.validateTypeRef
  cases hlook : (typeById types).lookup r.typeId with
  | none =>
    simp only [reduceCtorEq, false_iff, TypeRefOk, not_exists, not_and]
    intro t ht hid
    rw [h.lookup_typeById.mpr ⟨ht, hid⟩] at hlook
    cases hlook
  | some target =>
    obtain ⟨htarget, hid⟩ := h.lookup_typeById.mp hlook
    rw [ensure_eq_ok_iff]
    constructor
    · rintro ⟨hkind, hname⟩
      exact ⟨target, htarget, hid, hkind, hname⟩
    · rintro ⟨t, ht, htid, hkind, hname⟩
      obtain rfl := h.typeId_inj ht htarget (htid.trans hid.symm)
      exact ⟨hkind, hname⟩

lemma IdsNodup.validatePropertyRef (h : IdsNodup types) {owner : Option ℕ} {u : Unit} :
    validatePropertyRef types r owner = .ok u ↔
      (∀ expected ∈ owner, expected = r.ownerTypeId) ∧ PropertyRefOk types r := by
  unfold Schema.validatePropertyRef
  cases hlook : (propertyById types).lookup r.propertyId with
  | none =>
    simp only [reduceCtorEq, false_iff, PropertyRefOk, not_and, not_exists]
    intro _ t ht p hp _ _ hid
    rw [h.lookup_propertyById.mpr ⟨ht, hp, hid⟩] at hlook
    cases hlook
  | some target =>
    obtain ⟨t, p⟩ := target
    obtain ⟨ht, hp, hid⟩ := h.lookup_propertyById.mp hlook
    rw [ensure_eq_ok_iff]
    constructor
    · rintro ⟨hexp, hown, hname, hpname, -⟩
      exact ⟨hexp, t, ht, p, hp, hown, hname, hid, hpname⟩
    · rintro ⟨hexp, t', ht', p', hp', hown, hname, hid', hpname⟩
      obtain ⟨rfl, rfl⟩ := h.propertyId_inj ht' ht hp' hp (hid'.trans hid.symm)
      refine ⟨hexp, hown, hname, hpname, ?_⟩
      rw [h.lookup_typeById.mpr ⟨ht, hown⟩]
      rfl

lemma IdsNodup.kind_eq_iff (h : IdsNodup types) :
    ((typeById types).lookup i).map AcceptedType.kind = some kind ↔
      ∃ t ∈ types, t.typeId = i ∧ t.kind = kind := by
  rw [map_eq_some_iff]
  simp only [h.lookup_typeById, and_assoc]

lemma IdsNodup.validateProvenance (h : IdsNodup types) {owner : AcceptedType} {p : PropertyIR}
    {u : Unit} : validateProvenance types owner p = .ok u ↔ ProvenanceOk types owner p := by
  simp only [Schema.validateProvenance, bind_eq_ok_iff, ensure_eq_ok_iff,
    forM_eq_ok_iff, validateSatisfied, h.validatePropertyRef, h.kind_eq_iff]
  constructor
  · rintro ⟨_, h1, _, h2, ⟨⟩, h3, ⟨⟩, h4, h5⟩
    refine ⟨h1, h2, fun embed he => ?_, fun r hr => ?_, h5⟩
    · obtain ⟨hown, href⟩ := h3 embed (mem_toList.mpr he)
      exact ⟨hown _ rfl, href⟩
    · obtain ⟨_, ⟨-, href⟩, hkind⟩ := h4 r hr
      exact ⟨href, hkind⟩
  · rintro ⟨h1, h2, h3, h4, h5⟩
    refine ⟨(), h1, (), h2, ⟨⟩, fun embed he => ?_, ⟨⟩, fun r hr => ?_, h5⟩
    · obtain ⟨hown, href⟩ := h3 embed (mem_toList.mp he)
      exact ⟨fun _ hx => by cases hx; exact hown, href⟩
    · obtain ⟨href, hkind⟩ := h4 r hr
      exact ⟨(), ⟨by simp, href⟩, hkind⟩

lemma IdsNodup.validateField (h : IdsNodup types) (ht : table ∈ types)
    (hinc : table.incarnation = some incarnation) (hkind : table.kind.hasTable = true)
    {field : FieldRefIR} {u : Unit} :
    validateField types table.kind table.typeId incarnation field = .ok u ↔
      FieldOk types table field := by
  cases field with
  | property r =>
    simp only [Schema.validateField, h.validatePropertyRef, FieldOk, mem_def,
      Option.some.injEq, forall_eq']
  | system r =>
    have hlook : (typeById types).lookup table.typeId = some table :=
      h.lookup_typeById.mpr ⟨ht, rfl⟩
    simp only [Schema.validateField, ensure_eq_ok_iff, FieldOk, hlook, hinc, hkind,
      map_some, Option.some.injEq, and_true]
    constructor
    · rintro ⟨h1, h2, h3, h4⟩
      exact ⟨h1, h2, h3.symm, h4⟩
    · rintro ⟨h1, h2, h3, h4⟩
      exact ⟨h1, h2, h3.symm, h4⟩

lemma IdsNodup.validateConstraints (h : IdsNodup types) (ht : table ∈ types)
    (hinc : table.incarnation = some incarnation) (hkind : table.kind.hasTable = true)
    {constraints : List ConstraintIR} :
    (validateConstraintOrder constraints entity = .ok () ∧
      validateConstraints types table.kind table.typeId incarnation constraints = .ok ()) ↔
      ConstraintsOk types table constraints := by
  simp only [validateConstraintOrder, ensure_eq_ok_iff, Schema.validateConstraints,
    forM_eq_ok_iff, h.validateField ht hinc hkind]
  exact ⟨fun ⟨h1, h2⟩ => ⟨h1, h2⟩, fun ⟨h1, h2⟩ => ⟨h1, h2⟩⟩

lemma IdsNodup.validateLink (h : IdsNodup types) {p : PropertyIR} {u : Unit} :
    validateLink types node p r = .ok u ↔
      r.ownerTypeId ∈ node.implements.map TypeRefIR.typeId ∧
        ∃ q ∈ ownedProperties types, q.2.propertyId = r.propertyId ∧ q.2.propType = p.propType := by
  simp only [Schema.validateLink, bind_eq_ok_iff, ensure_eq_ok_iff, exists_const,
    map_eq_some_iff]
  refine and_congr_right fun _ => ⟨?_, ?_⟩
  · rintro ⟨⟨t, q⟩, hlook, htype⟩
    obtain ⟨ht, hq, hid⟩ := h.lookup_propertyById.mp hlook
    exact ⟨(t, q), mem_ownedProperties.mpr ⟨ht, hq⟩, hid, htype⟩
  · rintro ⟨⟨t, q⟩, hmem, hid, htype⟩
    obtain ⟨ht, hq⟩ := mem_ownedProperties.mp hmem
    exact ⟨(t, q), h.lookup_propertyById.mpr ⟨ht, hq, hid⟩, htype⟩

lemma IdsNodup.validateImplemented (h : IdsNodup types) {r : TypeRefIR} :
    validateImplemented types node r = .ok () ↔ ∃ t ∈ types, t.typeId = r.typeId ∧
      ∀ p ∈ t.properties, node.links r.typeId p.propertyId := by
  unfold Schema.validateImplemented
  cases hlook : (typeById types).lookup r.typeId with
  | none =>
    simp only [reduceCtorEq, false_iff, not_exists, not_and]
    intro t ht hid
    rw [h.lookup_typeById.mpr ⟨ht, hid⟩] at hlook
    cases hlook
  | some interface =>
    obtain ⟨hmem, hid⟩ := h.lookup_typeById.mp hlook
    simp only [forM_eq_ok_iff, ensure_eq_ok_iff]
    constructor
    · exact fun hall => ⟨interface, hmem, hid, hall⟩
    · rintro ⟨t, ht, htid, hall⟩
      obtain rfl := h.typeId_inj ht hmem (htid.trans hid.symm)
      exact hall

lemma IdsNodup.validateNode (h : IdsNodup types) (hmem : node.accepted ∈ types) :
    validateNode types node = .ok () ↔ NodeOk types node := by
  have hconstraints : (validateConstraintOrder node.constraints node.name = .ok () ∧
      Schema.validateConstraints types .node node.typeId node.tableIncarnationId
        node.constraints = .ok ()) ↔ ConstraintsOk types node.accepted node.constraints :=
    h.validateConstraints hmem rfl rfl
  simp only [Schema.validateNode, bind_eq_ok_iff, validateAnnotations_eq_ok_iff,
    validateTypeRefs, ensure_eq_ok_iff, forM_eq_ok_iff, h.validateTypeRef, h.validateLink,
    h.validateImplemented]
  constructor
  · rintro ⟨_, h1, _, ⟨⟨⟩, h2, h3⟩, ⟨⟩, h4, ⟨⟩, h5, ⟨⟩, h6, h7⟩
    exact ⟨h1, h2, h3, h4, h5, hconstraints.mp ⟨h6, h7⟩⟩
  · rintro ⟨h1, h2, h3, h4, h5, h6⟩
    obtain ⟨h6, h7⟩ := hconstraints.mpr h6
    exact ⟨(), h1, (), ⟨⟨⟩, h2, h3⟩, ⟨⟩, h4, ⟨⟩, h5, (), h6, h7⟩

lemma IdsNodup.validateEdge (h : IdsNodup types) {edge : EdgeIR} (hmem : edge.accepted ∈ types) :
    validateEdge types edge = .ok () ↔ EdgeOk types edge := by
  have hconstraints : (validateConstraintOrder edge.constraints edge.name = .ok () ∧
      Schema.validateConstraints types .edge edge.typeId edge.tableIncarnationId
        edge.constraints = .ok ()) ↔ ConstraintsOk types edge.accepted edge.constraints :=
    h.validateConstraints hmem rfl rfl
  simp only [Schema.validateEdge, bind_eq_ok_iff, validateAnnotations_eq_ok_iff,
    ensure_eq_ok_iff, forM_eq_ok_iff, h.validateTypeRef]
  constructor
  · rintro ⟨_, h1, ⟨⟩, h2, _, h3, _, h4, ⟨⟩, h5, h6⟩
    exact ⟨h1, h2, h3, h4, hconstraints.mp ⟨h5, h6⟩⟩
  · rintro ⟨h1, h2, h3, h4, h5⟩
    obtain ⟨h5, h6⟩ := hconstraints.mpr h5
    exact ⟨(), h1, ⟨⟩, h2, (), h3, (), h4, (), h5, h6⟩

end References

/-! ### The whole check -/

variable {ir : SchemaIR}

lemma NodeIR.accepted_mem {n : NodeIR} (h : n ∈ ir.nodes) : n.accepted ∈ acceptedTypes ir := by
  simp only [acceptedTypes, mem_append, List.mem_map]
  exact .inl (.inr ⟨n, h, rfl⟩)

lemma EdgeIR.accepted_mem {e : EdgeIR} (h : e ∈ ir.edges) : e.accepted ∈ acceptedTypes ir := by
  simp only [acceptedTypes, mem_append, List.mem_map]
  exact .inr ⟨e, h, rfl⟩

lemma InterfaceIR.accepted_mem {i : InterfaceIR} (h : i ∈ ir.interfaces) :
    i.accepted ∈ acceptedTypes ir := by
  simp only [acceptedTypes, mem_append, List.mem_map]
  exact .inl (.inl ⟨i, h, rfl⟩)

/-- `validateSchemaIr` accepts exactly the valid schemas. -/
theorem validateSchemaIr_eq_ok_iff : validateSchemaIr ir = .ok () ↔ Valid ir := by
  have hstart : IdentityCheck.Saw ⟨∅, 0, []⟩ [] [] := ⟨by simp, by simp, by simp⟩
  obtain ⟨hfirst, hsaw⟩ := @IdentityCheck.Saw.validateTypes _ _ _ (acceptedTypes ir) hstart
  simp only [validateSchemaIr, bind_eq_ok_iff, ensure_eq_ok_iff, ensureSortedUnique,
    forM_eq_ok_iff, validateOwner, Increasing.map, id_eq]
  constructor
  · rintro ⟨_, h1, _, -, _, h2, c, h3, _, h4, _, h5, _, h6, _, h7, ⟨⟩, h8, ⟨⟩, h9, h10⟩
    obtain ⟨htypes, hids, hkeys⟩ := hfirst.mp ⟨c, h3⟩
    have hnodes : ∀ n ∈ ir.nodes, NodeOk (acceptedTypes ir) n :=
      fun n hn => (hids.validateNode (NodeIR.accepted_mem hn)).mp (h9 n hn)
    have hedges : ∀ e ∈ ir.edges, EdgeOk (acceptedTypes ir) e :=
      fun e he => (hids.validateEdge (EdgeIR.accepted_mem he)).mp (h10 e he)
    have hmax := ((hsaw c h3).max ir.nextIdentityId).mp h4
    refine ⟨h1, hmax.1, hids, hmax.2, hkeys, fun t ht => (htypes t ht).1.properties, h5, h6, h7,
      fun t ht => ?_, fun t ht p hp => ?_, hnodes, hedges⟩
    · obtain ⟨_, hsorted, -⟩ := h8 t ht
      exact hsorted
    · obtain ⟨_, -, hprov⟩ := h8 t ht
      exact hids.validateProvenance.mp (hprov p hp)
  · intro hv
    have hids : IdsNodup (acceptedTypes ir) := hv.idsNodup
    have htypes : ∀ t ∈ acceptedTypes ir, TypeOk t ∧ (∀ i ∈ t.ids, i ∉ ([] : List ℕ)) ∧
        t.key ∉ ([] : List (TypeKind × String)) :=
      fun t ht => ⟨⟨hids.ids ht, (hv.propertiesSorted t ht).nodup_map, hv.properties t ht⟩,
        by simp, by simp⟩
    obtain ⟨c, hc⟩ := hfirst.mpr ⟨htypes, hids, hv.keysNodup⟩
    have hmax := ((hsaw c hc).max ir.nextIdentityId).mpr ⟨hv.nextPos, hv.idsLt⟩
    refine ⟨(), hv.version, _, SchemaIdentityDomain.parse_text _, (), hv.nextPos.ne', c, hc, (),
      hmax, (), hv.interfacesSorted, (), hv.nodesSorted, (), hv.edgesSorted, ⟨⟩, fun t ht => ?_,
      ⟨⟩, fun n hn => ?_, fun e he => ?_⟩
    · exact ⟨(), hv.propertiesSorted t ht,
        fun p hp => hids.validateProvenance.mpr (hv.provenance t ht p hp)⟩
    · exact (hids.validateNode (NodeIR.accepted_mem hn)).mpr (hv.nodes n hn)
    · exact (hids.validateEdge (EdgeIR.accepted_mem he)).mpr (hv.edges e he)

end Omnigraph.Schema
