import Omnigraph.Schema.RoundTrip

/-!
# Initialization

The first schema of a graph continues nothing, so that every identity is new: types come first, then
properties, then tables. Initialization succeeds on every well-formed shape, unless the identities
are used up.
-/

namespace Omnigraph.Schema

open List Except

open Compiler (PropType ScalarType)
open Sorted

/-! ### Well-formed shapes -/

/-- A column of the table of `t`. -/
def DesiredType.HasColumn (t : DesiredType) (name : String) : Prop :=
  (systemRole t.kind name).isSome = true ∨ name ∈ t.properties.map PropertyShape.name

structure PropertyShapeOk (t : DesiredType) (p : PropertyShape) : Prop where
  notReserved : isReservedStorageSystemColumn p.name = false
  annotations : AnnotationsOk p.annotations
  enumSorted : Increasing id (p.propType.enumValues.getD [])
  constraintsSorted : Increasing PropertyConstraintShape.rank p.propertyConstraints
  embed : ∀ e ∈ p.embedSource, e.propertyName ∈ t.properties.map PropertyShape.name
  satisfiesNodup : p.satisfiesInterfaceProperties.Nodup
  ofNode : t.kind = .node → p.declaredDirectly = false → p.satisfiesInterfaceProperties ≠ []
  ofOther : t.kind ≠ .node → p.declaredDirectly = true ∧ p.satisfiesInterfaceProperties = []
  ofEdge : t.kind = .edge → p.embedSource = none

structure NodeShapeOk (s : SchemaShape) (n : NodeShape) : Prop where
  annotations : AnnotationsOk n.annotations
  implementsNodup : n.implements.Nodup
  implements : ∀ name ∈ n.implements, ∃ i ∈ s.interfaces, i.name = name
  links : ∀ p ∈ n.properties, ∀ r ∈ p.satisfiesInterfaceProperties, r.ownerName ∈ n.implements ∧
    ∃ i ∈ s.interfaces, i.name = r.ownerName ∧
      ∃ q ∈ i.properties, q.name = r.propertyName ∧ q.propType = p.propType
  implemented : ∀ i ∈ s.interfaces, i.name ∈ n.implements → ∀ q ∈ i.properties,
    ∃ p ∈ n.properties, ⟨i.name, q.name⟩ ∈ p.satisfiesInterfaceProperties
  constraintsSorted : Increasing constraintSortKey n.constraints
  columns : ∀ c ∈ n.constraints, ∀ name ∈ c.columns, n.desired.HasColumn name

structure EdgeShapeOk (s : SchemaShape) (e : EdgeShape) : Prop where
  annotations : AnnotationsOk e.annotations
  fromType : ∃ n ∈ s.nodes, n.name = e.fromType
  toType : ∃ n ∈ s.nodes, n.name = e.toType
  constraintsSorted : Increasing constraintSortKey e.constraints
  columns : ∀ c ∈ e.constraints, ∀ name ∈ c.columns, e.desired.HasColumn name

structure WellFormed (s : SchemaShape) : Prop where
  interfacesSorted : Increasing InterfaceShape.name s.interfaces
  nodesSorted : Increasing NodeShape.name s.nodes
  edgesSorted : Increasing EdgeShape.name s.edges
  propertiesSorted : ∀ t ∈ shapeTypes s, Increasing PropertyShape.name t.properties
  properties : ∀ t ∈ shapeTypes s, ∀ p ∈ t.properties, PropertyShapeOk t p
  nodes : ∀ n ∈ s.nodes, NodeShapeOk s n
  edges : ∀ e ∈ s.edges, EdgeShapeOk s e

variable {t : DesiredType}

lemma mem_shapeTypes {s : SchemaShape} : t ∈ shapeTypes s ↔
    (∃ i ∈ s.interfaces, i.desired = t) ∨ (∃ n ∈ s.nodes, n.desired = t) ∨
      ∃ e ∈ s.edges, e.desired = t := by
  simp only [shapeTypes, mem_append, List.mem_map, or_assoc]

lemma WellFormed.keys_nodup {s : SchemaShape} (h : WellFormed s) :
    ((shapeTypes s).map DesiredType.key).Nodup := by
  -- names differ within a kind, and kinds differ
  have hkind : ∀ {α : Type} {l : List α} (f : α → DesiredType) (k : TypeKind),
      (∀ a, (f a).kind = k) → (l.map fun a => (f a).name).Nodup →
      ((l.map f).map DesiredType.key).Nodup := by
    intro α l f k hk hnames
    rw [List.map_map]
    refine List.Nodup.of_map Prod.snd ?_
    rw [List.map_map]
    exact hnames
  rw [shapeTypes, map_append, map_append]
  refine List.Nodup.append (List.Nodup.append ?_ ?_ ?_) ?_ ?_
  · exact hkind _ .interface (fun _ => rfl) h.interfacesSorted.nodup_map
  · exact hkind _ .node (fun _ => rfl) h.nodesSorted.nodup_map
  · intro k hi hn
    simp only [List.mem_map] at hi hn
    obtain ⟨_, ⟨i, -, rfl⟩, rfl⟩ := hi
    obtain ⟨_, ⟨n, -, rfl⟩, hk⟩ := hn
    cases hk
  · exact hkind _ .edge (fun _ => rfl) h.edgesSorted.nodup_map
  · intro k hin he
    simp only [mem_append, List.mem_map] at hin he
    obtain ⟨_, ⟨e, -, rfl⟩, rfl⟩ := he
    rcases hin with ⟨_, ⟨i, -, rfl⟩, hk⟩ | ⟨_, ⟨n, -, rfl⟩, hk⟩ <;> cases hk

/-! ### All identities are new -/

/-- The identities given out at initialization. -/
structure FreshIds (A : Assignments) (P : PropertyAssignments) (n1 n2 n3 : ℕ)
    (ts : List DesiredType) : Prop where
  le : 0 < n1 ∧ n1 ≤ n2 ∧ n2 ≤ n3
  type : ∀ t ∈ ts, ∃ x, A.lookup t.key = some x ∧ 0 < x.typeId ∧ x.typeId < n1 ∧
    (t.kind.hasTable = true → ∃ i, x.incarnation = some i)
  table : ∀ k x, A.lookup k = some x → ∀ i ∈ x.incarnation, n2 ≤ i ∧ i < n3
  typeInj : ∀ k k' x y, A.lookup k = some x → A.lookup k' = some y → x.typeId = y.typeId → k = k'
  tableInj : ∀ k k' x y i, A.lookup k = some x → A.lookup k' = some y → x.incarnation = some i →
    y.incarnation = some i → k = k'
  property : ∀ t ∈ ts, ∀ x, A.lookup t.key = some x → ∀ p ∈ t.properties,
    ∃ i, P.lookup (x.typeId, p.name) = some i
  propertyBound : ∀ k i, P.lookup k = some i → n1 ≤ i ∧ i < n2
  propertyInj : ∀ k k' i, P.lookup k = some i → P.lookup k' = some i → k = k'

variable {e : SchemaError} {next : ℕ}

lemma allocateAll_error {κ : Type} {keys : List κ} (h : allocateAll keys next = .error e) :
    e = .allocatorExhausted := by
  induction keys generalizing next with
  | nil => cases h
  | cons k keys ih =>
    rw [allocateAll, allocate] at h
    split_ifs at h with hmax
    · cases h
      rfl
    · cases hrest : allocateAll keys (next + 1) with
      | ok r =>
        simp only [hrest, bind, Except.bind] at h
        cases h
      | error e' =>
        simp only [hrest, bind, Except.bind] at h
        cases h
        exact ih hrest

lemma allocateTypes_error {m : Assignments} (h : allocateTypes m next = .error e) :
    e = .allocatorExhausted := by
  rcases bind_eq_error_iff.mp h with h | ⟨_, -, h⟩
  · exact allocateAll_error h
  · cases h

lemma allocateProperties_error {st : PropertyMatching} (h : allocateProperties st next = .error e) :
    e = .allocatorExhausted := by
  rcases bind_eq_error_iff.mp h with h | ⟨_, -, h⟩
  · exact allocateAll_error h
  · cases h

lemma allocateIncarnations_error {m : Assignments} (h : allocateIncarnations m next = .error e) :
    e = .allocatorExhausted := by
  rcases bind_eq_error_iff.mp h with h | ⟨_, -, h⟩
  · exact allocateAll_error h
  · cases h

lemma matchTypes_init (ts : List DesiredType) (st : TypeMatching) :
    ∃ st', ts.foldlM (matchTypeStep [] false) st = .ok st' := by
  induction ts generalizing st with
  | nil => exact ⟨st, rfl⟩
  | cons t ts ih =>
    have hstep : ∃ st1, matchTypeStep [] false st t = .ok st1 := by
      unfold matchTypeStep matchType
      cases t.renameFrom with
      | none => exact ⟨_, rfl⟩
      | some hint => exact ⟨_, rfl⟩
    obtain ⟨st1, hstep⟩ := hstep
    obtain ⟨st', hst'⟩ := ih st1
    exact ⟨st', by rw [foldlM_cons, hstep]; exact hst'⟩

lemma matchProperty_init (t : DesiredType) (p : PropertyShape) :
    ∃ d, matchProperty [] false t none p = .ok (none, d) := by
  unfold matchProperty
  cases p.renameFrom with
  | none => exact ⟨_, rfl⟩
  | some hint => exact ⟨_, rfl⟩

lemma propertyStep_init (st : PropertyMatching) (e : DesiredProperty) :
    ∃ st', propertyStep [] false st e = .ok st' ∧ st'.assigned = st.assigned ∧
      st'.pending = st.pending ++ [e.key] := by
  obtain ⟨d, hd⟩ := matchProperty_init e.owner e.property
  refine ⟨⟨st.assigned, st.consumed, st.pending ++ [e.key], st.diagnostics ++ d⟩, ?_, rfl, rfl⟩
  rw [propertyStep, matchPropertyStep, List.find?_nil, hd]
  rfl

lemma propertySteps_init (es : List DesiredProperty) (st : PropertyMatching) :
    ∃ st', es.foldlM (propertyStep [] false) st = .ok st' ∧ st'.assigned = st.assigned ∧
      st'.pending = st.pending ++ es.map DesiredProperty.key := by
  induction es generalizing st with
  | nil => exact ⟨st, rfl, rfl, by simp⟩
  | cons e es ih =>
    obtain ⟨st1, hstep, hassigned1, hpending1⟩ := propertyStep_init st e
    obtain ⟨st', hst', hassigned, hpending⟩ := ih st1
    refine ⟨st', ?_, hassigned.trans hassigned1, ?_⟩
    · rw [foldlM_cons, hstep]
      exact hst'
    · rw [hpending, hpending1, append_assoc]
      rfl

lemma matchOwners_init {A : Assignments} {ts : List DesiredType} (st : PropertyMatching)
    (hA : ∀ t ∈ ts, ∃ x, A.lookup t.key = some x) :
    ts.foldlM (matchOwnerStep [] false A) st =
      (desiredProperties A ts).foldlM (propertyStep [] false) st := by
  induction ts generalizing st with
  | nil => rfl
  | cons t ts ih =>
    obtain ⟨x, hx⟩ := hA t (by simp)
    have howner : assignedType A t.key = .ok x := assignedType_eq_ok_iff.mpr hx
    rw [desiredProperties, flatMap_cons, foldlM_append, hx, Option.toList_some,
      flatMap_cons, flatMap_nil, append_nil, foldlM_map, foldlM_cons]
    have hstep : matchOwnerStep [] false A st t =
        t.properties.foldlM (fun st p => propertyStep [] false st ⟨t, x.typeId, p⟩) st := by
      rw [matchOwnerStep, howner]
      rfl
    rw [hstep]
    congr 1
    funext st1
    exact ih st1 fun u hu => hA u (by simp [hu])

/-- Nothing is accepted yet, so no type is matched to an accepted one. -/
lemma matchTypes_fresh {s : SchemaShape} (h : WellFormed s) :
    ∃ m, matchTypes [] false s = .ok m ∧
      (∀ t ∈ shapeTypes s, m.assignments.lookup t.key = some ⟨1, none, false⟩) ∧
      ∀ k x, m.assignments.lookup k = some x → x = ⟨1, none, false⟩ := by
  obtain ⟨m, hm⟩ := matchTypes_init (shapeTypes s) ⟨∅, [], []⟩
  obtain ⟨hmatch, hother⟩ := matchTypes_run hm h.keys_nodup
  have hnew : ∀ t ∈ shapeTypes s, m.assignments.lookup t.key = some ⟨1, none, false⟩ := by
    intro t ht
    obtain ⟨mt, d, hmt, hlook⟩ := hmatch t ht
    unfold matchType at hmt
    cases hhint : t.renameFrom with
    | none =>
      rw [hhint] at hmt
      cases hmt
      exact hlook
    | some hint =>
      rw [hhint] at hmt
      cases hmt
      exact hlook
  refine ⟨m, hm, hnew, fun k x hx => ?_⟩
  by_cases hk : ∃ t ∈ shapeTypes s, t.key = k
  · obtain ⟨t, ht, rfl⟩ := hk
    rw [hnew t ht] at hx
    exact (Option.some.inj hx).symm
  · rw [hother k fun t ht hc => hk ⟨t, ht, hc⟩] at hx
    cases hx

/-- The three allocations of a first resolution. -/
structure FirstAllocation (m : TypeMatching) (s : SchemaShape) (A1 : Assignments) (n1 : ℕ)
    (st : PropertyMatching) (P : PropertyAssignments) (n2 : ℕ) (A : Assignments) (n3 : ℕ) :
    Prop where
  types : allocateTypes m.assignments 1 = .ok (A1, n1)
  matched : matchProperties [] false A1 s = .ok st
  properties : allocateProperties st n1 = .ok (P, n2)
  tables : allocateIncarnations A1 n2 = .ok (A, n3)

variable {domain : SchemaIdentityDomain} {x : AssignedType}

/-- They succeed, or else the whole resolution runs out of identities. -/
lemma exists_firstAllocation {s : SchemaShape} {m : TypeMatching}
    (hm : matchTypes [] false s = .ok m)
    (hmatch : ∀ A1 n1, allocateTypes m.assignments 1 = .ok (A1, n1) →
      ∃ st, matchProperties [] false A1 s = .ok st)
    (hne : initializeSchemaIr domain s ≠ .error .allocatorExhausted) :
    ∃ A1 n1 st P n2 A n3, FirstAllocation m s A1 n1 st P n2 A n3 := by
  have hstart : newAllocator 1 = .ok 1 := rfl
  cases h1 : allocateTypes m.assignments 1 with
  | error e =>
    refine absurd ?_ hne
    refine bind_eq_error_iff.mpr (.inr ⟨_, hm, ?_⟩)
    refine bind_eq_error_iff.mpr (.inr ⟨_, hstart, ?_⟩)
    exact bind_eq_error_iff.mpr (.inl (allocateTypes_error h1 ▸ h1))
  | ok r1 =>
    obtain ⟨A1, n1⟩ := r1
    obtain ⟨st, hst⟩ := hmatch A1 n1 h1
    cases h2 : allocateProperties st n1 with
    | error e =>
      refine absurd ?_ hne
      refine bind_eq_error_iff.mpr (.inr ⟨_, hm, ?_⟩)
      refine bind_eq_error_iff.mpr (.inr ⟨_, hstart, ?_⟩)
      refine bind_eq_error_iff.mpr (.inr ⟨_, h1, ?_⟩)
      refine bind_eq_error_iff.mpr (.inr ⟨_, hst, ?_⟩)
      exact bind_eq_error_iff.mpr (.inl (allocateProperties_error h2 ▸ h2))
    | ok r2 =>
      obtain ⟨P, n2⟩ := r2
      cases h3 : allocateIncarnations A1 n2 with
      | error e =>
        refine absurd ?_ hne
        refine bind_eq_error_iff.mpr (.inr ⟨_, hm, ?_⟩)
        refine bind_eq_error_iff.mpr (.inr ⟨_, hstart, ?_⟩)
        refine bind_eq_error_iff.mpr (.inr ⟨_, h1, ?_⟩)
        refine bind_eq_error_iff.mpr (.inr ⟨_, hst, ?_⟩)
        refine bind_eq_error_iff.mpr (.inr ⟨_, h2, ?_⟩)
        exact bind_eq_error_iff.mpr (.inl (allocateIncarnations_error h3 ▸ h3))
      | ok r3 =>
        obtain ⟨A, n3⟩ := r3
        exact ⟨A1, n1, st, P, n2, A, n3, h1, hst, h2, h3⟩

section First

variable {m : TypeMatching} {s : SchemaShape} {A1 A : Assignments} {n1 n2 n3 : ℕ}
  {st : PropertyMatching} {P : PropertyAssignments}

variable {k : TypeKey}

/-- The number of a type the first allocation knows. -/
lemma lookup_allocateTypes_fresh (h1 : allocateTypes m.assignments 1 = .ok (A1, n1))
    (hall : ∀ k x, m.assignments.lookup k = some x → x = ⟨1, none, false⟩)
    (hx : A1.lookup k = some x) :
    ∃ i, ((k, (⟨1, none, false⟩ : AssignedType)), i) ∈ (newTypes m.assignments).zipIdx 1 ∧
      1 ≤ i ∧ i < n1 ∧ x = ⟨i, none, false⟩ := by
  obtain ⟨-, -, hnew1, hnone1⟩ := lookup_allocateTypes h1
  cases hlook : m.assignments.lookup k with
  | none =>
    rw [hnone1 k hlook] at hx
    cases hx
  | some y =>
    obtain rfl := hall k y hlook
    obtain ⟨i, hi, hi1, hi2, hx'⟩ := hnew1 k _ hlook rfl
    rw [hx] at hx'
    exact ⟨i, hi, hi1, hi2, Option.some.inj hx'⟩

/-- The properties that wait for a number are those of the assigned types. -/
lemma matchProperties_fresh (hA1 : ∀ t ∈ shapeTypes s, ∃ x, A1.lookup t.key = some x) :
    ∃ st, matchProperties [] false A1 s = .ok st ∧ st.assigned = ∅ ∧
      st.pending = (desiredProperties A1 (shapeTypes s)).map DesiredProperty.key := by
  obtain ⟨st, hst, hassigned, hpending⟩ :=
    propertySteps_init (desiredProperties A1 (shapeTypes s)) ⟨∅, [], [], []⟩
  refine ⟨st, ?_, hassigned, hpending⟩
  rw [matchProperties, matchOwners_init _ hA1]
  exact hst

variable (h : FirstAllocation m s A1 n1 st P n2 A n3)
  (hall : ∀ k x, m.assignments.lookup k = some x → x = ⟨1, none, false⟩)

include h hall

/-- Where the numbers of a type and of its table come from. -/
lemma FirstAllocation.lookup (hx : A.lookup k = some x) :
    ((k, (⟨1, none, false⟩ : AssignedType)), x.typeId) ∈ (newTypes m.assignments).zipIdx 1 ∧
      x.typeId < n1 ∧
      ∀ j ∈ x.incarnation, ((k, (⟨x.typeId, none, false⟩ : AssignedType)), j) ∈
        (newTables A1).zipIdx n2 ∧ n2 ≤ j ∧ j < n3 := by
  obtain ⟨-, hold3, hnew3, hnone3⟩ := lookup_allocateIncarnations h.tables
  cases hlook : A1.lookup k with
  | none =>
    rw [hnone3 k hlook] at hx
    cases hx
  | some y =>
    obtain ⟨i, hi, -, hi2, rfl⟩ := lookup_allocateTypes_fresh h.types hall hlook
    cases htable : k.1.hasTable with
    | true =>
      obtain ⟨j, hj, hj1, hj2, hx'⟩ := hnew3 k _ hlook htable rfl
      rw [hx] at hx'
      cases hx'
      refine ⟨hi, hi2, ?_⟩
      rintro _ ⟨⟩
      exact ⟨hj, hj1, hj2⟩
    | false =>
      rw [hold3 k _ hlook (.inl htable)] at hx
      cases hx
      exact ⟨hi, hi2, by simp⟩

/-- A type of the shape keeps its number and gets one for its table if it has one. -/
lemma FirstAllocation.type (hA1 : ∀ t ∈ shapeTypes s, ∃ x, A1.lookup t.key = some x)
    (ht : t ∈ shapeTypes s) :
    ∃ x y, A.lookup t.key = some x ∧ A1.lookup t.key = some y ∧ x.typeId = y.typeId ∧
      0 < x.typeId ∧ x.typeId < n1 ∧ (t.kind.hasTable = true → ∃ i, x.incarnation = some i) := by
  obtain ⟨-, hold3, hnew3, -⟩ := lookup_allocateIncarnations h.tables
  obtain ⟨y, hy⟩ := hA1 t ht
  obtain ⟨i, -, hi1, hi2, rfl⟩ := lookup_allocateTypes_fresh h.types hall hy
  cases htable : t.kind.hasTable with
  | true =>
    obtain ⟨j, -, -, -, hx⟩ := hnew3 t.key _ hy htable rfl
    exact ⟨_, _, hx, hy, rfl, hi1, hi2, fun _ => ⟨j, rfl⟩⟩
  | false => exact ⟨_, _, hold3 t.key _ hy (.inl htable), hy, rfl, hi1, hi2, fun hc => by cases hc⟩

omit hall in
/-- Where the number of a property comes from. -/
lemma FirstAllocation.lookup_property (hassigned : st.assigned = ∅) {k : ℕ × String} {i : ℕ}
    (hi : P.lookup k = some i) :
    (k, i) ∈ (sortOn propertyKeyOrder st.pending).zipIdx n1 ∧ n1 ≤ i ∧ i < n2 := by
  obtain ⟨-, hold2, hnew2⟩ := lookup_allocateProperties h.properties
  by_cases hk : k ∈ st.pending
  · obtain ⟨j, hj, hj1, hj2, hlook⟩ := hnew2 k hk
    rw [hi] at hlook
    cases hlook
    exact ⟨hj, hj1, hj2⟩
  · rw [hold2 k hk, hassigned] at hi
    cases hi

/-- A first allocation gives every type and property an id of its own. -/
lemma FirstAllocation.freshIds (hA1 : ∀ t ∈ shapeTypes s, ∃ x, A1.lookup t.key = some x)
    (hassigned : st.assigned = ∅)
    (hpending : st.pending = (desiredProperties A1 (shapeTypes s)).map DesiredProperty.key) :
    FreshIds A P n1 n2 n3 (shapeTypes s) where
  le := ⟨(lookup_allocateTypes h.types).1, (lookup_allocateProperties h.properties).1,
    (lookup_allocateIncarnations h.tables).1⟩
  type t ht := by
    obtain ⟨x, -, hx, -, -, hpos, hlt, htable⟩ := h.type hall hA1 ht
    exact ⟨x, hx, hpos, hlt, htable⟩
  table k x hx j hj := ((h.lookup hall hx).2.2 j hj).2
  typeInj k k' x y hx hy hid := by
    have hkx := (h.lookup hall hx).1
    have hky := (h.lookup hall hy).1
    rw [← hid] at hky
    exact congrArg (fun e => e.1.1) (zipIdx_snd_inj hkx hky rfl)
  tableInj k k' x y i hx hy hxi hyi := congrArg (fun e => e.1.1)
    (zipIdx_snd_inj ((h.lookup hall hx).2.2 i hxi).1 ((h.lookup hall hy).2.2 i hyi).1 rfl)
  property t ht x hx p hp := by
    obtain ⟨x', y, hx', hy, hid, -⟩ := h.type hall hA1 ht
    rw [hx] at hx'
    cases hx'
    have hmem : (x.typeId, p.name) ∈ st.pending := by
      rw [hpending, List.mem_map]
      exact ⟨⟨t, x.typeId, p⟩, mem_desiredProperties.mpr ⟨ht, hp, y, hy, hid⟩, rfl⟩
    obtain ⟨-, -, hnew2⟩ := lookup_allocateProperties h.properties
    obtain ⟨i, -, -, -, hi⟩ := hnew2 _ hmem
    exact ⟨i, hi⟩
  propertyBound k i hi := (h.lookup_property hassigned hi).2
  propertyInj k k' i hk hk' := congrArg Prod.fst
    (zipIdx_snd_inj (h.lookup_property hassigned hk).1 (h.lookup_property hassigned hk').1 rfl)

end First

/-- Unless the identities are used up, every type, property and table of the shape gets one. -/
lemma exists_freshIds {s : SchemaShape} (h : WellFormed s)
    (hne : initializeSchemaIr domain s ≠ .error .allocatorExhausted) :
    ∃ A P n1 n2 n3, FreshIds A P n1 n2 n3 (shapeTypes s) ∧
      ∀ ir, buildSchema domain A P n3 s = .ok ir → Valid ir →
        ∃ res, initializeSchemaIr domain s = .ok res ∧ res.schemaIr = ir := by
  obtain ⟨m, hm, hnew, hall⟩ := matchTypes_fresh h
  have hknown : ∀ A1 n1, allocateTypes m.assignments 1 = .ok (A1, n1) →
      ∀ t ∈ shapeTypes s, ∃ x, A1.lookup t.key = some x := by
    intro A1 n1 h1 t ht
    obtain ⟨-, -, hnew1, -⟩ := lookup_allocateTypes h1
    obtain ⟨i, -, -, -, hx⟩ := hnew1 t.key _ (hnew t ht) rfl
    exact ⟨_, hx⟩
  obtain ⟨A1, n1, st, P, n2, A, n3, hfirst⟩ := exists_firstAllocation hm
    (fun A1 n1 h1 => (matchProperties_fresh (hknown A1 n1 h1)).imp fun _ hst => hst.1) hne
  have hA1 := hknown A1 n1 hfirst.types
  obtain ⟨st', hst, hassigned, hpending⟩ := matchProperties_fresh hA1
  rw [hfirst.matched] at hst
  cases hst
  refine ⟨A, P, n1, n2, n3, hfirst.freshIds hall hA1 hassigned hpending, fun ir hir hvalid => ?_⟩
  refine ⟨⟨ir, m.diagnostics ++ st.diagnostics⟩, ?_, rfl⟩
  exact resolve_eq_ok_iff.mpr ⟨m, A1, n1, st, P, n2, A, n3, hm, rfl, hfirst.types, hfirst.matched,
    hfirst.properties, hfirst.tables, hir, hvalid, rfl⟩

/-! ### Building succeeds -/

section Build

variable {A : Assignments} {P : PropertyAssignments} {n1 n2 n3 : ℕ} {s : SchemaShape}

variable {i : InterfaceShape} {n : NodeShape} {p : PropertyShape} {name : String}

lemma InterfaceShape.desired_mem (h : i ∈ s.interfaces) :
    i.desired ∈ shapeTypes s := mem_shapeTypes.mpr (.inl ⟨i, h, rfl⟩)

lemma NodeShape.desired_mem (h : n ∈ s.nodes) : n.desired ∈ shapeTypes s :=
  mem_shapeTypes.mpr (.inr (.inl ⟨n, h, rfl⟩))

lemma EdgeShape.desired_mem {e : EdgeShape} (h : e ∈ s.edges) : e.desired ∈ shapeTypes s :=
  mem_shapeTypes.mpr (.inr (.inr ⟨e, h, rfl⟩))

/-- What a property satisfies is a property of an interface of the shape. -/
lemma WellFormed.satisfied (h : WellFormed s) (ht : t ∈ shapeTypes s) (hp : p ∈ t.properties)
    {r : ShapePropertyRef} (hr : r ∈ p.satisfiesInterfaceProperties) :
    ∃ i ∈ s.interfaces, i.name = r.ownerName ∧ ∃ q ∈ i.properties, q.name = r.propertyName := by
  have hnode : t.kind = .node := by
    by_contra hne
    rw [((h.properties t ht p hp).ofOther hne).2] at hr
    cases hr
  rcases mem_shapeTypes.mp ht with ⟨i, -, rfl⟩ | ⟨n, hn, rfl⟩ | ⟨e, -, rfl⟩
  · cases hnode
  · obtain ⟨-, i, hi, hname, q, hq, hqname, -⟩ := (h.nodes n hn).links p hp r hr
    exact ⟨i, hi, hname, q, hq, hqname⟩
  · cases hnode

variable (hfresh : FreshIds A P n1 n2 n3 (shapeTypes s))

include hfresh

lemma FreshIds.propertyRef_ok (ht : t ∈ shapeTypes s) (hx : A.lookup t.key = some x)
    (hname : name ∈ t.properties.map PropertyShape.name) :
    ∃ r, propertyRef P x.typeId t.name name = .ok r := by
  obtain ⟨p, hp, rfl⟩ := List.mem_map.mp hname
  obtain ⟨i, hi⟩ := hfresh.property t ht x hx p hp
  exact ⟨⟨x.typeId, t.name, i, p.name⟩, propertyRef_eq_ok_iff.mpr ⟨hi, rfl, rfl, rfl⟩⟩

lemma FreshIds.interface (hi : i ∈ s.interfaces) : ∃ x, A.lookup (.interface, i.name) = some x := by
  obtain ⟨x, hx, -⟩ := hfresh.type _ (InterfaceShape.desired_mem hi)
  exact ⟨x, hx⟩

lemma FreshIds.node (hn : n ∈ s.nodes) :
    ∃ x i, A.lookup (.node, n.name) = some x ∧ x.incarnation = some i := by
  obtain ⟨x, hx, -, -, htable⟩ := hfresh.type _ (NodeShape.desired_mem hn)
  obtain ⟨i, hi⟩ := htable rfl
  exact ⟨x, i, hx, hi⟩

lemma FreshIds.edge {e : EdgeShape} (he : e ∈ s.edges) :
    ∃ x i, A.lookup (.edge, e.name) = some x ∧ x.incarnation = some i := by
  obtain ⟨x, hx, -, -, htable⟩ := hfresh.type _ (EdgeShape.desired_mem he)
  obtain ⟨i, hi⟩ := htable rfl
  exact ⟨x, i, hx, hi⟩

lemma FreshIds.buildProperty_ok (h : WellFormed s) (ht : t ∈ shapeTypes s)
    (hx : A.lookup t.key = some x) (hp : p ∈ t.properties) :
    ∃ q, buildProperty A P x.typeId t.name p = .ok q := by
  obtain ⟨self, hself⟩ := hfresh.propertyRef_ok ht hx (List.mem_map_of_mem hp)
  have hembed : ∃ e, embedRef P x.typeId t.name p.embedSource = .ok e := by
    cases hsource : p.embedSource with
    | none => exact ⟨none, rfl⟩
    | some e =>
      obtain ⟨r, hr⟩ := hfresh.propertyRef_ok ht hx ((h.properties t ht p hp).embed e hsource)
      exact ⟨some ⟨r, e.model⟩, by rw [embedRef, hr]; rfl⟩
  obtain ⟨embed, hembed⟩ := hembed
  have hsatisfied : ∃ refs, p.satisfiesInterfaceProperties.mapM (satisfiedRef A P) = .ok refs := by
    rw [exists_mapM_eq_ok_iff]
    intro r hr
    obtain ⟨i, hi, hiname, q, hq, hqname⟩ := h.satisfied ht hp hr
    obtain ⟨y, hy⟩ := hfresh.interface hi
    obtain ⟨ref, href⟩ := hfresh.propertyRef_ok (InterfaceShape.desired_mem hi) hy
      (List.mem_map_of_mem hq)
    refine ⟨ref, ?_⟩
    rw [satisfiedRef, assignedType_eq_ok_iff.mpr (hiname ▸ hy), ← hiname, ← hqname]
    exact href
  obtain ⟨refs, hrefs⟩ := hsatisfied
  exact ⟨_, bind_ok hself (bind_ok hembed (bind_ok hrefs rfl))⟩

lemma FreshIds.fieldRef_ok (ht : t ∈ shapeTypes s) (hx : A.lookup t.key = some x) {i : ℕ}
    (hcol : t.HasColumn name) : ∃ f, fieldRef P ⟨t.kind, x.typeId, t.name, i⟩ name = .ok f := by
  unfold fieldRef
  cases hrole : systemRole t.kind name with
  | some role => exact ⟨_, rfl⟩
  | none =>
    rcases hcol with hcol | hcol
    · rw [hrole] at hcol
      cases hcol
    · obtain ⟨r, hr⟩ := hfresh.propertyRef_ok ht hx hcol
      simp only [hr]
      exact ⟨_, rfl⟩

lemma FreshIds.buildConstraint_ok (ht : t ∈ shapeTypes s) (hx : A.lookup t.key = some x) {i : ℕ}
    {c : Constraint} (hcols : ∀ name ∈ c.columns, t.HasColumn name) :
    ∃ b, buildConstraint P ⟨t.kind, x.typeId, t.name, i⟩ c = .ok b := by
  have hfields : ∀ names : List String, (∀ name ∈ names, t.HasColumn name) →
      ∃ fs, names.mapM (fieldRef P ⟨t.kind, x.typeId, t.name, i⟩) = .ok fs := by
    intro names hnames
    rw [exists_mapM_eq_ok_iff]
    exact fun name hname => hfresh.fieldRef_ok ht hx (hnames name hname)
  cases c with
  | key names =>
    obtain ⟨fs, hfs⟩ := hfields names hcols
    exact ⟨.key fs, by rw [buildConstraint, hfs]; rfl⟩
  | unique names =>
    obtain ⟨fs, hfs⟩ := hfields names hcols
    exact ⟨.unique fs, by rw [buildConstraint, hfs]; rfl⟩
  | index names =>
    obtain ⟨fs, hfs⟩ := hfields names hcols
    exact ⟨.index fs, by rw [buildConstraint, hfs]; rfl⟩
  | range name min max =>
    obtain ⟨f, hf⟩ := hfresh.fieldRef_ok ht hx (i := i) (hcols name (by simp [Constraint.columns]))
    exact ⟨.range f min max, by rw [buildConstraint, hf]; rfl⟩
  | check name pattern =>
    obtain ⟨f, hf⟩ := hfresh.fieldRef_ok ht hx (i := i) (hcols name (by simp [Constraint.columns]))
    exact ⟨.check f pattern, by rw [buildConstraint, hf]; rfl⟩

lemma FreshIds.buildInterface_ok (h : WellFormed s) (hi : i ∈ s.interfaces) :
    ∃ a, buildInterface A P i = .ok a := by
  obtain ⟨x, hx⟩ := hfresh.interface hi
  have hprops : ∃ built, i.properties.mapM (buildProperty A P x.typeId i.name) = .ok built := by
    rw [exists_mapM_eq_ok_iff]
    exact fun p hp => hfresh.buildProperty_ok h (InterfaceShape.desired_mem hi) hx hp
  obtain ⟨built, hbuilt⟩ := hprops
  exact ⟨_, bind_ok (assignedType_eq_ok_iff.mpr hx) (bind_ok hbuilt rfl)⟩

lemma FreshIds.buildNode_ok (h : WellFormed s) (hn : n ∈ s.nodes) :
    ∃ a, buildNode A P n = .ok a := by
  obtain ⟨x, i, hx, hi⟩ := hfresh.node hn
  have hok := h.nodes n hn
  have himpl : ∃ refs, n.implements.mapM (typeRef A .interface) = .ok refs := by
    rw [exists_mapM_eq_ok_iff]
    intro name hname
    obtain ⟨j, hj, rfl⟩ := hok.implements name hname
    obtain ⟨y, hy⟩ := hfresh.interface hj
    exact ⟨⟨y.typeId, j.name⟩, by rw [typeRef, assignedType_eq_ok_iff.mpr hy]; rfl⟩
  have hprops : ∃ built, n.properties.mapM (buildProperty A P x.typeId n.name) = .ok built := by
    rw [exists_mapM_eq_ok_iff]
    exact fun p hp => hfresh.buildProperty_ok h (NodeShape.desired_mem hn) hx hp
  have hcons : ∃ cs, n.constraints.mapM (buildConstraint P ⟨.node, x.typeId, n.name, i⟩) =
      .ok cs := by
    rw [exists_mapM_eq_ok_iff]
    exact fun c hc => hfresh.buildConstraint_ok (NodeShape.desired_mem hn) hx (hok.columns c hc)
  obtain ⟨refs, hrefs⟩ := himpl
  obtain ⟨built, hbuilt⟩ := hprops
  obtain ⟨cs, hcs⟩ := hcons
  exact ⟨_, bind_ok (assignedType_eq_ok_iff.mpr hx) <|
    bind_ok (assignedTable_eq_ok_iff.mpr ⟨i, hi, rfl⟩) <|
    bind_ok hrefs <| bind_ok hbuilt <| bind_ok hcs rfl⟩

lemma FreshIds.buildEdge_ok (h : WellFormed s) {e : EdgeShape} (he : e ∈ s.edges) :
    ∃ a, buildEdge A P e = .ok a := by
  obtain ⟨x, i, hx, hi⟩ := hfresh.edge he
  have hok := h.edges e he
  have hend : ∀ name, (∃ n ∈ s.nodes, n.name = name) → ∃ r, typeRef A .node name = .ok r := by
    rintro name ⟨n, hn, rfl⟩
    obtain ⟨y, -, hy, -⟩ := hfresh.node hn
    exact ⟨⟨y.typeId, n.name⟩, by rw [typeRef, assignedType_eq_ok_iff.mpr hy]; rfl⟩
  have hprops : ∃ built, e.properties.mapM (buildProperty A P x.typeId e.name) = .ok built := by
    rw [exists_mapM_eq_ok_iff]
    exact fun p hp => hfresh.buildProperty_ok h (EdgeShape.desired_mem he) hx hp
  have hcons : ∃ cs, e.constraints.mapM (buildConstraint P ⟨.edge, x.typeId, e.name, i⟩) =
      .ok cs := by
    rw [exists_mapM_eq_ok_iff]
    exact fun c hc => hfresh.buildConstraint_ok (EdgeShape.desired_mem he) hx (hok.columns c hc)
  obtain ⟨f, hf⟩ := hend e.fromType hok.fromType
  obtain ⟨t, ht⟩ := hend e.toType hok.toType
  obtain ⟨built, hbuilt⟩ := hprops
  obtain ⟨cs, hcs⟩ := hcons
  exact ⟨_, bind_ok (assignedType_eq_ok_iff.mpr hx) <|
    bind_ok (assignedTable_eq_ok_iff.mpr ⟨i, hi, rfl⟩) <|
    bind_ok hf <| bind_ok ht <| bind_ok hbuilt <| bind_ok hcs rfl⟩

lemma FreshIds.buildSchema_ok (h : WellFormed s) (domain : SchemaIdentityDomain) :
    ∃ ir, buildSchema domain A P n3 s = .ok ir := by
  obtain ⟨is, his⟩ := exists_mapM_eq_ok_iff.mpr fun i hi => hfresh.buildInterface_ok h hi
  obtain ⟨ns, hns⟩ := exists_mapM_eq_ok_iff.mpr fun n hn => hfresh.buildNode_ok h hn
  obtain ⟨es, hes⟩ := exists_mapM_eq_ok_iff.mpr fun e he => hfresh.buildEdge_ok h he
  exact ⟨_, bind_ok his <| bind_ok hns <| bind_ok hes rfl⟩

end Build

end Omnigraph.Schema
