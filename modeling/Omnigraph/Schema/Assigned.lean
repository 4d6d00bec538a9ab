import Omnigraph.Schema.Resolve
import Omnigraph.Schema.Valid

/-!
# What resolution assigns

The stages of `resolve`, one specification each. A type or a property either continues the accepted
one it matches, with its identity, or it gets an identity between the counters before and after.
-/

namespace Omnigraph.Schema

open Compiler (PropType ScalarType)
open Sorted

/-! ### New identities -/

section Allocate

variable {κ : Type} {keys : List κ} {next next' : ℕ} {ids : List (κ × ℕ)}

lemma allocateAll_eq_ok (h : allocateAll keys next = .ok (ids, next')) :
    ids = keys.zipIdx next ∧ next' = next + keys.length := by
  induction keys generalizing next ids with
  | nil =>
    cases h
    exact ⟨rfl, rfl⟩
  | cons k keys ih =>
    simp only [allocateAll, allocate, Except.bind_eq_ok_iff] at h
    obtain ⟨⟨i, n⟩, halloc, ⟨ids', n'⟩, hrest, hret⟩ := h
    split_ifs at halloc
    cases halloc
    cases hret
    obtain ⟨rfl, rfl⟩ := ih hrest
    exact ⟨rfl, by rw [List.length_cons]; omega⟩

lemma bounds_of_mem_zipIdx {k : κ} {i : ℕ} (h : (k, i) ∈ keys.zipIdx next) :
    next ≤ i ∧ i < next + keys.length := by
  have hmem : i ∈ (keys.zipIdx next).map Prod.snd := List.mem_map.mpr ⟨(k, i), h, rfl⟩
  rw [List.zipIdx_map_snd, List.mem_range'_1] at hmem
  exact hmem

lemma zipIdx_snd_inj {a b : κ × ℕ} (ha : a ∈ keys.zipIdx next) (hb : b ∈ keys.zipIdx next)
    (h : a.2 = b.2) : a = b := by
  have hnodup : ((keys.zipIdx next).map Prod.snd).Nodup := by
    rw [List.zipIdx_map_snd]
    exact List.nodup_range'
  exact List.inj_on_of_nodup_map hnodup ha hb h

lemma exists_mem_zipIdx {k : κ} : (∃ i, (k, i) ∈ keys.zipIdx next) ↔ k ∈ keys := by
  have h : k ∈ (keys.zipIdx next).map Prod.fst ↔ k ∈ keys := by rw [List.zipIdx_map_fst]
  rw [← h, List.mem_map]
  constructor
  · rintro ⟨i, hi⟩
    exact ⟨(k, i), hi, rfl⟩
  · rintro ⟨⟨_, i⟩, hi, rfl⟩
    exact ⟨i, hi⟩

end Allocate

/-! ### Types -/

variable {k : TypeKey} {x : AssignedType}

lemma mem_inKeyOrder {m : Assignments} : (k, x) ∈ inKeyOrder m ↔ m.lookup k = some x := by
  rw [inKeyOrder, mem_sortOn, HashMap.lookup_eq_some_iff_mem, List.mem_map]
  constructor
  · rintro ⟨⟨_, _⟩, he, hkx⟩
    cases hkx
    exact he
  · intro he
    exact ⟨⟨k, x⟩, he, rfl⟩

/-- The assignment a match gives. -/
def AssignedType.ofMatch : Option AcceptedType → AssignedType
  | some a => ⟨a.typeId, a.incarnation, true⟩
  | none => ⟨1, none, false⟩

section MatchTypes

variable {accepted : List AcceptedType} {evolving : Bool} {ts : List DesiredType}
  {st st' : TypeMatching}

lemma matchTypeStep_eq_ok {t : DesiredType}
    (h : matchTypeStep accepted evolving st t = .ok st') :
    ∃ m d, matchType accepted evolving t = .ok (m, d) ∧
      st'.assignments = st.assignments.insert t.key (.ofMatch m) ∧
      st'.consumed = (m.map AcceptedType.typeId).toList ++ st.consumed ∧
      (∀ a ∈ m, a.typeId ∉ st.consumed) := by
  simp only [matchTypeStep, Except.bind_eq_ok_iff] at h
  obtain ⟨⟨m, d⟩, hm, hassign⟩ := h
  refine ⟨m, d, hm, ?_⟩
  cases m with
  | none =>
    cases hassign
    exact ⟨rfl, rfl, by simp⟩
  | some a =>
    simp only [TypeMatching.assign] at hassign
    split_ifs at hassign with hc
    cases hassign
    refine ⟨rfl, rfl, ?_⟩
    rintro _ ⟨⟩
    exact hc

/-- What the matching of types assigns, if no two have the same kind and name. -/
lemma matchTypes_run (h : ts.foldlM (matchTypeStep accepted evolving) st = .ok st')
    (hkeys : (ts.map DesiredType.key).Nodup) :
    (∀ t ∈ ts, ∃ m d, matchType accepted evolving t = .ok (m, d) ∧
      st'.assignments.lookup t.key = some (.ofMatch m)) ∧
    (∀ k, (∀ t ∈ ts, t.key ≠ k) → st'.assignments.lookup k = st.assignments.lookup k) := by
  induction ts generalizing st with
  | nil =>
    cases h
    simp
  | cons t ts ih =>
    rw [List.foldlM_cons, Except.bind_eq_ok_iff] at h
    obtain ⟨st1, hstep, hrest⟩ := h
    rw [List.map_cons, List.nodup_cons] at hkeys
    obtain ⟨m, d, hm, hinsert, -, -⟩ := matchTypeStep_eq_ok hstep
    obtain ⟨hall, hother⟩ := ih hrest hkeys.2
    refine ⟨fun u hu => ?_, fun k hk => ?_⟩
    · rcases List.mem_cons.mp hu with rfl | hu
      · refine ⟨m, d, hm, ?_⟩
        rw [hother u.key fun v hv hvu => hkeys.1 (List.mem_map.mpr ⟨v, hv, hvu⟩), hinsert,
          AList.lookup_insert]
      · exact hall u hu
    · rw [hother k fun v hv => hk v (by simp [hv]), hinsert,
        AList.lookup_insert_ne (hk t (by simp)).symm]

end MatchTypes

section AllocateTypes

variable {m m' : Assignments} {next next' : ℕ}

/-- The entries that are chosen get new identities, the others stay. -/
lemma lookup_update (upd : AssignedType → ℕ → AssignedType) {l : List (TypeKey × AssignedType)}
    {chosen : TypeKey → AssignedType → Prop}
    (hl : ∀ k x, (k, x) ∈ l ↔ m.lookup k = some x ∧ chosen k x)
    (hm : m' = HashMap.insertAll (fun e => e.1.1) (fun e => upd e.1.2 e.2) m (l.zipIdx next)) :
    (∀ k x, m.lookup k = some x → ¬ chosen k x → m'.lookup k = some x) ∧
    (∀ k x, m.lookup k = some x → chosen k x → ∃ i, ((k, x), i) ∈ l.zipIdx next ∧
      next ≤ i ∧ i < next + l.length ∧ m'.lookup k = some (upd x i)) ∧
    (∀ k, m.lookup k = none → m'.lookup k = none) := by
  subst hm
  have hout : ∀ k, (∀ x, (k, x) ∉ l) → (HashMap.insertAll (fun e => e.1.1)
      (fun e => upd e.1.2 e.2) m (l.zipIdx next)).lookup k = m.lookup k := by
    intro k hk
    apply HashMap.lookup_insertAll_of_forall_ne
    rintro ⟨⟨k', x⟩, i⟩ ha rfl
    exact hk x (exists_mem_zipIdx.mp ⟨i, ha⟩)
  refine ⟨fun k x hx hnot => ?_, fun k x hx hchosen => ?_, fun k hk => ?_⟩
  · rw [hout k, hx]
    intro y hy
    obtain ⟨hy, hchosen⟩ := (hl k y).mp hy
    cases hx.symm.trans hy
    exact hnot hchosen
  · obtain ⟨i, hi⟩ := exists_mem_zipIdx.mpr ((hl k x).mpr ⟨hx, hchosen⟩)
    obtain ⟨⟨⟨k', x'⟩, j⟩, hj, hk, hlook⟩ := HashMap.exists_lookup_insertAll (fun e => e.1.1)
      (fun e => upd e.1.2 e.2) m hi
    cases hk
    cases hx.symm.trans ((hl k x').mp (exists_mem_zipIdx.mp ⟨j, hj⟩)).1
    exact ⟨j, hj, (bounds_of_mem_zipIdx hj).1, (bounds_of_mem_zipIdx hj).2, hlook⟩
  · rw [hout k, hk]
    intro x hx
    cases hk.symm.trans ((hl k x).mp hx).1

/-- New types get new identities, the others keep theirs. -/
lemma lookup_allocateTypes (h : allocateTypes m next = .ok (m', next')) :
    next ≤ next' ∧
    (∀ k x, m.lookup k = some x → x.matched = true → m'.lookup k = some x) ∧
    (∀ k x, m.lookup k = some x → x.matched = false → ∃ i, ((k, x), i) ∈ (newTypes m).zipIdx next ∧
      next ≤ i ∧ i < next' ∧ m'.lookup k = some { x with typeId := i }) ∧
    (∀ k, m.lookup k = none → m'.lookup k = none) := by
  obtain ⟨⟨ids, n⟩, halloc, ⟨⟩⟩ := Except.bind_eq_ok_iff.mp h
  obtain ⟨rfl, rfl⟩ := allocateAll_eq_ok halloc
  have hmem : ∀ k x, (k, x) ∈ newTypes m ↔ m.lookup k = some x ∧ x.matched = false := by
    intro k x
    rw [newTypes, List.mem_filter, mem_inKeyOrder, Bool.not_eq_true']
  obtain ⟨hold, hnew, hnone⟩ := lookup_update (fun x i => { x with typeId := i }) hmem
    (show ((newTypes m).zipIdx next).foldl setTypeId m = _ from rfl)
  exact ⟨Nat.le_add_right _ _, fun k x hx hmatched => hold k x hx (by simp [hmatched]), hnew, hnone⟩

/-- Node and edge types without a table get one. -/
lemma lookup_allocateIncarnations (h : allocateIncarnations m next = .ok (m', next')) :
    next ≤ next' ∧
    (∀ k x, m.lookup k = some x → (k.1.hasTable = false ∨ x.incarnation.isSome = true) →
      m'.lookup k = some x) ∧
    (∀ k x, m.lookup k = some x → k.1.hasTable = true → x.incarnation = none →
      ∃ i, ((k, x), i) ∈ (newTables m).zipIdx next ∧ next ≤ i ∧ i < next' ∧
        m'.lookup k = some { x with incarnation := some i }) ∧
    (∀ k, m.lookup k = none → m'.lookup k = none) := by
  obtain ⟨⟨ids, n⟩, halloc, ⟨⟩⟩ := Except.bind_eq_ok_iff.mp h
  obtain ⟨rfl, rfl⟩ := allocateAll_eq_ok halloc
  have hmem : ∀ k x, (k, x) ∈ newTables m ↔
      m.lookup k = some x ∧ k.1.hasTable = true ∧ x.incarnation = none := by
    intro k x
    rw [newTables, mem_sortOn, List.mem_filter, mem_inKeyOrder, Bool.and_eq_true,
      Option.isNone_iff_eq_none]
  obtain ⟨hold, hnew, hnone⟩ := lookup_update (fun x i => { x with incarnation := some i }) hmem
    (show ((newTables m).zipIdx next).foldl setIncarnation m = _ from rfl)
  refine ⟨Nat.le_add_right _ _, fun k x hx hkept => hold k x hx ?_,
    fun k x hx htable hnone => hnew k x hx ⟨htable, hnone⟩, hnone⟩
  rintro ⟨htable, hnone⟩
  simp [htable, hnone] at hkept

end AllocateTypes

/-! ### Properties -/

section MatchProperties

variable {accepted : List AcceptedType} {evolving : Bool} {t : DesiredType} {ownerId : ℕ}
  {st st' : PropertyMatching}

/-- The accepted type an owner continues. -/
def acceptedOwner (accepted : List AcceptedType) (ownerId : ℕ) : Option AcceptedType :=
  accepted.find? fun a => a.typeId = ownerId

/-- A property of the desired shape, with its owner and the identity of its owner. -/
structure DesiredProperty where
  owner : DesiredType
  ownerId : ℕ
  property : PropertyShape

def DesiredProperty.key (e : DesiredProperty) : PropertyKey := (e.ownerId, e.property.name)

/-- The accepted property it continues. -/
def DesiredProperty.matchIn (accepted : List AcceptedType) (evolving : Bool)
    (e : DesiredProperty) : Result (Option PropertyIR × List SchemaIdentityDiagnostic) :=
  matchProperty accepted evolving e.owner (acceptedOwner accepted e.ownerId) e.property

def propertyStep (accepted : List AcceptedType) (evolving : Bool) (st : PropertyMatching)
    (e : DesiredProperty) : Result PropertyMatching :=
  matchPropertyStep accepted evolving e.owner e.ownerId st e.property

variable {e : DesiredProperty}

lemma propertyStep_eq_ok (h : propertyStep accepted evolving st e = .ok st') :
    ∃ m d, e.matchIn accepted evolving = .ok (m, d) ∧
      ((∃ q, m = some q ∧ st'.assigned = st.assigned.insert e.key q.propertyId ∧
        st'.pending = st.pending) ∨
      (m = none ∧ st'.assigned = st.assigned ∧ st'.pending = st.pending ++ [e.key])) := by
  simp only [propertyStep, matchPropertyStep, Except.bind_eq_ok_iff] at h
  obtain ⟨⟨m, d⟩, hm, hassign⟩ := h
  refine ⟨m, d, hm, ?_⟩
  cases m with
  | none =>
    cases hassign
    exact .inr ⟨rfl, rfl, rfl⟩
  | some q =>
    simp only [PropertyMatching.assign] at hassign
    split_ifs at hassign
    cases hassign
    exact .inl ⟨q, rfl, rfl, rfl⟩

/-- What the matching of properties assigns, if no two have the same owner and name. -/
lemma propertyStep_run {es : List DesiredProperty}
    (h : es.foldlM (propertyStep accepted evolving) st = .ok st')
    (hkeys : (es.map DesiredProperty.key).Nodup) :
    (∀ e ∈ es, ∃ m d, e.matchIn accepted evolving = .ok (m, d) ∧
      ∀ q ∈ m, st'.assigned.lookup e.key = some q.propertyId) ∧
    (∀ k, (∀ e ∈ es, e.key ≠ k) → st'.assigned.lookup k = st.assigned.lookup k) ∧
    (∀ k, k ∈ st'.pending ↔ k ∈ st.pending ∨
      ∃ e ∈ es, e.key = k ∧ ∃ d, e.matchIn accepted evolving = .ok (none, d)) := by
  induction es generalizing st with
  | nil =>
    cases h
    simp
  | cons e es ih =>
    rw [List.foldlM_cons, Except.bind_eq_ok_iff] at h
    obtain ⟨st1, hstep, hrest⟩ := h
    rw [List.map_cons, List.nodup_cons] at hkeys
    obtain ⟨m, d, hm, hcases⟩ := propertyStep_eq_ok hstep
    obtain ⟨hall, hother, hpending⟩ := ih hrest hkeys.2
    have hfresh : ∀ f ∈ es, f.key ≠ e.key := fun f hf hfe =>
      hkeys.1 (List.mem_map.mpr ⟨f, hf, hfe⟩)
    refine ⟨fun f hf => ?_, fun k hk => ?_, fun k => ?_⟩
    · rcases List.mem_cons.mp hf with rfl | hf
      · refine ⟨m, d, hm, fun q hq => ?_⟩
        rw [hother f.key hfresh]
        rcases hcases with ⟨q', rfl, hassigned, -⟩ | ⟨rfl, -, -⟩
        · cases hq
          rw [hassigned, AList.lookup_insert]
        · cases hq
      · exact hall f hf
    · rw [hother k fun f hf => hk f (by simp [hf])]
      rcases hcases with ⟨q, -, hassigned, -⟩ | ⟨-, hassigned, -⟩
      · rw [hassigned, AList.lookup_insert_ne (hk e (by simp)).symm]
      · rw [hassigned]
    · rw [hpending k]
      simp only [List.mem_cons, exists_eq_or_imp, hm, Except.ok.injEq, Prod.mk.injEq]
      rcases hcases with ⟨q, rfl, -, hpend⟩ | ⟨rfl, -, hpend⟩
      · rw [hpend]
        simp
      · rw [hpend, List.mem_append, List.mem_singleton]
        simp only [true_and, exists_eq', and_true, or_assoc]
        rw [eq_comm (a := k)]

/-- The properties of a shape, with the identities of their owners. -/
def desiredProperties (m : Assignments) (ts : List DesiredType) : List DesiredProperty :=
  ts.flatMap fun t => ((m.lookup t.key).toList).flatMap fun x =>
    t.properties.map fun p => ⟨t, x.typeId, p⟩

lemma mem_desiredProperties {m : Assignments} {ts : List DesiredType} :
    e ∈ desiredProperties m ts ↔ e.owner ∈ ts ∧ e.property ∈ e.owner.properties ∧
      ∃ x, m.lookup e.owner.key = some x ∧ e.ownerId = x.typeId := by
  simp only [desiredProperties, List.mem_flatMap, Option.mem_toList, List.mem_map]
  constructor
  · rintro ⟨t, ht, x, hx, p, hp, rfl⟩
    exact ⟨ht, hp, x, hx, rfl⟩
  · obtain ⟨t, i, p⟩ := e
    rintro ⟨ht, hp, x, hx, rfl⟩
    exact ⟨t, ht, x, hx, p, hp, rfl⟩

/-- The two nested loops are one loop over all properties. -/
lemma foldlM_matchOwnerStep {m : Assignments} {ts : List DesiredType}
    (h : ts.foldlM (matchOwnerStep accepted evolving m) st = .ok st') :
    (desiredProperties m ts).foldlM (propertyStep accepted evolving) st = .ok st' := by
  induction ts generalizing st with
  | nil => exact h
  | cons t ts ih =>
    rw [List.foldlM_cons, Except.bind_eq_ok_iff] at h
    obtain ⟨st1, hstep, hrest⟩ := h
    simp only [matchOwnerStep, Except.bind_eq_ok_iff] at hstep
    obtain ⟨x, hx, hfold⟩ := hstep
    have hlook : m.lookup t.key = some x := by
      unfold assignedType at hx
      split at hx
      · cases hx
        assumption
      · cases hx
    rw [desiredProperties, List.flatMap_cons, List.foldlM_append, hlook, Option.toList_some,
      List.flatMap_cons, List.flatMap_nil, List.append_nil, List.foldlM_map,
      Except.bind_eq_ok_iff]
    exact ⟨st1, hfold, ih hrest⟩

end MatchProperties

section AllocateProperties

variable {st : PropertyMatching} {P : PropertyAssignments} {next next' : ℕ}

/-- New properties get new identities, the others keep theirs. -/
lemma lookup_allocateProperties (h : allocateProperties st next = .ok (P, next')) :
    next ≤ next' ∧
    (∀ k, k ∉ st.pending → P.lookup k = st.assigned.lookup k) ∧
    (∀ k ∈ st.pending, ∃ i, (k, i) ∈ (sortOn propertyKeyOrder st.pending).zipIdx next ∧
      next ≤ i ∧ i < next' ∧ P.lookup k = some i) := by
  simp only [allocateProperties, Except.bind_eq_ok_iff] at h
  obtain ⟨⟨ids, n⟩, halloc, hret⟩ := h
  cases hret
  obtain ⟨rfl, rfl⟩ := allocateAll_eq_ok halloc
  refine ⟨Nat.le_add_right _ _, fun k hk => ?_, fun k hk => ?_⟩
  · apply HashMap.lookup_insertAll_of_forall_ne
    rintro ⟨k', i⟩ ha rfl
    exact hk ((mem_sortOn _).mp (exists_mem_zipIdx.mp ⟨i, ha⟩))
  · obtain ⟨i, hi⟩ := exists_mem_zipIdx.mpr ((mem_sortOn propertyKeyOrder).mpr hk)
    obtain ⟨⟨k', j⟩, hj, hk', hlook⟩ :=
      HashMap.exists_lookup_insertAll Prod.fst Prod.snd st.assigned hi
    cases hk'
    exact ⟨j, hj, (bounds_of_mem_zipIdx hj).1, (bounds_of_mem_zipIdx hj).2, hlook⟩

end AllocateProperties

/-! ### Building -/

variable {ir : SchemaIR}

section Build

variable {A : Assignments} {P : PropertyAssignments}

lemma assignedType_eq_ok_iff : assignedType A k = .ok x ↔ A.lookup k = some x := by
  unfold assignedType
  cases A.lookup k <;> simp

lemma propertyRef_eq_ok_iff {ownerId : ℕ} {ownerName name : String} {r : PropertyRefIR} :
    propertyRef P ownerId ownerName name = .ok r ↔
      P.lookup (ownerId, name) = some r.propertyId ∧ r.ownerTypeId = ownerId ∧
        r.ownerTypeName = ownerName ∧ r.propertyName = name := by
  unfold propertyRef
  cases P.lookup (ownerId, name) with
  | none => simp
  | some i =>
    obtain ⟨a, b, c, d⟩ := r
    simp only [Except.ok.injEq, PropertyRefIR.mk.injEq, Option.some.injEq]
    constructor
    · rintro ⟨rfl, rfl, rfl, rfl⟩
      exact ⟨rfl, rfl, rfl, rfl⟩
    · rintro ⟨rfl, rfl, rfl, rfl⟩
      exact ⟨rfl, rfl, rfl, rfl⟩

lemma assignedTable_eq_ok_iff {table : TableRef} :
    assignedTable k x = .ok table ↔
      ∃ i, x.incarnation = some i ∧ table = ⟨k.1, x.typeId, k.2, i⟩ := by
  unfold assignedTable
  cases x.incarnation with
  | none => simp
  | some i =>
    simp only [Except.ok.injEq, Option.some.injEq, exists_eq_left']
    exact eq_comm

/-- The accepted type `a` is built from the desired type `t`. -/
structure Built (A : Assignments) (P : PropertyAssignments) (t : DesiredType) (a : AcceptedType) :
    Prop where
  key : a.key = t.key
  assigned : ∃ x, A.lookup t.key = some x ∧ a.typeId = x.typeId ∧
    a.incarnation = (if t.kind.hasTable then x.incarnation else none) ∧
    List.Forall₂ (fun p q => buildProperty A P x.typeId t.name p = .ok q) t.properties a.properties
  table : t.kind.hasTable = true → a.incarnation.isSome = true

lemma buildInterface_built {i : InterfaceShape} {a : InterfaceIR}
    (h : buildInterface A P i = .ok a) : Built A P i.desired a.accepted := by
  simp only [buildInterface, Except.bind_eq_ok_iff, assignedType_eq_ok_iff,
    Except.mapM_eq_ok_iff] at h
  obtain ⟨x, hx, built, hbuilt, hret⟩ := h
  cases hret
  refine ⟨rfl, ⟨x, hx, rfl, rfl, hbuilt⟩, ?_⟩
  intro hc
  cases hc

lemma buildNode_built {n : NodeShape} {a : NodeIR} (h : buildNode A P n = .ok a) :
    Built A P n.desired a.accepted := by
  simp only [buildNode, Except.bind_eq_ok_iff, assignedType_eq_ok_iff, assignedTable_eq_ok_iff,
    Except.mapM_eq_ok_iff] at h
  obtain ⟨x, hx, table, ⟨i, hi, rfl⟩, implements, -, built, hbuilt, constraints, -, hret⟩ := h
  cases hret
  exact ⟨rfl, ⟨x, hx, rfl, hi.symm, hbuilt⟩, fun _ => rfl⟩

lemma buildEdge_built {e : EdgeShape} {a : EdgeIR} (h : buildEdge A P e = .ok a) :
    Built A P e.desired a.accepted := by
  simp only [buildEdge, Except.bind_eq_ok_iff, assignedType_eq_ok_iff, assignedTable_eq_ok_iff,
    Except.mapM_eq_ok_iff] at h
  obtain ⟨x, hx, table, ⟨i, hi, rfl⟩, _, -, _, -, built, hbuilt, constraints, -, hret⟩ := h
  cases hret
  exact ⟨rfl, ⟨x, hx, rfl, hi.symm, hbuilt⟩, fun _ => rfl⟩

/-- The stages of `buildSchema`. -/
lemma buildSchema_eq_ok_iff {domain : SchemaIdentityDomain} {next : ℕ} {shape : SchemaShape} :
    buildSchema domain A P next shape = .ok ir ↔
      ir.irVersion = schemaIrVersion ∧ ir.schemaIdentityDomain = domain ∧
        ir.nextIdentityId = next ∧
        List.Forall₂ (fun i a => buildInterface A P i = .ok a) shape.interfaces ir.interfaces ∧
        List.Forall₂ (fun n a => buildNode A P n = .ok a) shape.nodes ir.nodes ∧
        List.Forall₂ (fun e a => buildEdge A P e = .ok a) shape.edges ir.edges := by
  simp only [buildSchema, Except.bind_eq_ok_iff, Except.mapM_eq_ok_iff, Except.pure_eq_ok_iff]
  constructor
  · rintro ⟨_, h1, _, h2, _, h3, rfl⟩
    exact ⟨rfl, rfl, rfl, h1, h2, h3⟩
  · obtain ⟨_, _, _, _, _, _⟩ := ir
    rintro ⟨rfl, rfl, rfl, h1, h2, h3⟩
    exact ⟨_, h1, _, h2, _, h3, rfl⟩

/-- The types of a built schema are built from the types of the shape, in order. -/
lemma buildSchema_built {domain : SchemaIdentityDomain} {next : ℕ} {shape : SchemaShape}
    (h : buildSchema domain A P next shape = .ok ir) :
    List.Forall₂ (Built A P) (shapeTypes shape) (acceptedTypes ir) := by
  obtain ⟨-, -, -, hi, hn, he⟩ := buildSchema_eq_ok_iff.mp h
  refine List.rel_append (List.rel_append ?_ ?_) ?_
  · rw [List.forall₂_map_left_iff, List.forall₂_map_right_iff]
    exact hi.imp fun _ _ => buildInterface_built
  · rw [List.forall₂_map_left_iff, List.forall₂_map_right_iff]
    exact hn.imp fun _ _ => buildNode_built
  · rw [List.forall₂_map_left_iff, List.forall₂_map_right_iff]
    exact he.imp fun _ _ => buildEdge_built

end Build

/-! ### The whole resolution -/

/-- What a type is assigned, given the accepted type it continues. -/
structure AssignedFrom (next next' : ℕ) (kind : TypeKind) (m : Option AcceptedType)
    (x : AssignedType) : Prop where
  typeId : ∀ a ∈ m, x.typeId = a.typeId
  newType : m = none → next ≤ x.typeId ∧ x.typeId < next'
  table : ∀ a ∈ m, ∀ i ∈ a.incarnation, x.incarnation = some i
  newTable : m = none → kind.hasTable = true →
    ∃ i, x.incarnation = some i ∧ next ≤ i ∧ i < next'

/-- What a property is assigned, given the accepted property it continues. -/
def PropertyAssignedFrom (next next' : ℕ) : Option PropertyIR → ℕ → Prop
  | some q, i => i = q.propertyId
  | none, i => next ≤ i ∧ i < next'

/-- Every type and property of the shape continues an accepted one or is new. -/
structure Resolved (accepted : List AcceptedType) (evolving : Bool) (next next' : ℕ)
    (A : Assignments) (P : PropertyAssignments) (shape : SchemaShape) : Prop where
  types : ∀ t ∈ shapeTypes shape, ∃ m d x, matchType accepted evolving t = .ok (m, d) ∧
    A.lookup t.key = some x ∧ AssignedFrom next next' t.kind m x
  properties : ∀ t ∈ shapeTypes shape, ∀ x, A.lookup t.key = some x → ∀ p ∈ t.properties,
    ∃ m d i, matchProperty accepted evolving t (acceptedOwner accepted x.typeId) p = .ok (m, d) ∧
      P.lookup (x.typeId, p.name) = some i ∧ PropertyAssignedFrom next next' m i
  le : next ≤ next'

section Resolve

variable {domain : SchemaIdentityDomain} {next : ℕ} {accepted : Option SchemaIR}
  {shape : SchemaShape} {res : SchemaResolution}

/-- The accepted types a resolution starts from. -/
def startTypes (accepted : Option SchemaIR) : List AcceptedType :=
  (accepted.map acceptedTypes).getD []

/-- The stages of `resolve`. -/
lemma resolve_eq_ok_iff : resolve domain next accepted shape = .ok res ↔
    ∃ m A1 n1 st P n2 A n3,
      matchTypes (startTypes accepted) accepted.isSome shape = .ok m ∧
      newAllocator next = .ok next ∧
      allocateTypes m.assignments next = .ok (A1, n1) ∧
      matchProperties (startTypes accepted) accepted.isSome A1 shape = .ok st ∧
      allocateProperties st n1 = .ok (P, n2) ∧
      allocateIncarnations A1 n2 = .ok (A, n3) ∧
      buildSchema domain A P n3 shape = .ok res.schemaIr ∧
      Valid res.schemaIr ∧ res.diagnostics = m.diagnostics ++ st.diagnostics := by
  have halloc : ∀ n, newAllocator next = .ok n ↔ newAllocator next = .ok next ∧ n = next := by
    intro n
    unfold newAllocator
    split_ifs <;> simp [eq_comm]
  simp only [resolve, Except.bind_eq_ok_iff, Except.pure_eq_ok_iff]
  constructor
  · rintro ⟨m, hm, n, hn, ⟨A1, n1⟩, h1, st, hst, ⟨P, n2⟩, h2, ⟨A, n3⟩, h3, ir, hir, ⟨⟩, hvalid, rfl⟩
    obtain ⟨hn, rfl⟩ := (halloc n).mp hn
    exact ⟨m, A1, n1, st, P, n2, A, n3, hm, hn, h1, hst, h2, h3, hir,
      validateSchemaIr_eq_ok_iff.mp hvalid, rfl⟩
  · rintro ⟨m, A1, n1, st, P, n2, A, n3, hm, hn, h1, hst, h2, h3, hir, hvalid, hdiag⟩
    refine ⟨m, hm, next, hn, ⟨A1, n1⟩, h1, st, hst, ⟨P, n2⟩, h2, ⟨A, n3⟩, h3, _, hir, (),
      validateSchemaIr_eq_ok_iff.mpr hvalid, ?_⟩
    rw [← hdiag]

variable {types : List AcceptedType}

lemma Built.map_key {A : Assignments} {P : PropertyAssignments} {ts : List DesiredType}
    (h : List.Forall₂ (Built A P) ts types) : ts.map DesiredType.key = types.map AcceptedType.key :=
  h.map_eq fun _ _ hb => hb.key.symm

lemma buildProperty_name {A : Assignments} {P : PropertyAssignments} {ownerId : ℕ} {owner : String}
    {p : PropertyShape} {q : PropertyIR} (h : buildProperty A P ownerId owner p = .ok q) :
    q.name = p.name ∧ P.lookup (ownerId, p.name) = some q.propertyId := by
  simp only [buildProperty, Except.bind_eq_ok_iff, propertyRef_eq_ok_iff] at h
  obtain ⟨r, ⟨hr, -, -, -⟩, _, -, _, -, hret⟩ := h
  cases hret
  exact ⟨rfl, hr⟩

/-- Owners and names of the built properties. -/
lemma Built.map_propertyKey {A A1 : Assignments} {P : PropertyAssignments} {ts : List DesiredType}
    (h : List.Forall₂ (Built A P) ts types)
    (hA : ∀ t ∈ ts, (A1.lookup t.key).map AssignedType.typeId =
      (A.lookup t.key).map AssignedType.typeId) :
    (desiredProperties A1 ts).map DesiredProperty.key =
      (ownedProperties types).map fun e => (e.1.typeId, e.2.name) := by
  induction h with
  | nil => rfl
  | @cons t a ts types hb _ ih =>
    obtain ⟨x, hx, htype, -, hprops⟩ := hb.assigned
    have hlook := hA t (by simp)
    rw [hx, Option.map_some, Option.map_eq_some_iff] at hlook
    obtain ⟨y, hy, hyx⟩ := hlook
    rw [desiredProperties, ownedProperties, List.flatMap_cons, List.flatMap_cons, List.map_append,
      List.map_append]
    have hnames : t.properties.map PropertyShape.name = a.properties.map PropertyIR.name :=
      hprops.map_eq fun _ _ hp => (buildProperty_name hp).1.symm
    congr 1
    · have hpairs := congrArg (List.map fun name => (a.typeId, name)) hnames
      rw [List.map_map, List.map_map] at hpairs
      rw [hy, Option.toList_some, List.flatMap_cons, List.flatMap_nil, List.append_nil,
        List.map_map, List.map_map, hyx, ← htype]
      exact hpairs
    · exact ih fun u hu => hA u (by simp [hu])

lemma Valid.nodup_propertyKeys (h : Valid ir) :
    ((ownedProperties (acceptedTypes ir)).map fun e => (e.1.typeId, e.2.name)).Nodup := by
  have hids : IdsNodup (acceptedTypes ir) := h.idsNodup
  have hnodup : (ownedProperties (acceptedTypes ir)).Nodup := by
    rw [ownedProperties, List.nodup_flatMap]
    refine ⟨fun t ht => ?_, ?_⟩
    · exact (List.Nodup.of_map _ (h.propertiesSorted t ht).nodup_map).map fun _ _ he =>
        (Prod.mk.inj he).2
    · refine (List.Nodup.of_map _ h.keysNodup).imp ?_
      intro t u hne e ht hu
      obtain ⟨p, -, rfl⟩ := List.mem_map.mp ht
      obtain ⟨q, -, hq⟩ := List.mem_map.mp hu
      exact hne (Prod.mk.inj hq).1.symm
  refine hnodup.map_on ?_
  rintro ⟨t, p⟩ ht ⟨u, q⟩ hu hkey
  obtain ⟨ht, hp⟩ := mem_ownedProperties.mp ht
  obtain ⟨hu, hq⟩ := mem_ownedProperties.mp hu
  obtain ⟨hid, hname⟩ := Prod.mk.inj hkey
  obtain rfl := hids.typeId_inj ht hu hid
  rw [(h.propertiesSorted t ht).eq_of_key_eq p hp q hq hname]

/-- A successful resolution, stage by stage. -/
theorem resolve_resolved (h : resolve domain next accepted shape = .ok res) :
    ∃ A P, buildSchema domain A P res.schemaIr.nextIdentityId shape = .ok res.schemaIr ∧
      Valid res.schemaIr ∧
      Resolved (startTypes accepted) accepted.isSome next res.schemaIr.nextIdentityId A P
        shape := by
  obtain ⟨m, A1, n1, st, P, n2, A, n3, hm, -, h1, hst, h2, h3, hir, hvalid, -⟩ :=
    resolve_eq_ok_iff.mp h
  have hnext : res.schemaIr.nextIdentityId = n3 := (buildSchema_eq_ok_iff.mp hir).2.2.1
  refine ⟨A, P, hnext ▸ hir, hvalid, ?_⟩
  rw [hnext]
  have hbuilt := buildSchema_built hir
  have hkeys : ((shapeTypes shape).map DesiredType.key).Nodup := by
    rw [Built.map_key hbuilt]
    exact hvalid.keysNodup
  obtain ⟨hmatch, -⟩ := matchTypes_run hm hkeys
  obtain ⟨hle1, hold1, hnew1, -⟩ := lookup_allocateTypes h1
  obtain ⟨hle2, hold2, hnew2⟩ := lookup_allocateProperties h2
  obtain ⟨hle3, hold3, hnew3, -⟩ := lookup_allocateIncarnations h3
  -- the assignment of a type before and after tables are allocated
  have hstage : ∀ k x, A1.lookup k = some x → ∃ y, A.lookup k = some y ∧ y.typeId = x.typeId ∧
      (∀ i, x.incarnation = some i → y.incarnation = some i) ∧
      (k.1.hasTable = true → x.incarnation = none →
        ∃ i, y.incarnation = some i ∧ n2 ≤ i ∧ i < n3) := by
    intro k x hx
    by_cases hcase : k.1.hasTable = true ∧ x.incarnation = none
    · obtain ⟨i, -, hi, hi', hy⟩ := hnew3 k x hx hcase.1 hcase.2
      refine ⟨_, hy, rfl, fun j hj => ?_, fun _ _ => ⟨i, rfl, hi, hi'⟩⟩
      rw [hcase.2] at hj
      cases hj
    · have hsame : k.1.hasTable = false ∨ x.incarnation.isSome = true := by
        rw [not_and_or, Bool.not_eq_true] at hcase
        exact hcase.imp_right Option.isSome_iff_ne_none.mpr
      exact ⟨x, hold3 k x hx hsame, rfl, fun _ hi => hi,
        fun htable hnone => absurd ⟨htable, hnone⟩ hcase⟩
  -- a matched type keeps its ids, a new one draws them
  have htypes : ∀ t ∈ shapeTypes shape, ∃ mt d x y,
      matchType (startTypes accepted) accepted.isSome t = .ok (mt, d) ∧
      A1.lookup t.key = some x ∧ A.lookup t.key = some y ∧ y.typeId = x.typeId ∧
      AssignedFrom next n3 t.kind mt y := by
    intro t ht
    obtain ⟨mt, d, hmt, hlook⟩ := hmatch t ht
    cases mt with
    | some a =>
      have hx := hold1 t.key _ hlook rfl
      obtain ⟨y, hy, hyid, hinc, -⟩ := hstage t.key _ hx
      refine ⟨some a, d, _, y, hmt, hx, hy, hyid, ⟨?_, by simp, ?_, by simp⟩⟩
      · rintro _ ⟨⟩
        exact hyid
      · rintro _ ⟨⟩ i hi
        exact hinc i hi
    | none =>
      obtain ⟨i, -, hi, hi', hx⟩ := hnew1 t.key _ hlook rfl
      obtain ⟨y, hy, hyid, -, hinc⟩ := hstage t.key _ hx
      refine ⟨none, d, _, y, hmt, hx, hy, hyid, ⟨by simp, fun _ => ?_, by simp, ?_⟩⟩
      · rw [hyid]
        exact ⟨hi, lt_of_lt_of_le hi' (hle2.trans hle3)⟩
      · intro _ htable
        obtain ⟨j, hj, hj1, hj2⟩ := hinc htable rfl
        exact ⟨j, hj, hle1.trans (hle2.trans hj1), hj2⟩
  refine ⟨fun t ht => ?_, fun t ht y hy p hp => ?_, hle1.trans (hle2.trans hle3)⟩
  · obtain ⟨mt, d, -, y, hmt, -, hy, -, hassigned⟩ := htypes t ht
    exact ⟨mt, d, y, hmt, hy, hassigned⟩
  · have hA : ∀ t ∈ shapeTypes shape, (A1.lookup t.key).map AssignedType.typeId =
        (A.lookup t.key).map AssignedType.typeId := by
      intro u hu
      obtain ⟨_, _, x, y, -, hx, hy, hid, -⟩ := htypes u hu
      rw [hx, hy, Option.map_some, Option.map_some, hid]
    have hpkeys : ((desiredProperties A1 (shapeTypes shape)).map DesiredProperty.key).Nodup := by
      rw [Built.map_propertyKey hbuilt hA]
      exact hvalid.nodup_propertyKeys
    -- a matched property keeps its id, a pending one draws one
    obtain ⟨hall, -, hpending⟩ := propertyStep_run (foldlM_matchOwnerStep hst) hpkeys
    obtain ⟨_, _, x, y', -, hx, hy', hid, -⟩ := htypes t ht
    rw [hy] at hy'
    cases hy'
    have hmem : ⟨t, y.typeId, p⟩ ∈ desiredProperties A1 (shapeTypes shape) :=
      mem_desiredProperties.mpr ⟨ht, hp, x, hx, hid⟩
    obtain ⟨mp, d, hmp, hassigned⟩ := hall _ hmem
    cases mp with
    | some q =>
      refine ⟨some q, d, q.propertyId, hmp, ?_, rfl⟩
      rw [← hassigned q rfl]
      apply hold2
      rw [hpending]
      rintro (hc | ⟨e, he, hkey, d', he'⟩)
      · cases hc
      · rw [List.inj_on_of_nodup_map hpkeys he hmem hkey, hmp] at he'
        cases he'
    | none =>
      obtain ⟨i, -, hi, hi', hlook⟩ := hnew2 (y.typeId, p.name)
        ((hpending _).mpr (.inr ⟨_, hmem, rfl, d, hmp⟩))
      exact ⟨none, d, i, hmp, hlook, hle1.trans hi, lt_of_lt_of_le hi' hle3⟩

end Resolve

end Omnigraph.Schema
