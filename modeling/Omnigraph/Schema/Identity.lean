import Omnigraph.Schema.Assigned

/-!
# Identities over the history of a schema

An identity denotes an entity: a type, the table of a type or a property. From one accepted schema
to the next an entity keeps its identity exactly if it continues the one that had it: under the same
name, or, if no entity had that name, under the name its rename hint gives. Everything else gets an
identity the counter has not reached yet. So over any history an identity denotes one entity.
-/

namespace Omnigraph.Schema

open List Option Sorted

/-! ### Entities -/

inductive Entity
  | type (t : AcceptedType)
  | table (t : AcceptedType)
  | property (owner : AcceptedType) (p : PropertyIR)

/-- The entities of an accepted schema. -/
def SchemaIR.Declares (ir : SchemaIR) : Entity → Prop
  | .type t => t ∈ acceptedTypes ir
  | .table t => t ∈ acceptedTypes ir ∧ t.kind.hasTable = true
  | .property t p => t ∈ acceptedTypes ir ∧ p ∈ t.properties

def Entity.id? : Entity → Option ℕ
  | type t => some t.typeId
  | table t => t.incarnation
  | property _ p => some p.propertyId

def SchemaIR.Denotes (ir : SchemaIR) (i : ℕ) (e : Entity) : Prop :=
  ir.Declares e ∧ e.id? = some i

/-- A desired type matches an accepted one of its kind by its exact name or, if no accepted type of
its kind has that name, by its rename hint. -/
def MatchesType (ir : SchemaIR) (t : DesiredType) (a : AcceptedType) : Prop :=
  a.kind = t.kind ∧ (a.name = t.name ∨
    ((∀ b ∈ acceptedTypes ir, b.key ≠ t.key) ∧ t.renameFrom = some a.name))

/-- The same for the properties of one owner. -/
def MatchesProperty (owner : AcceptedType) (p : PropertyShape) (q : PropertyIR) : Prop :=
  q.name = p.name ∨ ((∀ r ∈ owner.properties, r.name ≠ p.name) ∧ p.renameFrom = some q.name)

/-- The type `d` resolved from `shape` continues the type `a` of `ir`. -/
def ContinuesType (ir : SchemaIR) (shape : SchemaShape) (a d : AcceptedType) : Prop :=
  ∃ t ∈ shapeTypes shape, t.key = d.key ∧ MatchesType ir t a

/-- An entity resolved from `shape` continues an entity of `ir`. A table goes with its type, and a
property stays with its owner. -/
def Continues (ir : SchemaIR) (shape : SchemaShape) : Entity → Entity → Prop
  | .type a, .type d => ContinuesType ir shape a d
  | .table a, .table d => ContinuesType ir shape a d
  | .property a q, .property d q' => ∃ t ∈ shapeTypes shape, t.key = d.key ∧ MatchesType ir t a ∧
      ∃ p ∈ t.properties, p.name = q'.name ∧ MatchesProperty a p q
  | _, _ => False

/-! ### One schema -/

variable {e e' : Entity} {i : ℕ} {a : AcceptedType}

section Valid

variable {ir : SchemaIR} {t u : AcceptedType}

lemma incarnation_isSome_iff (h : t ∈ acceptedTypes ir) :
    t.incarnation.isSome = true ↔ t.kind.hasTable = true := by
  simp only [acceptedTypes, mem_append, List.mem_map] at h
  rcases h with (⟨_, -, rfl⟩ | ⟨_, -, rfl⟩) | ⟨_, -, rfl⟩ <;> exact Iff.rfl

/-- The identities of a schema are those of its entities. -/
lemma mem_ids_iff : i ∈ ir.ids ↔ ∃ e, ir.Denotes i e := by
  simp only [SchemaIR.ids, mem_flatMap, AcceptedType.ids, mem_cons, mem_append,
    mem_toList, List.mem_map]
  constructor
  · rintro ⟨t, ht, rfl | hi | ⟨p, hp, rfl⟩⟩
    · exact ⟨.type t, ht, rfl⟩
    · exact ⟨.table t, ⟨ht, (incarnation_isSome_iff ht).mp (isSome_of_mem hi)⟩, hi⟩
    · exact ⟨.property t p, ⟨ht, hp⟩, rfl⟩
  · rintro ⟨e, hdecl, hid⟩
    cases e with
    | type t => exact ⟨t, hdecl, .inl (Option.some.inj hid).symm⟩
    | table t => exact ⟨t, hdecl.1, .inr (.inl hid)⟩
    | property t p => exact ⟨t, hdecl.1, .inr (.inr ⟨p, hdecl.2, Option.some.inj hid⟩)⟩

lemma Entity.owner_mem (h : ir.Denotes i e) :
    ∃ t ∈ acceptedTypes ir, i ∈ t.ids ∧ (e = .type t ∨ e = .table t ∨ ∃ p, e = .property t p) := by
  obtain ⟨hdecl, hid⟩ := h
  cases e with
  | type t => exact ⟨t, hdecl, Option.some.inj hid ▸ t.typeId_mem_ids, .inl rfl⟩
  | table t => exact ⟨t, hdecl.1, AcceptedType.incarnation_mem_ids hid, .inr (.inl rfl)⟩
  | property t p =>
    exact ⟨t, hdecl.1, Option.some.inj hid ▸ AcceptedType.propertyId_mem_ids hdecl.2,
      .inr (.inr ⟨p, rfl⟩)⟩

/-- In a valid schema an identity denotes one entity. -/
lemma Valid.denotes_unique (h : Valid ir) (he : ir.Denotes i e) (he' : ir.Denotes i e') :
    e = e' := by
  have hids : IdsNodup (acceptedTypes ir) := h.idsNodup
  obtain ⟨t, ht, hit, hcase⟩ := Entity.owner_mem he
  obtain ⟨u, hu, hiu, hcase'⟩ := Entity.owner_mem he'
  obtain rfl := hids.eq_of_mem_ids ht hu hit hiu
  obtain ⟨hinc, hprops, hnodup⟩ := (nodup_ids_iff t).mp (hids.ids ht)
  obtain ⟨hdecl, hid⟩ := he
  obtain ⟨hdecl', hid'⟩ := he'
  -- the identity of the type, of the table and of each property differ
  rcases hcase with rfl | rfl | ⟨p, rfl⟩ <;> rcases hcase' with rfl | rfl | ⟨q, rfl⟩
  · rfl
  · exact absurd (Option.some.inj hid).symm (hinc i hid')
  · exact absurd ((Option.some.inj hid').trans (Option.some.inj hid).symm) (hprops q hdecl'.2).1
  · exact absurd (Option.some.inj hid').symm (hinc i hid)
  · rfl
  · exact absurd ((Option.some.inj hid').symm ▸ mem_toList.mpr hid) (hprops q hdecl'.2).2
  · exact absurd ((Option.some.inj hid).trans (Option.some.inj hid').symm) (hprops p hdecl.2).1
  · exact absurd ((Option.some.inj hid).symm ▸ mem_toList.mpr hid') (hprops p hdecl.2).2
  · have hpq : p.propertyId = q.propertyId :=
      (Option.some.inj hid).trans (Option.some.inj hid').symm
    rw [inj_on_of_nodup_map hnodup hdecl.2 hdecl'.2 hpq]

end Valid

/-! ### Matching -/

section Matching

variable {ir : SchemaIR} {t : DesiredType} {m : Option AcceptedType}
  {d : List SchemaIdentityDiagnostic}

lemma Valid.key_inj (h : Valid ir) {b : AcceptedType} (ha : a ∈ acceptedTypes ir)
    (hb : b ∈ acceptedTypes ir) (hkey : a.key = b.key) : a = b :=
  inj_on_of_nodup_map h.keysNodup ha hb hkey

lemma Valid.lookup_acceptedByKey (h : Valid ir) {k : TypeKey} :
    (acceptedByKey (acceptedTypes ir)).lookup k = some a ↔ a ∈ acceptedTypes ir ∧ a.key = k := by
  have hfun : ∀ a ∈ acceptedTypes ir, ∀ b ∈ acceptedTypes ir,
      (a.kind, a.name) = (b.kind, b.name) → id a = id b :=
    fun a ha b hb hab => h.key_inj ha hb hab
  rw [acceptedByKey, HashMap.lookup_insertAll hfun]
  simp only [id_eq, AList.lookup_empty, reduceCtorEq, and_false, or_false]
  constructor
  · rintro ⟨_, ha, hk, rfl⟩
    exact ⟨ha, hk⟩
  · rintro ⟨ha, hk⟩
    exact ⟨a, ha, hk, rfl⟩

variable {accepted : List AcceptedType} {hint : String} {evolving : Bool}

lemma renamedType_eq_ok (h : renamedType accepted t hint = .ok a) :
    a ∈ accepted ∧ a.name = hint ∧ a.kind = t.kind := by
  unfold renamedType at h
  split at h
  · cases h
  · split at h
    · rename_i hfilter
      cases h
      have hmem : a ∈ (accepted.filter fun a => a.name = hint).filter fun a => a.kind = t.kind := by
        rw [hfilter]
        simp
      simp only [mem_filter, decide_eq_true_eq] at hmem
      exact ⟨hmem.1.1, hmem.1.2, hmem.2⟩
    · cases h

/-- `matchType` finds the accepted type that matches. -/
lemma Valid.matchType_eq_ok (h : Valid ir)
    (hm : matchType (acceptedTypes ir) true t = .ok (m, d)) :
    (∀ a, m = some a ↔ a ∈ acceptedTypes ir ∧ MatchesType ir t a) := by
  unfold matchType at hm
  cases hlook : (acceptedByKey (acceptedTypes ir)).lookup t.key with
  | some exact =>
    rw [hlook] at hm
    cases hm
    obtain ⟨hmem, hkey⟩ := h.lookup_acceptedByKey.mp hlook
    obtain ⟨hkind, hname⟩ := Prod.mk.inj hkey
    intro a
    constructor
    · rintro ⟨⟩
      exact ⟨hmem, hkind, .inl hname⟩
    · rintro ⟨ha, hakind, haname | ⟨hno, -⟩⟩
      · rw [h.key_inj hmem ha (hkey.trans (Prod.ext hakind haname).symm)]
      · exact absurd hkey (hno exact hmem)
  | none =>
    have hno : ∀ b ∈ acceptedTypes ir, b.key ≠ t.key := by
      intro b hb hkey
      rw [h.lookup_acceptedByKey.mpr ⟨hb, hkey⟩] at hlook
      cases hlook
    rw [hlook] at hm
    cases hhint : t.renameFrom with
    | none =>
      rw [hhint] at hm
      cases hm
      intro a
      refine ⟨fun hc => absurd hc (by simp), ?_⟩
      rintro ⟨ha, hkind, hname | ⟨-, hc⟩⟩
      · exact absurd (Prod.ext hkind hname) (hno a ha)
      · rw [hhint] at hc
        cases hc
    | some hint =>
      rw [hhint] at hm
      simp only [if_true] at hm
      cases hren : renamedType (acceptedTypes ir) t hint with
      | error e =>
        rw [hren] at hm
        cases hm
      | ok b =>
        rw [hren] at hm
        cases hm
        obtain ⟨hb, hbname, hbkind⟩ := renamedType_eq_ok hren
        intro a
        constructor
        · rintro ⟨⟩
          exact ⟨hb, hbkind, .inr ⟨hno, by rw [hhint, hbname]⟩⟩
        · rintro ⟨ha, hkind, hname | ⟨-, hc⟩⟩
          · exact absurd (Prod.ext hkind hname) (hno a ha)
          · rw [hhint] at hc
            have hname : a.name = b.name := (Option.some.inj hc).symm.trans hbname.symm
            rw [h.key_inj ha hb (Prod.ext (hkind.trans hbkind.symm) hname)]

variable {owner : AcceptedType} {p : PropertyShape} {mp : Option PropertyIR}

lemma renamedProperty_eq_ok {name : String} {q : PropertyIR}
    (h : renamedProperty accepted name owner p hint = .ok q) :
    q ∈ owner.properties ∧ q.name = hint := by
  unfold renamedProperty at h
  split at h
  · rename_i hfilter
    cases h
    have hmem : q ∈ owner.properties.filter fun p => p.name = hint := by
      rw [hfilter]
      simp
    simpa using hmem
  · cases h

/-- `matchProperty` finds the property of the accepted owner that matches. -/
lemma matchProperty_eq_ok (hnames : (owner.properties.map PropertyIR.name).Nodup)
    (hm : matchProperty accepted evolving t (some owner) p = .ok (mp, d)) :
    ∀ q, mp = some q ↔ q ∈ owner.properties ∧ MatchesProperty owner p q := by
  have hinj : ∀ q ∈ owner.properties, ∀ r ∈ owner.properties, q.name = r.name → q = r :=
    fun q hq r hr hqr => inj_on_of_nodup_map hnames hq hr hqr
  unfold matchProperty at hm
  cases hfind : owner.properties.find? (fun q => q.name = p.name) with
  | some exact =>
    simp only [hfind] at hm
    cases hm
    have hmem := mem_of_find?_eq_some hfind
    have hname : exact.name = p.name := by simpa using List.find?_some hfind
    intro q
    constructor
    · rintro ⟨⟩
      exact ⟨hmem, .inl hname⟩
    · rintro ⟨hq, hqname | ⟨hno, -⟩⟩
      · rw [hinj exact hmem q hq (hname.trans hqname.symm)]
      · exact absurd hname (hno exact hmem)
  | none =>
    have hno : ∀ r ∈ owner.properties, r.name ≠ p.name := by
      rw [List.find?_eq_none] at hfind
      intro r hr
      simpa using hfind r hr
    simp only [hfind] at hm
    cases hhint : p.renameFrom with
    | none =>
      rw [hhint] at hm
      cases hm
      intro q
      refine ⟨fun hc => absurd hc (by simp), ?_⟩
      rintro ⟨hq, hname | ⟨-, hc⟩⟩
      · exact absurd hname (hno q hq)
      · rw [hhint] at hc
        cases hc
    | some hint =>
      rw [hhint] at hm
      simp only at hm
      cases hren : renamedProperty accepted t.name owner p hint with
      | error e =>
        rw [hren] at hm
        cases hm
      | ok r =>
        rw [hren] at hm
        cases hm
        obtain ⟨hr, hrname⟩ := renamedProperty_eq_ok hren
        intro q
        constructor
        · rintro ⟨⟩
          exact ⟨hr, .inr ⟨hno, by rw [hhint, hrname]⟩⟩
        · rintro ⟨hq, hname | ⟨-, hc⟩⟩
          · exact absurd hname (hno q hq)
          · rw [hhint] at hc
            rw [hinj q hq r hr ((Option.some.inj hc).symm.trans hrname.symm)]

/-- A property of a new type continues nothing. -/
lemma matchProperty_none (hm : matchProperty accepted evolving t none p = .ok (mp, d)) :
    mp = none := by
  unfold matchProperty at hm
  simp only at hm
  split at hm
  · cases hm
    rfl
  · split_ifs at hm
    cases hm
    rfl

end Matching

/-! ### One step -/

section Step

variable {ir : SchemaIR} {shape : SchemaShape} {res : SchemaResolution}

lemma resolveSchemaIr_eq_ok_iff : resolveSchemaIr ir shape = .ok res ↔ Valid ir ∧
    resolve ir.schemaIdentityDomain ir.nextIdentityId (some ir) shape = .ok res := by
  simp only [resolveSchemaIr, Except.bind_eq_ok_iff]
  constructor
  · rintro ⟨⟨⟩, hvalid, hres⟩
    exact ⟨validateSchemaIr_eq_ok_iff.mp hvalid, hres⟩
  · rintro ⟨hvalid, hres⟩
    exact ⟨(), validateSchemaIr_eq_ok_iff.mpr hvalid, hres⟩

/-- A type of the resolved schema, with the desired type it is built from and the accepted type
that one continues. -/
structure StepType (ir : SchemaIR) (shape : SchemaShape) (next' : ℕ) (d : AcceptedType)
    (t : DesiredType) (m : Option AcceptedType) : Prop where
  mem : t ∈ shapeTypes shape
  key : t.key = d.key
  matched : ∀ a, m = some a ↔ a ∈ acceptedTypes ir ∧ MatchesType ir t a
  typeId : ∀ a ∈ m, d.typeId = a.typeId
  newType : m = none → ir.nextIdentityId ≤ d.typeId
  table : ∀ a ∈ m, d.incarnation = a.incarnation
  newTable : m = none → ∀ i ∈ d.incarnation, ir.nextIdentityId ≤ i
  names : t.properties.map PropertyShape.name = d.properties.map PropertyIR.name
  properties : ∀ q ∈ d.properties, ∃ p ∈ t.properties, p.name = q.name ∧
    ((∃ a r, m = some a ∧ r ∈ a.properties ∧ MatchesProperty a p r ∧
        q.propertyId = r.propertyId) ∨
      ((∀ a ∈ m, ∀ r ∈ a.properties, ¬ MatchesProperty a p r) ∧
        ir.nextIdentityId ≤ q.propertyId))

variable (h : resolveSchemaIr ir shape = .ok res)

include h in
/-- Every type of the resolved schema continues an accepted type or is new. -/
lemma exists_stepType {d : AcceptedType} (hd : d ∈ acceptedTypes res.schemaIr) :
    ∃ t m, StepType ir shape res.schemaIr.nextIdentityId d t m := by
  obtain ⟨hvalid, hres⟩ := resolveSchemaIr_eq_ok_iff.mp h
  obtain ⟨A, P, hbuild, hvalid', hresolved⟩ := resolve_resolved hres
  have hresolved : Resolved (acceptedTypes ir) true ir.nextIdentityId
    res.schemaIr.nextIdentityId A P shape := hresolved
  obtain ⟨t, ht, hbuilt⟩ := (buildSchema_built hbuild).exists_left hd
  obtain ⟨m, diag, x, hm, hx, hassigned⟩ := hresolved.types t ht
  obtain ⟨y, hy, hid, hinc, hprops⟩ := hbuilt.assigned
  rw [hx] at hy
  cases hy
  have hids : IdsNodup (acceptedTypes ir) := hvalid.idsNodup
  have hmatched := hvalid.matchType_eq_ok hm
  have hkind : d.kind = t.kind := (Prod.mk.inj hbuilt.key).1
  -- the accepted owner is the type that is continued
  have howner : acceptedOwner (acceptedTypes ir) x.typeId = m := by
    cases m with
    | some a =>
      obtain ⟨ha, -⟩ := (hmatched a).mp rfl
      have hxa : x.typeId = a.typeId := hassigned.typeId a rfl
      cases hfind : acceptedOwner (acceptedTypes ir) x.typeId with
      | none =>
        unfold acceptedOwner at hfind
        rw [List.find?_eq_none] at hfind
        exact absurd (by simpa using hxa.symm) (hfind a ha)
      | some b =>
        have hb := mem_of_find?_eq_some hfind
        have hbid : b.typeId = x.typeId := by simpa using List.find?_some hfind
        rw [hids.typeId_inj ha hb (hxa.symm.trans hbid.symm)]
    | none =>
      unfold acceptedOwner
      rw [List.find?_eq_none]
      intro a ha hax
      have hlt := hvalid.idsLt a.typeId (mem_flatMap.mpr ⟨a, ha, a.typeId_mem_ids⟩)
      have hge := (hassigned.newType rfl).1
      have hax : a.typeId = x.typeId := by simpa using hax
      omega
  refine ⟨t, m, ht, hbuilt.key.symm, hmatched, ?_, ?_, ?_, ?_, ?_, ?_⟩
  · intro a ha
    exact hid.trans (hassigned.typeId a ha)
  · intro hnone
    rw [hid]
    exact (hassigned.newType hnone).1
  · intro a ha
    obtain ⟨hamem, hakind, -⟩ := (hmatched a).mp ha
    rw [hinc]
    cases htable : t.kind.hasTable with
    | true =>
      obtain ⟨i, hi⟩ := isSome_iff_exists.mp
        ((incarnation_isSome_iff hamem).mpr (hakind ▸ htable))
      rw [if_pos rfl, hassigned.table a ha i hi, hi]
    | false =>
      have hnot := mt (incarnation_isSome_iff hamem).mp (by rw [hakind, htable]; simp)
      rw [Bool.not_eq_true, isSome_eq_false_iff, isNone_iff_eq_none] at hnot
      rw [hnot]
      rfl
  · intro hnone i hi
    rw [hinc] at hi
    cases htable : t.kind.hasTable with
    | true =>
      obtain ⟨j, hj, hle, -⟩ := hassigned.newTable hnone htable
      rw [htable, if_pos rfl, hj] at hi
      cases hi
      exact hle
    | false =>
      rw [htable] at hi
      cases hi
  · exact hprops.map_eq fun _ _ hp => (buildProperty_name hp).1.symm
  · intro q hq
    obtain ⟨p, hp, hbuildq⟩ := hprops.exists_left hq
    obtain ⟨hname, hlook⟩ := buildProperty_name hbuildq
    obtain ⟨mp, dp, i, hmp, hi, hfrom⟩ := hresolved.properties t ht x hx p hp
    rw [hlook] at hi
    cases hi
    refine ⟨p, hp, hname.symm, ?_⟩
    rw [howner] at hmp
    cases m with
    | none =>
      obtain rfl := matchProperty_none hmp
      exact .inr ⟨by simp, hfrom.1⟩
    | some a =>
      obtain ⟨hamem, -⟩ := (hmatched a).mp rfl
      have hspec := matchProperty_eq_ok (hvalid.propertiesSorted a hamem).nodup_map hmp
      cases mp with
      | some r =>
        obtain ⟨hr, hmatch⟩ := (hspec r).mp rfl
        exact .inl ⟨a, r, rfl, hr, hmatch, hfrom⟩
      | none =>
        refine .inr ⟨?_, hfrom.1⟩
        rintro _ ⟨⟩ r hr hmatch
        exact absurd ((hspec r).mpr ⟨hr, hmatch⟩) (by simp)

include h in
lemma nodup_shapeKeys : ((shapeTypes shape).map DesiredType.key).Nodup := by
  obtain ⟨A, P, hbuild, hvalid, -⟩ := resolve_resolved (resolveSchemaIr_eq_ok_iff.mp h).2
  rw [Built.map_key (buildSchema_built hbuild)]
  exact hvalid.keysNodup

include h in
lemma resolveSchemaIr_valid :
    Valid ir ∧ Valid res.schemaIr ∧ ir.nextIdentityId ≤ res.schemaIr.nextIdentityId := by
  obtain ⟨hvalid, hres⟩ := resolveSchemaIr_eq_ok_iff.mp h
  obtain ⟨A, P, -, hvalid', hresolved⟩ := resolve_resolved hres
  exact ⟨hvalid, hvalid', hresolved.le⟩

include h in
/-- An identity after the step was there before, with the entity that is continued, or it is one the
counter had not reached. -/
lemma denotes_of_step (he' : res.schemaIr.Denotes i e') :
    (∃ e, ir.Denotes i e ∧ Continues ir shape e e') ∨ ir.nextIdentityId ≤ i := by
  obtain ⟨hdecl, hid⟩ := he'
  cases e' with
  | type d =>
    obtain ⟨t, m, hstep⟩ := exists_stepType h hdecl
    cases hid
    cases m with
    | none => exact .inr (hstep.newType rfl)
    | some a =>
      obtain ⟨ha, hmatch⟩ := (hstep.matched a).mp rfl
      exact .inl ⟨.type a, ⟨ha, congrArg some (hstep.typeId a rfl).symm⟩,
        t, hstep.mem, hstep.key, hmatch⟩
  | table d =>
    obtain ⟨t, m, hstep⟩ := exists_stepType h hdecl.1
    cases m with
    | none => exact .inr (hstep.newTable rfl i hid)
    | some a =>
      obtain ⟨ha, hmatch⟩ := (hstep.matched a).mp rfl
      have hinc : a.incarnation = some i := (hstep.table a rfl).symm.trans hid
      have htable : a.kind.hasTable = true :=
        (incarnation_isSome_iff ha).mp (isSome_of_mem hinc)
      exact .inl ⟨.table a, ⟨⟨ha, htable⟩, hinc⟩, t, hstep.mem, hstep.key, hmatch⟩
  | property d q =>
    obtain ⟨t, m, hstep⟩ := exists_stepType h hdecl.1
    cases hid
    obtain ⟨p, hp, hname, ⟨a, r, rfl, hr, hmatchp, hrid⟩ | ⟨-, hle⟩⟩ := hstep.properties q hdecl.2
    · obtain ⟨ha, hmatch⟩ := (hstep.matched a).mp rfl
      exact .inl ⟨.property a r, ⟨⟨ha, hr⟩, congrArg some hrid.symm⟩,
        t, hstep.mem, hstep.key, hmatch, p, hp, hname, hmatchp⟩
    · exact .inr hle

include h in
/-- What continues an entity has its identity. -/
lemma id_eq_of_continues (he : ir.Declares e) (he' : res.schemaIr.Declares e')
    (hcont : Continues ir shape e e') : e.id? = e'.id? := by
  -- the desired type of the step is the one that is continued
  have htype : ∀ a d, a ∈ acceptedTypes ir → d ∈ acceptedTypes res.schemaIr →
      ∀ t ∈ shapeTypes shape, t.key = d.key → MatchesType ir t a →
        StepType ir shape res.schemaIr.nextIdentityId d t (some a) := by
    intro a d ha hd t ht hkey hmatch
    obtain ⟨t', m, hstep⟩ := exists_stepType h hd
    obtain rfl := inj_on_of_nodup_map (nodup_shapeKeys h) ht hstep.mem
      (hkey.trans hstep.key.symm)
    rw [← (hstep.matched a).mpr ⟨ha, hmatch⟩]
    exact hstep
  cases e with
  | type a =>
    cases e' with
    | type d =>
      obtain ⟨t, ht, hkey, hmatch⟩ := hcont
      exact congrArg some ((htype a d he he' t ht hkey hmatch).typeId a rfl).symm
    | table d => exact hcont.elim
    | property d q => exact hcont.elim
  | table a =>
    cases e' with
    | type d => exact hcont.elim
    | table d =>
      obtain ⟨t, ht, hkey, hmatch⟩ := hcont
      exact ((htype a d he.1 he'.1 t ht hkey hmatch).table a rfl).symm
    | property d q => exact hcont.elim
  | property a q =>
    cases e' with
    | type d => exact hcont.elim
    | table d => exact hcont.elim
    | property d q' =>
      obtain ⟨t, ht, hkey, hmatch, p, hp, hname, hmatchp⟩ := hcont
      have hstep := htype a d he.1 he'.1 t ht hkey hmatch
      obtain ⟨hvalid, hvalid', -⟩ := resolveSchemaIr_valid h
      have hnames : (t.properties.map PropertyShape.name).Nodup := by
        rw [hstep.names]
        exact (hvalid'.propertiesSorted d he'.1).nodup_map
      obtain ⟨p', hp', hname', hcase⟩ := hstep.properties q' he'.2
      obtain rfl := inj_on_of_nodup_map hnames hp hp' (hname.trans hname'.symm)
      rcases hcase with ⟨b, r, hb, hr, hmatchr, hid⟩ | ⟨hno, -⟩
      · cases hb
        -- both match, so they have one name
        have hqr : q.name = r.name := by
          rcases hmatchp with h1 | ⟨hno, h1⟩ <;> rcases hmatchr with h2 | ⟨hno', h2⟩
          · exact h1.trans h2.symm
          · exact absurd h1 (hno' q he.2)
          · exact absurd h2 (hno r hr)
          · exact Option.some.inj (h1.symm.trans h2)
        rw [(hvalid.propertiesSorted a he.1).eq_of_key_eq q he.2 r hr hqr]
        exact congrArg some hid.symm
      · exact absurd hmatchp (hno a rfl q he.2)

end Step

/-! ### Histories -/

/-- A graph is initialized with the shape `s 0`, and its schema is evolved to `s 1`, …, `s n`. -/
structure Evolution (domain : SchemaIdentityDomain) (n : ℕ) (s : ℕ → SchemaShape)
    (ir : ℕ → SchemaIR) : Prop where
  init : ∃ res, initializeSchemaIr domain (s 0) = .ok res ∧ res.schemaIr = ir 0
  step : ∀ k < n, ∃ res, resolveSchemaIr (ir k) (s (k + 1)) = .ok res ∧ res.schemaIr = ir (k + 1)

/-- The entity `e'` of schema `j` continues the entity `e` of schema `i`, through every schema
between them. -/
inductive Descends (s : ℕ → SchemaShape) (ir : ℕ → SchemaIR) (i : ℕ) (e : Entity) :
    ℕ → Entity → Prop
  | refl : Descends s ir i e i e
  | step {k : ℕ} {e' e'' : Entity} : Descends s ir i e k e' → (ir k).Declares e' →
      Continues (ir k) (s (k + 1)) e' e'' → Descends s ir i e (k + 1) e''

section History

variable {domain : SchemaIdentityDomain} {n : ℕ} {s : ℕ → SchemaShape} {ir : ℕ → SchemaIR}

variable (h : Evolution domain n s ir)

include h in
lemma Evolution.valid {k : ℕ} (hk : k ≤ n) : Valid (ir k) := by
  cases k with
  | zero =>
    obtain ⟨res, hres, hir⟩ := h.init
    obtain ⟨A, P, -, hvalid, -⟩ := resolve_resolved hres
    exact hir ▸ hvalid
  | succ k =>
    obtain ⟨res, hres, hir⟩ := h.step k hk
    exact hir ▸ (resolveSchemaIr_valid hres).2.1

variable {j : ℕ}

include h in
lemma Evolution.next_mono (hij : i ≤ j) (hj : j ≤ n) :
    (ir i).nextIdentityId ≤ (ir j).nextIdentityId := by
  induction j, hij using Nat.le_induction with
  | base => exact le_refl _
  | succ k _ ih =>
    obtain ⟨res, hres, hir⟩ := h.step k hj
    exact (ih (Nat.le_of_succ_le hj)).trans (hir ▸ (resolveSchemaIr_valid hres).2.2)

include h in
/-- An identity that denotes entities of two schemas denotes one entity. -/
lemma Evolution.descends (hij : i ≤ j) (hj : j ≤ n) {x : ℕ} (he : (ir i).Denotes x e)
    (he' : (ir j).Denotes x e') : Descends s ir i e j e' := by
  induction j, hij using Nat.le_induction generalizing e' with
  | base =>
    rw [(h.valid hj).denotes_unique he he']
    exact .refl
  | succ k hik ih =>
    have hk : k ≤ n := Nat.le_of_succ_le hj
    obtain ⟨res, hres, hir⟩ := h.step k hj
    rw [← hir] at he'
    have hlt : x < (ir k).nextIdentityId :=
      lt_of_lt_of_le ((h.valid (hik.trans hk)).idsLt x (mem_ids_iff.mpr ⟨e, he⟩))
        (h.next_mono hik hk)
    rcases denotes_of_step hres he' with ⟨e'', he'', hcont⟩ | hle
    · exact .step (ih hk he'') he''.1 hcont
    · exact absurd hle (Nat.not_le.mpr hlt)

include h in
/-- A table's identity goes with the identity of its type. -/
lemma Evolution.table_follows (hij : i ≤ j) (hj : j ≤ n) {d : AcceptedType}
    (ha : a ∈ acceptedTypes (ir i)) (hd : d ∈ acceptedTypes (ir j)) :
    (a.typeId = d.typeId → a.incarnation = d.incarnation) ∧
      (a.incarnation.isSome = true → a.incarnation = d.incarnation → a.typeId = d.typeId) := by
  have hids := (h.valid (hij.trans hj)).idsNodup
  induction j, hij using Nat.le_induction generalizing d with
  | base =>
    have hids : IdsNodup (acceptedTypes (ir i)) := hids
    refine ⟨fun hid => by rw [hids.typeId_inj ha hd hid], fun hsome hinc => ?_⟩
    obtain ⟨x, hx⟩ := isSome_iff_exists.mp hsome
    rw [hids.eq_of_mem_ids ha hd (AcceptedType.incarnation_mem_ids hx)
      (AcceptedType.incarnation_mem_ids (hinc ▸ hx))]
  | succ k hik ih =>
    have hk : k ≤ n := Nat.le_of_succ_le hj
    obtain ⟨res, hres, hir⟩ := h.step k hj
    rw [← hir] at hd
    obtain ⟨t, m, hstep⟩ := exists_stepType hres hd
    have hlt : ∀ x ∈ a.ids, x < (ir k).nextIdentityId := fun x hx =>
      lt_of_lt_of_le ((h.valid (hik.trans hk)).idsLt x (mem_flatMap.mpr ⟨a, ha, hx⟩))
        (h.next_mono hik hk)
    cases m with
    | none =>
      refine ⟨fun hid => ?_, fun hsome hinc => ?_⟩
      · have hge := hstep.newType rfl
        rw [← hid] at hge
        exact absurd (hlt _ a.typeId_mem_ids) (Nat.not_lt.mpr hge)
      · obtain ⟨x, hx⟩ := isSome_iff_exists.mp hsome
        have hge := hstep.newTable rfl x (hinc ▸ hx)
        exact absurd (hlt x (AcceptedType.incarnation_mem_ids hx)) (Nat.not_lt.mpr hge)
    | some b =>
      obtain ⟨hb, -⟩ := (hstep.matched b).mp rfl
      rw [hstep.typeId b rfl, hstep.table b rfl]
      exact ih hk hb

lemma Entity.exists_id {ir : SchemaIR} (h : ir.Declares e) : ∃ x, e.id? = some x := by
  cases e with
  | type t => exact ⟨_, rfl⟩
  | table t => exact isSome_iff_exists.mp ((incarnation_isSome_iff h.1).mpr h.2)
  | property t p => exact ⟨_, rfl⟩

/-- Over every history of a schema: an entity has the identity of an entity of the schema before it
exactly if it continues that entity, every other identity is new, the counter never goes back and
stays above every identity issued, an identity that denotes entities of two schemas denotes one
entity all the way between them, and the identities of tables follow those of their types. -/
theorem Evolution.identities_stable (h : Evolution domain n s ir) :
    (∀ k < n, ∀ e e', (ir k).Declares e → (ir (k + 1)).Declares e' →
      (e.id? = e'.id? ↔ Continues (ir k) (s (k + 1)) e e')) ∧
    (∀ k < n, ∀ x e', (ir (k + 1)).Denotes x e' →
      (x ∈ (ir k).ids ↔ ∃ e, (ir k).Declares e ∧ Continues (ir k) (s (k + 1)) e e')) ∧
    (∀ k < n, ∀ x ∈ (ir (k + 1)).ids, x ∉ (ir k).ids → (ir k).nextIdentityId ≤ x) ∧
    (∀ i j, i ≤ j → j ≤ n → (ir i).nextIdentityId ≤ (ir j).nextIdentityId ∧
      ∀ x ∈ (ir i).ids, x < (ir j).nextIdentityId) ∧
    (∀ i j, i ≤ j → j ≤ n → ∀ x e e', (ir i).Denotes x e → (ir j).Denotes x e' →
      Descends s ir i e j e') ∧
    (∀ i j, i ≤ j → j ≤ n → ∀ a ∈ acceptedTypes (ir i), ∀ d ∈ acceptedTypes (ir j),
      a.kind.hasTable = true → (a.typeId = d.typeId ↔ a.incarnation = d.incarnation)) := by
  have hback : ∀ k < n, ∀ x e', (ir (k + 1)).Denotes x e' → x ∈ (ir k).ids →
      ∃ e, (ir k).Denotes x e ∧ Continues (ir k) (s (k + 1)) e e' := by
    intro k hk x e' he' hx
    obtain ⟨res, hres, hir⟩ := h.step k hk
    rw [← hir] at he'
    rcases denotes_of_step hres he' with hold | hle
    · exact hold
    · exact absurd ((h.valid hk.le).idsLt x hx) (Nat.not_lt.mpr hle)
  refine ⟨fun k hk e e' he he' => ⟨fun hid => ?_, fun hcont => ?_⟩,
    fun k hk x e' he' => ⟨fun hx => ?_, ?_⟩, fun k hk x hx hnew => ?_,
    fun i j hij hj => ⟨h.next_mono hij hj, fun x hx => ?_⟩,
    fun i j hij hj x e e' he he' => h.descends hij hj he he', fun i j hij hj a ha d hd htable => ?_⟩
  · obtain ⟨x, hx⟩ := Entity.exists_id he
    obtain ⟨e₂, he₂, hcont⟩ := hback k hk x e' ⟨he', hid ▸ hx⟩ (mem_ids_iff.mpr ⟨e, he, hx⟩)
    rw [(h.valid hk.le).denotes_unique ⟨he, hx⟩ he₂]
    exact hcont
  · obtain ⟨res, hres, hir⟩ := h.step k hk
    rw [← hir] at he'
    exact id_eq_of_continues hres he he' hcont
  · obtain ⟨e, he, hcont⟩ := hback k hk x e' he' hx
    exact ⟨e, he.1, hcont⟩
  · rintro ⟨e, he, hcont⟩
    obtain ⟨res, hres, hir⟩ := h.step k hk
    rw [← hir] at he'
    exact mem_ids_iff.mpr ⟨e, he, (id_eq_of_continues hres he he'.1 hcont).trans he'.2⟩
  · obtain ⟨e', he'⟩ := mem_ids_iff.mp hx
    obtain ⟨res, hres, hir⟩ := h.step k hk
    rw [← hir] at he'
    rcases denotes_of_step hres he' with ⟨e, he, -⟩ | hle
    · exact absurd (mem_ids_iff.mpr ⟨e, he⟩) hnew
    · exact hle
  · exact lt_of_lt_of_le ((h.valid (hij.trans hj)).idsLt x hx) (h.next_mono hij hj)
  · obtain ⟨hto, hfrom⟩ := h.table_follows hij hj ha hd
    exact ⟨hto, hfrom ((incarnation_isSome_iff ha).mpr htable)⟩

end History

/-! ### A node type that is renamed, dropped and added again -/

def graphDomain : SchemaIdentityDomain := ⟨"01ARZ3NDEKTSV4RRFFQ69G5FAV", by decide +kernel⟩

/-- One required `String` property, the key of its type. -/
def keyProperty (name : String) (hint : Option String) : PropertyShape :=
  ⟨name, hint, .ofScalar .string false, [], [.key], none, true, []⟩

def keyedNode (name : String) (hint : Option String) (key : String) (keyHint : Option String) :
    SchemaShape :=
  ⟨[], [⟨name, hint, [], [], [keyProperty key keyHint], [.key [key]]⟩], []⟩

def keyedIr (next : ℕ) (name : String) (typeId incarnation : ℕ) (key : String) (keyId : ℕ) :
    SchemaIR where
  irVersion := 2
  schemaIdentityDomain := graphDomain
  nextIdentityId := next
  interfaces := []
  nodes := [⟨name, typeId, incarnation, [], [],
    [⟨key, keyId, .ofScalar .string false, [], [.key], none, true, []⟩],
    [.key [.property ⟨typeId, name, keyId, key⟩]]⟩]
  edges := []

/-- `Person`, then renamed to `Human`, then dropped for a new `Person`. -/
def personHistory : ℕ → SchemaShape
  | 0 => keyedNode "Person" none "name" none
  | 1 => keyedNode "Human" (some "Person") "title" (some "name")
  | _ => keyedNode "Person" none "name" none

def personSchemas : ℕ → SchemaIR
  | 0 => keyedIr 4 "Person" 1 3 "name" 2
  | 1 => keyedIr 4 "Human" 1 3 "title" 2
  | _ => keyedIr 7 "Person" 4 6 "name" 5

theorem personHistory_identities_stable : Evolution graphDomain 2 personHistory personSchemas ∧
    ∀ x ∈ (personSchemas 2).ids, x ∉ (personSchemas 1).ids →
      (personSchemas 1).nextIdentityId ≤ x := by
  have h : Evolution graphDomain 2 personHistory personSchemas := by
    refine ⟨⟨⟨personSchemas 0, []⟩, by rfl, rfl⟩, fun k hk => ?_⟩
    interval_cases k
    · exact ⟨⟨personSchemas 1, []⟩, by rfl, rfl⟩
    · exact ⟨⟨personSchemas 2, []⟩, by rfl, rfl⟩
  exact ⟨h, h.identities_stable.2.2.1 1 (by decide)⟩

end Omnigraph.Schema
