import Omnigraph.Params.Carried

/-!
# The map of parameters

Every member of the object is bound to its literal, so what holds of the literals holds of the map.
-/

namespace Omnigraph.Params

open Except Compiler SerdeJson

/-- The members of the object of parameters. -/
def members : Option JsonValue → List (String × JsonValue)
  | some (.object fields) => fields
  | _ => []

variable {shown : Shown} {queryParams : List Param} {mode : JsonParamMode}

/-- A member and the literal it is bound to. -/
def boundMember (shown : Shown) (queryParams : List Param) (mode : JsonParamMode)
    (member : String × JsonValue) : Read (String × Literal) :=
  (memberLiteral shown queryParams mode member.1 member.2).map (Prod.mk member.1)

/-- The map holds the literals of the members, inserted one after the other. -/
lemma foldlM_insertMember_ok_iff {map map' : ParamMap} {fields : List (String × JsonValue)} :
    fields.foldlM (insertMember shown queryParams mode) map = .ok map' ↔
      ∃ bound, List.Forall₂ (fun member b => boundMember shown queryParams mode member = .ok b)
          fields bound ∧ HashMap.insertAll Prod.fst Prod.snd map bound = map' := by
  induction fields generalizing map with
  | nil =>
    rw [List.foldlM_nil, pure_eq_ok_iff]
    constructor
    · rintro rfl
      exact ⟨[], .nil, rfl⟩
    · rintro ⟨bound, hbound, rfl⟩
      cases hbound
      rfl
  | cons member fields ih =>
    rw [List.foldlM_cons, bind_eq_ok_iff]
    constructor
    · rintro ⟨map₁, hmap₁, hrest⟩
      obtain ⟨literal, hliteral, rfl⟩ := map_eq_ok hmap₁
      obtain ⟨bound, hbound, rfl⟩ := ih.mp hrest
      refine ⟨(member.1, literal) :: bound, .cons ?_ hbound, rfl⟩
      rw [boundMember, hliteral]
      rfl
    · rintro ⟨bound, hbound, rfl⟩
      cases hbound with
      | cons hb hbound =>
        obtain ⟨literal, hliteral, rfl⟩ := map_eq_ok hb
        refine ⟨map.insert member.1 literal, ?_, ih.mpr ⟨_, hbound, rfl⟩⟩
        rw [insertMember, hliteral]
        rfl

variable {key : String} {literal : Literal} {map : ParamMap} {member : String × JsonValue}
  {params : Option JsonValue}

lemma lookup_fillOmitted (h : map.lookup key = some literal) :
    (fillOmitted map queryParams).lookup key = some literal := by
  unfold fillOmitted
  induction queryParams generalizing map with
  | nil => exact h
  | cons param queryParams ih =>
    rw [List.foldl_cons]
    apply ih
    split_ifs with hfill
    · rw [HashMap.lookup_insert_ite, if_neg]
      · exact h
      · rintro rfl
        simp [h] at hfill
    · exact h

/-- Every member is bound to its literal. -/
lemma lookup_of_jsonParamsToParamMap (hkeys : ((members params).map Prod.fst).Nodup)
    (h : jsonParamsToParamMap shown params queryParams mode = .ok map)
    (hmember : member ∈ members params) :
    ∃ literal, memberLiteral shown queryParams mode member.1 member.2 = .ok literal ∧
      map.lookup member.1 = some literal := by
  cases params with
  | none => cases hmember
  | some value =>
    cases value with
    | object fields =>
      obtain ⟨map', hmap', h⟩ := bind_eq_ok_iff.mp h
      cases h
      obtain ⟨bound, hbound, rfl⟩ := foldlM_insertMember_ok_iff.mp hmap'
      obtain ⟨b, hb, hliteral⟩ := hbound.exists_right hmember
      obtain ⟨literal, hread, rfl⟩ := map_eq_ok hliteral
      refine ⟨literal, hread, lookup_fillOmitted ?_⟩
      have hfst : bound.map Prod.fst = fields.map Prod.fst :=
        (hbound.map_eq fun member b hb => by
          obtain ⟨literal, -, rfl⟩ := map_eq_ok hb
          rfl).symm
      have hnodup : (bound.map Prod.fst).Nodup := by
        rw [hfst]
        exact hkeys
      refine (HashMap.lookup_insertAll fun a ha c hc hac => ?_).mpr (.inl ⟨_, hb, rfl, rfl⟩)
      rw [List.inj_on_of_nodup_map hnodup ha hc hac]
    | _ => cases hmember

/-! ### What is accepted -/

/-- The standard mode accepts a member. -/
def acceptsMember (queryParams : List Param) (member : String × JsonValue) : Bool :=
  match declaration queryParams member.1 with
  | some decl =>
    if member.2.isNull then decl.nullable
    else (denoted decl.typeName member.2).isSome && admits .standard decl.typeName member.2
  | none => isPlain member.2

lemma acceptsMember_iff :
    acceptsMember queryParams member = true ↔
      ∃ literal, memberLiteral shown queryParams .standard member.1 member.2 = .ok literal := by
  unfold acceptsMember memberLiteral
  cases declaration queryParams member.1 with
  | none =>
    dsimp only
    constructor
    · intro h
      obtain ⟨literal, hliteral, -⟩ := @inferred_standard member.1 member.2 h
      exact ⟨literal, hliteral⟩
    · rintro ⟨literal, h⟩
      exact isPlain_of_inferred member.2 h
  | some decl =>
    dsimp only
    split_ifs with hnull hnullable
    · simp [hnullable]
    · simp [hnullable, refuse]
    · simp only [typed_ok_iff, Bool.and_eq_true, Option.isSome_iff_exists, exists_and_right]

/-- An object all of whose members are accepted is accepted. -/
lemma exists_map_of_acceptsMember {params : Option JsonValue}
    (hparams : ∀ member ∈ members params, acceptsMember queryParams member = true)
    {member : String × JsonValue} (hmember : member ∈ members params) :
    ∃ map, jsonParamsToParamMap shown params queryParams .standard = .ok map := by
  cases params with
  | none => cases hmember
  | some value =>
    cases value with
    | object fields =>
      have hbound : ∀ member ∈ fields, ∃ b,
          boundMember shown queryParams .standard member = .ok b := by
        intro member hmember
        obtain ⟨literal, hliteral⟩ := acceptsMember_iff.mp (hparams member hmember)
        exact ⟨(member.1, literal), by rw [boundMember, hliteral]; rfl⟩
      obtain ⟨bound, hrun⟩ := exists_mapM_eq_ok_iff.mpr hbound
      have hfold := (@foldlM_insertMember_ok_iff shown queryParams .standard ∅ _ _).mpr
        ⟨bound, mapM_eq_ok_iff.mp hrun, rfl⟩
      exact ⟨_, bind_eq_ok_iff.mpr ⟨_, hfold, rfl⟩⟩
    | _ => cases hmember

/-! ### The modes agree -/

/-- Where both modes accept a member, they read it alike. -/
lemma memberLiteral_agree {value : JsonValue} {literal' : Literal}
    (h : memberLiteral shown queryParams .standard key value = .ok literal)
    (h' : memberLiteral shown queryParams .javaScript key value = .ok literal') :
    literal = literal' := by
  unfold memberLiteral at h h'
  cases hdecl : declaration queryParams key with
  | none =>
    rw [hdecl] at h h'
    have := (inferred_javaScript value literal' h').2
    exact Except.ok.inj (h.symm.trans this)
  | some decl =>
    rw [hdecl] at h h'
    dsimp only at h h'
    split_ifs at h h'
    · exact Except.ok.inj (h.symm.trans h')
    · cases h
    · exact Option.some.inj
        ((typed_ok_iff value |>.mp h).1.symm.trans (typed_ok_iff value |>.mp h').1)

/-- Both modes bind the same values where both accept the parameters. -/
lemma map_agree {map' : ParamMap}
    (h : jsonParamsToParamMap shown params queryParams .standard = .ok map)
    (h' : jsonParamsToParamMap shown params queryParams .javaScript = .ok map') : map = map' := by
  have hsame : ∀ {fields : List (String × JsonValue)} {bound bound' : List (String × Literal)},
      List.Forall₂ (fun member b => boundMember shown queryParams .standard member = .ok b)
          fields bound →
        List.Forall₂ (fun member b => boundMember shown queryParams .javaScript member = .ok b)
            fields bound' → bound = bound' := by
    intro fields bound bound' hbound hbound'
    induction hbound generalizing bound' with
    | nil =>
      cases hbound'
      rfl
    | cons hb _ ih =>
      cases hbound' with
      | cons hb' hrest' =>
        obtain ⟨literal, hliteral, rfl⟩ := map_eq_ok hb
        obtain ⟨literal', hliteral', rfl⟩ := map_eq_ok hb'
        rw [memberLiteral_agree hliteral hliteral', ih hrest']
  cases params with
  | none => exact Except.ok.inj (h.symm.trans h')
  | some value =>
    cases value with
    | object fields =>
      obtain ⟨m, hm, h⟩ := bind_eq_ok_iff.mp h
      obtain ⟨m', hm', h'⟩ := bind_eq_ok_iff.mp h'
      obtain ⟨bound, hbound, rfl⟩ := foldlM_insertMember_ok_iff.mp hm
      obtain ⟨bound', hbound', rfl⟩ := foldlM_insertMember_ok_iff.mp hm'
      cases h
      cases h'
      rw [hsame hbound hbound']
    | null => exact Except.ok.inj (h.symm.trans h')
    | _ => cases h

end Omnigraph.Params
