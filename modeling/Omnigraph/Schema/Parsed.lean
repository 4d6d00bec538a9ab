import Omnigraph.Schema.Shape

/-!
# Parsed schemas

What the parser guarantees of a syntax tree. A node lists its own properties first, then those it
takes over: of the contributions of its interfaces, in order, the ones whose name it does not have
yet. The origins record every interface that contributes a property, whether it was needed or not.
-/

namespace Omnigraph.Schema

open List Option Except

open Compiler (PropType ScalarType)
open Sorted

/-! ### Contributions of interfaces -/

/-- A property and the interface that declares it. -/
abbrev Contribution := InterfaceDecl × PropDecl

def Contribution.origin (c : Contribution) : InterfacePropertyOrigin := ⟨c.1.name, c.2.name⟩

/-- What the interfaces of these names contribute, in order. -/
def contributions (interfaces : List InterfaceDecl) (names : List String) : List Contribution :=
  names.flatMap fun name => ((interfaceMap interfaces).lookup name).toList.flatMap fun i =>
    i.properties.map fun p => (i, p)

/-- The contributions whose name is not there yet. -/
def taken : List PropDecl → List Contribution → List PropDecl
  | _, [] => []
  | ps, c :: cs =>
    if c.2.name ∈ ps.map PropDecl.name then taken ps cs else c.2 :: taken (ps ++ [c.2]) cs

/-- The contributions to the property `name`. -/
def contributionsTo (name : String) (cs : List Contribution) : List InterfacePropertyOrigin :=
  (cs.filter fun c => c.2.name = name).map Contribution.origin

variable {interfaces : List InterfaceDecl} {names : List String} {p : PropDecl} {i : InterfaceDecl}
  {node node' : NodeDecl}

section Taken

variable {ps : List PropDecl} {cs : List Contribution}

lemma mem_contributions {c : Contribution} : c ∈ contributions interfaces names ↔
      (∃ name ∈ names, (interfaceMap interfaces).lookup name = some c.1) ∧
        c.2 ∈ c.1.properties := by
  simp only [contributions, mem_flatMap, mem_toList, List.mem_map]
  constructor
  · rintro ⟨name, hname, i, hi, p, hp, rfl⟩
    exact ⟨⟨name, hname, hi⟩, hp⟩
  · rintro ⟨⟨name, hname, hi⟩, hp⟩
    exact ⟨name, hname, c.1, hi, c.2, hp, rfl⟩

lemma mem_taken (h : p ∈ taken ps cs) : (∃ c ∈ cs, c.2 = p) ∧ p.name ∉ ps.map PropDecl.name := by
  induction cs generalizing ps with
  | nil => cases h
  | cons c cs ih =>
    rw [taken] at h
    split_ifs at h with hname
    · obtain ⟨⟨d, hd, hdp⟩, hp⟩ := ih h
      exact ⟨⟨d, by simp [hd], hdp⟩, hp⟩
    · rcases mem_cons.mp h with rfl | h
      · exact ⟨⟨c, by simp, rfl⟩, hname⟩
      · obtain ⟨⟨d, hd, hdp⟩, hp⟩ := ih h
        refine ⟨⟨d, by simp [hd], hdp⟩, fun hc => hp ?_⟩
        rw [map_append, mem_append]
        exact .inl hc

/-- Every contribution is there, under its name. -/
lemma name_mem_taken {c : Contribution} (h : c ∈ cs) :
    c.2.name ∈ (ps ++ taken ps cs).map PropDecl.name := by
  induction cs generalizing ps with
  | nil => cases h
  | cons d cs ih =>
    rw [taken]
    rcases mem_cons.mp h with rfl | h
    · split_ifs with hname
      · rw [map_append, mem_append]
        exact .inl hname
      · simp
    · split_ifs with hname
      · exact ih h
      · have hmem : c.2.name ∈ ((ps ++ [d.2]) ++ taken (ps ++ [d.2]) cs).map PropDecl.name := ih h
        rwa [append_assoc, singleton_append] at hmem

end Taken

/-! ### Taking over -/

lemma takeOver_eq_ok (h : takeOver i node p = .ok node') :
    node' = { node with
        propertyOrigins := addContribution node.propertyOrigins ⟨i.name, p.name⟩
        properties := node.properties ++ taken node.properties [(i, p)]
        constraints := node.constraints ++
          desugarPropertyConstraints (taken node.properties [(i, p)]) } ∧
      ∃ q, node'.properties.find? (fun q => q.name = p.name) = some q ∧
        q.propType = p.propType := by
  unfold takeOver at h
  cases hfind : node.properties.find? (fun q => q.name = p.name) with
  | some existing =>
    simp only [hfind, bind_eq_ok_iff, ensure_eq_ok_iff] at h
    obtain ⟨_, htype, hret⟩ := h
    cases hret
    have hmem : p.name ∈ node.properties.map PropDecl.name := by
      have hname : existing.name = p.name := by simpa using List.find?_some hfind
      exact hname ▸ List.mem_map_of_mem (mem_of_find?_eq_some hfind)
    refine ⟨?_, existing, hfind, htype⟩
    rw [taken, if_pos hmem, taken, append_nil, desugarPropertyConstraints, flatMap_nil,
      append_nil]
  | none =>
    simp only [hfind] at h
    cases h
    have hmem : p.name ∉ node.properties.map PropDecl.name := by
      rw [List.find?_eq_none] at hfind
      intro hc
      obtain ⟨q, hq, hqp⟩ := List.mem_map.mp hc
      exact hfind q hq (by simpa using hqp)
    refine ⟨?_, p, ?_, rfl⟩
    · rw [taken, if_neg hmem, taken]
    · show (node.properties ++ [p]).find? _ = _
      rw [List.find?_append, hfind]
      simp

lemma taken_cons (ps : List PropDecl) (c : Contribution) (cs : List Contribution) :
    taken ps (c :: cs) = taken ps [c] ++ taken (ps ++ taken ps [c]) cs := by
  simp only [taken]
  split_ifs <;> simp

/-- All contributions, one after the other. -/
lemma foldlM_takeOver {cs : List Contribution}
    (h : cs.foldlM (fun n c => takeOver c.1 n c.2) node = .ok node') :
    node' = { node with
        propertyOrigins :=
          cs.foldl (fun o c => addContribution o c.origin) node.propertyOrigins
        properties := node.properties ++ taken node.properties cs
        constraints := node.constraints ++ desugarPropertyConstraints (taken node.properties cs) } ∧
      ∀ c ∈ cs, ∃ q, node'.properties.find? (fun q => q.name = c.2.name) = some q ∧
        q.propType = c.2.propType := by
  induction cs generalizing node with
  | nil =>
    cases h
    simp [taken, desugarPropertyConstraints]
  | cons c cs ih =>
    rw [foldlM_cons, bind_eq_ok_iff] at h
    obtain ⟨mid, hmid, hrest⟩ := h
    obtain ⟨hmid, q, hq, hqtype⟩ := takeOver_eq_ok hmid
    obtain ⟨hnode', hall⟩ := ih hrest
    refine ⟨?_, ?_⟩
    · rw [hnode', hmid, taken_cons node.properties c cs]
      simp only [append_assoc, foldl_cons, desugarPropertyConstraints,
        flatMap_append]
      rfl
    · intro d hd
      rcases mem_cons.mp hd with rfl | hd
      · -- what is found first stays first
        refine ⟨q, ?_, hqtype⟩
        rw [hnode']
        show (mid.properties ++ _).find? _ = _
        rw [List.find?_append, hq, some_or]
      · exact hall d hd

/-- Implementing interfaces takes over their contributions. -/
lemma foldlM_implementInterface
    (h : names.foldlM (implementInterface interfaces) node = .ok node') :
    (∀ name ∈ names, ∃ i, (interfaceMap interfaces).lookup name = some i) ∧
      (contributions interfaces names).foldlM (fun n c => takeOver c.1 n c.2) node =
        .ok node' := by
  induction names generalizing node with
  | nil => exact ⟨by simp, h⟩
  | cons name names ih =>
    rw [foldlM_cons, bind_eq_ok_iff] at h
    obtain ⟨mid, hmid, hrest⟩ := h
    obtain ⟨hall, hfold⟩ := ih hrest
    unfold implementInterface at hmid
    cases hlook : (interfaceMap interfaces).lookup name with
    | none =>
      rw [hlook] at hmid
      cases hmid
    | some i =>
      simp only [hlook] at hmid
      refine ⟨?_, ?_⟩
      · intro n hn
        rcases mem_cons.mp hn with rfl | hn
        · exact ⟨i, hlook⟩
        · exact hall n hn
      · rw [contributions, flatMap_cons, hlook, toList_some, flatMap_cons,
          flatMap_nil, append_nil, foldlM_append, foldlM_map,
          bind_eq_ok_iff]
        exact ⟨mid, hmid, hfold⟩

/-! ### Origins -/

lemma lookup_addContribution (origins : HashMap String NodePropertyOrigin)
    (c : InterfacePropertyOrigin) (k : String) :
    (addContribution origins c).lookup k =
      if k = c.propertyName then
        some { (origins.lookup k).getD ⟨false, []⟩ with
          interfaceProperties :=
            ((origins.lookup k).getD ⟨false, []⟩).interfaceProperties ++ [c] }
      else origins.lookup k := by
  rw [addContribution, HashMap.lookup_insert_ite]
  split_ifs with hk
  · rw [hk]
  · rfl

/-- The origin of a property after more contributions. -/
def extendOrigin (origin : Option NodePropertyOrigin) :
    List InterfacePropertyOrigin → Option NodePropertyOrigin
  | [] => origin
  | cs => some { origin.getD ⟨false, []⟩ with
      interfaceProperties := (origin.getD ⟨false, []⟩).interfaceProperties ++ cs }

lemma extendOrigin_cons (origin : Option NodePropertyOrigin) (c : InterfacePropertyOrigin)
    (cs : List InterfacePropertyOrigin) :
    extendOrigin (extendOrigin origin [c]) cs = extendOrigin origin (c :: cs) := by
  cases cs with
  | nil => rfl
  | cons d cs => simp [extendOrigin]

lemma lookup_addContributions (cs : List Contribution) (origins : HashMap String NodePropertyOrigin)
    (k : String) :
    (cs.foldl (fun o c => addContribution o c.origin) origins).lookup k =
      extendOrigin (origins.lookup k) (contributionsTo k cs) := by
  induction cs generalizing origins with
  | nil => rfl
  | cons c cs ih =>
    rw [foldl_cons, ih, lookup_addContribution]
    by_cases hk : k = c.2.name
    · subst hk
      rw [if_pos (by rfl), contributionsTo, contributionsTo, filter_cons_of_pos (by simp),
        map_cons, ← extendOrigin_cons]
      rfl
    · rw [if_neg (by exact hk), contributionsTo, contributionsTo,
        filter_cons_of_neg (by simpa using fun h => hk h.symm)]

lemma lookup_directOrigins (ps : List PropDecl) (k : String) :
    (directOrigins ps).lookup k = if k ∈ ps.map PropDecl.name then some ⟨true, []⟩ else none := by
  apply Option.ext
  intro v
  rw [directOrigins, HashMap.lookup_insertAll (fun _ _ _ _ _ => rfl)]
  simp only [AList.lookup_empty, reduceCtorEq, and_false, or_false]
  split_ifs with hk
  · obtain ⟨p, hp, rfl⟩ := List.mem_map.mp hk
    constructor
    · rintro ⟨_, -, -, rfl⟩
      rfl
    · rintro ⟨⟩
      exact ⟨p, hp, rfl, rfl⟩
  · constructor
    · rintro ⟨p, hp, rfl, -⟩
      exact absurd (List.mem_map_of_mem hp) hk
    · exact fun h => absurd h (by simp)

/-! ### What holds of a declaration -/

structure PropDecl.Parsed (p : PropDecl) : Prop where
  ident : isIdent p.name = true
  notReserved : isReservedStorageSystemColumn p.name = false
  normal : normalizeType p.propType = p.propType

def isFloatText (s : String) : Bool :=
  s.toList.all fun c => c.isDigit || ['.', '-', 'e', 'i', 'n', 'f'].contains c

/-- The texts of the bounds are printed floats. -/
def Constraint.BoundsPrinted : Constraint → Prop
  | .range _ min max => ∀ text,
      min = some (.float text) ∨ max = some (.float text) → isFloatText text = true
  | _ => True

/-- What the grammar can write. -/
structure Constraint.Grammatical (c : Constraint) : Prop where
  nonempty : c.columns ≠ []
  idents : ∀ column ∈ c.columns, isIdent column = true
  bounds : c.BoundsPrinted

structure ParsedInterface (i : InterfaceDecl) : Prop where
  typeName : isTypeName i.name = true
  properties : ∀ p ∈ i.properties, p.Parsed
  renames : ∀ p ∈ i.properties, ∃ target hint, renameFromAnnotation p.annotations target = .ok hint

/-- A node with the properties `direct` of its own. -/
structure ParsedNode (interfaces : List InterfaceDecl) (d : NodeDecl) (direct : List PropDecl) :
    Prop where
  typeName : isTypeName d.name = true
  implemented : ∀ name ∈ d.implements, ∃ i, (interfaceMap interfaces).lookup name = some i
  properties : d.properties = direct ++ taken direct (contributions interfaces d.implements)
  parsed : ∀ p ∈ d.properties, p.Parsed
  source : ∃ body, (∀ c ∈ body, c.Grammatical) ∧
    d.sourceConstraints = body ++ desugarPropertyConstraints direct
  constraints : d.constraints = d.sourceConstraints ++
    desugarPropertyConstraints (taken direct (contributions interfaces d.implements))
  origins : ∀ k, d.propertyOrigins.lookup k =
    (extendOrigin (if k ∈ direct.map PropDecl.name then some ⟨true, []⟩ else none)
      (contributionsTo k (contributions interfaces d.implements))).map NodePropertyOrigin.sorted
  types : ∀ c ∈ contributions interfaces d.implements, ∃ q,
    d.properties.find? (fun q => q.name = c.2.name) = some q ∧ q.propType = c.2.propType
  typeAnnotations : ∃ target message, validateTypeAnnotations d.annotations target message = .ok ()
  annotations : ∀ p ∈ d.properties,
    validatePropertyAnnotations ⟨p, d.name, d.properties, false⟩ = .ok ()
  validated : ∃ mode,
    validateTypeConstraints ⟨d.properties, d.name, false, mode⟩ d.constraints = .ok ()

structure ParsedEdge (d : EdgeDecl) : Prop where
  typeName : isTypeName d.name = true
  parsed : ∀ p ∈ d.properties, p.Parsed
  constraints : ∃ body, (∀ c ∈ body, c.Grammatical) ∧
    d.constraints = body ++ desugarPropertyConstraints d.properties
  typeAnnotations : ∃ target message, validateTypeAnnotations d.annotations target message = .ok ()
  annotations : ∀ p ∈ d.properties,
    validatePropertyAnnotations ⟨p, d.name, d.properties, true⟩ = .ok ()
  validated : ∃ mode,
    validateTypeConstraints ⟨d.properties, d.name, true, mode⟩ d.constraints = .ok ()

structure Parsed (schema : SchemaFile) : Prop where
  interfaces : ∀ i ∈ schema.interfaces, ParsedInterface i
  nodes : ∀ d ∈ schema.nodes, ∃ direct, ParsedNode schema.interfaces d direct
  edges : ∀ d ∈ schema.edges, ParsedEdge d

/-! ### Literals and constraints -/

lemma parseTypeRef_normal {coreType : CoreType} {nullable : Bool} {t : PropType}
    (h : parseTypeRef coreType nullable = .ok t) : normalizeType t = t := by
  cases coreType with
  | base scalar =>
    cases h
    rfl
  | list element =>
    simp only [parseTypeRef, bind_eq_ok_iff] at h
    obtain ⟨_, -, hret⟩ := h
    cases hret
    rfl
  | vector dim =>
    simp only [parseTypeRef, bind_eq_ok_iff] at h
    obtain ⟨_, -, _, -, _, -, hret⟩ := h
    cases hret
    rfl
  | enum values =>
    simp only [parseTypeRef, bind_eq_ok_iff] at h
    obtain ⟨_, -, _, -, hret⟩ := h
    cases hret
    have hcanon : canonical id (canonical id values) = canonical id values :=
      (canonical_increasing Function.injective_id values).canonical_eq (List.Perm.refl _)
    unfold normalizeType enumType
    rw [map_some, hcanon]

lemma parsePropDecl_parsed {raw : RawProp} (h : parsePropDecl raw = .ok p) : p.Parsed := by
  simp only [parsePropDecl, bind_eq_ok_iff, ensure_eq_ok_iff] at h
  obtain ⟨_, hreserved, t, ht, annotations, -, hret⟩ := h
  cases hret
  exact ⟨raw.name.2, hreserved, parseTypeRef_normal ht⟩

variable {name : String} {c : Constraint} {d : NodeDecl}

lemma extractIdent_eq_ok {arg : ConstraintArg} (h : extractIdent arg = .ok name) :
    isIdent name = true := by
  cases arg with
  | ident n =>
    cases h
    exact n.2
  | string text => cases h
  | literal text => cases h
  | range bounds => cases h

lemma extractIdents_eq_ok {args : List ConstraintArg} (h : extractIdents name args = .ok names) :
    names ≠ [] ∧ ∀ n ∈ names, isIdent n = true := by
  simp only [extractIdents, bind_eq_ok_iff, ensure_eq_ok_iff] at h
  obtain ⟨ns, hns, _, hne, hret⟩ := h
  cases hret
  refine ⟨hne, fun n hn => ?_⟩
  obtain ⟨arg, -, harg⟩ := (mem_mapM hns).mp hn
  exact extractIdent_eq_ok harg

lemma RawBound.isFloatText_parse {b : RawBound} {text : String}
    (h : b.parse = .float text) : isFloatText text = true := by
  cases b with
  | integer n => cases h
  | float t =>
    cases h
    exact t.2

lemma parseBodyConstraint_grammatical {raw : RawConstraint} (h : parseBodyConstraint raw = .ok c) :
    c.Grammatical := by
  obtain ⟨name, args⟩ := raw
  have hidents : ∀ {label : String} {f : List String → Constraint}, (∀ l, (f l).columns = l) →
      (∀ l, (f l).BoundsPrinted) → (extractIdents label args).map f = .ok c → c.Grammatical := by
    intro label f hcolumns hbounds hmap
    obtain ⟨names, hnames, rfl⟩ := map_eq_ok hmap
    obtain ⟨hne, hall⟩ := extractIdents_eq_ok hnames
    refine ⟨?_, ?_, hbounds names⟩
    · rw [hcolumns]
      exact hne
    · rw [hcolumns]
      exact hall
  cases name with
  | key => exact hidents (f := .key) (fun _ => rfl) (fun _ => trivial) h
  | unique => exact hidents (f := .unique) (fun _ => rfl) (fun _ => trivial) h
  | index => exact hidents (f := .index) (fun _ => rfl) (fun _ => trivial) h
  | range =>
    unfold parseBodyConstraint at h
    cases args with
    | nil => cases h
    | cons property rest =>
      cases rest with
      | nil => cases h
      | cons bounds rest =>
        simp only [bind_eq_ok_iff] at h
        obtain ⟨p, hp, ⟨min, max⟩, hbounds, hret⟩ := h
        cases hret
        refine ⟨by simp [Constraint.columns], ?_, ?_⟩
        · simpa [Constraint.columns] using extractIdent_eq_ok hp
        · cases bounds with
          | ident n => cases hbounds
          | string t => cases hbounds
          | literal t => cases hbounds
          | range bs =>
            cases hbounds
            rintro text (hc | hc)
            · obtain ⟨b, -, hb⟩ := map_eq_some_iff.mp hc
              exact RawBound.isFloatText_parse hb
            · obtain ⟨b, -, hb⟩ := map_eq_some_iff.mp hc
              exact RawBound.isFloatText_parse hb
  | check =>
    unfold parseBodyConstraint at h
    cases args with
    | nil => cases h
    | cons property rest =>
      cases rest with
      | nil => cases h
      | cons pattern rest =>
        simp only [bind_eq_ok_iff] at h
        obtain ⟨p, hp, text, -, hret⟩ := h
        cases hret
        refine ⟨by simp [Constraint.columns], ?_, trivial⟩
        simpa [Constraint.columns] using extractIdent_eq_ok hp

/-- The constraint of an annotation names its property. -/
lemma mem_desugarPropertyConstraints {ps : List PropDecl} :
    c ∈ desugarPropertyConstraints ps ↔
      ∃ p ∈ ps, ∃ a ∈ p.annotations, annotationConstraint p.name a = some c := by
  simp only [desugarPropertyConstraints, mem_flatMap, mem_filterMap]

lemma desugar_grammatical {ps : List PropDecl} (hps : ∀ p ∈ ps, p.Parsed) :
    ∀ c ∈ desugarPropertyConstraints ps, c.Grammatical := by
  intro c hc
  obtain ⟨p, hp, a, -, ha⟩ := mem_desugarPropertyConstraints.mp hc
  obtain ⟨hcolumns, hbounds⟩ : c.columns = [p.name] ∧ c.BoundsPrinted := by
    unfold annotationConstraint at ha
    split_ifs at ha <;> cases ha <;> exact ⟨rfl, trivial⟩
  refine ⟨by simp [hcolumns], ?_, hbounds⟩
  rw [hcolumns]
  simpa using (hps p hp).ident

/-! ### The parser -/

lemma mem_of_lookup_interfaceMap (h : (interfaceMap interfaces).lookup name = some i) :
    i ∈ interfaces ∧ i.name = name := by
  rcases HashMap.lookup_insertAll_iff.mp h with ⟨a, hlast, hname, rfl⟩ | ⟨-, hc⟩
  · exact ⟨hlast.mem, hname⟩
  · rw [AList.lookup_empty] at hc
    cases hc

lemma parseInterfaceDecl_parsed {raw : RawInterface} (h : parseInterfaceDecl raw = .ok i) :
    isTypeName i.name = true ∧ ∀ p ∈ i.properties, p.Parsed := by
  simp only [parseInterfaceDecl, bind_eq_ok_iff] at h
  obtain ⟨ps, hps, hret⟩ := h
  cases hret
  refine ⟨raw.name.2, fun p hp => ?_⟩
  obtain ⟨r, -, hr⟩ := (mem_mapM hps).mp hp
  exact parsePropDecl_parsed hr

/-- Taking over the properties of the interfaces of a parsed node. -/
lemma resolveInterfaces_eq_ok {d0 : NodeDecl} (h : resolveInterfaces interfaces d0 = .ok d) :
    (∀ name ∈ d0.implements, ∃ i, (interfaceMap interfaces).lookup name = some i) ∧
      d = { d0 with
        properties := d0.properties ++
          taken d0.properties (contributions interfaces d0.implements)
        constraints := d0.constraints ++ desugarPropertyConstraints
          (taken d0.properties (contributions interfaces d0.implements))
        propertyOrigins := sortOrigins ((contributions interfaces d0.implements).foldl
          (fun o c => addContribution o c.origin) d0.propertyOrigins) } ∧
      ∀ c ∈ contributions interfaces d0.implements, ∃ q,
        d.properties.find? (fun q => q.name = c.2.name) = some q ∧ q.propType = c.2.propType := by
  simp only [resolveInterfaces, bind_eq_ok_iff] at h
  obtain ⟨node, hnode, hret⟩ := h
  cases hret
  obtain ⟨hall, hfold⟩ := foldlM_implementInterface hnode
  obtain ⟨rfl, htypes⟩ := foldlM_takeOver hfold
  exact ⟨hall, rfl, htypes⟩

lemma parseNodeDecl_eq_ok {raw : RawNode} (h : parseNodeDecl raw = .ok d) :
    isTypeName d.name = true ∧ (∀ p ∈ d.properties, p.Parsed) ∧
      (∃ body, (∀ c ∈ body, c.Grammatical) ∧
        d.sourceConstraints = body ++ desugarPropertyConstraints d.properties) ∧
      d.constraints = d.sourceConstraints ∧ d.propertyOrigins = directOrigins d.properties := by
  simp only [parseNodeDecl, bind_eq_ok_iff] at h
  obtain ⟨annotations, -, ps, hps, body, hbody, hret⟩ := h
  cases hret
  refine ⟨raw.name.2, fun p hp => ?_, ⟨body, fun c hc => ?_, rfl⟩, rfl, rfl⟩
  · obtain ⟨r, -, hr⟩ := (mem_mapM hps).mp hp
    exact parsePropDecl_parsed hr
  · obtain ⟨r, -, hr⟩ := (mem_mapM hbody).mp hc
    exact parseBodyConstraint_grammatical hr

lemma parseEdgeDecl_eq_ok {raw : RawEdge} {d : EdgeDecl} (h : parseEdgeDecl raw = .ok d) :
    isTypeName d.name = true ∧ (∀ p ∈ d.properties, p.Parsed) ∧
      ∃ body, (∀ c ∈ body, c.Grammatical) ∧
        d.constraints = body ++ desugarPropertyConstraints d.properties := by
  simp only [parseEdgeDecl, bind_eq_ok_iff] at h
  obtain ⟨cardinality, -, annotations, -, ps, hps, body, hbody, hret⟩ := h
  cases hret
  refine ⟨raw.name.2, fun p hp => ?_, ⟨body, fun c hc => ?_, rfl⟩⟩
  · obtain ⟨r, -, hr⟩ := (mem_mapM hps).mp hp
    exact parsePropDecl_parsed hr
  · obtain ⟨r, -, hr⟩ := (mem_mapM hbody).mp hc
    exact parseBodyConstraint_grammatical hr

section Parse

variable {mode : ConstraintValidationMode} {raw : List RawDecl} {schema : SchemaFile}

variable {r : RawDecl}

lemma parseSchemaDecl_interface (h : parseSchemaDecl r = .ok (.interface i)) :
    ∃ raw, parseInterfaceDecl raw = .ok i := by
  cases r with
  | interface raw =>
    obtain ⟨j, hj, heq⟩ := map_eq_ok h
    cases heq
    exact ⟨raw, hj⟩
  | node raw =>
    obtain ⟨_, -, heq⟩ := map_eq_ok h
    cases heq
  | edge raw =>
    obtain ⟨_, -, heq⟩ := map_eq_ok h
    cases heq

lemma parseSchemaDecl_node (h : parseSchemaDecl r = .ok (.node d)) :
    ∃ raw, parseNodeDecl raw = .ok d := by
  cases r with
  | node raw =>
    obtain ⟨j, hj, heq⟩ := map_eq_ok h
    cases heq
    exact ⟨raw, hj⟩
  | interface raw =>
    obtain ⟨_, -, heq⟩ := map_eq_ok h
    cases heq
  | edge raw =>
    obtain ⟨_, -, heq⟩ := map_eq_ok h
    cases heq

lemma parseSchemaDecl_edge {d : EdgeDecl} (h : parseSchemaDecl r = .ok (.edge d)) :
    ∃ raw, parseEdgeDecl raw = .ok d := by
  cases r with
  | edge raw =>
    obtain ⟨j, hj, heq⟩ := map_eq_ok h
    cases heq
    exact ⟨raw, hj⟩
  | interface raw =>
    obtain ⟨_, -, heq⟩ := map_eq_ok h
    cases heq
  | node raw =>
    obtain ⟨_, -, heq⟩ := map_eq_ok h
    cases heq

/-- Only nodes change when interfaces are resolved. -/
lemma resolveDecl_eq_ok {a b : SchemaDecl} (h : resolveDecl interfaces a = .ok b) :
    (∃ d0 d, a = .node d0 ∧ b = .node d ∧ resolveInterfaces interfaces d0 = .ok d) ∨
      (a = b ∧ ∀ d, b ≠ .node d) := by
  cases a with
  | interface d =>
    cases h
    exact .inr ⟨rfl, fun _ hc => by cases hc⟩
  | edge d =>
    cases h
    exact .inr ⟨rfl, fun _ hc => by cases hc⟩
  | node d0 =>
    obtain ⟨d, hd, heq⟩ := map_eq_ok h
    exact .inl ⟨d0, d, rfl, heq, hd⟩

lemma mem_interfaces : i ∈ schema.interfaces ↔ .interface i ∈ schema.declarations := by
  simp only [SchemaFile.interfaces, mem_filterMap]
  constructor
  · rintro ⟨d, hd, hi⟩
    cases d <;> cases hi
    exact hd
  · exact fun h => ⟨_, h, rfl⟩

lemma mem_nodes : d ∈ schema.nodes ↔ .node d ∈ schema.declarations := by
  simp only [SchemaFile.nodes, mem_filterMap]
  constructor
  · rintro ⟨d, hd, hi⟩
    cases d <;> cases hi
    exact hd
  · exact fun h => ⟨_, h, rfl⟩

lemma mem_edges {d : EdgeDecl} : d ∈ schema.edges ↔ .edge d ∈ schema.declarations := by
  simp only [SchemaFile.edges, mem_filterMap]
  constructor
  · rintro ⟨d, hd, hi⟩
    cases d <;> cases hi
    exact hd
  · exact fun h => ⟨_, h, rfl⟩

/-- Resolving interfaces leaves the interfaces as they are. -/
lemma interfaces_resolveDecl {ds ds' : List SchemaDecl}
    (h : List.Forall₂ (fun a b => resolveDecl interfaces a = .ok b) ds ds') :
    ds'.filterMap SchemaDecl.interface? = ds.filterMap SchemaDecl.interface? := by
  induction h with
  | nil => rfl
  | @cons a b ds ds' hab _ ih =>
    rcases resolveDecl_eq_ok hab with ⟨d0, d, rfl, rfl, -⟩ | ⟨rfl, -⟩
    · exact ih
    · rw [filterMap_cons, filterMap_cons, ih]

/-- What the parser accepts is parsed. -/
theorem parseSchemaWithMode_parsed (h : parseSchemaWithMode mode raw = .ok schema) :
    Parsed schema := by
  simp only [parseSchemaWithMode, bind_eq_ok_iff, mapM_eq_ok_iff,
    forM_eq_ok_iff] at h
  obtain ⟨ds0, hds0, ds, hds, _, hann, _, hcon, hret⟩ := h
  cases hret
  have hinterfaces : (⟨ds⟩ : SchemaFile).interfaces = ds0.filterMap SchemaDecl.interface? :=
    interfaces_resolveDecl hds
  -- a declaration that is not a node was read as it is
  have hread : ∀ b ∈ ds, (∀ d, b ≠ .node d) → ∃ r, parseSchemaDecl r = .ok b := by
    intro b hb hnode
    obtain ⟨a, ha, hab⟩ := hds.exists_left hb
    rcases resolveDecl_eq_ok hab with ⟨d0, d, -, rfl, -⟩ | ⟨rfl, -⟩
    · exact absurd rfl (hnode d)
    · obtain ⟨r, -, hr⟩ := hds0.exists_left ha
      exact ⟨r, hr⟩
  have hi : ∀ i ∈ (⟨ds⟩ : SchemaFile).interfaces, ParsedInterface i := by
    intro i hi
    have hmem := mem_interfaces.mp hi
    obtain ⟨r, hr⟩ := hread _ hmem fun _ hc => by cases hc
    obtain ⟨raw, hraw⟩ := parseSchemaDecl_interface hr
    obtain ⟨hname, hprops⟩ := parseInterfaceDecl_parsed hraw
    refine ⟨hname, hprops, fun p hp => ?_⟩
    have hvalid := hann _ hmem
    simp only [validateDeclAnnotations, forM_eq_ok_iff, bind_eq_ok_iff] at hvalid
    obtain ⟨hint, hhint, -⟩ := hvalid p hp
    exact ⟨_, hint, hhint⟩
  refine ⟨hi, fun d hd => ?_, fun d hd => ?_⟩
  · have hmem := mem_nodes.mp hd
    obtain ⟨a, ha, hab⟩ := hds.exists_left hmem
    rcases resolveDecl_eq_ok hab with ⟨d0, d', rfl, hd', hres⟩ | ⟨-, hc⟩
    · cases hd'
      obtain ⟨r, -, hr⟩ := hds0.exists_left ha
      obtain ⟨raw, hraw⟩ := parseSchemaDecl_node hr
      obtain ⟨hname, hprops, hsource, hconstraints, horigins⟩ := parseNodeDecl_eq_ok hraw
      rw [← hinterfaces] at hres
      obtain ⟨himpl, rfl, htypes⟩ := resolveInterfaces_eq_ok hres
      have hvalid := hann _ hmem
      simp only [validateDeclAnnotations, bind_eq_ok_iff, forM_eq_ok_iff] at hvalid
      obtain ⟨_, htype, hproperties⟩ := hvalid
      refine ⟨d0.properties, hname, himpl, rfl, fun p hp => ?_, hsource, ?_, fun k => ?_, htypes,
        ⟨_, _, htype⟩, hproperties, mode, hcon _ hmem⟩
      · rcases mem_append.mp hp with hp | hp
        · exact hprops p hp
        · obtain ⟨⟨c, hc, rfl⟩, -⟩ := mem_taken hp
          obtain ⟨⟨name, -, hlook⟩, hcp⟩ := mem_contributions.mp hc
          exact (hi c.1 (mem_of_lookup_interfaceMap hlook).1).properties _ hcp
      · show d0.constraints ++ _ = d0.sourceConstraints ++ _
        rw [hconstraints]
      · refine (HashMap.lookup_mapValues NodePropertyOrigin.sorted _ k).trans ?_
        rw [lookup_addContributions, horigins, lookup_directOrigins]
    · exact absurd rfl (hc d)
  · have hmem := mem_edges.mp hd
    obtain ⟨r, hr⟩ := hread _ hmem fun _ hc => by cases hc
    obtain ⟨raw, hraw⟩ := parseSchemaDecl_edge hr
    obtain ⟨hname, hprops, hconstraints⟩ := parseEdgeDecl_eq_ok hraw
    have hvalid := hann _ hmem
    simp only [validateDeclAnnotations, bind_eq_ok_iff, forM_eq_ok_iff] at hvalid
    obtain ⟨_, htype, hproperties⟩ := hvalid
    exact ⟨hname, hprops, hconstraints, ⟨_, _, htype⟩, hproperties, mode, hcon _ hmem⟩

end Parse

end Omnigraph.Schema
