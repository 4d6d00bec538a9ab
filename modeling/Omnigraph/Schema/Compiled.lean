import Omnigraph.Schema.Checked
import Omnigraph.Schema.SortKeys
import Omnigraph.Schema.Valid

/-!
# Compiled shapes

The shape of a parsed schema, part by part. A property that a node takes over has the shape of the
declaration the parser took over, whichever interface it is compiled from: the interfaces agree.
The constraints of a node are those the parser collected, in their normal form.
-/

namespace Omnigraph.Schema

open List Option Except

open Compiler (PropType ScalarType)
open Sorted

/-! ### Properties -/

/-- The shape of a declaration, but for its hint and its provenance. -/
def declaredShape (p : PropDecl) : PropertyShape where
  name := p.name
  renameFrom := none
  propType := normalizeType p.propType
  annotations := canonicalAnnotations p.annotations
  propertyConstraints :=
    canonical PropertyConstraintShape.rank (p.annotations.filterMap annotationRelation)
  embedSource := embedShape p.annotations
  declaredDirectly := false
  satisfiesInterfaceProperties := []

section Property

variable {p q : PropDecl} {direct : Bool} {sh : PropertyShape}

lemma propertyShape_eq_ok_iff : propertyShape p direct = .ok sh ↔
    ∃ hint, renameFromAnnotation p.annotations s!"property {p.name}" = .ok hint ∧
      sh = { declaredShape p with renameFrom := hint, declaredDirectly := direct } := by
  simp only [propertyShape, bind_eq_ok_iff]
  constructor
  · rintro ⟨hint, hhint, hret⟩
    cases hret
    exact ⟨hint, hhint, rfl⟩
  · rintro ⟨hint, hhint, rfl⟩
    exact ⟨hint, hhint, rfl⟩

lemma propertySemanticKey_eq_ok (h : propertySemanticKey p = .ok sh) : sh = declaredShape p := by
  obtain ⟨s, hs, rfl⟩ := map_eq_ok h
  obtain ⟨hint, -, rfl⟩ := propertyShape_eq_ok_iff.mp hs
  rfl

end Property

lemma InterfacePropertyOrigin.sortKey_injective : Function.Injective sortKey := by
  rintro ⟨a, b⟩ ⟨a', b'⟩ h
  obtain ⟨rfl, rfl⟩ := Prod.mk.inj (toLex.injective h)
  rfl

variable {name : String}

/-- The contributions agree. -/
lemma canonicalInterfaceProperty_eq_ok {interfaces : HashMap String InterfaceDecl} {node : String}
    {cs : List InterfacePropertyOrigin} {p : PropDecl}
    (h : canonicalInterfaceProperty interfaces node name cs = .ok p) :
    ∀ c ∈ cs, ∃ q, contributed interfaces node name c = .ok q ∧
      declaredShape q = declaredShape p := by
  simp only [canonicalInterfaceProperty, bind_eq_ok_iff, mapM_eq_ok_iff] at h
  obtain ⟨candidates, hcandidates, h⟩ := h
  cases candidates with
  | nil => cases h
  | cons first rest =>
    simp only [bind_eq_ok_iff, forM_eq_ok_iff, ensure_eq_ok_iff] at h
    obtain ⟨semantics, hsemantics, _, hrest, hret⟩ := h
    cases hret
    intro c hc
    obtain ⟨q, hq, hcq⟩ := hcandidates.exists_right hc
    refine ⟨q, hcq, ?_⟩
    rcases mem_cons.mp hq with rfl | hq
    · rfl
    · obtain ⟨key, hkey, rfl⟩ := hrest q hq
      rw [← propertySemanticKey_eq_ok hkey, ← propertySemanticKey_eq_ok hsemantics]

/-! ### Properties of a node -/

/-- No two interfaces have one name, and no interface declares a property twice. -/
structure UniqueInterfaces (interfaces : List InterfaceDecl) : Prop where
  names : (interfaces.map InterfaceDecl.name).Nodup
  properties : ∀ i ∈ interfaces, (i.properties.map PropDecl.name).Nodup

lemma UniqueInterfaces.lookup {interfaces : List InterfaceDecl} (h : UniqueInterfaces interfaces)
    {i : InterfaceDecl} (hi : i ∈ interfaces) :
    (interfaceMap interfaces).lookup i.name = some i := by
  refine (HashMap.lookup_insertAll fun a ha b hb hab => ?_).mpr (.inl ⟨i, hi, rfl, rfl⟩)
  exact inj_on_of_nodup_map h.names ha hb hab

variable {ps : List PropDecl}

/-- The first property of a name, if no name is used twice. -/
lemma find_name (h : (ps.map PropDecl.name).Nodup) {p : PropDecl} (hp : p ∈ ps) :
    ps.find? (fun q => q.name = p.name) = some p := by
  cases hfind : ps.find? (fun q => q.name = p.name) with
  | none =>
    rw [List.find?_eq_none] at hfind
    exact absurd (by simp) (hfind p hp)
  | some q =>
    have hname : q.name = p.name := by simpa using List.find?_some hfind
    rw [inj_on_of_nodup_map h (mem_of_find?_eq_some hfind) hp hname]

section Node

variable {interfaces : List InterfaceDecl} {d : NodeDecl} {direct : List PropDecl}

lemma UniqueInterfaces.contributed (h : UniqueInterfaces interfaces) {names : List String}
    {c : Contribution} (hc : c ∈ contributions interfaces names) (node name : String) :
    Schema.contributed (interfaceMap interfaces) node name c.origin = .ok c.2 := by
  obtain ⟨⟨n, -, hlook⟩, hp⟩ := mem_contributions.mp hc
  have hi := (mem_of_lookup_interfaceMap hlook).1
  unfold Schema.contributed
  rw [show c.origin.interfaceName = c.1.name from rfl, h.lookup hi,
    show c.origin.propertyName = c.2.name from rfl]
  simp only [find_name (h.properties c.1 hi) hp]

lemma mem_contributionsTo {cs : List Contribution} {o : InterfacePropertyOrigin} :
    o ∈ contributionsTo name cs ↔ ∃ c ∈ cs, c.2.name = name ∧ c.origin = o := by
  simp only [contributionsTo, List.mem_map, mem_filter, decide_eq_true_eq, and_assoc]

/-- A property that is not the node's own is contributed. -/
lemma ParsedNode.exists_contribution (h : ParsedNode interfaces d direct) {p : PropDecl}
    (hp : p ∈ d.properties) (hdirect : p.name ∉ direct.map PropDecl.name) :
    ∃ c ∈ contributions interfaces d.implements, c.2 = p := by
  rw [h.properties] at hp
  rcases mem_append.mp hp with hp | hp
  · exact absurd (List.mem_map_of_mem hp) hdirect
  · exact (mem_taken hp).1

/-- The interface properties a property of a node satisfies, by name. -/
def satisfiedBy (interfaces : List InterfaceDecl) (d : NodeDecl) (name : String) :
    List InterfacePropertyOrigin :=
  canonical InterfacePropertyOrigin.sortKey
    (contributionsTo name (contributions interfaces d.implements))

lemma ParsedNode.origin (h : ParsedNode interfaces d direct) {p : PropDecl}
    (hp : p ∈ d.properties) : d.propertyOrigins.lookup p.name =
      some ⟨decide (p.name ∈ direct.map PropDecl.name), satisfiedBy interfaces d p.name⟩ := by
  rw [h.origins]
  by_cases hdirect : p.name ∈ direct.map PropDecl.name
  · rw [if_pos hdirect, decide_eq_true hdirect, satisfiedBy]
    cases contributionsTo p.name (contributions interfaces d.implements) with
    | nil => rfl
    | cons c cs => rfl
  · rw [if_neg hdirect, decide_eq_false hdirect, satisfiedBy]
    obtain ⟨c, hc, hcp⟩ := h.exists_contribution hp hdirect
    have hmem : c.origin ∈ contributionsTo p.name (contributions interfaces d.implements) :=
      mem_contributionsTo.mpr ⟨c, hc, by rw [hcp], rfl⟩
    cases hcs : contributionsTo p.name (contributions interfaces d.implements) with
    | nil =>
      rw [hcs] at hmem
      cases hmem
    | cons c cs => rfl

/-- The shape of a property of a parsed node, but for its hint. -/
def effectiveShape (interfaces : List InterfaceDecl) (d : NodeDecl) (direct : List PropDecl)
    (p : PropDecl) : PropertyShape :=
  { declaredShape p with
    declaredDirectly := decide (p.name ∈ direct.map PropDecl.name)
    satisfiesInterfaceProperties :=
      (satisfiedBy interfaces d p.name).map fun c => ⟨c.interfaceName, c.propertyName⟩ }

/-- The compiled shape of a property is its effective one. -/
lemma ParsedNode.nodePropertyShape (h : ParsedNode interfaces d direct)
    (hu : UniqueInterfaces interfaces) {p : PropDecl} (hp : p ∈ d.properties) {sh : PropertyShape}
    (hsh : Schema.nodePropertyShape (interfaceMap interfaces) d p = .ok sh) :
    sh.cleared = effectiveShape interfaces d direct p := by
  simp only [Schema.nodePropertyShape, bind_eq_ok_iff, h.origin hp, map_some,
    getD_some] at hsh
  obtain ⟨source, hsource, base, hbase, hret⟩ := hsh
  cases hret
  obtain ⟨hint, -, rfl⟩ := propertyShape_eq_ok_iff.mp hbase
  have hidem : canonical InterfacePropertyOrigin.sortKey (satisfiedBy interfaces d p.name) =
      satisfiedBy interfaces d p.name :=
    (canonical_increasing InterfacePropertyOrigin.sortKey_injective _).canonical_eq (.refl _)
  rw [hidem, sourceDecl] at hsource
  rw [hidem]
  have hshape : declaredShape source = declaredShape p := by
    by_cases hdirect : p.name ∈ direct.map PropDecl.name
    · rw [if_pos (.inl (decide_eq_true hdirect))] at hsource
      cases hsource
      rfl
    · obtain ⟨c, hc, hcp⟩ := h.exists_contribution hp hdirect
      have hmem : c.origin ∈ satisfiedBy interfaces d p.name :=
        mem_canonical.mpr (mem_contributionsTo.mpr ⟨c, hc, by rw [hcp], rfl⟩)
      have hcond : ¬ (decide (p.name ∈ direct.map PropDecl.name) = true ∨
          satisfiedBy interfaces d p.name = []) := by
        rintro (hc' | hc')
        · exact hdirect (of_decide_eq_true hc')
        · rw [hc'] at hmem
          cases hmem
      rw [if_neg hcond] at hsource
      obtain ⟨q, hq, hqs⟩ := canonicalInterfaceProperty_eq_ok hsource _ hmem
      rw [hu.contributed hc] at hq
      cases hq
      rw [← hqs, hcp]
  unfold effectiveShape PropertyShape.cleared
  rw [← hshape]
  rfl

end Node

/-! ### Constraints -/

lemma annotationConstraint_eq (name : String) (a : Annotation) :
    annotationConstraint name a = (annotationRelation a).map (relationConstraint name) := by
  unfold annotationConstraint annotationRelation
  split_ifs <;> rfl

variable {c : Constraint} {cs : List Constraint} {owner : String} {shapes : List PropertyShape}

lemma mem_canonicalConstraints (h : c ∈ canonicalConstraints cs) :
    ∃ c0 ∈ cs, c = normalizeConstraint c0 := by
  obtain ⟨c0, hc0, rfl⟩ := List.mem_map.mp ((mem_sortOn _).mp (dedupBy_subset h))
  exact ⟨c0, hc0, rfl⟩

lemma exists_mem_canonicalConstraints (h : c ∈ cs) :
    ∃ c' ∈ canonicalConstraints cs, (normalizeConstraint c).same c' = true :=
  exists_mem_dedupBy Constraint.same_refl ((mem_sortOn _).mpr (List.mem_map_of_mem h))

lemma canonicalConstraints_increasing (h : ∀ c ∈ cs, c.Grammatical) :
    Increasing constraintSortKey (canonicalConstraints cs) := by
  refine dedupBy_increasing (fun a ha b hb hab => ?_) (sortOn_pairwise _ _)
  obtain ⟨a0, ha0, rfl⟩ := List.mem_map.mp ((mem_sortOn _).mp ha)
  obtain ⟨b0, hb0, rfl⟩ := List.mem_map.mp ((mem_sortOn _).mp hb)
  rw [constraintSortKey_inj (h a0 ha0).normalize (h b0 hb0).normalize hab]
  exact Constraint.same_refl _

lemma mem_columns_normalize : name ∈ (normalizeConstraint c).columns ↔ name ∈ c.columns := by
  cases c <;> simp [normalizeConstraint, Constraint.columns]

lemma canonicalAnnotations_ok (as : List Annotation) : AnnotationsOk (canonicalAnnotations as) := by
  refine ⟨fun a ha => ?_, canonical_increasing Annotation.json_injective _⟩
  have hmem := mem_filter.mp (mem_canonical.mp ha)
  simpa using hmem.2

/-! ### Declarations -/

lemma compileNode_eq_ok {interfaces : HashMap String InterfaceDecl} {d : NodeDecl} {n : NodeShape}
    (h : compileNode interfaces d = .ok n) : ∃ shapes hint,
      List.Forall₂ (fun p sh => nodePropertyShape interfaces d p = .ok sh) d.properties shapes ∧
      n = ⟨d.name, hint, canonicalAnnotations d.annotations, canonical id d.implements,
        sortOn PropertyShape.name shapes, canonicalConstraints
          (ownConstraints d ++ injectedConstraints (sortOn PropertyShape.name shapes))⟩ := by
  simp only [compileNode, bind_eq_ok_iff, mapM_eq_ok_iff] at h
  obtain ⟨shapes, hshapes, hint, -, hret⟩ := h
  cases hret
  exact ⟨shapes, hint, hshapes, rfl⟩

variable (h : canonicalProperties owner ps = .ok shapes)

include h in
lemma canonicalProperties_eq_ok : ∃ raw,
      List.Forall₂ (fun p sh => propertyShape p true = .ok sh) ps raw ∧
      shapes = sortOn PropertyShape.name raw ∧ Increasing PropertyShape.name shapes := by
  simp only [canonicalProperties, bind_eq_ok_iff, mapM_eq_ok_iff,
    ensure_eq_ok_iff] at h
  obtain ⟨raw, hraw, _, hchain, hret⟩ := h
  cases hret
  exact ⟨raw, hraw, rfl, increasing_of_isChain_ne (sortOn_pairwise _ _) hchain⟩

section Node

variable {interfaces : List InterfaceDecl} {d : NodeDecl} {direct : List PropDecl}

/-- Without any property there is nothing an interface could add. -/
lemma ParsedNode.ownConstraints_eq (h : ParsedNode interfaces d direct) :
    ownConstraints d = d.sourceConstraints := by
  unfold ownConstraints
  split_ifs with hkeys
  · have hnone : ∀ c ∈ contributions interfaces d.implements, False := by
      intro c hc
      have hmem : c.origin ∈ contributionsTo c.2.name (contributions interfaces d.implements) :=
        mem_contributionsTo.mpr ⟨c, hc, rfl, rfl⟩
      have hlook : d.propertyOrigins.lookup c.2.name ≠ none := by
        rw [h.origins]
        cases hcs : contributionsTo c.2.name (contributions interfaces d.implements) with
        | nil =>
          rw [hcs] at hmem
          cases hmem
        | cons _ _ => simp [extendOrigin]
      have hkey : c.2.name ∈ d.propertyOrigins.keys :=
        AList.mem_keys.mp (AList.lookup_isSome.mp (isSome_iff_ne_none.mpr hlook))
      rw [hkeys] at hkey
      cases hkey
    rw [h.constraints, eq_nil_iff_forall_not_mem.mpr hnone]
    simp [taken, desugarPropertyConstraints]
  · rfl

/-- The constraints that are compiled are those the parser collected. -/
lemma ParsedNode.mem_compiled (h : ParsedNode interfaces d direct)
    (hu : UniqueInterfaces interfaces)
    (hshapes : List.Forall₂ (fun p sh =>
      Schema.nodePropertyShape (interfaceMap interfaces) d p = .ok sh) d.properties shapes) :
    c ∈ ownConstraints d ++ injectedConstraints (sortOn PropertyShape.name shapes) ↔
      c ∈ d.constraints := by
  rw [h.ownConstraints_eq, h.constraints, mem_append, mem_append]
  refine or_congr_right ?_
  simp only [injectedConstraints, mem_flatMap, mem_filter, mem_sortOn, List.mem_map,
    Bool.not_eq_true', mem_desugarPropertyConstraints, annotationConstraint_eq,
    map_eq_some_iff]
  have hshape : ∀ p ∈ d.properties, ∀ sh,
      Schema.nodePropertyShape (interfaceMap interfaces) d p = .ok sh →
      sh.name = p.name ∧ sh.declaredDirectly = decide (p.name ∈ direct.map PropDecl.name) ∧
        sh.propertyConstraints =
          canonical PropertyConstraintShape.rank (p.annotations.filterMap annotationRelation) := by
    intro p hp sh hsh
    have heq := h.nodePropertyShape hu hp hsh
    exact ⟨congrArg PropertyShape.name heq, congrArg PropertyShape.declaredDirectly heq,
      congrArg PropertyShape.propertyConstraints heq⟩
  constructor
  · rintro ⟨sh, ⟨hmem, hdirect⟩, r, hr, rfl⟩
    obtain ⟨p, hp, hsh⟩ := hshapes.exists_left hmem
    obtain ⟨hname, hdir, hcons⟩ := hshape p hp sh hsh
    rw [hdirect] at hdir
    rw [hcons, mem_canonical, mem_filterMap] at hr
    obtain ⟨a, ha, har⟩ := hr
    rw [h.properties] at hp
    rcases mem_append.mp hp with hp | hp
    · exact absurd (List.mem_map_of_mem hp) (of_decide_eq_false hdir.symm)
    · exact ⟨p, hp, a, ha, r, har, by rw [hname]⟩
  · rintro ⟨p, hp, a, ha, r, har, rfl⟩
    have hpd : p ∈ d.properties := by
      rw [h.properties]
      exact mem_append_right _ hp
    obtain ⟨sh, hmem, hsh⟩ := hshapes.exists_right hpd
    obtain ⟨hname, hdir, hcons⟩ := hshape p hpd sh hsh
    refine ⟨sh, ⟨hmem, ?_⟩, r, ?_, by rw [hname]⟩
    · rw [hdir]
      exact decide_eq_false (mem_taken hp).2
    · rw [hcons, mem_canonical, mem_filterMap]
      exact ⟨a, ha, har⟩

end Node

/-! ### The shape -/

/-- What `validateShape` checks. -/
structure ShapeValidated (s : SchemaShape) : Prop where
  interfaceNames : (s.interfaces.map InterfaceShape.name).Nodup
  nodeNames : (s.nodes.map NodeShape.name).Nodup
  edgeNames : (s.edges.map EdgeShape.name).Nodup
  endpoints : ∀ e ∈ s.edges,
    e.fromType ∈ s.nodes.map NodeShape.name ∧ e.toType ∈ s.nodes.map NodeShape.name
  implements : ∀ n ∈ s.nodes, ∀ name ∈ n.implements, name ∈ s.interfaces.map InterfaceShape.name
  embeds : ∀ n ∈ s.nodes, ∀ p ∈ n.properties, ∀ e ∈ p.embedSource,
    e.propertyName ∈ n.properties.map PropertyShape.name

variable {s : SchemaShape} {schema : SchemaFile}

lemma validateEdgeShapes_eq_ok {nodeNames seen : List String} {edges : List EdgeShape}
    (h : validateEdgeShapes nodeNames seen edges = .ok ()) :
    (edges.map EdgeShape.name).Nodup ∧
      ∀ e ∈ edges, e.name ∉ seen ∧ e.fromType ∈ nodeNames ∧ e.toType ∈ nodeNames := by
  induction edges generalizing seen with
  | nil => simp
  | cons e edges ih =>
    simp only [validateEdgeShapes, bind_eq_ok_iff, ensure_eq_ok_iff] at h
    obtain ⟨_, hnew, _, hends, hrest⟩ := h
    obtain ⟨hnodup, hall⟩ := ih hrest
    refine ⟨nodup_cons.mpr ⟨fun hmem => ?_, hnodup⟩, fun e' he' => ?_⟩
    · obtain ⟨e', he', heq⟩ := List.mem_map.mp hmem
      exact (hall e' he').1 (heq ▸ mem_cons_self)
    · rcases mem_cons.mp he' with rfl | he'
      · exact ⟨hnew, hends⟩
      · exact ⟨fun hseen => (hall e' he').1 (mem_cons_of_mem _ hseen), (hall e' he').2⟩

lemma validateShape_eq_ok (h : validateShape s = .ok ()) : ShapeValidated s := by
  simp only [validateShape, bind_eq_ok_iff, ensure_eq_ok_iff, forM_eq_ok_iff] at h
  obtain ⟨_, hi, _, hn, _, hedges, hnodes⟩ := h
  obtain ⟨he, hends⟩ := validateEdgeShapes_eq_ok hedges
  have hnode : ∀ n ∈ s.nodes, (∀ name ∈ n.implements, name ∈ s.interfaces.map InterfaceShape.name) ∧
      ∀ p ∈ n.properties, ∀ e ∈ p.embedSource,
        e.propertyName ∈ n.properties.map PropertyShape.name := by
    intro n hmem
    have hn := hnodes n hmem
    simp only [validateNodeShape, validateNodeProperty, validateEmbedShape, bind_eq_ok_iff,
      ensure_eq_ok_iff, forM_eq_ok_iff] at hn
    obtain ⟨_, himpl, hprops⟩ := hn
    refine ⟨himpl, fun p hp e he => ?_⟩
    obtain ⟨_, -, hembed⟩ := hprops p hp
    exact hembed e (mem_toList.mpr he)
  exact ⟨hi, hn, he, fun e hmem => (hends e hmem).2, fun n hmem => (hnode n hmem).1,
    fun n hmem => (hnode n hmem).2⟩

/-- The stages of `compileSchemaShape`. -/
lemma compileSchemaShape_eq_ok_iff :
    compileSchemaShape schema = .ok s ↔ ∃ is ns es,
      List.Forall₂ (fun d i => compileInterface d = .ok i) schema.interfaces is ∧
      List.Forall₂ (fun d n => compileNode (interfaceMap schema.interfaces) d = .ok n)
        schema.nodes ns ∧
      List.Forall₂ (fun d e => compileEdge d = .ok e) schema.edges es ∧
      s = ⟨sortOn InterfaceShape.name is, sortOn NodeShape.name ns, sortOn EdgeShape.name es⟩ ∧
      validateShape s = .ok () := by
  simp only [compileSchemaShape, bind_eq_ok_iff, mapM_eq_ok_iff]
  constructor
  · rintro ⟨is, his, ns, hns, es, hes, ⟨⟩, hvalid, hret⟩
    cases hret
    exact ⟨is, ns, es, his, hns, hes, rfl, hvalid⟩
  · rintro ⟨is, ns, es, his, hns, hes, rfl, hvalid⟩
    exact ⟨is, his, ns, hns, es, hes, (), hvalid, rfl⟩

lemma compileInterface_eq_ok {d : InterfaceDecl} {i : InterfaceShape}
    (h : compileInterface d = .ok i) :
    i.name = d.name ∧ canonicalProperties d.name d.properties = .ok i.properties := by
  simp only [compileInterface, bind_eq_ok_iff] at h
  obtain ⟨ps, hps, hret⟩ := h
  cases hret
  exact ⟨rfl, hps⟩

lemma compileEdge_eq_ok {d : EdgeDecl} {e : EdgeShape} (h : compileEdge d = .ok e) :
    ∃ hint shapes, canonicalProperties d.name d.properties = .ok shapes ∧
      e = ⟨d.name, hint, d.fromType, d.toType, d.cardinality, canonicalAnnotations d.annotations,
        shapes, canonicalConstraints d.constraints⟩ := by
  simp only [compileEdge, bind_eq_ok_iff] at h
  obtain ⟨hint, -, shapes, hshapes, hret⟩ := h
  cases hret
  exact ⟨hint, shapes, hshapes, rfl⟩

/-- The names of the properties that are compiled. -/
lemma map_name_propertyShape {raw : List PropertyShape}
    (h : List.Forall₂ (fun p sh => propertyShape p true = .ok sh) ps raw) :
    raw.map PropertyShape.name = ps.map PropDecl.name := by
  refine (h.map_eq fun p sh hsh => ?_).symm
  obtain ⟨hint, -, rfl⟩ := propertyShape_eq_ok_iff.mp hsh
  rfl

include h in
lemma canonicalProperties_names :
    (ps.map PropDecl.name).Nodup ∧ ∀ name, name ∈ shapes.map PropertyShape.name ↔
      name ∈ ps.map PropDecl.name := by
  obtain ⟨raw, hraw, rfl, hinc⟩ := canonicalProperties_eq_ok h
  have hperm : ((sortOn PropertyShape.name raw).map PropertyShape.name).Perm
      (ps.map PropDecl.name) := by
    rw [← map_name_propertyShape hraw]
    exact (sortOn_perm _ raw).map _
  exact ⟨hperm.nodup_iff.mp hinc.nodup_map, fun name => hperm.mem_iff⟩

include h in
/-- A property of an interface or an edge. -/
lemma mem_canonicalProperties {sh : PropertyShape} (hsh : sh ∈ shapes) :
    ∃ p ∈ ps, ∃ hint,
      sh = { declaredShape p with renameFrom := hint, declaredDirectly := true } := by
  obtain ⟨raw, hraw, rfl, -⟩ := canonicalProperties_eq_ok h
  obtain ⟨p, hp, hsh⟩ := hraw.exists_left ((mem_sortOn _).mp hsh)
  obtain ⟨hint, -, heq⟩ := propertyShape_eq_ok_iff.mp hsh
  exact ⟨p, hp, hint, heq⟩

lemma uniqueInterfaces (h : compileSchemaShape schema = .ok s) :
    UniqueInterfaces schema.interfaces := by
  obtain ⟨is, ns, es, his, -, -, rfl, hvalid⟩ := compileSchemaShape_eq_ok_iff.mp h
  refine ⟨?_, fun i hi => ?_⟩
  · have hnames := (validateShape_eq_ok hvalid).interfaceNames
    rw [((sortOn_perm _ is).map _).nodup_iff,
      ← his.map_eq fun _ _ hi => (compileInterface_eq_ok hi).1.symm] at hnames
    exact hnames
  · obtain ⟨j, -, hj⟩ := his.exists_right hi
    exact (canonicalProperties_names (compileInterface_eq_ok hj).2).1

end Omnigraph.Schema
