import Omnigraph.Schema.Realizable
import Omnigraph.Schema.Verdict

/-!
# The two catalogs agree

The catalog of the syntax tree and the catalog of the accepted schema are built from different
things: one from the declarations with what nodes took over, the other from shapes that were sorted,
compiled from all contributing interfaces and given identities. They define the same types, and so
accept the same queries.
-/

namespace Omnigraph.Schema

open List Except PropertyShape HashMap Constraint

open Compiler (PropType ScalarType normalizeEdgeName)
open Sorted

/-! ### Constraints in another order -/

/-- The same constraint, but for the order of columns. -/
def Constraint.SameColumns : Constraint → Constraint → Prop
  | .key a, .key b | .unique a, .unique b | .index a, .index b => a.toFinset = b.toFinset
  | c, c' => c = c'

/-- The same constraint, but for the order of columns and the sign of a zero bound. -/
def Constraint.Alike (c c' : Constraint) : Prop := c.SameColumns c' ∨ c.same c' = true

variable {c' : Constraint}

namespace Constraint

lemma SameColumns.refl (c : Constraint) : c.SameColumns c := by cases c <;> rfl

variable {c a b : Constraint}

lemma SameColumns.symm (h : c.SameColumns c') : c'.SameColumns c := by
  cases c <;> cases c' <;> exact Eq.symm h

lemma SameColumns.trans (h : a.SameColumns b) (h' : b.SameColumns c) : a.SameColumns c := by
  cases a <;> cases b <;> first | cases h; done | skip
  all_goals cases c <;> first | exact Eq.trans h h' | cases h'

lemma sameColumns_normalize (c : Constraint) : c.SameColumns (normalizeConstraint c) := by
  have hset : ∀ columns : List String, columns.toFinset = (canonical id columns).toFinset := by
    intro columns
    ext column
    simp
  cases c with
  | key columns => exact hset columns
  | unique columns => exact hset columns
  | index columns => exact hset columns
  | range _ _ _ => rfl
  | check _ _ => rfl

/-- Only ranges are compared in a way of their own. -/
lemma same_cases (h : c.same c' = true) :
    c = c' ∨ ∃ p min max min' max', c = .range p min max ∧ c' = .range p min' max' := by
  cases c with
  | range p min max =>
    cases c' with
    | range p' min' max' =>
      have hp : p = p' := by simp [same] at h; exact h.1.1
      exact .inr ⟨p, min, max, min', max', rfl, by rw [hp]⟩
    | _ => simp [same] at h
  | key columns => exact .inl (by simpa [same] using h)
  | unique columns => exact .inl (by simpa [same] using h)
  | index columns => exact .inl (by simpa [same] using h)
  | check p pattern => exact .inl (by simpa [same] using h)

lemma Alike.trans_sameColumns (h : a.Alike b) (h' : b.SameColumns c) : a.Alike c := by
  rcases h with h | h
  · exact .inl (h.trans h')
  · rcases same_cases h with rfl | ⟨p, min, max, min', max', rfl, rfl⟩
    · exact .inl h'
    · -- a range has no columns to reorder
      cases c with
      | range _ _ _ =>
        cases h'
        exact .inr h
      | _ => cases h'

end Constraint

/-- Every constraint of one list has its like in the other, and the other way round. -/
structure SameConstraints (cs cs' : List Constraint) : Prop where
  forth : ∀ c ∈ cs, ∃ c' ∈ cs', c.Alike c'
  back : ∀ c' ∈ cs', ∃ c ∈ cs, c'.SameColumns c

section SameConstraints

variable {cs cs' : List Constraint}

/-- What is read off a constraint as a set of columns. -/
structure ReadsColumns (f : Constraint → Option (List String)) : Prop where
  columns : ∀ c c' columns, c.SameColumns c' → f c = some columns →
    ∃ columns', f c' = some columns' ∧ columns'.toFinset = columns.toFinset
  range : ∀ p min max, f (.range p min max) = none

lemma readsColumns_key : ReadsColumns keyColumns := by
  refine ⟨?_, fun _ _ _ => rfl⟩
  intro c c' columns h hc
  cases c <;> cases hc
  cases c' <;> try cases h
  exact ⟨_, rfl, h.symm⟩

lemma readsColumns_unique : ReadsColumns uniqueColumns := by
  refine ⟨?_, fun _ _ _ => rfl⟩
  intro c c' columns h hc
  cases c <;> cases hc
  cases c' <;> try cases h
  exact ⟨_, rfl, h.symm⟩

lemma readsColumns_index : ReadsColumns indexColumns := by
  refine ⟨?_, fun _ _ _ => rfl⟩
  intro c c' columns h hc
  cases c <;> cases hc <;> cases c' <;> try cases h
  all_goals exact ⟨_, rfl, h.symm⟩

lemma readsColumns_edgeIndex : ReadsColumns edgeIndexColumns := by
  refine ⟨?_, fun _ _ _ => rfl⟩
  intro c c' columns h hc
  cases c <;> cases hc
  cases c' <;> try cases h
  exact ⟨_, rfl, h.symm⟩

variable {f : Constraint → Option (List String)} {node : String}

variable (h : SameConstraints cs cs')

include h in
lemma SameConstraints.exists_columns (hf : ReadsColumns f) {columns : List String} :
    (columns ∈ cs.filterMap f → ∃ columns' ∈ cs'.filterMap f,
      columns'.toFinset = columns.toFinset) ∧
    (columns ∈ cs'.filterMap f → ∃ columns' ∈ cs.filterMap f,
      columns'.toFinset = columns.toFinset) := by
  simp only [mem_filterMap]
  constructor
  · rintro ⟨c, hc, hfc⟩
    obtain ⟨c', hc', halike⟩ := h.forth c hc
    rcases halike with hsame | hsame
    · obtain ⟨columns', hf', hset⟩ := hf.columns c c' columns hsame hfc
      exact ⟨columns', ⟨c', hc', hf'⟩, hset⟩
    · rcases same_cases hsame with rfl | ⟨p, min, max, min', max', rfl, rfl⟩
      · exact ⟨columns, ⟨c, hc', hfc⟩, rfl⟩
      · rw [hf.range] at hfc
        cases hfc
  · rintro ⟨c', hc', hfc⟩
    obtain ⟨c, hc, hsame⟩ := h.back c' hc'
    obtain ⟨columns', hf', hset⟩ := hf.columns c' c columns hsame hfc
    exact ⟨columns', ⟨c, hc, hf'⟩, hset⟩

include h in
lemma SameConstraints.columnSets (hf : ReadsColumns f) :
    Schema.columnSets (cs.filterMap f) = Schema.columnSets (cs'.filterMap f) := by
  ext set
  simp only [Schema.columnSets, List.mem_toFinset, List.mem_map]
  constructor
  · rintro ⟨columns, hcolumns, rfl⟩
    exact (h.exists_columns hf).1 hcolumns
  · rintro ⟨columns, hcolumns, rfl⟩
    exact (h.exists_columns hf).2 hcolumns

/-- The key, if the first list has one key. -/
lemma SameConstraints.key (h : SameConstraints cs cs')
    (hkey : ∀ columns columns', .key columns ∈ cs → .key columns' ∈ cs → columns = columns') :
    ((cs.filterMap keyColumns).getLast?).map List.toFinset =
      ((cs'.filterMap keyColumns).getLast?).map List.toFinset := by
  have hmem : ∀ {columns : List String}, columns ∈ cs.filterMap keyColumns →
      .key columns ∈ cs := by
    intro columns hcolumns
    obtain ⟨c, hc, hfc⟩ := mem_filterMap.mp hcolumns
    cases c <;> cases hfc
    exact hc
  cases hlast : (cs.filterMap keyColumns).getLast? with
  | none =>
    rw [List.getLast?_eq_none_iff] at hlast
    have hnil : cs'.filterMap keyColumns = [] := by
      rw [eq_nil_iff_forall_not_mem]
      intro columns hcolumns
      obtain ⟨columns', hcolumns', -⟩ := (h.exists_columns readsColumns_key).2 hcolumns
      rw [hlast] at hcolumns'
      cases hcolumns'
    rw [hnil]
    rfl
  | some columns =>
    have hcolumns := mem_of_getLast? hlast
    obtain ⟨columns', hcolumns', -⟩ := (h.exists_columns readsColumns_key).1 hcolumns
    cases hlast' : (cs'.filterMap keyColumns).getLast? with
    | none =>
      rw [List.getLast?_eq_none_iff] at hlast'
      rw [hlast'] at hcolumns'
      cases hcolumns'
    | some other =>
      obtain ⟨columns0, hcolumns0, hset⟩ :=
        (h.exists_columns readsColumns_key).2 (mem_of_getLast? hlast')
      rw [hkey _ _ (hmem hcolumns0) (hmem hcolumns)] at hset
      rw [Option.map_some, Option.map_some, hset]

include h in
lemma SameConstraints.ranges :
    (∀ r ∈ cs.filterMap rangeConstraint, ∃ r' ∈ cs'.filterMap rangeConstraint, r.same r' = true) ∧
      ∀ r ∈ cs'.filterMap rangeConstraint, r ∈ cs.filterMap rangeConstraint := by
  simp only [mem_filterMap]
  constructor
  · rintro r ⟨c, hc, hr⟩
    cases c <;> cases hr
    obtain ⟨c', hc', hsame | hsame⟩ := h.forth _ hc
    · cases c' <;> cases hsame
      exact ⟨_, ⟨_, hc', rfl⟩, same_refl _⟩
    · cases c' with
      | range p min max => exact ⟨_, ⟨_, hc', rfl⟩, hsame⟩
      | _ => cases hsame
  · rintro r ⟨c', hc', hr⟩
    cases c' <;> cases hr
    obtain ⟨c, hc, hsame⟩ := h.back _ hc'
    cases c <;> cases hsame
    exact ⟨_, hc, rfl⟩

include h in
lemma SameConstraints.checks :
    (cs.filterMap checkConstraint).toFinset = (cs'.filterMap checkConstraint).toFinset := by
  ext r
  simp only [List.mem_toFinset, mem_filterMap]
  constructor
  · rintro ⟨c, hc, hr⟩
    cases c <;> cases hr
    obtain ⟨c', hc', hsame | hsame⟩ := h.forth _ hc
    · cases c' <;> cases hsame
      exact ⟨_, hc', rfl⟩
    · rcases same_cases hsame with rfl | ⟨_, _, _, _, _, hc, -⟩
      · exact ⟨_, hc', rfl⟩
      · cases hc
  · rintro ⟨c', hc', hr⟩
    cases c' <;> cases hr
    obtain ⟨c, hc, hsame⟩ := h.back _ hc'
    cases c <;> cases hsame
    exact ⟨_, hc, rfl⟩

/-- Sorting constraints keeps them. -/
lemma sameConstraints_canonical (cs : List Constraint) :
    SameConstraints cs (canonicalConstraints cs) := by
  refine ⟨fun c hc => ?_, fun c' hc' => ?_⟩
  · obtain ⟨c', hc', hsame⟩ := exists_mem_canonicalConstraints hc
    refine ⟨c', hc', ?_⟩
    rcases same_cases hsame with rfl | ⟨p, min, max, min', max', hrange, rfl⟩
    · exact .inl (sameColumns_normalize c)
    · cases c <;> cases hrange
      exact .inr hsame
  · obtain ⟨c, hc, rfl⟩ := mem_canonicalConstraints hc'
    exact ⟨c, hc, (sameColumns_normalize c).symm⟩

/-- So does ordering the columns of a key by identity. -/
lemma nodeConstraint_sameColumns {c : ConstraintIR} (h : nodeConstraint node c = .ok c') :
    (constraintFromIr c).SameColumns c' := by
  cases c with
  | key fields =>
    obtain ⟨columns, hcolumns, rfl⟩ := map_eq_ok h
    obtain ⟨refs, rfl, -, -, rfl⟩ := stableKey_eq_ok_iff.mp hcolumns
    show List.toFinset _ = List.toFinset _
    ext name
    simp only [List.mem_toFinset, List.mem_map, mem_sortOn, List.map_map]
    rfl
  | unique fields =>
    cases h
    exact Constraint.SameColumns.refl _
  | index fields =>
    cases h
    exact Constraint.SameColumns.refl _
  | range field min max =>
    cases h
    exact Constraint.SameColumns.refl _
  | check field pattern =>
    cases h
    exact Constraint.SameColumns.refl _

include h in
lemma SameConstraints.nodeConstraints {as : List ConstraintIR} {bs : List Constraint}
    (hcs : as.map constraintFromIr = cs')
    (hbs : List.Forall₂ (fun c c' => nodeConstraint node c = .ok c') as bs) :
    SameConstraints cs bs := by
  subst hcs
  refine ⟨fun c hc => ?_, fun b hb => ?_⟩
  · obtain ⟨c', hc', halike⟩ := h.forth c hc
    obtain ⟨a, ha, rfl⟩ := List.mem_map.mp hc'
    obtain ⟨b, hb, hab⟩ := hbs.exists_right ha
    exact ⟨b, hb, halike.trans_sameColumns (nodeConstraint_sameColumns hab)⟩
  · obtain ⟨a, ha, hab⟩ := hbs.exists_left hb
    obtain ⟨c, hc, hsame⟩ := h.back _ (List.mem_map_of_mem ha)
    exact ⟨c, hc, (nodeConstraint_sameColumns hab).symm.trans hsame⟩

include h in
lemma SameConstraints.of_mem_iff {ds : List Constraint} (hmem : ∀ c, c ∈ cs ↔ c ∈ ds) :
    SameConstraints ds cs' := by
  refine ⟨fun c hc => h.forth c ((hmem c).mpr hc), fun c' hc' => ?_⟩
  obtain ⟨c, hc, hsame⟩ := h.back c' hc'
  exact ⟨c, (hmem c).mp hc, hsame⟩

end SameConstraints

/-! ### Properties in another order -/

/-- What a catalog keeps of a property: its name, its type and its source. -/
abbrev PropertyView := String × PropType × Option EmbedSourceShape

namespace PropertyView

def type (v : PropertyView) : String × PropType := (v.1, v.2.1)

def embed (v : PropertyView) : Option (String × EmbedSource) :=
  v.2.2.map fun e => (v.1, ⟨e.propertyName, e.model⟩)

variable {vs vs' : List PropertyView}

lemma lookup_types (hperm : vs.Perm vs') (hnames : (vs.map Prod.fst).Nodup) (k : String) :
    (propertyTypes (vs.map type)).lookup k = (propertyTypes (vs'.map type)).lookup k := by
  refine lookup_insertAll_perm (hperm.map type) (fun a ha b hb hab => ?_) k
  obtain ⟨v, hv, rfl⟩ := List.mem_map.mp ha
  obtain ⟨w, hw, rfl⟩ := List.mem_map.mp hb
  rw [inj_on_of_nodup_map hnames hv hw hab]

lemma lookup_embeds (hperm : vs.Perm vs') (hnames : (vs.map Prod.fst).Nodup) (k : String) :
    (insertAll Prod.fst Prod.snd (∅ : HashMap String EmbedSource)
        (vs.filterMap embed)).lookup k =
      (insertAll Prod.fst Prod.snd (∅ : HashMap String EmbedSource)
        (vs'.filterMap embed)).lookup k := by
  refine lookup_insertAll_perm (hperm.filterMap embed) (fun a ha b hb hab => ?_) k
  obtain ⟨v, hv, hva⟩ := mem_filterMap.mp ha
  obtain ⟨w, hw, hwb⟩ := mem_filterMap.mp hb
  obtain ⟨e, he, rfl⟩ := Option.map_eq_some_iff.mp hva
  obtain ⟨e', he', rfl⟩ := Option.map_eq_some_iff.mp hwb
  obtain rfl := inj_on_of_nodup_map hnames hv hw hab
  rw [he] at he'
  cases he'
  rfl

lemma blobNames_eq (hperm : vs.Perm vs') :
    (blobNames (vs.map type)).toFinset = (blobNames (vs'.map type)).toFinset :=
  toFinset_eq_of_perm _ _ (((hperm.map type).filter _).map _)

end PropertyView

def PropDecl.view (p : PropDecl) : PropertyView := (p.name, p.propType, embedShape p.annotations)

def PropertyShape.view (sh : PropertyShape) : PropertyView := (sh.name, sh.propType, sh.embedSource)

def PropertyIR.view (q : PropertyIR) : PropertyView := (propertyShapeFromIr q).view

lemma declaredTypes_eq (ps : List PropDecl) :
    declaredTypes ps = (ps.map PropDecl.view).map PropertyView.type := by
  rw [declaredTypes, List.map_map]
  rfl

lemma acceptedPropTypes_eq (qs : List PropertyIR) :
    acceptedPropTypes qs = (qs.map PropertyIR.view).map PropertyView.type := by
  rw [acceptedPropTypes, List.map_map]
  rfl

lemma declaredEmbeds_eq (ps : List PropDecl) :
    ps.filterMap declaredEmbed = (ps.map PropDecl.view).filterMap PropertyView.embed := by
  rw [filterMap_map]
  congr 1
  funext p
  show declaredEmbed p = (embedShape p.annotations).map _
  rw [declaredEmbed, embedShape, Option.map_bind]
  congr 1
  funext a
  rw [Function.comp_apply, Option.map_map]
  rfl

lemma acceptedEmbeds_eq (qs : List PropertyIR) :
    qs.filterMap acceptedEmbed = (qs.map PropertyIR.view).filterMap PropertyView.embed := by
  rw [filterMap_map]
  congr 1
  funext q
  show acceptedEmbed q = (q.embedSource.map _).map _
  rw [acceptedEmbed, Option.map_map]
  rfl

lemma map_view_projected {ps : List PropertyShape} {qs : List PropertyIR}
    (h : qs.map propertyShapeFromIr = ps.map projected) :
    qs.map PropertyIR.view = ps.map view := by
  have hviews := congrArg (List.map view) h
  rw [List.map_map, List.map_map] at hviews
  exact hviews

lemma map_fst_view (ps : List PropDecl) : (ps.map PropDecl.view).map Prod.fst =
    ps.map PropDecl.name := by
  rw [List.map_map]
  rfl

/-- The properties of an interface or an edge. -/
lemma canonicalProperties_views {owner : String} {ps : List PropDecl} {shapes : List PropertyShape}
    (hparsed : ∀ p ∈ ps, p.Parsed) (h : canonicalProperties owner ps = .ok shapes) :
    (ps.map PropDecl.view).Perm (shapes.map view) := by
  obtain ⟨raw, hraw, rfl, -⟩ := canonicalProperties_eq_ok h
  have hviews : ps.map PropDecl.view = raw.map view := by
    refine hraw.map_eq_of_mem fun p hp sh hsh => ?_
    obtain ⟨hint, -, rfl⟩ := propertyShape_eq_ok_iff.mp hsh
    show (p.name, p.propType, _) = (p.name, normalizeType p.propType, _)
    rw [(hparsed p hp).normal]
    rfl
  rw [hviews]
  exact ((sortOn_perm _ raw).map _).symm

variable {d : NodeDecl} {n : NodeShape}

/-- The properties of a node. -/
lemma ParsedNode.views {schema : SchemaFile} {direct : List PropDecl}
    (h : ParsedNode schema.interfaces d direct) (hu : UniqueInterfaces schema.interfaces)
    (hn : compileNode (interfaceMap schema.interfaces) d = .ok n) :
    (d.properties.map PropDecl.view).Perm (n.properties.map view) := by
  obtain ⟨shapes, hint, hshapes, rfl⟩ := compileNode_eq_ok hn
  have hviews : d.properties.map PropDecl.view = shapes.map view := by
    refine hshapes.map_eq_of_mem fun p hp sh hsh => ?_
    have heq := h.nodePropertyShape hu hp hsh
    have hname : sh.name = p.name := congrArg name heq
    have htype : sh.propType = normalizeType p.propType := congrArg propType heq
    have hembed : sh.embedSource = embedShape p.annotations :=
      congrArg embedSource heq
    rw [PropDecl.view, view, hname, htype, hembed, (h.parsed p hp).normal]
  rw [hviews]
  exact ((sortOn_perm _ shapes).map _).symm

/-! ### The catalog of the syntax tree -/

def declaredNodeType (d : NodeDecl) : NodeType :=
  nodeType d.name d.implements (declaredTypes d.properties) (d.properties.filterMap declaredEmbed)
    d.constraints

def declaredEdgeType (d : EdgeDecl) : EdgeType :=
  edgeType d.name d.fromType d.toType d.cardinality (declaredTypes d.properties) d.constraints

lemma foldlM_addNode {ds : List NodeDecl} {m : HashMap String NodeType}
    (hnodup : (ds.map NodeDecl.name).Nodup) (hfresh : ∀ d ∈ ds, m.lookup d.name = none) :
    ds.foldlM addNode m = .ok (insertAll NodeDecl.name declaredNodeType m ds) := by
  induction ds generalizing m with
  | nil => rfl
  | cons d ds ih =>
    rw [map_cons, nodup_cons] at hnodup
    have hstep : addNode m d = .ok (m.insert d.name (declaredNodeType d)) := by
      have hnone : (m.lookup d.name).isNone = true := by rw [hfresh d (by simp)]; rfl
      exact bind_ok (ensure_ok hnone) rfl
    rw [foldlM_cons, hstep]
    refine ih hnodup.2 fun d' hd' => ?_
    have hne : d'.name ≠ d.name := fun hc => hnodup.1 (List.mem_map.mpr ⟨d', hd', hc⟩)
    rw [AList.lookup_insert_ne hne]
    exact hfresh d' (by simp [hd'])

lemma foldlM_addEdge {nodes : HashMap String NodeType} {ds : List EdgeDecl}
    {m : HashMap String EdgeType} {index index' : HashMap String String}
    (hnodup : (ds.map EdgeDecl.name).Nodup) (hfresh : ∀ d ∈ ds, m.lookup d.name = none)
    (hends : ∀ d ∈ ds, (nodes.lookup d.fromType).isSome = true ∧
      (nodes.lookup d.toType).isSome = true)
    (hindex : (ds.map EdgeDecl.name).foldlM indexEdgeName index = .ok index') :
    ds.foldlM (addEdge nodes) (m, index) =
      .ok (insertAll EdgeDecl.name declaredEdgeType m ds, index') := by
  induction ds generalizing m index with
  | nil =>
    cases hindex
    rfl
  | cons d ds ih =>
    rw [map_cons, nodup_cons] at hnodup
    rw [map_cons, foldlM_cons, bind_eq_ok_iff] at hindex
    obtain ⟨index1, hindex1, hrest⟩ := hindex
    have hstep : addEdge nodes (m, index) d =
        .ok (m.insert d.name (declaredEdgeType d), index1) := by
      have hnone : (m.lookup d.name).isNone = true := by rw [hfresh d (by simp)]; rfl
      obtain ⟨hfrom, hto⟩ := hends d (by simp)
      exact bind_ok (ensure_ok hnone) <|
        bind_ok (ensure_ok hfrom) <| bind_ok (ensure_ok hto) <|
        bind_ok hindex1 rfl
    rw [foldlM_cons, hstep]
    refine ih hnodup.2 (fun d' hd' => ?_) (fun d' hd' => hends d' (by simp [hd'])) hrest
    have hne : d'.name ≠ d.name := fun hc => hnodup.1 (List.mem_map.mpr ⟨d', hd', hc⟩)
    rw [AList.lookup_insert_ne hne]
    exact hfresh d' (by simp [hd'])

section Catalogs

variable {schema : SchemaFile} {s : SchemaShape} {ir : SchemaIR} {runtime : Catalog}

variable (hs : compileSchemaShape schema = .ok s)

include hs in
lemma node_names_nodup : (schema.nodes.map NodeDecl.name).Nodup := by
  have hnames := (validated_of_compiled hs).nodeNames
  obtain ⟨is, ns, es, -, hns, -, rfl, -⟩ := compileSchemaShape_eq_ok_iff.mp hs
  rw [((sortOn_perm _ ns).map _).nodup_iff] at hnames
  have hmap : schema.nodes.map NodeDecl.name = ns.map NodeShape.name := by
    refine hns.map_eq fun d n hn => ?_
    obtain ⟨shapes, hint, -, rfl⟩ := compileNode_eq_ok hn
    rfl
  rwa [hmap]

include hs in
lemma edge_names_nodup : (schema.edges.map EdgeDecl.name).Nodup := by
  have hnames := (validated_of_compiled hs).edgeNames
  obtain ⟨is, ns, es, -, -, hes, rfl, -⟩ := compileSchemaShape_eq_ok_iff.mp hs
  rw [((sortOn_perm _ es).map _).nodup_iff] at hnames
  have hmap : schema.edges.map EdgeDecl.name = es.map EdgeShape.name :=
    hes.map_eq fun d e he => (compileEdge_names he).1.symm
  rwa [hmap]

lemma compileNode_name {interfaces : HashMap String InterfaceDecl}
    (h : compileNode interfaces d = .ok n) : n.name = d.name := by
  obtain ⟨shapes, hint, -, rfl⟩ := compileNode_eq_ok h
  rfl

/-- What `buildCatalog` builds. -/
def declaredCatalog (schema : SchemaFile) : Catalog where
  nodeTypes := insertAll NodeDecl.name declaredNodeType ∅ schema.nodes
  edgeTypes := insertAll EdgeDecl.name declaredEdgeType ∅ schema.edges
  edgeNameIndex := insertAll normalizeEdgeName id ∅ (schema.edges.map EdgeDecl.name)
  interfaces := insertAll InterfaceDecl.name
    (fun d => interfaceType d.name (declaredTypes d.properties)) ∅ schema.interfaces

include hs in
/-- The catalog of the syntax tree, if the shape compiles and edge names differ in lower case. -/
lemma buildCatalog_eq_ok (hedges : FoldedApart (schema.edges.map EdgeDecl.name)) :
    buildCatalog schema = .ok (declaredCatalog schema) := by
  obtain ⟨index, hindex⟩ : ∃ index,
      (schema.edges.map EdgeDecl.name).foldlM indexEdgeName ∅ = .ok index :=
    exists_foldlM_indexEdgeName.mpr ⟨by simp, hedges⟩
  obtain rfl := foldlM_indexEdgeName hindex
  have hnodes := foldlM_addNode (m := ∅) (node_names_nodup hs) fun d _ => AList.lookup_empty _
  have hnode : ∀ name ∈ schema.nodes.map NodeDecl.name,
      ((insertAll NodeDecl.name declaredNodeType ∅ schema.nodes).lookup name).isSome =
        true := by
    intro name hname
    obtain ⟨d, hd, rfl⟩ := List.mem_map.mp hname
    obtain ⟨d', -, -, hlook⟩ :=
      exists_lookup_insertAll NodeDecl.name declaredNodeType ∅ hd
    rw [hlook]
    rfl
  refine bind_ok hnodes (bind_ok (foldlM_addEdge (edge_names_nodup hs)
    (fun d _ => AList.lookup_empty _) (fun d hd => ?_) hindex) rfl)
  -- endpoints are names of nodes
  obtain ⟨e, he, hcompile⟩ := (mem_compiled_edges hs).1 d hd
  have hends := (validated_of_compiled hs).endpoints e he
  have hnames : ∀ name ∈ s.nodes.map NodeShape.name, name ∈ schema.nodes.map NodeDecl.name := by
    intro name hname
    obtain ⟨n, hn, rfl⟩ := List.mem_map.mp hname
    obtain ⟨d', hd', hcompile'⟩ := (mem_compiled_nodes hs).2 n hn
    exact List.mem_map.mpr ⟨d', hd', (compileNode_name hcompile').symm⟩
  obtain ⟨hint, shapes, -, rfl⟩ := compileEdge_eq_ok hcompile
  exact ⟨hnode _ (hnames _ hends.1), hnode _ (hnames _ hends.2)⟩

/-! ### Agreement -/

/-- A node in both catalogs. -/
lemma nodeType_agrees (hparsed : Parsed schema) (hs : compileSchemaShape schema = .ok s)
    (hd : d ∈ schema.nodes) (hcompile : compileNode (interfaceMap schema.interfaces) d = .ok n)
    {a : NodeIR} (hproj : nodeShapeFromIr a = n.projected)
    (hnodup : (a.properties.map PropertyIR.name).Nodup) {t : NodeType}
    (ht : nodeTypeResult a = .ok t) : (declaredNodeType d).Agrees t := by
  obtain ⟨direct, hnode⟩ := hparsed.nodes d hd
  have hu := uniqueInterfaces hs
  obtain ⟨cs, hcs, rfl⟩ := nodeTypeResult_eq_ok_iff.mp ht
  have hviews : (d.properties.map PropDecl.view).Perm (a.properties.map PropertyIR.view) := by
    rw [map_view_projected (congrArg NodeShape.properties hproj)]
    exact hnode.views hu hcompile
  have hnames : ((d.properties.map PropDecl.view).map Prod.fst).Nodup := by
    rw [map_fst_view]
    have hperm := hnode.mem_names hu hcompile
    rw [← (node_names hproj).2] at hperm
    exact hperm.nodup_iff.mp hnodup
  have hcons : a.constraints.map constraintFromIr = n.constraints :=
    congrArg NodeShape.constraints hproj
  have himpl : canonical id (a.implements.map TypeRefIR.typeName) = canonical id n.implements :=
    congrArg NodeShape.implements hproj
  have hname : a.name = d.name := (node_names hproj).1.trans (compileNode_name hcompile)
  obtain ⟨shapes, hint, hshapes, rfl⟩ := compileNode_eq_ok hcompile
  have hsame : SameConstraints d.constraints cs :=
    ((sameConstraints_canonical _).of_mem_iff
      fun c => hnode.mem_compiled hu hshapes).nodeConstraints hcons hcs
  refine ⟨hname.symm, ?_, fun k => ?_, ?_, ?_, ?_, hsame.ranges.1, hsame.ranges.2, hsame.checks,
    fun k => ?_, ?_⟩
  · ext name
    have hmem : name ∈ canonical id (a.implements.map TypeRefIR.typeName) ↔
        name ∈ canonical id (canonical id d.implements) := by rw [himpl]
    simp only [mem_canonical] at hmem
    rw [List.mem_toFinset, List.mem_toFinset]
    exact hmem.symm
  · show (propertyTypes (declaredTypes d.properties)).lookup k =
      (propertyTypes (acceptedPropTypes a.properties)).lookup k
    rw [declaredTypes_eq, acceptedPropTypes_eq]
    exact PropertyView.lookup_types hviews hnames k
  · exact hsame.key fun _ _ => hnode.key_unique
  · exact hsame.columnSets readsColumns_unique
  · exact hsame.columnSets readsColumns_index
  · show (insertAll Prod.fst Prod.snd ∅ (d.properties.filterMap declaredEmbed)).lookup k =
      (insertAll Prod.fst Prod.snd ∅ (a.properties.filterMap acceptedEmbed)).lookup k
    rw [declaredEmbeds_eq, acceptedEmbeds_eq]
    exact PropertyView.lookup_embeds hviews hnames k
  · show (blobNames (declaredTypes d.properties)).toFinset =
      (blobNames (acceptedPropTypes a.properties)).toFinset
    rw [declaredTypes_eq, acceptedPropTypes_eq]
    exact PropertyView.blobNames_eq hviews

/-- An edge in both catalogs. -/
lemma edgeType_agrees {d : EdgeDecl} (hedge : ParsedEdge d) {e : EdgeShape}
    (hcompile : compileEdge d = .ok e) {a : EdgeIR} (hproj : edgeShapeFromIr a = e.projected) :
    (declaredEdgeType d).Agrees (edgeTypeOf a) := by
  have hviews := map_view_projected (congrArg EdgeShape.properties hproj)
  have hcons : a.constraints.map constraintFromIr = e.constraints :=
    congrArg EdgeShape.constraints hproj
  have hname : a.name = e.name := congrArg EdgeShape.name hproj
  have hfrom : a.fromType.typeName = e.fromType := congrArg EdgeShape.fromType hproj
  have hto : a.toType.typeName = e.toType := congrArg EdgeShape.toType hproj
  have hcard : a.cardinality = e.cardinality := congrArg EdgeShape.cardinality hproj
  obtain ⟨hint, shapes, hshapes, rfl⟩ := compileEdge_eq_ok hcompile
  have hperm : (d.properties.map PropDecl.view).Perm (a.properties.map PropertyIR.view) := by
    rw [hviews]
    exact canonicalProperties_views hedge.parsed hshapes
  have hnames : ((d.properties.map PropDecl.view).map Prod.fst).Nodup := by
    rw [map_fst_view]
    exact (canonicalProperties_names hshapes).1
  have hsame : SameConstraints d.constraints (a.constraints.map constraintFromIr) := by
    rw [hcons]
    exact sameConstraints_canonical _
  refine ⟨hname.symm, hfrom.symm, hto.symm, hcard.symm, fun k => ?_,
    hsame.columnSets readsColumns_unique, hsame.columnSets readsColumns_edgeIndex, ?_⟩
  · show (propertyTypes (declaredTypes d.properties)).lookup k =
      (propertyTypes (acceptedPropTypes a.properties)).lookup k
    rw [declaredTypes_eq, acceptedPropTypes_eq]
    exact PropertyView.lookup_types hperm hnames k
  · show (blobNames (declaredTypes d.properties)).toFinset =
      (blobNames (acceptedPropTypes a.properties)).toFinset
    rw [declaredTypes_eq, acceptedPropTypes_eq]
    exact PropertyView.blobNames_eq hperm

lemma interfaceType_agrees {d : InterfaceDecl} (hinterface : ParsedInterface d) {i : InterfaceShape}
    (hcompile : compileInterface d = .ok i) {a : InterfaceIR}
    (hproj : interfaceShapeFromIr a = i.projected) :
    (interfaceType d.name (declaredTypes d.properties)).Agrees
      (interfaceType a.name (acceptedPropTypes a.properties)) := by
  obtain ⟨hname, hprops⟩ := compileInterface_eq_ok hcompile
  have haname : a.name = i.name := congrArg InterfaceShape.name hproj
  have hperm : (d.properties.map PropDecl.view).Perm (a.properties.map PropertyIR.view) := by
    rw [map_view_projected (congrArg InterfaceShape.properties hproj)]
    exact canonicalProperties_views hinterface.properties hprops
  have hnames : ((d.properties.map PropDecl.view).map Prod.fst).Nodup := by
    rw [map_fst_view]
    exact (canonicalProperties_names hprops).1
  refine ⟨(haname.trans hname).symm, fun k => ?_⟩
  show (propertyTypes (declaredTypes d.properties)).lookup k =
    (propertyTypes (acceptedPropTypes a.properties)).lookup k
  rw [declaredTypes_eq, acceptedPropTypes_eq]
  exact PropertyView.lookup_types hperm hnames k

end Catalogs

/-- Two lookups that find related things. -/
lemma optionRel_of_iff {α β : Type*} {R : α → β → Prop} {o : Option α} {o' : Option β}
    (hleft : ∀ a ∈ o, ∃ b ∈ o', R a b) (hright : ∀ b ∈ o', ∃ a ∈ o, R a b) : Option.Rel R o o' := by
  cases o with
  | none =>
    cases o' with
    | none => exact .none
    | some b =>
      obtain ⟨a, ha, -⟩ := hright b rfl
      cases ha
  | some a =>
    obtain ⟨b, hb, hab⟩ := hleft a rfl
    cases hb
    exact .some hab

/-- A table built of one entry for each declaration, beside another that has an entry for each of
them and no more. -/
lemma rel_lookup_insertAll {α β γ : Type*} {R : β → γ → Prop} {key : α → String} {value : α → β}
    {ds : List α} {m : HashMap String γ} (hnodup : (ds.map key).Nodup)
    (hfound : ∀ d ∈ ds, ∃ t, m.lookup (key d) = some t)
    (hrel : ∀ name t, m.lookup name = some t → ∃ d ∈ ds, key d = name ∧ R (value d) t)
    (name : String) :
    Option.Rel R ((insertAll key value ∅ ds).lookup name) (m.lookup name) := by
  have hlook : ∀ t, (insertAll key value ∅ ds).lookup name = some t ↔
      ∃ d ∈ ds, key d = name ∧ value d = t := by
    intro t
    refine (lookup_insertAll fun a ha b hb hab => ?_).trans ?_
    · rw [inj_on_of_nodup_map hnodup ha hb hab]
    · simp
  refine optionRel_of_iff (fun t ht => ?_) (fun t ht => ?_)
  · obtain ⟨d, hd, rfl, rfl⟩ := (hlook t).mp ht
    obtain ⟨t, ht⟩ := hfound d hd
    obtain ⟨d', hd', hkey, hR⟩ := hrel _ t ht
    exact ⟨t, ht, inj_on_of_nodup_map hnodup hd' hd hkey ▸ hR⟩
  · obtain ⟨d, hd, hkey, hR⟩ := hrel name t ht
    exact ⟨_, (hlook _).mpr ⟨d, hd, hkey, rfl⟩, hR⟩

section Agrees

variable {schema : SchemaFile} {s : SchemaShape} {ir : SchemaIR} {runtime : Catalog}

variable (hparsed : Parsed schema) (hs : compileSchemaShape schema = .ok s) (hproj : Projects s ir)
  (hruntime : buildCatalogFromIr ir = .ok runtime)

include hparsed hs hproj hruntime

lemma agrees_nodes (name : String) :
    Option.Rel NodeType.Agrees ((declaredCatalog schema).nodeTypes.lookup name)
      (runtime.nodeTypes.lookup name) := by
  obtain ⟨hvalid, -, hnodes, -, -⟩ := buildCatalogFromIr_eq_ok_iff.mp hruntime
  refine rel_lookup_insertAll (node_names_nodup hs) (fun d hd => ?_) (fun name t ht => ?_) name
  · obtain ⟨n, hn, hcompile⟩ := (mem_compiled_nodes hs).1 d hd
    obtain ⟨a, ha, hna⟩ := hproj.nodes.exists_right hn
    obtain ⟨t, ht⟩ := exists_foldlM_addNodeIr.mp ⟨_, hnodes⟩ a ha
    have hname : a.name = d.name := (node_names hna).1.trans (compileNode_name hcompile)
    exact ⟨t, (lookup_nodeTypes hruntime).mpr ⟨a, ha, hname, ht⟩⟩
  · obtain ⟨a, ha, rfl, hresult⟩ := (lookup_nodeTypes hruntime).mp ht
    obtain ⟨n, hn, hna⟩ := hproj.nodes.exists_left ha
    obtain ⟨d, hd, hcompile⟩ := (mem_compiled_nodes hs).2 n hn
    have hname : a.name = d.name := (node_names hna).1.trans (compileNode_name hcompile)
    exact ⟨d, hd, hname.symm, nodeType_agrees hparsed hs hd hcompile hna
      (hvalid.propertiesSorted _ (NodeIR.accepted_mem ha)).nodup_map hresult⟩

lemma agrees_edges (name : String) :
    Option.Rel EdgeType.Agrees ((declaredCatalog schema).edgeTypes.lookup name)
      (runtime.edgeTypes.lookup name) := by
  refine rel_lookup_insertAll (edge_names_nodup hs) (fun d hd => ?_) (fun name t ht => ?_) name
  · obtain ⟨e, he, hcompile⟩ := (mem_compiled_edges hs).1 d hd
    obtain ⟨a, ha, hea⟩ := hproj.edges.exists_right he
    have hname : a.name = d.name := (edge_names hea).1.trans (compileEdge_names hcompile).1
    exact ⟨_, (lookup_edgeTypes hruntime).mpr ⟨a, ha, hname, rfl⟩⟩
  · obtain ⟨a, ha, rfl, rfl⟩ := (lookup_edgeTypes hruntime).mp ht
    obtain ⟨e, he, hea⟩ := hproj.edges.exists_left ha
    obtain ⟨d, hd, hcompile⟩ := (mem_compiled_edges hs).2 e he
    have hname : a.name = d.name := (edge_names hea).1.trans (compileEdge_names hcompile).1
    exact ⟨d, hd, hname.symm, edgeType_agrees (hparsed.edges d hd) hcompile hea⟩

lemma agrees_interfaces (name : String) :
    Option.Rel InterfaceType.Agrees ((declaredCatalog schema).interfaces.lookup name)
      (runtime.interfaces.lookup name) := by
  have hnames : ∀ (d : InterfaceDecl) (i : InterfaceShape) (a : InterfaceIR),
      compileInterface d = .ok i → interfaceShapeFromIr a = i.projected → a.name = d.name :=
    fun d i a hcompile hia =>
      (congrArg InterfaceShape.name hia).trans (compileInterface_eq_ok hcompile).1
  refine rel_lookup_insertAll (uniqueInterfaces hs).names (fun d hd => ?_)
    (fun name t ht => ?_) name
  · obtain ⟨i, hi, hcompile⟩ := (mem_compiled_interfaces hs).1 d hd
    obtain ⟨a, ha, hia⟩ := hproj.interfaces.exists_right hi
    exact ⟨_, (lookup_interfaceTypes hruntime).mpr ⟨a, ha, hnames d i a hcompile hia, rfl⟩⟩
  · obtain ⟨a, ha, rfl, rfl⟩ := (lookup_interfaceTypes hruntime).mp ht
    obtain ⟨i, hi, hia⟩ := hproj.interfaces.exists_left ha
    obtain ⟨d, hd, hcompile⟩ := (mem_compiled_interfaces hs).2 i hi
    exact ⟨d, hd, (hnames d i a hcompile hia).symm,
      interfaceType_agrees (hparsed.interfaces d hd) hcompile hia⟩

end Agrees

/-- A schema that can be initialized has a catalog of its own, and it agrees with the catalog of the
accepted schema; so both accept the same queries. -/
theorem buildCatalog_agrees {raw : List RawDecl} {schema : SchemaFile} {s : SchemaShape}
    {domain : SchemaIdentityDomain} {res : SchemaResolution} {runtime : Catalog}
    (hparse : parseSchema raw = .ok schema) (hs : compileSchemaShape schema = .ok s)
    (hres : initializeSchemaIr domain s = .ok res)
    (hruntime : buildCatalogFromIr res.schemaIr = .ok runtime) :
    ∃ source, buildCatalog schema = .ok source ∧ source.Agrees runtime ∧
      ∀ (order order' : IterOrder PropertyEntry) (query : Compiler.QueryDecl) (r : CheckedQuery),
        typecheckQueryDecl order source query = .ok r ↔
          typecheckQueryDecl order' runtime query = .ok r := by
  have hparsed := parseSchemaWithMode_parsed hparse
  have hproj := projects_of_resolve hres
  obtain ⟨-, -, -, -, hindex⟩ := buildCatalogFromIr_eq_ok_iff.mp hruntime
  have hperm := hproj.edgeNames hs
  have hapart : FoldedApart (schema.edges.map EdgeDecl.name) :=
    (foldedApart_perm hperm).mp (exists_foldlM_indexEdgeName.mp ⟨_, hindex⟩).2
  have hagrees : (declaredCatalog schema).Agrees runtime := by
    refine ⟨agrees_nodes hparsed hs hproj hruntime, agrees_edges hparsed hs hproj hruntime,
      agrees_interfaces hparsed hs hproj hruntime, fun name => ?_⟩
    rw [foldlM_indexEdgeName hindex]
    exact lookup_insertAll_perm hperm.symm (fun a ha b hb hab => hapart a ha b hb hab) name
  exact ⟨_, buildCatalog_eq_ok hs hapart, hagrees,
    fun order order' query r => typecheckQueryDecl_iff hagrees query r⟩

theorem buildCatalog_agrees_person : ∃ schema s res runtime source,
    parseSchema personRaw = .ok schema ∧ compileSchemaShape schema = .ok s ∧
    initializeSchemaIr graphDomain s = .ok res ∧
    buildCatalogFromIr res.schemaIr = .ok runtime ∧ buildCatalog schema = .ok source ∧
    source.Agrees runtime := by
  obtain ⟨runtime, hruntime⟩ := exists_eq_ok
    (show (initializeRaw graphDomain personRaw >>= fun res =>
      buildCatalogFromIr res.schemaIr).isOk = true by decide +kernel)
  obtain ⟨res, hres, hruntime⟩ := bind_eq_ok_iff.mp hruntime
  obtain ⟨schema, s, hparse, hs, hres⟩ := initializeRaw_eq_ok hres
  obtain ⟨source, hsource, hagrees, -⟩ := buildCatalog_agrees hparse hs hres hruntime
  exact ⟨schema, s, res, runtime, source, hparse, hs, hres, hruntime, hsource, hagrees⟩

end Omnigraph.Schema
