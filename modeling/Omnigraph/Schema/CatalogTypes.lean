import Omnigraph.Schema.Catalog
import Omnigraph.Schema.Valid

/-!
# The types of a catalog

The loops of both catalog builders, read as finite maps: which types a catalog has, when building
it fails, and the index of edge names in lower case.
-/

namespace Omnigraph.Schema

open List Except PropertyRefIR

open Compiler (PropType ScalarType normalizeEdgeName)
open Sorted

/-! ### Names of edges -/

variable {index index' : HashMap String String} {name : String} {names : List String}

lemma indexEdgeName_eq_ok_iff :
    indexEdgeName index name = .ok index' ↔
      (∀ existing ∈ index.lookup (normalizeEdgeName name), existing = name) ∧
        index' = index.insert (normalizeEdgeName name) name := by
  simp only [indexEdgeName, bind_eq_ok_iff, ensure_eq_ok_iff]
  constructor
  · rintro ⟨_, hall, hret⟩
    cases hret
    exact ⟨hall, rfl⟩
  · rintro ⟨hall, rfl⟩
    exact ⟨(), hall, rfl⟩

lemma foldlM_indexEdgeName (h : names.foldlM indexEdgeName index = .ok index') :
    index' = HashMap.insertAll normalizeEdgeName id index names := by
  induction names generalizing index with
  | nil =>
    cases h
    rfl
  | cons name names ih =>
    rw [foldlM_cons, bind_eq_ok_iff] at h
    obtain ⟨index1, hstep, hrest⟩ := h
    obtain ⟨-, rfl⟩ := indexEdgeName_eq_ok_iff.mp hstep
    exact ih hrest

/-- Different names stay different in lower case. -/
def FoldedApart (names : List String) : Prop :=
  ∀ a ∈ names, ∀ b ∈ names, normalizeEdgeName a = normalizeEdgeName b → a = b

/-- The names of edges are indexed unless two of them fold to one. -/
lemma exists_foldlM_indexEdgeName :
    (∃ index', names.foldlM indexEdgeName index = .ok index') ↔
      (∀ a ∈ names, ∀ existing ∈ index.lookup (normalizeEdgeName a), existing = a) ∧
        FoldedApart names := by
  induction names generalizing index with
  | nil => simp [FoldedApart, pure, Except.pure]
  | cons name names ih =>
    simp only [foldlM_cons, bind_eq_ok_iff, indexEdgeName_eq_ok_iff]
    constructor
    · rintro ⟨index', index1, ⟨hname, rfl⟩, hrest⟩
      obtain ⟨hnames, hapart⟩ := ih.mp ⟨index', hrest⟩
      have hsame : ∀ b ∈ names, normalizeEdgeName b = normalizeEdgeName name → name = b := by
        intro b hb hfold
        apply hnames b hb
        rw [hfold, AList.lookup_insert]
        rfl
      refine ⟨?_, ?_⟩
      · intro a ha existing hex
        rcases mem_cons.mp ha with rfl | ha
        · exact hname existing hex
        · by_cases hfold : normalizeEdgeName a = normalizeEdgeName name
          · obtain rfl := hsame a ha hfold
            exact hname existing hex
          · apply hnames a ha
            rwa [AList.lookup_insert_ne hfold]
      · intro a ha b hb hfold
        rcases mem_cons.mp ha with rfl | ha' <;> rcases mem_cons.mp hb with rfl | hb'
        · rfl
        · exact hsame b hb' hfold.symm
        · exact (hsame a ha' hfold).symm
        · exact hapart a ha' b hb' hfold
    · rintro ⟨hall, hapart⟩
      have hrest : ∃ index',
          names.foldlM indexEdgeName (index.insert (normalizeEdgeName name) name) = .ok index' :=
        ih.mpr ⟨?_, ?_⟩
      · obtain ⟨index', hindex'⟩ := hrest
        exact ⟨index', _, ⟨hall name (by simp), rfl⟩, hindex'⟩
      · intro a ha existing hex
        by_cases hfold : normalizeEdgeName a = normalizeEdgeName name
        · rw [hfold, AList.lookup_insert] at hex
          cases hex
          exact hapart name (by simp) a (by simp [ha]) hfold.symm
        · rw [AList.lookup_insert_ne hfold] at hex
          exact hall a (by simp [ha]) existing hex
      · exact fun a ha b hb => hapart a (by simp [ha]) b (by simp [hb])

/-! ### From the accepted schema -/

/-- The node type of a catalog built from an accepted schema. -/
def nodeTypeOf (n : NodeIR) (constraints : List Constraint) : NodeType :=
  nodeType n.name (n.implements.map TypeRefIR.typeName) (acceptedPropTypes n.properties)
    (n.properties.filterMap acceptedEmbed) constraints

def edgeTypeOf (e : EdgeIR) : EdgeType :=
  edgeType e.name e.fromType.typeName e.toType.typeName e.cardinality
    (acceptedPropTypes e.properties) (e.constraints.map constraintFromIr)

def nodeTypeResult (n : NodeIR) : Result NodeType := do
  let constraints ← n.constraints.mapM (nodeConstraint n.name)
  return nodeTypeOf n constraints

variable {m : HashMap String NodeType} {n : NodeIR} {t : NodeType} {node : String}

lemma addNodeIr_eq_ok_iff {m' : HashMap String NodeType} :
    addNodeIr m n = .ok m' ↔ ∃ t, nodeTypeResult n = .ok t ∧ m' = m.insert n.name t := by
  simp only [addNodeIr, nodeTypeResult, bind_eq_ok_iff]
  constructor
  · rintro ⟨cs, hcs, hret⟩
    cases hret
    exact ⟨_, ⟨cs, hcs, rfl⟩, rfl⟩
  · rintro ⟨_, ⟨cs, hcs, hret⟩, rfl⟩
    cases hret
    exact ⟨cs, hcs, rfl⟩

lemma exists_foldlM_addNodeIr {ns : List NodeIR} :
    (∃ m', ns.foldlM addNodeIr m = .ok m') ↔ ∀ n ∈ ns, ∃ t, nodeTypeResult n = .ok t := by
  induction ns generalizing m with
  | nil => simp [pure, Except.pure]
  | cons n ns ih =>
    simp only [foldlM_cons, bind_eq_ok_iff, addNodeIr_eq_ok_iff, mem_cons,
      forall_eq_or_imp]
    constructor
    · rintro ⟨m', m1, ⟨t, ht, -⟩, hrest⟩
      exact ⟨⟨t, ht⟩, ih.mp ⟨m', hrest⟩⟩
    · rintro ⟨⟨t, ht⟩, hall⟩
      obtain ⟨m', hm'⟩ := (ih (m := m.insert n.name t)).mpr hall
      exact ⟨m', _, ⟨t, ht, rfl⟩, hm'⟩

lemma foldlM_addEdgeIr_eq_ok_iff {es : List EdgeIR} {m m' : HashMap String EdgeType} :
    es.foldlM addEdgeIr (m, index) = .ok (m', index') ↔
      m' = HashMap.insertAll EdgeIR.name edgeTypeOf m es ∧
        (es.map EdgeIR.name).foldlM indexEdgeName index = .ok index' := by
  induction es generalizing m index with
  | nil =>
    simp only [foldlM_nil, map_nil, HashMap.insertAll, foldl_nil, pure, Except.pure,
      Except.ok.injEq, Prod.mk.injEq]
    exact ⟨fun h => ⟨h.1.symm, h.2⟩, fun h => ⟨h.1.symm, h.2⟩⟩
  | cons e es ih =>
    simp only [foldlM_cons, map_cons, bind_eq_ok_iff, addEdgeIr]
    constructor
    · rintro ⟨_, ⟨index1, hindex, hret⟩, hrest⟩
      cases hret
      obtain ⟨rfl, hfold⟩ := ih.mp hrest
      exact ⟨rfl, index1, hindex, hfold⟩
    · rintro ⟨rfl, index1, hindex, hfold⟩
      exact ⟨_, ⟨index1, hindex, rfl⟩, ih.mpr ⟨rfl, hfold⟩⟩

/-- The stages of `buildCatalogFromIr`. -/
lemma buildCatalogFromIr_eq_ok_iff {ir : SchemaIR} {catalog : Catalog} :
    buildCatalogFromIr ir = .ok catalog ↔ Valid ir ∧
      catalog.interfaces = HashMap.insertAll InterfaceIR.name
        (fun i => interfaceType i.name (acceptedPropTypes i.properties)) ∅ ir.interfaces ∧
      ir.nodes.foldlM addNodeIr ∅ = .ok catalog.nodeTypes ∧
      catalog.edgeTypes = HashMap.insertAll EdgeIR.name edgeTypeOf ∅ ir.edges ∧
      (ir.edges.map EdgeIR.name).foldlM indexEdgeName ∅ = .ok catalog.edgeNameIndex := by
  simp only [buildCatalogFromIr, bind_eq_ok_iff]
  constructor
  · rintro ⟨⟨⟩, hvalid, nodes, hnodes, ⟨edges, index⟩, hedges, hret⟩
    cases hret
    obtain ⟨rfl, hindex⟩ := foldlM_addEdgeIr_eq_ok_iff.mp hedges
    exact ⟨validateSchemaIr_eq_ok_iff.mp hvalid, rfl, hnodes, rfl, hindex⟩
  · obtain ⟨nodes, edges, index, interfaces⟩ := catalog
    rintro ⟨hvalid, rfl, hnodes, rfl, hindex⟩
    exact ⟨(), validateSchemaIr_eq_ok_iff.mpr hvalid, nodes, hnodes, _,
      foldlM_addEdgeIr_eq_ok_iff.mpr ⟨rfl, hindex⟩, rfl⟩

section Lookup

variable {ir : SchemaIR} {catalog : Catalog}

variable (h : buildCatalogFromIr ir = .ok catalog)

include h in
lemma lookup_nodeTypes :
    catalog.nodeTypes.lookup name = some t ↔
      ∃ n ∈ ir.nodes, n.name = name ∧ nodeTypeResult n = .ok t := by
  obtain ⟨hvalid, -, hnodes, -, -⟩ := buildCatalogFromIr_eq_ok_iff.mp h
  obtain ⟨hin, hout⟩ := HashMap.lookup_foldlM_insert
    (fun m n m' hm => addNodeIr_eq_ok_iff.mp hm) hnodes hvalid.nodesSorted.nodup_map
  constructor
  · intro hlook
    by_cases hname : ∃ n ∈ ir.nodes, n.name = name
    · obtain ⟨n, hn, rfl⟩ := hname
      obtain ⟨t', ht', hlook'⟩ := hin n hn
      rw [hlook] at hlook'
      cases hlook'
      exact ⟨n, hn, rfl, ht'⟩
    · rw [hout name fun n hn hc => hname ⟨n, hn, hc⟩, AList.lookup_empty] at hlook
      cases hlook
  · rintro ⟨n, hn, rfl, ht⟩
    obtain ⟨t', ht', hlook⟩ := hin n hn
    rw [ht] at ht'
    cases ht'
    exact hlook

include h in
lemma lookup_edgeTypes {t : EdgeType} :
    catalog.edgeTypes.lookup name = some t ↔
      ∃ e ∈ ir.edges, e.name = name ∧ edgeTypeOf e = t := by
  obtain ⟨hvalid, -, -, hedges, -⟩ := buildCatalogFromIr_eq_ok_iff.mp h
  rw [hedges, HashMap.lookup_insertAll]
  · simp
  · intro a ha b hb hab
    rw [hvalid.edgesSorted.eq_of_key_eq a ha b hb hab]

include h in
lemma lookup_interfaceTypes {t : InterfaceType} :
    catalog.interfaces.lookup name = some t ↔
      ∃ i ∈ ir.interfaces, i.name = name ∧
        interfaceType i.name (acceptedPropTypes i.properties) = t := by
  obtain ⟨hvalid, hinterfaces, -, -, -⟩ := buildCatalogFromIr_eq_ok_iff.mp h
  rw [hinterfaces, HashMap.lookup_insertAll]
  · simp
  · intro a ha b hb hab
    rw [hvalid.interfacesSorted.eq_of_key_eq a ha b hb hab]

end Lookup

/-! ### Keys -/

lemma stableField_eq_ok_iff {f : FieldRefIR} {e : ℕ × String} :
    stableField node f = .ok e ↔ ∃ r, f = .property r ∧ e = (r.propertyId, r.propertyName) := by
  cases f with
  | property r =>
    simp only [stableField, Except.ok.injEq, FieldRefIR.property.injEq, exists_eq_left']
    exact eq_comm
  | system r => simp [stableField]

/-- A key of property references, sorted by identity. -/
lemma stableKey_eq_ok_iff {fields : List FieldRefIR} {columns : List String} :
    stableKey node fields = .ok columns ↔ ∃ refs : List PropertyRefIR,
      fields = refs.map .property ∧ refs ≠ [] ∧ (refs.map propertyId).Nodup ∧
        columns = (sortOn propertyId refs).map propertyName := by
  let pair : PropertyRefIR → ℕ × String := fun r => (r.propertyId, r.propertyName)
  have hsort : ∀ refs : List PropertyRefIR,
      sortOn Prod.fst (refs.map pair) = (sortOn propertyId refs).map pair :=
    fun refs => (map_insertionSort _ _ pair refs fun _ _ _ _ => Iff.rfl).symm
  have hfields : ∀ (fs : List FieldRefIR) (stable : List (ℕ × String)),
      List.Forall₂ (fun f e => stableField node f = .ok e) fs stable ↔
        ∃ refs : List PropertyRefIR, fs = refs.map .property ∧ stable = refs.map pair := by
    intro fs stable
    constructor
    · intro h
      induction h with
      | nil => exact ⟨[], rfl, rfl⟩
      | cons hf _ ih =>
        obtain ⟨r, rfl, rfl⟩ := stableField_eq_ok_iff.mp hf
        obtain ⟨refs, rfl, rfl⟩ := ih
        exact ⟨r :: refs, rfl, rfl⟩
    · rintro ⟨refs, rfl, rfl⟩
      rw [List.forall₂_map_left_iff, List.forall₂_map_right_iff, List.forall₂_same]
      exact fun r _ => stableField_eq_ok_iff.mpr ⟨r, rfl, rfl⟩
  have hchain : ∀ refs : List PropertyRefIR,
      ((sortOn propertyId refs).map pair).IsChain (fun a b => a.1 ≠ b.1) ↔
        (refs.map propertyId).Nodup := by
    intro refs
    rw [isChain_map]
    constructor
    · intro h
      have hinc := increasing_of_isChain_ne (sortOn_pairwise propertyId refs) h
      exact ((sortOn_perm propertyId refs).map _).nodup_iff.mp hinc.nodup_map
    · exact fun h => (sortOn_increasing h).imp fun _ _ hab => ne_of_lt hab
  simp only [stableKey, bind_eq_ok_iff, mapM_eq_ok_iff, ensure_eq_ok_iff, hfields]
  constructor
  · rintro ⟨_, ⟨refs, rfl, rfl⟩, _, hne, _, hids, hret⟩
    cases hret
    rw [hsort] at hne hids
    refine ⟨refs, rfl, ?_, (hchain refs).mp hids, ?_⟩
    · rintro rfl
      exact hne rfl
    · rw [hsort, List.map_map]
      rfl
  · rintro ⟨refs, rfl, hne, hids, rfl⟩
    refine ⟨_, ⟨refs, rfl, rfl⟩, (), ?_, (), ?_, ?_⟩
    · intro hc
      have hlen := congrArg List.length hc
      rw [length_sortOn, length_map] at hlen
      exact hne (length_eq_zero_iff.mp hlen)
    · rw [hsort]
      exact (hchain refs).mpr hids
    · rw [hsort, List.map_map]
      rfl

lemma nodeTypeResult_eq_ok_iff : nodeTypeResult n = .ok t ↔
    ∃ cs, List.Forall₂ (fun c c' => nodeConstraint n.name c = .ok c') n.constraints cs ∧
      t = nodeTypeOf n cs := by
  simp only [nodeTypeResult, bind_eq_ok_iff, mapM_eq_ok_iff]
  constructor
  · rintro ⟨cs, hcs, hret⟩
    cases hret
    exact ⟨cs, hcs, rfl⟩
  · rintro ⟨cs, hcs, rfl⟩
    exact ⟨cs, hcs, rfl⟩

end Omnigraph.Schema
