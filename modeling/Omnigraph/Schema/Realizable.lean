import Omnigraph.Schema.CatalogTypes
import Omnigraph.Schema.WellFormed

/-!
# Realizable schemas

When a schema that was parsed and compiled can be initialized, and gives tables with different
columns. Four things are not checked before: that a node declares a property once, that no property
has the name of a system column, that the source of an embedding in an interface exists, and that
edge names differ in lower case.
-/

namespace Omnigraph.Schema

open List Except

open Compiler (PropType ScalarType normalizeEdgeName)
open Sorted

/-- What a schema needs to have tables. -/
structure Realizable (schema : SchemaFile) : Prop extends Declared schema where
  nodeColumns : ∀ d ∈ schema.nodes, "id" ∉ d.properties.map PropDecl.name
  edgeColumns : ∀ d ∈ schema.edges, ∀ column ∈ ["id", "src", "dst"],
    column ∉ d.properties.map PropDecl.name
  edgeNames : FoldedApart (schema.edges.map EdgeDecl.name)

instance (names : List String) : Decidable (FoldedApart names) :=
  inferInstanceAs (Decidable (∀ a ∈ names, _))

instance (schema : SchemaFile) : Decidable (Declared schema) :=
  decidable_of_iff ((∀ d ∈ schema.nodes, (d.properties.map PropDecl.name).Nodup) ∧
    ∀ i ∈ schema.interfaces, ∀ p ∈ i.properties, ∀ e ∈ embedShape p.annotations,
      e.propertyName ∈ i.properties.map PropDecl.name)
    ⟨fun h => ⟨h.1, h.2⟩, fun h => ⟨h.nodeProperties, h.embeds⟩⟩

instance (schema : SchemaFile) : Decidable (Realizable schema) :=
  decidable_of_iff (Declared schema ∧ (∀ d ∈ schema.nodes, "id" ∉ d.properties.map PropDecl.name) ∧
    (∀ d ∈ schema.edges, ∀ column ∈ ["id", "src", "dst"],
      column ∉ d.properties.map PropDecl.name) ∧ FoldedApart (schema.edges.map EdgeDecl.name))
    ⟨fun h => ⟨h.1, h.2.1, h.2.2.1, h.2.2.2⟩,
      fun h => ⟨h.toDeclared, h.nodeColumns, h.edgeColumns, h.edgeNames⟩⟩

/-- The columns of every table have different names. -/
structure Catalog.ColumnsDistinct (catalog : Catalog) : Prop where
  nodes : ∀ name t, catalog.nodeTypes.lookup name = some t → (t.arrowSchema.map Field.name).Nodup
  edges : ∀ name t, catalog.edgeTypes.lookup name = some t → (t.arrowSchema.map Field.name).Nodup

/-! ### Accepted schemas and the shapes they come from -/

section Projected

variable {n : NodeShape} {a : NodeIR} {e : EdgeShape} {b : EdgeIR}

lemma map_name_projected {ps : List PropertyShape} {qs : List PropertyIR}
    (h : qs.map propertyShapeFromIr = ps.map PropertyShape.projected) :
    qs.map PropertyIR.name = ps.map PropertyShape.name := by
  have hnames := congrArg (List.map PropertyShape.name) h
  rw [List.map_map, List.map_map] at hnames
  exact hnames

lemma node_names (h : nodeShapeFromIr a = n.projected) :
    a.name = n.name ∧ a.properties.map PropertyIR.name = n.properties.map PropertyShape.name :=
  ⟨congrArg NodeShape.name h, map_name_projected (congrArg NodeShape.properties h)⟩

lemma edge_names (h : edgeShapeFromIr b = e.projected) :
    b.name = e.name ∧ b.properties.map PropertyIR.name = e.properties.map PropertyShape.name :=
  ⟨congrArg EdgeShape.name h, map_name_projected (congrArg EdgeShape.properties h)⟩

end Projected

/-- The declarations of an accepted schema, matched with those of the shape. -/
structure Projects (s : SchemaShape) (ir : SchemaIR) : Prop where
  valid : Valid ir
  interfaces :
    List.Forall₂ (fun i a => interfaceShapeFromIr a = i.projected) s.interfaces ir.interfaces
  nodes : List.Forall₂ (fun n a => nodeShapeFromIr a = n.projected) s.nodes ir.nodes
  edges : List.Forall₂ (fun e a => edgeShapeFromIr a = e.projected) s.edges ir.edges

variable {domain : SchemaIdentityDomain} {res : SchemaResolution} {names : List String}

lemma projects_of_resolve {next : ℕ} {accepted : Option SchemaIR} {s : SchemaShape}
    (h : resolve domain next accepted s = .ok res) : Projects s res.schemaIr := by
  obtain ⟨A, P, hbuild, hvalid, -⟩ := resolve_resolved h
  obtain ⟨-, -, -, hi, hn, he⟩ := buildSchema_eq_ok_iff.mp hbuild
  exact ⟨hvalid, hi.imp fun _ _ => interfaceShape_build, hn.imp fun _ _ => nodeShape_build,
    he.imp fun _ _ => edgeShape_build⟩

/-! ### Keys of nodes -/

/-- A node whose key is a list of different properties has a table. -/
lemma exists_nodeType {ir : SchemaIR} (hvalid : Valid ir) {a : NodeIR} (ha : a ∈ ir.nodes)
    (hkey : ∀ fields, .key fields ∈ a.constraints → fields ≠ [] ∧
      (fields.map FieldRefIR.fieldName).Nodup ∧ "id" ∉ fields.map FieldRefIR.fieldName) :
    ∃ t, nodeTypeResult a = .ok t := by
  have hall : ∀ c ∈ a.constraints, ∃ c', nodeConstraint a.name c = .ok c' := by
    intro c hc
    cases c with
    | key fields =>
      obtain ⟨hne, hnodup, hid⟩ := hkey fields hc
      have hok := (hvalid.nodes a ha).constraints.fields _ hc
      have hrange : fields ∈ Set.range (List.map FieldRefIR.property) := by
        rw [Set.range_list_map]
        intro f hf
        cases f with
        | property r => exact ⟨r, rfl⟩
        | system r =>
          -- the only system column of a node
          have hrole : r.role = .id := (hok _ hf).2.2.2 rfl
          refine absurd (List.mem_map.mpr ⟨_, hf, ?_⟩) hid
          rw [FieldRefIR.fieldName, hrole]
          rfl
      obtain ⟨refs, rfl⟩ := hrange
      have hids : (refs.map PropertyRefIR.propertyId).Nodup := by
        rw [List.map_map] at hnodup
        refine (nodup_map_iff_inj_on (List.Nodup.of_map _ hnodup)).mpr ?_
        intro r hr r' hr' hrr
        obtain ⟨-, t, ht, p, hp, -, -, hpid, hpname⟩ := hok _ (List.mem_map_of_mem hr)
        obtain ⟨-, t', ht', p', hp', -, -, hpid', hpname'⟩ := hok _ (List.mem_map_of_mem hr')
        obtain ⟨-, rfl⟩ := IdsNodup.propertyId_inj hvalid.idsNodup ht ht' hp hp'
          ((hpid.trans hrr).trans hpid'.symm)
        exact inj_on_of_nodup_map hnodup hr hr' (hpname.symm.trans hpname')
      have hstable : stableKey a.name (refs.map .property) =
          .ok ((sortOn PropertyRefIR.propertyId refs).map PropertyRefIR.propertyName) :=
        stableKey_eq_ok_iff.mpr
          ⟨refs, rfl, fun hnil => hne (map_eq_nil_iff.mpr hnil), hids, rfl⟩
      exact ⟨.key _, by rw [nodeConstraint, hstable]; rfl⟩
    | unique fields => exact ⟨_, rfl⟩
    | index fields => exact ⟨_, rfl⟩
    | range field min max => exact ⟨_, rfl⟩
    | check field pattern => exact ⟨_, rfl⟩
  obtain ⟨cs, hcs⟩ := exists_mapM_eq_ok_iff.mpr hall
  exact ⟨_, bind_ok hcs rfl⟩

/-! ### The columns of a table -/

lemma nodeTypeResult_columns {a : NodeIR} {t : NodeType} (h : nodeTypeResult a = .ok t) :
    t.arrowSchema.map Field.name = "id" :: a.properties.map PropertyIR.name := by
  obtain ⟨cs, -, rfl⟩ := nodeTypeResult_eq_ok_iff.mp h
  show "id" :: ((acceptedPropTypes a.properties).map propertyField).map Field.name = _
  rw [acceptedPropTypes, List.map_map, List.map_map]
  rfl

lemma edgeTypeOf_columns (e : EdgeIR) : (edgeTypeOf e).arrowSchema.map Field.name =
    "id" :: "src" :: "dst" :: e.properties.map PropertyIR.name := by
  show "id" :: "src" :: "dst" ::
    ((acceptedPropTypes e.properties).map propertyField).map Field.name = _
  rw [acceptedPropTypes, List.map_map, List.map_map]
  rfl

lemma edge_columns_nodup_iff : ("id" :: "src" :: "dst" :: names).Nodup ↔
    (∀ column ∈ ["id", "src", "dst"], column ∉ names) ∧ names.Nodup := by
  simp only [nodup_cons, mem_cons, not_mem_nil, or_false, forall_eq_or_imp,
    forall_eq, not_or]
  constructor
  · rintro ⟨⟨-, -, hid⟩, ⟨-, hsrc⟩, hdst, hnodup⟩
    exact ⟨⟨hid, hsrc, hdst⟩, hnodup⟩
  · rintro ⟨⟨hid, hsrc, hdst⟩, hnodup⟩
    exact ⟨⟨by decide, by decide, hid⟩, ⟨by decide, hsrc⟩, hdst, hnodup⟩

/-! ### Admitted schemas -/

section Admitted

variable {schema : SchemaFile} {s : SchemaShape} {ir : SchemaIR}

/-- The names of edges, in another order. -/
lemma Projects.edgeNames (h : Projects s ir) (hs : compileSchemaShape schema = .ok s) :
    (ir.edges.map EdgeIR.name).Perm (schema.edges.map EdgeDecl.name) := by
  have hir : s.edges.map EdgeShape.name = ir.edges.map EdgeIR.name :=
    h.edges.map_eq fun _ _ he => (edge_names he).1.symm
  obtain ⟨is, ns, es, -, -, hes, rfl, -⟩ := compileSchemaShape_eq_ok_iff.mp hs
  have hshape : schema.edges.map EdgeDecl.name = es.map EdgeShape.name := by
    refine hes.map_eq fun d e he => ?_
    obtain ⟨hint, shapes, -, rfl⟩ := compileEdge_eq_ok he
    rfl
  rw [hshape, ← hir]
  exact (sortOn_perm _ es).map _

lemma foldedApart_perm {names' : List String} (h : names.Perm names') :
    FoldedApart names ↔ FoldedApart names' := by
  simp only [FoldedApart, h.mem_iff]

/-- A node of the accepted schema and the declaration it comes from. -/
lemma Projects.exists_node_left (h : Projects s ir) (hparsed : Parsed schema)
    (hs : compileSchemaShape schema = .ok s) {a : NodeIR} (ha : a ∈ ir.nodes) :
    ∃ d ∈ schema.nodes, ∃ n ∈ s.nodes, compileNode (interfaceMap schema.interfaces) d = .ok n ∧
      nodeShapeFromIr a = n.projected ∧
      (a.properties.map PropertyIR.name).Perm (d.properties.map PropDecl.name) := by
  obtain ⟨n, hn, hproj⟩ := h.nodes.exists_left ha
  obtain ⟨d, hd, hcompile⟩ := (mem_compiled_nodes hs).2 n hn
  obtain ⟨direct, hnode⟩ := hparsed.nodes d hd
  refine ⟨d, hd, n, hn, hcompile, hproj, ?_⟩
  rw [(node_names hproj).2]
  exact hnode.mem_names (uniqueInterfaces hs) hcompile

variable {d : NodeDecl}

lemma Projects.exists_node_right (h : Projects s ir) (hparsed : Parsed schema)
    (hs : compileSchemaShape schema = .ok s) (hd : d ∈ schema.nodes) :
    ∃ a ∈ ir.nodes, a.name = d.name ∧
      (a.properties.map PropertyIR.name).Perm (d.properties.map PropDecl.name) := by
  obtain ⟨n, hn, hcompile⟩ := (mem_compiled_nodes hs).1 d hd
  obtain ⟨a, ha, hproj⟩ := h.nodes.exists_right hn
  obtain ⟨direct, hnode⟩ := hparsed.nodes d hd
  obtain ⟨hname, hprops⟩ := node_names hproj
  refine ⟨a, ha, ?_, ?_⟩
  · obtain ⟨shapes, hint, -, rfl⟩ := compileNode_eq_ok hcompile
    exact hname
  · rw [hprops]
    exact hnode.mem_names (uniqueInterfaces hs) hcompile

lemma compileEdge_names {d : EdgeDecl} {e : EdgeShape} (h : compileEdge d = .ok e) :
    e.name = d.name ∧ (e.properties.map PropertyShape.name).Nodup ∧
      ∀ name, name ∈ e.properties.map PropertyShape.name ↔
        name ∈ d.properties.map PropDecl.name := by
  obtain ⟨hint, shapes, hshapes, rfl⟩ := compileEdge_eq_ok h
  obtain ⟨-, -, -, hinc⟩ := canonicalProperties_eq_ok hshapes
  exact ⟨rfl, hinc.nodup_map, (canonicalProperties_names hshapes).2⟩

/-- The key of a compiled node. -/
lemma ParsedNode.compiled_key {direct : List PropDecl} {n : NodeShape}
    (h : ParsedNode schema.interfaces d direct) (hu : UniqueInterfaces schema.interfaces)
    (hn : compileNode (interfaceMap schema.interfaces) d = .ok n) {columns : List String}
    (hc : .key columns ∈ n.constraints) :
    columns ≠ [] ∧ columns.Nodup ∧ ∀ name ∈ columns, name ∈ d.properties.map PropDecl.name := by
  obtain ⟨shapes, hint, hshapes, rfl⟩ := compileNode_eq_ok hn
  obtain ⟨c0, hc0, heq⟩ := mem_canonicalConstraints hc
  have hc0 := (h.mem_compiled hu hshapes).mp hc0
  cases c0 with
  | key columns0 =>
    cases heq
    refine ⟨?_, ?_, fun name hname => h.constraint_columns _ hc0 name (mem_canonical.mp hname)⟩
    · obtain ⟨column, hcolumn⟩ := exists_mem_of_ne_nil _ (h.grammatical _ hc0).nonempty
      exact ne_nil_of_mem (mem_canonical.mpr hcolumn)
    · simpa using (canonical_increasing Function.injective_id columns0).nodup_map
  | unique _ => cases heq
  | index _ => cases heq
  | range _ _ _ => cases heq
  | check _ _ => cases heq

/-- The schema can be initialized, and its tables have different columns. -/
def Realized (domain : SchemaIdentityDomain) (s : SchemaShape) : Prop :=
  ∃ res catalog, initializeSchemaIr domain s = .ok res ∧
    buildCatalogFromIr res.schemaIr = .ok catalog ∧ catalog.ColumnsDistinct

/-- The catalog of an accepted schema. -/
lemma Projects.exists_catalog (h : Projects s ir) (hparsed : Parsed schema)
    (hs : compileSchemaShape schema = .ok s) (hreal : Realizable schema) :
    ∃ catalog, buildCatalogFromIr ir = .ok catalog := by
  have hu := uniqueInterfaces hs
  have hnodes : ∀ a ∈ ir.nodes, ∃ t, nodeTypeResult a = .ok t := by
    intro a ha
    refine exists_nodeType h.valid ha fun fields hfields => ?_
    obtain ⟨d, hd, n, hn, hcompile, hproj, -⟩ := h.exists_node_left hparsed hs ha
    obtain ⟨direct, hnode⟩ := hparsed.nodes d hd
    have hcons : a.constraints.map constraintFromIr = n.constraints :=
      congrArg NodeShape.constraints hproj
    have hmem : .key (fields.map FieldRefIR.fieldName) ∈ n.constraints := by
      rw [← hcons]
      exact List.mem_map_of_mem (f := constraintFromIr) hfields
    obtain ⟨hne, hnodup, hcols⟩ := hnode.compiled_key hu hcompile hmem
    exact ⟨fun hnil => hne (map_eq_nil_iff.mpr hnil), hnodup,
      fun hid => hreal.nodeColumns d hd (hcols _ hid)⟩
  obtain ⟨nodes, hnodes⟩ : ∃ nodes, ir.nodes.foldlM addNodeIr ∅ = .ok nodes :=
    exists_foldlM_addNodeIr.mpr hnodes
  obtain ⟨index, hindex⟩ : ∃ index, (ir.edges.map EdgeIR.name).foldlM indexEdgeName ∅ = .ok index :=
    exists_foldlM_indexEdgeName.mpr
      ⟨by simp, (foldedApart_perm (h.edgeNames hs)).mpr hreal.edgeNames⟩
  exact ⟨⟨nodes, _, index, _⟩,
    buildCatalogFromIr_eq_ok_iff.mpr ⟨h.valid, rfl, hnodes, rfl, hindex⟩⟩

/-- Its columns. -/
lemma Projects.columnsDistinct (h : Projects s ir) (hparsed : Parsed schema)
    (hs : compileSchemaShape schema = .ok s) (hreal : Realizable schema) {catalog : Catalog}
    (hc : buildCatalogFromIr ir = .ok catalog) : catalog.ColumnsDistinct := by
  refine ⟨fun name t ht => ?_, fun name t ht => ?_⟩
  · obtain ⟨a, ha, -, hresult⟩ := (lookup_nodeTypes hc).mp ht
    obtain ⟨d, hd, -, -, -, -, hperm⟩ := h.exists_node_left hparsed hs ha
    rw [nodeTypeResult_columns hresult, nodup_cons, hperm.mem_iff, hperm.nodup_iff]
    exact ⟨hreal.nodeColumns d hd, hreal.nodeProperties d hd⟩
  · obtain ⟨a, ha, -, rfl⟩ := (lookup_edgeTypes hc).mp ht
    obtain ⟨e, he, hproj⟩ := h.edges.exists_left ha
    obtain ⟨d, hd, hcompile⟩ := (mem_compiled_edges hs).2 e he
    obtain ⟨-, hnodup, hmem⟩ := compileEdge_names hcompile
    rw [edgeTypeOf_columns, edge_columns_nodup_iff, (edge_names hproj).2]
    refine ⟨fun column hcolumn hc => ?_, hnodup⟩
    exact hreal.edgeColumns d hd column hcolumn ((hmem column).mp hc)

/-- The source of an embedding is a property of its owner. -/
lemma Projects.embeds (h : Projects s ir) (hs : compileSchemaShape schema = .ok s)
    {d : InterfaceDecl} (hd : d ∈ schema.interfaces) {p : PropDecl} (hp : p ∈ d.properties)
    {e : EmbedSourceShape} (he : e ∈ embedShape p.annotations) :
    e.propertyName ∈ d.properties.map PropDecl.name := by
  obtain ⟨i, hi, hcompile⟩ := (mem_compiled_interfaces hs).1 d hd
  obtain ⟨-, hprops⟩ := compileInterface_eq_ok hcompile
  obtain ⟨a, ha, hproj⟩ := h.interfaces.exists_right hi
  have hproj := congrArg InterfaceShape.properties hproj
  rw [← (canonicalProperties_names hprops).2, ← map_name_projected hproj]
  -- the property in the accepted schema
  obtain ⟨raw, hraw, hsorted, -⟩ := canonicalProperties_eq_ok hprops
  obtain ⟨sh, hsh, hshape⟩ := hraw.exists_right hp
  obtain ⟨hint, -, heq⟩ := propertyShape_eq_ok_iff.mp hshape
  have hmem : sh.projected ∈ a.properties.map propertyShapeFromIr := by
    have hsh' : sh ∈ i.properties := by rwa [hsorted, mem_sortOn]
    show sh.projected ∈ (interfaceShapeFromIr a).properties
    rw [hproj]
    exact List.mem_map_of_mem hsh'
  obtain ⟨q, hq, hqsh⟩ := List.mem_map.mp hmem
  have hsource : q.embedSource.map (fun embed => (⟨embed.source.propertyName, embed.model⟩ :
      EmbedSourceShape)) = some e := by
    have hembed := congrArg PropertyShape.embedSource hqsh
    have hshe : sh.embedSource = some e := (congrArg PropertyShape.embedSource heq).trans he
    exact hembed.trans hshe
  obtain ⟨embed, hembed, rfl⟩ := Option.map_eq_some_iff.mp hsource
  -- it names a property of the same type
  have hacc := InterfaceIR.accepted_mem ha
  obtain ⟨howner, t, ht, r, hr, htid, -, -, hrname⟩ :=
    (h.valid.provenance _ hacc q hq).embed embed hembed
  obtain rfl := IdsNodup.typeId_inj h.valid.idsNodup ht hacc (htid.trans howner.symm)
  exact List.mem_map.mpr ⟨r, hr, hrname⟩

/-- An admitted schema can be realized exactly if the declarations allow it. -/
theorem realized_iff_realizable {raw : List RawDecl} {domain : SchemaIdentityDomain}
    (hparse : parseSchema raw = .ok schema) (hs : compileSchemaShape schema = .ok s)
    (hne : initializeSchemaIr domain s ≠ .error .allocatorExhausted) :
    Realized domain s ↔ Realizable schema := by
  have hparsed := parseSchemaWithMode_parsed hparse
  constructor
  · rintro ⟨res, catalog, hres, hcatalog, hcolumns⟩
    have hproj := projects_of_resolve hres
    have hnames : ∀ d ∈ schema.nodes, (d.properties.map PropDecl.name).Nodup ∧
        "id" ∉ d.properties.map PropDecl.name := by
      intro d hd
      obtain ⟨a, ha, -, hperm⟩ := hproj.exists_node_right hparsed hs hd
      obtain ⟨-, -, hnodes, -, -⟩ := buildCatalogFromIr_eq_ok_iff.mp hcatalog
      obtain ⟨t, ht⟩ := exists_foldlM_addNodeIr.mp ⟨_, hnodes⟩ a ha
      have hcols := hcolumns.nodes a.name t ((lookup_nodeTypes hcatalog).mpr ⟨a, ha, rfl, ht⟩)
      rw [nodeTypeResult_columns ht, nodup_cons, hperm.mem_iff, hperm.nodup_iff] at hcols
      exact ⟨hcols.2, hcols.1⟩
    refine ⟨⟨fun d hd => (hnames d hd).1, fun i hi p hp e he => hproj.embeds hs hi hp he⟩,
      fun d hd => (hnames d hd).2, fun d hd column hcolumn hc => ?_, ?_⟩
    · obtain ⟨e, he, hcompile⟩ := (mem_compiled_edges hs).1 d hd
      obtain ⟨a, ha, hea⟩ := hproj.edges.exists_right he
      have hcols := hcolumns.edges a.name _ ((lookup_edgeTypes hcatalog).mpr ⟨a, ha, rfl, rfl⟩)
      rw [edgeTypeOf_columns, edge_columns_nodup_iff, (edge_names hea).2] at hcols
      exact hcols.1 column hcolumn (((compileEdge_names hcompile).2.2 column).mpr hc)
    · obtain ⟨-, -, -, -, hindex⟩ := buildCatalogFromIr_eq_ok_iff.mp hcatalog
      exact (foldedApart_perm (hproj.edgeNames hs)).mp
        (exists_foldlM_indexEdgeName.mp ⟨_, hindex⟩).2
  · intro hreal
    obtain ⟨res, hres⟩ :=
      initializeSchemaIr_ok (wellFormed_of_compiled hparsed hs hreal.toDeclared) hne
    have hproj := projects_of_resolve hres
    obtain ⟨catalog, hcatalog⟩ := hproj.exists_catalog hparsed hs hreal
    exact ⟨res, catalog, hres, hcatalog, hproj.columnsDistinct hparsed hs hreal hcatalog⟩

end Admitted

/-! ### An example -/

/-- From the declarations to the first accepted schema. -/
def initializeRaw (domain : SchemaIdentityDomain) (raw : List RawDecl) :
    Result SchemaResolution := do
  let schema ← parseSchema raw
  let s ← compileSchemaShape schema
  initializeSchemaIr domain s

def rawProp (name : Ident) (scalar : { s : ScalarType // s.isVector = false }) : RawProp :=
  ⟨name, .base scalar, false, []⟩

def rawNode (name : TypeName) (properties : List RawProp) (constraints : List RawConstraint) :
    RawDecl :=
  .node ⟨name, [], [], properties, constraints⟩

def rawEdge (name fromType toType : TypeName) : RawDecl :=
  .edge ⟨name, fromType, toType, none, [], [], []⟩

def identA : Ident := ⟨"a", by decide⟩

def typePerson : TypeName := ⟨"Person", by decide⟩

/-- `node Person { a: String  @key(a) }` and `edge Knows: Person -> Person`. -/
def personRaw : List RawDecl :=
  [rawNode typePerson [rawProp identA ⟨.string, rfl⟩] [⟨.key, [.ident identA]⟩],
    rawEdge ⟨"Knows", by decide⟩ typePerson typePerson]

/-- `node Person { a: String  a: I32 }`. -/
def twiceRaw : List RawDecl :=
  [rawNode typePerson [rawProp identA ⟨.string, rfl⟩, rawProp identA ⟨.i32, rfl⟩] []]

lemma initializeRaw_eq_ok {raw : List RawDecl} (h : initializeRaw domain raw = .ok res) :
    ∃ schema s,
      parseSchema raw = .ok schema ∧ compileSchemaShape schema = .ok s ∧
        initializeSchemaIr domain s = .ok res := by
  simp only [initializeRaw, bind_eq_ok_iff] at h
  obtain ⟨schema, hparse, s, hs, hres⟩ := h
  exact ⟨schema, s, hparse, hs, hres⟩

theorem realized_iff_realizable_person : ∃ schema s, parseSchema personRaw = .ok schema ∧
    compileSchemaShape schema = .ok s ∧ Realizable schema ∧ Realized graphDomain s := by
  obtain ⟨res, hres⟩ := exists_eq_ok
    (show (initializeRaw graphDomain personRaw).isOk = true by decide +kernel)
  obtain ⟨schema, s, hparse, hs, hres⟩ := initializeRaw_eq_ok hres
  have hreal : (parseSchema personRaw).toOption.all (fun schema => decide (Realizable schema)) =
      true := by decide +kernel
  rw [hparse] at hreal
  have hreal : Realizable schema := of_decide_eq_true hreal
  have hne : initializeSchemaIr graphDomain s ≠ .error .allocatorExhausted := by
    rw [hres]
    exact fun hc => by cases hc
  exact ⟨schema, s, hparse, hs, hreal, (realized_iff_realizable hparse hs hne).mpr hreal⟩

/-- The second declaration of a property passes the parser and the shape, and fails later. -/
theorem redeclared_not_realized : ∃ schema s, parseSchema twiceRaw = .ok schema ∧
    compileSchemaShape schema = .ok s ∧
    initializeSchemaIr graphDomain s ≠ .error .allocatorExhausted ∧ ¬ Realized graphDomain s := by
  obtain ⟨s, hs⟩ := exists_eq_ok
    (show (parseSchema twiceRaw >>= compileSchemaShape).isOk = true by decide +kernel)
  obtain ⟨schema, hparse, hs⟩ := bind_eq_ok_iff.mp hs
  have hfails : (parseSchema twiceRaw >>= compileSchemaShape >>= initializeSchemaIr graphDomain) =
      .error (invalidIr "duplicate property 'Person.a'") := by rfl
  have hfails : initializeSchemaIr graphDomain s =
      .error (invalidIr "duplicate property 'Person.a'") := by
    rw [hparse] at hfails
    change (compileSchemaShape schema >>= _) = _ at hfails
    rw [hs] at hfails
    exact hfails
  refine ⟨schema, s, hparse, hs, ?_, ?_⟩
  · rw [hfails]
    exact fun hc => by cases hc
  · rintro ⟨res, -, hres, -⟩
    rw [hfails] at hres
    cases hres

end Omnigraph.Schema
