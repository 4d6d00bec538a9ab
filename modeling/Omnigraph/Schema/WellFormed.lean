import Omnigraph.Schema.Compiled
import Omnigraph.Schema.Initialized

/-!
# Compiled shapes are well formed

Of a parsed schema two things are not checked before its shape is initialized: that a node declares
a property once, and that the source of an embedding in an interface exists. With both, the compiled
shape is well formed.
-/

namespace Omnigraph.Schema

open Compiler (PropType ScalarType)
open Sorted

/-! ### Well-formed shapes -/

lemma declaredShape_enumSorted (p : PropDecl) :
    Increasing id ((declaredShape p).propType.enumValues.getD []) := by
  show Increasing id ((p.propType.enumValues.map (canonical id)).getD [])
  cases p.propType.enumValues with
  | none => exact List.isChain_nil
  | some values => exact canonical_increasing Function.injective_id values

lemma declaredShape_constraintsSorted (p : PropDecl) :
    Increasing PropertyConstraintShape.rank (declaredShape p).propertyConstraints :=
  canonical_increasing PropertyConstraintShape.rank_injective _

variable {sh : PropertyShape} {t : DesiredType}

/-- A property of an interface or an edge. -/
lemma propertyShapeOk_canonical {owner : String} {ps : List PropDecl} (hparsed : ∀ p ∈ ps, p.Parsed)
    (h : canonicalProperties owner ps = .ok t.properties) (hkind : t.kind ≠ .node)
    (hedge : t.kind = .edge → ∀ p ∈ ps, embedShape p.annotations = none)
    (hembed : ∀ p ∈ ps, ∀ e ∈ embedShape p.annotations, e.propertyName ∈ ps.map PropDecl.name)
    (hsh : sh ∈ t.properties) : PropertyShapeOk t sh := by
  obtain ⟨p, hp, hint, rfl⟩ := mem_canonicalProperties h hsh
  refine ⟨(hparsed p hp).notReserved, canonicalAnnotations_ok _, declaredShape_enumSorted p,
    declaredShape_constraintsSorted p, fun e he => ?_, List.nodup_nil,
    fun hc => absurd hc hkind, fun _ => ⟨rfl, rfl⟩, fun hc => hedge hc p hp⟩
  exact ((canonicalProperties_names h).2 _).mpr (hembed p hp e he)

section Node

variable {interfaces : List InterfaceDecl} {d : NodeDecl} {direct : List PropDecl}
  {shapes : List PropertyShape}

/-- The names of the properties of a compiled node. -/
lemma ParsedNode.map_name (h : ParsedNode interfaces d direct) (hu : UniqueInterfaces interfaces)
    (hshapes : List.Forall₂ (fun p sh =>
      Schema.nodePropertyShape (interfaceMap interfaces) d p = .ok sh) d.properties shapes) :
    shapes.map PropertyShape.name = d.properties.map PropDecl.name := by
  refine (hshapes.map_eq_of_mem fun p hp sh hsh => ?_).symm
  exact (congrArg PropertyShape.name (h.nodePropertyShape hu hp hsh)).symm

lemma mem_satisfiedBy {name : String} {o : InterfacePropertyOrigin} :
    o ∈ satisfiedBy interfaces d name ↔
      ∃ c ∈ contributions interfaces d.implements, c.2.name = name ∧ c.origin = o := by
  rw [satisfiedBy, mem_canonical, mem_contributionsTo]

/-- A property of a node: its provenance is recorded. -/
lemma ParsedNode.propertyShapeOk (h : ParsedNode interfaces d direct)
    (hu : UniqueInterfaces interfaces) (hkind : t.kind = .node) {p : PropDecl}
    (hp : p ∈ d.properties) (hsh : Schema.nodePropertyShape (interfaceMap interfaces) d p = .ok sh)
    (hembed : ∀ e ∈ sh.embedSource, e.propertyName ∈ t.properties.map PropertyShape.name) :
    PropertyShapeOk t sh := by
  have heq := h.nodePropertyShape hu hp hsh
  have hname : sh.name = p.name := congrArg PropertyShape.name heq
  have hann : sh.annotations = canonicalAnnotations p.annotations :=
    congrArg PropertyShape.annotations heq
  have htype : sh.propType = normalizeType p.propType := congrArg PropertyShape.propType heq
  have hcons : sh.propertyConstraints =
      canonical PropertyConstraintShape.rank (p.annotations.filterMap annotationRelation) :=
    congrArg PropertyShape.propertyConstraints heq
  have hdir : sh.declaredDirectly = decide (p.name ∈ direct.map PropDecl.name) :=
    congrArg PropertyShape.declaredDirectly heq
  have hsat : sh.satisfiesInterfaceProperties = (satisfiedBy interfaces d p.name).map
      fun c => ⟨c.interfaceName, c.propertyName⟩ :=
    congrArg PropertyShape.satisfiesInterfaceProperties heq
  refine ⟨?_, ?_, ?_, ?_, hembed, ?_, fun _ hdirect => ?_, fun hc => absurd hkind hc, fun hc => ?_⟩
  · rw [hname]
    exact (h.parsed p hp).notReserved
  · rw [hann]
    exact canonicalAnnotations_ok _
  · rw [htype]
    exact declaredShape_enumSorted p
  · rw [hcons]
    exact declaredShape_constraintsSorted p
  · rw [hsat]
    have hnodup : (satisfiedBy interfaces d p.name).Nodup := List.Nodup.of_map _
      (canonical_increasing InterfacePropertyOrigin.sortKey_injective _).nodup_map
    refine hnodup.map fun a b hab => ?_
    obtain ⟨ha, hb⟩ := ShapePropertyRef.mk.inj hab
    cases a
    cases b
    exact congrArg₂ _ ha hb
  · rw [hdir, decide_eq_false_iff_not] at hdirect
    obtain ⟨c, hc, hcp⟩ := h.exists_contribution hp hdirect
    have hmem : c.origin ∈ satisfiedBy interfaces d p.name :=
      mem_satisfiedBy.mpr ⟨c, hc, by rw [hcp], rfl⟩
    rw [hsat]
    intro hnil
    rw [List.map_eq_nil_iff.mp hnil] at hmem
    cases hmem
  · rw [hkind] at hc
    cases hc

end Node

/-! ### Compiled shapes are well formed -/

section Compiled

variable {schema : SchemaFile} {s : SchemaShape}

variable (h : compileSchemaShape schema = .ok s)

include h in
/-- The interfaces of a shape are those of the schema. -/
lemma mem_compiled_interfaces :
    (∀ d ∈ schema.interfaces, ∃ i ∈ s.interfaces, compileInterface d = .ok i) ∧
      ∀ i ∈ s.interfaces, ∃ d ∈ schema.interfaces, compileInterface d = .ok i := by
  obtain ⟨is, ns, es, his, -, -, rfl, -⟩ := compileSchemaShape_eq_ok_iff.mp h
  refine ⟨fun d hd => ?_, fun i hi => his.exists_left ((mem_sortOn _).mp hi)⟩
  obtain ⟨i, hi, hdi⟩ := his.exists_right hd
  exact ⟨i, (mem_sortOn _).mpr hi, hdi⟩

include h in
lemma mem_compiled_nodes :
    (∀ d ∈ schema.nodes, ∃ n ∈ s.nodes,
      compileNode (interfaceMap schema.interfaces) d = .ok n) ∧
      ∀ n ∈ s.nodes, ∃ d ∈ schema.nodes,
        compileNode (interfaceMap schema.interfaces) d = .ok n := by
  obtain ⟨is, ns, es, -, hns, -, rfl, -⟩ := compileSchemaShape_eq_ok_iff.mp h
  refine ⟨fun d hd => ?_, fun n hn => hns.exists_left ((mem_sortOn _).mp hn)⟩
  obtain ⟨n, hn, hdn⟩ := hns.exists_right hd
  exact ⟨n, (mem_sortOn _).mpr hn, hdn⟩

include h in
lemma mem_compiled_edges :
    (∀ d ∈ schema.edges, ∃ e ∈ s.edges, compileEdge d = .ok e) ∧
      ∀ e ∈ s.edges, ∃ d ∈ schema.edges, compileEdge d = .ok e := by
  obtain ⟨is, ns, es, -, -, hes, rfl, -⟩ := compileSchemaShape_eq_ok_iff.mp h
  refine ⟨fun d hd => ?_, fun e he => hes.exists_left ((mem_sortOn _).mp he)⟩
  obtain ⟨e, he, hde⟩ := hes.exists_right hd
  exact ⟨e, (mem_sortOn _).mpr he, hde⟩

include h in
lemma validated_of_compiled : ShapeValidated s := by
  obtain ⟨is, ns, es, -, -, -, -, hvalid⟩ := compileSchemaShape_eq_ok_iff.mp h
  exact validateShape_eq_ok hvalid

include h in
lemma compiled_sorted :
    Increasing InterfaceShape.name s.interfaces ∧ Increasing NodeShape.name s.nodes ∧
      Increasing EdgeShape.name s.edges := by
  have hvalid := validated_of_compiled h
  obtain ⟨is, ns, es, -, -, -, rfl, -⟩ := compileSchemaShape_eq_ok_iff.mp h
  refine ⟨sortOn_increasing ?_, sortOn_increasing ?_, sortOn_increasing ?_⟩
  · exact ((sortOn_perm InterfaceShape.name is).map _).nodup_iff.mp hvalid.interfaceNames
  · exact ((sortOn_perm NodeShape.name ns).map _).nodup_iff.mp hvalid.nodeNames
  · exact ((sortOn_perm EdgeShape.name es).map _).nodup_iff.mp hvalid.edgeNames

variable {names : List String}

include h in
/-- What a node takes over is a property of a compiled interface that it implements. -/
lemma contribution_compiled {c : Contribution} (hc : c ∈ contributions schema.interfaces names) :
    c.1.name ∈ names ∧ ∃ i ∈ s.interfaces, i.name = c.1.name ∧
      ∃ q ∈ i.properties, q.name = c.2.name ∧ q.propType = normalizeType c.2.propType := by
  obtain ⟨⟨name, hname, hlook⟩, hp⟩ := mem_contributions.mp hc
  obtain ⟨hi, hiname⟩ := mem_of_lookup_interfaceMap hlook
  refine ⟨hiname ▸ hname, ?_⟩
  obtain ⟨i, his, hcompile⟩ := (mem_compiled_interfaces h).1 _ hi
  obtain ⟨hname', hprops⟩ := compileInterface_eq_ok hcompile
  refine ⟨i, his, hname', ?_⟩
  obtain ⟨raw, hraw, hsorted, -⟩ := canonicalProperties_eq_ok hprops
  obtain ⟨q, hq, hshape⟩ := hraw.exists_right hp
  obtain ⟨hint, -, heq⟩ := propertyShape_eq_ok_iff.mp hshape
  refine ⟨q, ?_, congrArg PropertyShape.name heq, congrArg PropertyShape.propType heq⟩
  rw [hsorted, mem_sortOn]
  exact hq

include h in
/-- The contribution that a property of a compiled interface stands for. -/
lemma exists_contribution_compiled {i : InterfaceShape} (hi : i ∈ s.interfaces)
    (hname : i.name ∈ names) {q : PropertyShape} (hq : q ∈ i.properties) :
    ∃ c ∈ contributions schema.interfaces names, c.1.name = i.name ∧ c.2.name = q.name := by
  obtain ⟨d, hd, hcompile⟩ := (mem_compiled_interfaces h).2 i hi
  obtain ⟨hdname, hprops⟩ := compileInterface_eq_ok hcompile
  obtain ⟨p, hp, hint, rfl⟩ := mem_canonicalProperties hprops hq
  refine ⟨(d, p), mem_contributions.mpr ⟨⟨d.name, hdname ▸ hname, ?_⟩, hp⟩, hdname.symm, rfl⟩
  exact (uniqueInterfaces h).lookup hd

end Compiled

section CompiledNode

variable {schema : SchemaFile} {s : SchemaShape} {d : NodeDecl} {direct : List PropDecl}
  {n : NodeShape}

variable (h : ParsedNode schema.interfaces d direct)

include h in
/-- A property of a compiled node and the declaration it comes from. -/
lemma ParsedNode.exists_decl (hu : UniqueInterfaces schema.interfaces)
    (hn : compileNode (interfaceMap schema.interfaces) d = .ok n) (hsh : sh ∈ n.properties) :
    ∃ p ∈ d.properties,
      Schema.nodePropertyShape (interfaceMap schema.interfaces) d p = .ok sh ∧
      sh.name = p.name ∧ sh.propType = normalizeType p.propType ∧
      sh.satisfiesInterfaceProperties = (satisfiedBy schema.interfaces d p.name).map
        fun c => ⟨c.interfaceName, c.propertyName⟩ := by
  obtain ⟨shapes, hint, hshapes, rfl⟩ := compileNode_eq_ok hn
  obtain ⟨p, hp, hshape⟩ := hshapes.exists_left ((mem_sortOn _).mp hsh)
  have heq := h.nodePropertyShape hu hp hshape
  exact ⟨p, hp, hshape, congrArg PropertyShape.name heq, congrArg PropertyShape.propType heq,
    congrArg PropertyShape.satisfiesInterfaceProperties heq⟩

include h in
lemma ParsedNode.mem_names (hu : UniqueInterfaces schema.interfaces)
    (hn : compileNode (interfaceMap schema.interfaces) d = .ok n) :
    (n.properties.map PropertyShape.name).Perm (d.properties.map PropDecl.name) := by
  obtain ⟨shapes, hint, hshapes, rfl⟩ := compileNode_eq_ok hn
  rw [← h.map_name hu hshapes]
  exact (sortOn_perm _ shapes).map _

include h in
/-- A compiled node keeps what its parts were checked for. -/
lemma ParsedNode.nodeShapeOk (hs : compileSchemaShape schema = .ok s) (hmem : n ∈ s.nodes)
    (hn : compileNode (interfaceMap schema.interfaces) d = .ok n)
    (hnodup : (d.properties.map PropDecl.name).Nodup) : NodeShapeOk s n := by
  have hu := uniqueInterfaces hs
  have hperm := h.mem_names hu hn
  have hvalid := validated_of_compiled hs
  have hlink : ∀ p ∈ n.properties, ∀ r ∈ p.satisfiesInterfaceProperties,
      r.ownerName ∈ n.implements ∧ ∃ i ∈ s.interfaces, i.name = r.ownerName ∧
        ∃ q ∈ i.properties, q.name = r.propertyName ∧ q.propType = p.propType := by
    intro sh hsh r hr
    obtain ⟨p, hp, -, -, htype, hsat⟩ := h.exists_decl hu hn hsh
    rw [hsat] at hr
    obtain ⟨o, ho, rfl⟩ := List.mem_map.mp hr
    obtain ⟨c, hc, hcname, rfl⟩ := mem_satisfiedBy.mp ho
    obtain ⟨howner, i, hi, hiname, q, hq, hqname, hqtype⟩ := contribution_compiled hs hc
    -- the property that the interface was checked against is this one
    obtain ⟨p', hfind, hp'⟩ := h.types c hc
    rw [hcname, find_name hnodup hp] at hfind
    cases hfind
    obtain ⟨shapes, hint, -, rfl⟩ := compileNode_eq_ok hn
    refine ⟨mem_canonical.mpr howner, i, hi, hiname, q, hq, hqname, ?_⟩
    rw [hqtype, htype, hp']
  have himpl : ∀ i ∈ s.interfaces, i.name ∈ n.implements → ∀ q ∈ i.properties,
      ∃ p ∈ n.properties, ⟨i.name, q.name⟩ ∈ p.satisfiesInterfaceProperties := by
    intro i hi hname q hq
    have hname' : i.name ∈ d.implements := by
      obtain ⟨shapes, hint, -, rfl⟩ := compileNode_eq_ok hn
      exact mem_canonical.mp hname
    obtain ⟨c, hc, hci, hcq⟩ := exists_contribution_compiled hs hi hname' hq
    have hcol : c.2.name ∈ n.properties.map PropertyShape.name := by
      rw [hperm.mem_iff, h.properties]
      exact name_mem_taken hc
    obtain ⟨sh, hsh, hshname⟩ := List.mem_map.mp hcol
    obtain ⟨p, hp, -, hpname, -, hsat⟩ := h.exists_decl hu hn hsh
    refine ⟨sh, hsh, ?_⟩
    rw [hsat, ← hci, ← hcq]
    exact List.mem_map_of_mem (f := fun c : InterfacePropertyOrigin =>
      (⟨c.interfaceName, c.propertyName⟩ : ShapePropertyRef))
      (mem_satisfiedBy.mpr ⟨c, hc, hshname.symm.trans hpname, rfl⟩)
  have hcols : ∀ c ∈ n.constraints, ∀ name ∈ c.columns, n.desired.HasColumn name := by
    intro c hc name hname
    refine .inr (hperm.mem_iff.mpr ?_)
    obtain ⟨shapes, hint, hshapes, rfl⟩ := compileNode_eq_ok hn
    obtain ⟨c0, hc0, rfl⟩ := mem_canonicalConstraints hc
    exact h.constraint_columns c0 ((h.mem_compiled hu hshapes).mp hc0) name
      (mem_columns_normalize.mp hname)
  refine ⟨?_, ?_, fun name hname => List.mem_map.mp (hvalid.implements n hmem name hname), hlink,
    himpl, ?_, hcols⟩
  all_goals obtain ⟨shapes, hint, hshapes, rfl⟩ := compileNode_eq_ok hn
  · exact canonicalAnnotations_ok _
  · simpa using (canonical_increasing Function.injective_id d.implements).nodup_map
  · exact canonicalConstraints_increasing fun c hc =>
      h.grammatical c ((h.mem_compiled hu hshapes).mp hc)

end CompiledNode

/-- Every node declares a property once, and interfaces embed properties of their own. -/
structure Declared (schema : SchemaFile) : Prop where
  nodeProperties : ∀ d ∈ schema.nodes, (d.properties.map PropDecl.name).Nodup
  embeds : ∀ i ∈ schema.interfaces, ∀ p ∈ i.properties, ∀ e ∈ embedShape p.annotations,
    e.propertyName ∈ i.properties.map PropDecl.name

section WellFormed

variable {schema : SchemaFile} {s : SchemaShape}

lemma embedShape_eq_none {annotations : List Annotation}
    (h : ∀ a ∈ annotations, a.name ≠ "embed") : embedShape annotations = none := by
  have hfind : (annotations.find? fun a => a.name = "embed") = none := by
    rw [List.find?_eq_none]
    intro a ha
    simpa using h a ha
  rw [embedShape, hfind, Option.bind_none]

lemma ParsedEdge.edgeShapeOk {d : EdgeDecl} (h : ParsedEdge d)
    (hs : compileSchemaShape schema = .ok s) {e : EdgeShape} (hmem : e ∈ s.edges)
    (he : compileEdge d = .ok e) : EdgeShapeOk s e := by
  have hends := (validated_of_compiled hs).endpoints e hmem
  obtain ⟨hint, shapes, hshapes, rfl⟩ := compileEdge_eq_ok he
  refine ⟨canonicalAnnotations_ok _, List.mem_map.mp hends.1, List.mem_map.mp hends.2,
    canonicalConstraints_increasing h.grammatical, fun c hc name hname => ?_⟩
  obtain ⟨c0, hc0, rfl⟩ := mem_canonicalConstraints hc
  rcases (h.constraint_columns c0 hc0).2 name (mem_columns_normalize.mp hname) with hcol | rfl | rfl
  · exact .inr (((canonicalProperties_names hshapes).2 name).mpr hcol)
  · exact .inl rfl
  · exact .inl rfl

/-- The shape of a parsed schema is well formed, if the declarations are. -/
theorem wellFormed_of_compiled (hparsed : Parsed schema) (hs : compileSchemaShape schema = .ok s)
    (h : Declared schema) : WellFormed s := by
  have hu := uniqueInterfaces hs
  obtain ⟨hi, hn, he⟩ := compiled_sorted hs
  have hvalid := validated_of_compiled hs
  refine ⟨hi, hn, he, fun t ht => ?_, fun t ht p hp => ?_, fun n hmem => ?_, fun e hmem => ?_⟩
  · rcases mem_shapeTypes.mp ht with ⟨i, hmem, rfl⟩ | ⟨n, hmem, rfl⟩ | ⟨e, hmem, rfl⟩
    · obtain ⟨d, -, hd⟩ := (mem_compiled_interfaces hs).2 i hmem
      obtain ⟨-, -, -, hinc⟩ := canonicalProperties_eq_ok (compileInterface_eq_ok hd).2
      exact hinc
    · obtain ⟨d, hd, hcompile⟩ := (mem_compiled_nodes hs).2 n hmem
      obtain ⟨direct, hnode⟩ := hparsed.nodes d hd
      obtain ⟨shapes, hint, hshapes, rfl⟩ := compileNode_eq_ok hcompile
      refine sortOn_increasing ?_
      rw [hnode.map_name hu hshapes]
      exact h.nodeProperties d hd
    · obtain ⟨d, -, hd⟩ := (mem_compiled_edges hs).2 e hmem
      obtain ⟨hint, shapes, hshapes, rfl⟩ := compileEdge_eq_ok hd
      obtain ⟨-, -, -, hinc⟩ := canonicalProperties_eq_ok hshapes
      exact hinc
  · rcases mem_shapeTypes.mp ht with ⟨i, hmem, rfl⟩ | ⟨n, hmem, rfl⟩ | ⟨e, hmem, rfl⟩
    · obtain ⟨d, hd, hcompile⟩ := (mem_compiled_interfaces hs).2 i hmem
      exact propertyShapeOk_canonical (t := i.desired) (hparsed.interfaces d hd).properties
        (compileInterface_eq_ok hcompile).2 TypeKind.noConfusion TypeKind.noConfusion
        (h.embeds d hd) hp
    · obtain ⟨d, hd, hcompile⟩ := (mem_compiled_nodes hs).2 n hmem
      obtain ⟨direct, hnode⟩ := hparsed.nodes d hd
      obtain ⟨q, hq, hshape, -⟩ := hnode.exists_decl hu hcompile hp
      exact hnode.propertyShapeOk hu (t := n.desired) rfl hq hshape (hvalid.embeds n hmem p hp)
    · obtain ⟨d, hd, hcompile⟩ := (mem_compiled_edges hs).2 e hmem
      have hedge := hparsed.edges d hd
      have hnone : ∀ q ∈ d.properties, embedShape q.annotations = none :=
        fun q hq => embedShape_eq_none fun a ha => hedge.no_embed hq ha
      obtain ⟨hint, shapes, hshapes, rfl⟩ := compileEdge_eq_ok hcompile
      refine propertyShapeOk_canonical (t := EdgeShape.desired _) hedge.parsed hshapes
        TypeKind.noConfusion (fun _ => hnone) (fun q hq e he => ?_) hp
      rw [hnone q hq] at he
      cases he
  · obtain ⟨d, hd, hcompile⟩ := (mem_compiled_nodes hs).2 n hmem
    obtain ⟨direct, hnode⟩ := hparsed.nodes d hd
    exact hnode.nodeShapeOk hs hmem hcompile (h.nodeProperties d hd)
  · obtain ⟨d, hd, hcompile⟩ := (mem_compiled_edges hs).2 e hmem
    exact (hparsed.edges d hd).edgeShapeOk hs hmem hcompile

end WellFormed

end Omnigraph.Schema
