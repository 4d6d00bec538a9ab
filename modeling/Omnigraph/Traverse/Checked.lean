import Omnigraph.Lib.CsrChecked
import Omnigraph.Lib.Result
import Omnigraph.Traverse.Index

/-!
# The graph index on a machine

The index is built with numbers of 32 bits, from type indices that carry no invariant of their own,
and every access is checked. It is the index of the scanned tables as long as no table has `2 ^ 32`
edges and no node type has `2 ^ 32` ids.
-/

namespace Omnigraph.Traverse

open List Option

/-! ### The program -/

structure RawTypeIndex where
  idToDense : HashMap String ℕ
  denseToId : List String

namespace RawTypeIndex

def new : RawTypeIndex := ⟨∅, []⟩

/-- The dense number of an id. A new number is cut off to 32 bits. -/
def getOrInsert (t : RawTypeIndex) (id : String) : RawTypeIndex × ℕ :=
  match t.idToDense.lookup id with
  | some k => (t, k)
  | none =>
    let k := t.denseToId.length % 2 ^ 32
    (⟨t.idToDense.insert id k, t.denseToId ++ [id]⟩, k)

def toDense (t : RawTypeIndex) (id : String) : Option ℕ := t.idToDense.lookup id

def toId (t : RawTypeIndex) (k : ℕ) : Option String := t.denseToId[k]?

def len (t : RawTypeIndex) : ℕ := t.denseToId.length

end RawTypeIndex

abbrev RawTypeIndices := HashMap String RawTypeIndex

/-- `entry(type).or_insert_with(TypeIndex::new)` -/
def ensureRaw (indices : RawTypeIndices) (type : String) : RawTypeIndices :=
  match indices.lookup type with
  | some _ => indices
  | none => indices.insert type .new

/-- `get_mut(type).unwrap().get_or_insert(id)`; none where it panics. -/
def internChecked (indices : RawTypeIndices) (type id : String) : Option (RawTypeIndices × ℕ) := do
  let t ← indices.lookup type
  let interned := t.getOrInsert id
  return (indices.insert type interned.1, interned.2)

def internEdgeChecked (fromType toType : String) (state : RawTypeIndices × List (ℕ × ℕ))
    (row : String × String) : Option (RawTypeIndices × List (ℕ × ℕ)) := do
  let src ← internChecked state.1 fromType row.1
  let dst ← internChecked src.1 toType row.2
  return (dst.1, state.2 ++ [(src.2, dst.2)])

structure RawScanState where
  typeIndices : RawTypeIndices
  edgePairs : HashMap String (List (ℕ × ℕ))

def scanChecked (tables : String → Option (List (String × String))) (state : RawScanState)
    (entry : Sigma fun _ : String => String × String) : Option RawScanState :=
  match tables entry.1 with
  | none => some state
  | some rows => do
    let indices := ensureRaw (ensureRaw state.typeIndices entry.2.1) entry.2.2
    let scanned ← rows.foldlM (internEdgeChecked entry.2.1 entry.2.2) (indices, [])
    return ⟨scanned.1, state.edgePairs.insert entry.1 scanned.2⟩

/-- The arrays of one edge type, by source and by destination. -/
def addChecked (state : RawScanState) (arrays : HashMap String Csr × HashMap String Csr)
    (entry : Sigma fun _ : String => String × String) :
    Option (HashMap String Csr × HashMap String Csr) :=
  match state.edgePairs.lookup entry.1 with
  | none => some arrays
  | some pairs => do
    let src ← state.typeIndices.lookup entry.2.1
    let dst ← state.typeIndices.lookup entry.2.2
    let csr ← Csr.buildChecked src.len pairs
    let csc ← Csr.buildChecked dst.len (pairs.map Prod.swap)
    return (arrays.1.insert entry.1 csr, arrays.2.insert entry.1 csc)

structure RawGraphIndex where
  typeIndices : RawTypeIndices
  csr : HashMap String Csr
  csc : HashMap String Csr

/-- The index of the edge tables of a snapshot; none where an access is out of bounds, a sum
overflows or a lookup panics. -/
def RawGraphIndex.build (tables : String → Option (List (String × String)))
    (edgeTypes : HashMap String (String × String)) : Option RawGraphIndex := do
  let state ← edgeTypes.entries.foldlM (scanChecked tables) ⟨∅, ∅⟩
  let arrays ← edgeTypes.entries.foldlM (addChecked state) (∅, ∅)
  return ⟨state.typeIndices, arrays.1, arrays.2⟩

/-! ### Type indices without their invariant -/

def TypeIndex.raw (t : TypeIndex) : RawTypeIndex := ⟨t.idToDense, t.denseToId⟩

lemma TypeIndex.nodup_denseToId (t : TypeIndex) : t.denseToId.Nodup := by
  rw [nodup_iff_getElem?_ne_getElem?]
  intro i j hij hj heq
  have hboth := (t.coherent _ i).mpr (heq.trans (List.getElem?_eq_getElem hj))
  rw [(t.coherent _ j).mpr (List.getElem?_eq_getElem hj)] at hboth
  exact hij.ne (Option.some.inj hboth).symm

variable {t : TypeIndex}

lemma TypeIndex.raw_getOrInsert (h : t.len < 2 ^ 32) (id : String) :
    t.raw.getOrInsert id = ((t.getOrInsert id).1.raw, (t.getOrInsert id).2) := by
  have hmod : t.denseToId.length % 2 ^ 32 = t.denseToId.length := Nat.mod_eq_of_lt h
  unfold TypeIndex.getOrInsert
  split
  · next k hk =>
    have hk' : t.raw.idToDense.lookup id = some k := hk
    rw [RawTypeIndex.getOrInsert, hk']
  · next hnone =>
    have hnone' : t.raw.idToDense.lookup id = none := hnone
    rw [RawTypeIndex.getOrInsert, hnone']
    show (RawTypeIndex.mk (t.idToDense.insert id (t.denseToId.length % 2 ^ 32)) _,
      t.denseToId.length % 2 ^ 32) = _
    rw [hmod]
    rfl

lemma TypeIndex.mem_getOrInsert {id id' : String} (h : id' ∈ (t.getOrInsert id).1.denseToId) :
    id' ∈ t.denseToId ∨ id' = id := by
  unfold TypeIndex.getOrInsert at h
  split at h
  · exact .inl h
  · exact (mem_append.mp h).imp_right mem_singleton.mp

/-! ### The scan -/

/-- A type has fewer than `2 ^ 32` ids. -/
def Bounded (occurs : String → String → Prop) : Prop :=
  ∀ type (ids : List String), ids.Nodup → (∀ id ∈ ids, occurs type id) → ids.length < 2 ^ 32

/-- The machine holds the same type indices, and only ids that occur. -/
structure Simulates (occurs : String → String → Prop) (indices : TypeIndices)
    (raw : RawTypeIndices) : Prop where
  lookup : ∀ type, raw.lookup type = (indices.lookup type).map TypeIndex.raw
  within : ∀ type t, indices.lookup type = some t → ∀ id ∈ t.denseToId, occurs type id

variable {rows : List (String × String)} {name : String}

section Scan

variable {occurs : String → String → Prop} {indices : TypeIndices} {raw : RawTypeIndices}
  {type id : String}

variable (h : Simulates occurs indices raw)

include h in
lemma Simulates.insert (ht : ∀ id ∈ t.denseToId, occurs type id) :
    Simulates occurs (indices.insert type t) (raw.insert type t.raw) := by
  refine ⟨fun type' => ?_, fun type' t' ht' => ?_⟩
  · rw [HashMap.lookup_insert_ite, HashMap.lookup_insert_ite, h.lookup]
    split_ifs
    · rfl
    · rfl
  · rw [HashMap.lookup_insert_ite] at ht'
    split_ifs at ht' with htype
    · cases ht'
      exact htype ▸ ht
    · exact h.within type' t' ht'

include h in
lemma Simulates.ensure (type : String) :
    Simulates occurs (ensureType indices type) (ensureRaw raw type) := by
  unfold ensureType ensureRaw
  rw [h.lookup]
  cases indices.lookup type with
  | some t => exact h
  | none => exact h.insert (t := .empty) (by simp [TypeIndex.empty])

include h in
lemma Simulates.intern (hbounded : Bounded occurs) (htype : ∃ t, indices.lookup type = some t)
    (hid : occurs type id) :
    ∃ raw', internChecked raw type id = some (raw', (intern indices type id).2) ∧
      Simulates occurs (intern indices type id).1 raw' := by
  obtain ⟨t, ht⟩ := htype
  have hlen : t.len < 2 ^ 32 := hbounded type _ t.nodup_denseToId (h.within type t ht)
  have hraw : raw.lookup type = some t.raw := by
    rw [h.lookup, ht]
    rfl
  refine ⟨raw.insert type (t.getOrInsert id).1.raw, ?_, ?_⟩
  · simp only [internChecked, hraw, bind_eq_bind, bind_some,
      TypeIndex.raw_getOrInsert hlen, Option.pure_def, Traverse.intern, ht, getD_some]
  · simp only [Traverse.intern, ht, getD_some]
    refine h.insert fun id' hid' => ?_
    rcases TypeIndex.mem_getOrInsert hid' with hold | rfl
    · exact h.within type t ht id' hold
    · exact hid

variable {fromType toType : String}

include h in
lemma Simulates.internEdge (hbounded : Bounded occurs)
    (hfrom : ∃ t, indices.lookup fromType = some t) (hto : ∃ t, indices.lookup toType = some t)
    {row : String × String} (hsrc : occurs fromType row.1) (hdst : occurs toType row.2)
    (pairs : List (ℕ × ℕ)) :
    ∃ raw', internEdgeChecked fromType toType (raw, pairs) row =
        some (raw', (internEdge fromType toType (indices, pairs) row).2) ∧
      Simulates occurs (internEdge fromType toType (indices, pairs) row).1 raw' := by
  obtain ⟨raw1, hraw1, hsim1⟩ := h.intern hbounded hfrom hsrc
  have hto' := (intern_spec indices fromType row.1).1.exists_lookup hto
  obtain ⟨raw2, hraw2, hsim2⟩ := hsim1.intern hbounded hto' hdst
  refine ⟨raw2, ?_, hsim2⟩
  simp only [internEdgeChecked, hraw1, hraw2, bind_eq_bind, bind_some,
    Option.pure_def, Traverse.internEdge]

lemma Simulates.internEdges (hbounded : Bounded occurs)
    (hrows : ∀ row ∈ rows, occurs fromType row.1 ∧ occurs toType row.2) :
    ∀ {indices : TypeIndices} {raw : RawTypeIndices} (pairs : List (ℕ × ℕ)),
      Simulates occurs indices raw → (∃ t, indices.lookup fromType = some t) →
      (∃ t, indices.lookup toType = some t) →
        ∃ raw', rows.foldlM (internEdgeChecked fromType toType) (raw, pairs) =
            some (raw', (rows.foldl (Traverse.internEdge fromType toType) (indices, pairs)).2) ∧
          Simulates occurs (rows.foldl (Traverse.internEdge fromType toType) (indices, pairs)).1
            raw' := by
  induction rows with
  | nil => exact fun pairs h _ _ => ⟨_, rfl, h⟩
  | cons row rows ih =>
    intro indices raw pairs h hfrom hto
    obtain ⟨hsrc, hdst⟩ := hrows row mem_cons_self
    obtain ⟨raw1, hstep, hsim⟩ := h.internEdge hbounded hfrom hto hsrc hdst pairs
    have hgrows := (intern_spec indices fromType row.1).1.trans
      (intern_spec (Traverse.intern indices fromType row.1).1 toType row.2).1
    rw [foldlM_cons, hstep, foldl_cons]
    exact ih (fun row' hrow' => hrows row' (mem_cons_of_mem _ hrow')) _ hsim
      (hgrows.exists_lookup hfrom) (hgrows.exists_lookup hto)

end Scan

/-! ### The tables -/

section Tables

variable {tables : String → Option (List (String × String))}

/-- An id stands at an end of an edge, where that end has the type. -/
def Endpoint (tables : String → Option (List (String × String)))
    (edgeTypes : HashMap String (String × String)) (type id : String) : Prop :=
  ∃ name ends rows row, edgeTypes.lookup name = some ends ∧ tables name = some rows ∧
    row ∈ rows ∧ (ends.1 = type ∧ row.1 = id ∨ ends.2 = type ∧ row.2 = id)

variable {entries : List (Sigma fun _ : String => String × String)}

/-- The scan of the tables on a machine gives the same numbers. -/
lemma scanChecked_simulates {occurs : String → String → Prop} (hbounded : Bounded occurs)
    (hoccurs : ∀ entry ∈ entries, ∀ rows, tables entry.1 = some rows →
      ∀ row ∈ rows, occurs entry.2.1 row.1 ∧ occurs entry.2.2 row.2) :
    ∀ (state : ScanState) (raw : RawScanState), Simulates occurs state.typeIndices raw.typeIndices →
      raw.edgePairs = state.edgePairs →
        ∃ raw', entries.foldlM (scanChecked tables) raw = some raw' ∧
          Simulates occurs (entries.foldl (scanEdgeType tables) state).typeIndices
            raw'.typeIndices ∧
          raw'.edgePairs = (entries.foldl (scanEdgeType tables) state).edgePairs := by
  induction entries with
  | nil => exact fun _ _ h hpairs => ⟨_, rfl, h, hpairs⟩
  | cons entry entries ih =>
    intro state raw h hpairs
    have hrest := ih fun other hother => hoccurs other (mem_cons_of_mem _ hother)
    rw [foldlM_cons, foldl_cons]
    cases htable : tables entry.1 with
    | none =>
      simp only [scanChecked, scanEdgeType, htable, bind_eq_bind, bind_some]
      exact hrest _ _ h hpairs
    | some rows =>
      obtain ⟨hgrows, hto⟩ := ensureType_spec (ensureType state.typeIndices entry.2.1) entry.2.2
      have hfrom := hgrows.exists_lookup (ensureType_spec state.typeIndices entry.2.1).2
      obtain ⟨raw', hfold, hsim⟩ := Simulates.internEdges hbounded
        (hoccurs entry mem_cons_self rows htable) [] ((h.ensure entry.2.1).ensure entry.2.2)
        hfrom hto
      simp only [scanChecked, scanEdgeType, htable, hfold, bind_eq_bind, bind_some,
        Option.pure_def]
      exact hrest _ _ hsim (by rw [hpairs])

/-- Only a table that was scanned has pairs. -/
lemma lookup_edgePairs_of_none (htable : tables name = none) :
    ∀ (state : ScanState), state.edgePairs.lookup name = none →
      (entries.foldl (scanEdgeType tables) state).edgePairs.lookup name = none := by
  induction entries with
  | nil => exact fun _ h => h
  | cons entry entries ih =>
    intro state h
    refine ih _ ?_
    unfold scanEdgeType
    cases hrows : tables entry.1 with
    | none => exact h
    | some rows =>
      have hne : name ≠ entry.1 := by
        rintro rfl
        rw [htable] at hrows
        cases hrows
      exact (AList.lookup_insert_ne hne).trans h

/-- The checked arrays of all edge types are the arrays. -/
lemma addChecked_eq {state : ScanState} {raw : RawScanState}
    (hlookup : ∀ type, raw.typeIndices.lookup type =
      (state.typeIndices.lookup type).map TypeIndex.raw) (hpairs : raw.edgePairs = state.edgePairs)
    (hentries : ∀ entry ∈ entries, ∀ pairs, state.edgePairs.lookup entry.1 = some pairs →
      pairs.length < 2 ^ 32 ∧ ∃ fromIndex toIndex,
        state.typeIndices.lookup entry.2.1 = some fromIndex ∧
        state.typeIndices.lookup entry.2.2 = some toIndex ∧
        ∀ p ∈ pairs, p.1 < fromIndex.len ∧ p.2 < toIndex.len) :
    ∀ arrays : HashMap String Csr × HashMap String Csr,
      entries.foldlM (addChecked raw) arrays =
        some (entries.foldl (addAdjacency state false) arrays.1,
          entries.foldl (addAdjacency state true) arrays.2) := by
  induction entries with
  | nil => exact fun _ => rfl
  | cons entry entries ih =>
    intro arrays
    have hstep : addChecked raw arrays entry =
        some (addAdjacency state false arrays.1 entry, addAdjacency state true arrays.2 entry) := by
      unfold addChecked addAdjacency
      rw [hpairs]
      cases hentry : state.edgePairs.lookup entry.1 with
      | none => rfl
      | some pairs =>
        obtain ⟨hlength, fromIndex, toIndex, hfrom, hto, hends⟩ :=
          hentries entry mem_cons_self pairs hentry
        have hcsr : Csr.buildChecked fromIndex.raw.len pairs =
            some (Csr.build fromIndex.len pairs) :=
          Csr.buildChecked_eq (fun p hp => (hends p hp).1) hlength
        have hcsc : Csr.buildChecked toIndex.raw.len (pairs.map Prod.swap) =
            some (Csr.build toIndex.len (pairs.map Prod.swap)) := by
          refine Csr.buildChecked_eq ?_ (by rwa [length_map])
          simp only [List.mem_map, forall_exists_index, and_imp, forall_apply_eq_imp_iff₂,
            Prod.fst_swap]
          exact fun p hp => (hends p hp).2
        simp only [hlookup, hfrom, hto, map_some, bind_eq_bind, bind_some,
          hcsr, hcsc, Option.pure_def, indexLen, getD_some, Bool.false_eq_true, if_false,
          if_true]
    rw [foldlM_cons, hstep]
    exact ih (fun other hother => hentries other (mem_cons_of_mem _ hother)) _

end Tables

/-! ### What the index holds -/

/-- Every node of the type has the other ends of its edges as neighbours, in the order of the
rows. -/
def Adjacent (csr : Csr) (nodes others : RawTypeIndex) (rows : List (String × String)) : Prop :=
  ∀ u < nodes.len, ∃ id neighbors, nodes.toId u = some id ∧
    csr.neighborsChecked u = some neighbors ∧
    neighbors.map others.toId = ((rows.filter fun row => row.1 = id).map fun row => some row.2) ∧
    csr.hasNeighborsChecked u = some (decide (neighbors ≠ []))

variable {nodes others : TypeIndex} {pairs : List (ℕ × ℕ)}

/-- The numbers of the edges of a node are those of its rows. -/
lemma map_toId_group {u : ℕ} {id : String} (hu : nodes.Names u id)
    (h : List.Forall₂ (fun p row => nodes.Names p.1 row.1 ∧ others.Names p.2 row.2) pairs rows) :
    (Csr.group pairs u).map others.raw.toId =
      ((rows.filter fun row => row.1 = id).map fun row => some row.2) := by
  unfold Csr.group
  induction h with
  | nil => rfl
  | @cons p row pairs rows hp _ ih =>
    have hsame : p.1 = u ↔ row.1 = id := by
      constructor
      · intro hpu
        exact nodes.biUnique_names.2 (hpu ▸ hp.1) hu
      · intro hrow
        exact nodes.biUnique_names.1 (hrow ▸ hp.1) hu
    by_cases hpu : p.1 = u
    · rw [filter_cons_of_pos (by simpa using hpu),
        filter_cons_of_pos (by simpa using hsame.mp hpu), map_cons, map_cons,
        map_cons, ih]
      exact congrArg (· :: _) hp.2
    · rw [filter_cons_of_neg (by simpa using hpu),
        filter_cons_of_neg (by simpa using mt hsame.mpr hpu), ih]

lemma adjacent_build
    (h : List.Forall₂ (fun p row => nodes.Names p.1 row.1 ∧ others.Names p.2 row.2) pairs rows) :
    Adjacent (Csr.build nodes.len pairs) nodes.raw others.raw rows := by
  have hlt : ∀ p ∈ pairs, p.1 < nodes.len := by
    intro p hp
    obtain ⟨row, -, hnames⟩ := h.exists_right hp
    exact hnames.1.lt_len
  intro u hu
  have hid : nodes.Names u nodes.denseToId[u] := List.getElem?_eq_getElem hu
  exact ⟨_, _, hid, Csr.neighborsChecked_eq hlt hu, map_toId_group hid h,
    Csr.hasNeighborsChecked_eq hlt hu⟩

section Build

variable {tables : String → Option (List (String × String))}
  {edgeTypes : HashMap String (String × String)}

/-- What the second pass relies on: the pairs of a table number ids that are in the index. -/
lemma pairs_in_bounds
    (hedges : ∀ name ends rows, edgeTypes.lookup name = some ends → tables name = some rows →
      rows.length < 2 ^ 32) {entry : Sigma fun _ : String => String × String}
    (hentry : entry ∈ edgeTypes.entries)
    (hpairs : (edgeTypes.entries.foldl (scanEdgeType tables) ⟨∅, ∅⟩).edgePairs.lookup entry.1 =
      some pairs) :
    pairs.length < 2 ^ 32 ∧ ∃ fromIndex toIndex,
      (edgeTypes.entries.foldl (scanEdgeType tables) ⟨∅, ∅⟩).typeIndices.lookup entry.2.1 =
        some fromIndex ∧
      (edgeTypes.entries.foldl (scanEdgeType tables) ⟨∅, ∅⟩).typeIndices.lookup entry.2.2 =
        some toIndex ∧
      ∀ p ∈ pairs, p.1 < fromIndex.len ∧ p.2 < toIndex.len := by
  cases hrows : tables entry.1 with
  | none =>
    rw [lookup_edgePairs_of_none hrows ⟨∅, ∅⟩ rfl] at hpairs
    cases hpairs
  | some rows =>
    obtain ⟨pairs', hscanned⟩ := foldl_scanned ⟨∅, ∅⟩ edgeTypes.nodupKeys hentry hrows
    rw [hscanned.lookup] at hpairs
    cases hpairs
    obtain ⟨fromIndex, hfrom⟩ := hscanned.fromType
    obtain ⟨toIndex, hto⟩ := hscanned.toType
    refine ⟨?_, fromIndex, toIndex, hfrom, hto, fun p hp => ?_⟩
    · rw [hscanned.numbers.length_eq]
      exact hedges _ _ _ (HashMap.lookup_eq_some_iff_mem.mpr hentry) hrows
    · obtain ⟨row, -, ⟨t, ht, hsrc⟩, t', ht', hdst⟩ := hscanned.numbers.exists_right hp
      rw [hfrom] at ht
      rw [hto] at ht'
      cases ht
      cases ht'
      exact ⟨hsrc.lt_len, hdst.lt_len⟩

/-- The machine builds the index. -/
lemma build_simulates
    (hedges : ∀ name ends rows, edgeTypes.lookup name = some ends → tables name = some rows →
      rows.length < 2 ^ 32)
    (hids : Bounded (Endpoint tables edgeTypes)) :
    ∃ index, RawGraphIndex.build tables edgeTypes = some index ∧
      Simulates (Endpoint tables edgeTypes) (GraphIndex.build tables edgeTypes).typeIndices
        index.typeIndices ∧
      index.csr = (GraphIndex.build tables edgeTypes).csr ∧
      index.csc = (GraphIndex.build tables edgeTypes).csc := by
  have hoccurs : ∀ entry ∈ edgeTypes.entries, ∀ rows, tables entry.1 = some rows →
      ∀ row ∈ rows, Endpoint tables edgeTypes entry.2.1 row.1 ∧
        Endpoint tables edgeTypes entry.2.2 row.2 := by
    intro entry hentry rows hrows row hrow
    have hlookup := HashMap.lookup_eq_some_iff_mem.mpr hentry
    exact ⟨⟨_, _, rows, row, hlookup, hrows, hrow, .inl ⟨rfl, rfl⟩⟩,
      ⟨_, _, rows, row, hlookup, hrows, hrow, .inr ⟨rfl, rfl⟩⟩⟩
  obtain ⟨raw, hscan, hsim, hpairs⟩ := scanChecked_simulates hids hoccurs ⟨∅, ∅⟩ ⟨∅, ∅⟩
    ⟨fun _ => rfl, fun _ _ h => by cases h⟩ rfl
  have harrays := addChecked_eq hsim.lookup hpairs
    (fun entry hentry _ hlookup => pairs_in_bounds hedges hentry hlookup) (∅, ∅)
  refine ⟨⟨raw.typeIndices, _, _⟩, ?_, hsim, rfl, rfl⟩
  rw [RawGraphIndex.build, hscan, bind_eq_bind, bind_some, harrays]
  rfl

/-- An id at an end of an edge has a number. -/
lemma endpoint_interned {type id : String} (h : Endpoint tables edgeTypes type id) :
    ∃ t k, (GraphIndex.build tables edgeTypes).typeIndices.lookup type = some t ∧
      t.Names k id := by
  obtain ⟨name, ends, rows, row, hends, hrows, hrow, hend⟩ := h
  obtain ⟨fromIndex, toIndex, pairs, hindex⟩ := GraphIndex.build_indexes hends hrows
  obtain ⟨p, -, hsrc, hdst⟩ := hindex.numbers.exists_left hrow
  rcases hend with ⟨rfl, rfl⟩ | ⟨rfl, rfl⟩
  · exact ⟨fromIndex, p.1, hindex.fromType, hsrc⟩
  · exact ⟨toIndex, p.2, hindex.toType, hdst⟩

/-- The adjacency index is the edge relation. With fewer than `2 ^ 32` edges for each edge type and
ids for each node type it is built without a panic, whatever order the edge types have; its type
indices number exactly the ids at the ends of edges, and every node has the other ends of its edges
as neighbours. -/
theorem graphIndex_exact
    (hedges : ∀ name ends rows, edgeTypes.lookup name = some ends → tables name = some rows →
      rows.length < 2 ^ 32)
    (hids : Bounded (Endpoint tables edgeTypes)) :
    ∃ index, RawGraphIndex.build tables edgeTypes = some index ∧
      (∀ type t, index.typeIndices.lookup type = some t →
        (∀ id k, t.toDense id = some k ↔ t.toId k = some id) ∧
          ∀ id, (∃ k, t.toDense id = some k) ↔ Endpoint tables edgeTypes type id) ∧
        ∀ name ends rows, edgeTypes.lookup name = some ends → tables name = some rows →
          ∃ fromIndex toIndex csr csc, index.typeIndices.lookup ends.1 = some fromIndex ∧
            index.typeIndices.lookup ends.2 = some toIndex ∧ index.csr.lookup name = some csr ∧
            index.csc.lookup name = some csc ∧ Adjacent csr fromIndex toIndex rows ∧
            Adjacent csc toIndex fromIndex (rows.map Prod.swap) := by
  obtain ⟨index, hbuild, hsim, hcsr, hcsc⟩ := build_simulates hedges hids
  refine ⟨index, hbuild, fun type raw hraw => ?_, fun name ends rows hends hrows => ?_⟩
  · rw [hsim.lookup, map_eq_some_iff] at hraw
    obtain ⟨t, ht, rfl⟩ := hraw
    refine ⟨t.coherent, fun id => ⟨?_, fun h => ?_⟩⟩
    · rintro ⟨k, hk⟩
      exact hsim.within type t ht id (mem_of_getElem? ((t.coherent id k).mp hk))
    · obtain ⟨t', k, ht', hk⟩ := endpoint_interned h
      rw [ht] at ht'
      cases ht'
      exact ⟨k, (t.coherent id k).mpr hk⟩
  · obtain ⟨fromIndex, toIndex, pairs, hindex⟩ := GraphIndex.build_indexes hends hrows
    refine ⟨fromIndex.raw, toIndex.raw, _, _, ?_, ?_, hcsr ▸ hindex.csr, hcsc ▸ hindex.csc,
      adjacent_build hindex.numbers, adjacent_build ?_⟩
    · rw [hsim.lookup, hindex.fromType]
      rfl
    · rw [hsim.lookup, hindex.toType]
      rfl
    · rw [List.forall₂_map_left_iff, List.forall₂_map_right_iff]
      exact hindex.numbers.imp fun _ _ h => ⟨h.2, h.1⟩

/-- Two edge tables of one row each. -/
def annTables (name : String) : Option (List (String × String)) :=
  if name = "knows" then some [("ann", "bob")]
  else if name = "worksAt" then some [("ann", "acme")] else none

lemma eq_of_annTables (h : annTables name = some rows) :
    rows = [("ann", "bob")] ∨ rows = [("ann", "acme")] := by
  unfold annTables at h
  split_ifs at h
  · exact .inl (Option.some.inj h).symm
  · exact .inr (Option.some.inj h).symm

def annTypes : HashMap String (String × String) :=
  HashMap.insertAll Prod.fst Prod.snd ∅
    [("knows", "Person", "Person"), ("worksAt", "Person", "Company")]

/-- Two edge types that share a node type. -/
theorem graphIndex_exact_two : ∃ index knows worksAt,
    RawGraphIndex.build annTables annTypes = some index ∧
      index.csr.lookup "knows" = some knows ∧ index.csr.lookup "worksAt" = some worksAt := by
  have hids : Bounded (Endpoint annTables annTypes) := by
    intro type ids hnodup hids
    have hsub : ids ⊆ ["ann", "bob", "acme"] := by
      intro id hid
      obtain ⟨name, ends, rows, row, -, hrows, hrow, hend⟩ := hids id hid
      rcases eq_of_annTables hrows with rfl | rfl <;> cases mem_singleton.mp hrow <;>
        rcases hend with ⟨-, rfl⟩ | ⟨-, rfl⟩ <;> simp
    exact lt_of_le_of_lt (hnodup.subperm hsub).length_le (by decide)
  obtain ⟨index, hbuild, -, htables⟩ := graphIndex_exact
    (fun name ends rows _ hrows => by rcases eq_of_annTables hrows with rfl | rfl <;> decide) hids
  obtain ⟨_, _, knows, _, -, -, hknows, -⟩ := htables "knows" ("Person", "Person") _ rfl rfl
  obtain ⟨_, _, works, _, -, -, hworks, -⟩ := htables "worksAt" ("Person", "Company") _ rfl rfl
  exact ⟨index, knows, works, hbuild, hknows, hworks⟩

end Build

end Omnigraph.Traverse
