import Omnigraph.Lib.Csr
import Omnigraph.Lib.HashMap

/-!
# The graph index

Ids are interned into dense numbers, one space for each node type, and the edges of each edge type
are kept as adjacency arrays over these numbers, one by source and one by destination.
-/

namespace Omnigraph.Traverse

open List

/-! ### Interning -/

/-- Ids and their dense numbers. -/
structure TypeIndex where
  idToDense : HashMap String ℕ
  denseToId : List String
  coherent : ∀ id k, idToDense.lookup id = some k ↔ denseToId[k]? = some id

namespace TypeIndex

def empty : TypeIndex := ⟨∅, [], by simp⟩

def toDense (t : TypeIndex) (id : String) : Option ℕ := t.idToDense.lookup id

def toId (t : TypeIndex) (k : ℕ) : Option String := t.denseToId[k]?

def len (t : TypeIndex) : ℕ := t.denseToId.length

lemma coherent_push {t : TypeIndex} {id : String} (h : t.idToDense.lookup id = none) (id' : String)
    (k : ℕ) : (t.idToDense.insert id t.denseToId.length).lookup id' = some k ↔
      (t.denseToId ++ [id])[k]? = some id' := by
  rw [HashMap.lookup_insert_ite]
  have hnew : ∀ k : ℕ, t.denseToId[k]? ≠ some id := by
    intro k hk
    rw [(t.coherent id k).mpr hk] at h
    cases h
  rcases Nat.lt_trichotomy k t.denseToId.length with hk | rfl | hk
  · rw [List.getElem?_append_left hk]
    split
    · next hid =>
      subst hid
      exact ⟨fun heq => by cases heq; omega, fun heq => absurd heq (hnew k)⟩
    · exact t.coherent id' k
  · rw [List.getElem?_concat_length]
    split
    · next hid => simp [hid]
    · next hid =>
      refine ⟨fun heq => ?_, fun heq => absurd (Option.some.inj heq).symm hid⟩
      have hout := (t.coherent id' _).mp heq
      simp at hout
  · rw [List.getElem?_eq_none (by simp; omega)]
    split
    · next hid => exact ⟨fun heq => by cases heq; omega, fun heq => by cases heq⟩
    · refine ⟨fun heq => ?_, fun heq => by cases heq⟩
      rw [t.coherent, List.getElem?_eq_none (by omega)] at heq
      cases heq

/-- The dense number of an id, which is new if the id is. -/
def getOrInsert (t : TypeIndex) (id : String) : TypeIndex × ℕ :=
  match h : t.idToDense.lookup id with
  | some k => (t, k)
  | none =>
    (⟨t.idToDense.insert id t.denseToId.length, t.denseToId ++ [id], coherent_push h⟩,
      t.denseToId.length)

/-- `k` is the number of `id`. -/
def Names (t : TypeIndex) (k : ℕ) (id : String) : Prop := t.toId k = some id

variable {t t' t'' : TypeIndex} {id id' : String} {k : ℕ}

lemma toDense_eq_some_iff : t.toDense id = some k ↔ t.Names k id := t.coherent id k

lemma Names.lt_len (h : t.Names k id) : k < t.len := (List.getElem?_eq_some_iff.mp h).1

lemma biUnique_names (t : TypeIndex) : Relator.BiUnique t.Names := by
  refine ⟨fun a b c ha hc => ?_, fun a b c hb hc => ?_⟩
  · have hboth := (toDense_eq_some_iff.mpr ha).symm.trans (toDense_eq_some_iff.mpr hc)
    exact Option.some.inj hboth
  · exact Option.some.inj (hb.symm.trans hc)

/-- Numbers keep their ids. -/
def Extends (t t' : TypeIndex) : Prop := ∀ k id, t.Names k id → t'.Names k id

lemma Extends.refl (t : TypeIndex) : t.Extends t := fun _ _ h => h

lemma Extends.trans (h : t.Extends t') (h' : t'.Extends t'') : t.Extends t'' :=
  fun k id hk => h' k id (h k id hk)

lemma getOrInsert_spec (t : TypeIndex) (id : String) :
    t.Extends (t.getOrInsert id).1 ∧ (t.getOrInsert id).1.Names (t.getOrInsert id).2 id := by
  unfold getOrInsert
  split
  · next k hk => exact ⟨.refl t, (t.coherent id k).mp hk⟩
  · next hnone =>
    refine ⟨fun k id' hk => ?_, ?_⟩
    · show (t.denseToId ++ [id])[k]? = some id'
      rw [List.getElem?_append_left hk.lt_len]
      exact hk
    · show (t.denseToId ++ [id])[t.denseToId.length]? = some id
      exact List.getElem?_concat_length

end TypeIndex

/-! ### Building the index -/

structure GraphIndex where
  typeIndices : HashMap String TypeIndex
  csr : HashMap String Csr
  csc : HashMap String Csr

abbrev TypeIndices := HashMap String TypeIndex

/-- Interns an id of a type. -/
def intern (indices : TypeIndices) (type id : String) : TypeIndices × ℕ :=
  let interned := ((indices.lookup type).getD .empty).getOrInsert id
  (indices.insert type interned.1, interned.2)

def internEdge (fromType toType : String) (state : TypeIndices × List (ℕ × ℕ))
    (row : String × String) : TypeIndices × List (ℕ × ℕ) :=
  let src := intern state.1 fromType row.1
  let dst := intern src.1 toType row.2
  (dst.1, state.2 ++ [(src.2, dst.2)])

/-- `entry(type).or_insert_with(TypeIndex::new)` -/
def ensureType (indices : TypeIndices) (type : String) : TypeIndices :=
  match indices.lookup type with
  | some _ => indices
  | none => indices.insert type .empty

structure ScanState where
  typeIndices : TypeIndices
  edgePairs : HashMap String (List (ℕ × ℕ))

/-- Interns the endpoints of one edge table; an edge type without a table is skipped. -/
def scanEdgeType (tables : String → Option (List (String × String))) (state : ScanState)
    (entry : Sigma fun _ : String => String × String) : ScanState :=
  match tables entry.1 with
  | none => state
  | some rows =>
    let indices := ensureType (ensureType state.typeIndices entry.2.1) entry.2.2
    let scanned := rows.foldl (internEdge entry.2.1 entry.2.2) (indices, [])
    ⟨scanned.1, state.edgePairs.insert entry.1 scanned.2⟩

def indexLen (indices : TypeIndices) (type : String) : ℕ :=
  ((indices.lookup type).getD .empty).len

/-- Adds the adjacency arrays of one edge type, by the number of nodes of its end. -/
def addAdjacency (state : ScanState) (reversed : Bool) (arrays : HashMap String Csr)
    (entry : Sigma fun _ : String => String × String) : HashMap String Csr :=
  match state.edgePairs.lookup entry.1 with
  | none => arrays
  | some pairs =>
    if reversed then
      arrays.insert entry.1
        (Csr.build (indexLen state.typeIndices entry.2.2) (pairs.map Prod.swap))
    else arrays.insert entry.1 (Csr.build (indexLen state.typeIndices entry.2.1) pairs)

/-- The index of the edge tables of a snapshot, by the rows of each table as they are scanned. -/
def GraphIndex.build (tables : String → Option (List (String × String)))
    (edgeTypes : HashMap String (String × String)) : GraphIndex :=
  let state := edgeTypes.entries.foldl (scanEdgeType tables) ⟨∅, ∅⟩
  { typeIndices := state.typeIndices
    csr := edgeTypes.entries.foldl (addAdjacency state false) ∅
    csc := edgeTypes.entries.foldl (addAdjacency state true) ∅ }

/-! ### What the index holds -/

section Build

variable {indices indices' indices'' : TypeIndices} {type : String}

/-- `k` is the number of `id` among the ids of a type. -/
def Interned (indices : TypeIndices) (type : String) (k : ℕ) (id : String) : Prop :=
  ∃ t, indices.lookup type = some t ∧ t.Names k id

/-- Types stay, and their numbers keep their ids. -/
def Grows (indices indices' : TypeIndices) : Prop :=
  ∀ type t, indices.lookup type = some t → ∃ t', indices'.lookup type = some t' ∧ t.Extends t'

lemma Grows.refl (indices : TypeIndices) : Grows indices indices :=
  fun _ t h => ⟨t, h, .refl t⟩

lemma Grows.trans (h : Grows indices indices') (h' : Grows indices' indices'') :
    Grows indices indices'' := by
  intro type t ht
  obtain ⟨t', ht', hext⟩ := h type t ht
  obtain ⟨t'', ht'', hext'⟩ := h' type t' ht'
  exact ⟨t'', ht'', hext.trans hext'⟩

lemma Interned.mono {k : ℕ} {id : String} (h : Interned indices type k id)
    (hgrows : Grows indices indices') : Interned indices' type k id := by
  obtain ⟨t, ht, hk⟩ := h
  obtain ⟨t', ht', hext⟩ := hgrows type t ht
  exact ⟨t', ht', hext k id hk⟩

lemma intern_spec (indices : TypeIndices) (type id : String) :
    Grows indices (intern indices type id).1 ∧
      Interned (intern indices type id).1 type (intern indices type id).2 id := by
  obtain ⟨hext, hnames⟩ := TypeIndex.getOrInsert_spec ((indices.lookup type).getD .empty) id
  refine ⟨fun type' t ht => ?_, _, AList.lookup_insert _, hnames⟩
  show ∃ t', (indices.insert type _).lookup type' = some t' ∧ _
  rw [HashMap.lookup_insert_ite]
  split
  · next htype =>
    subst htype
    refine ⟨_, rfl, ?_⟩
    rw [ht] at hext ⊢
    exact hext
  · exact ⟨t, ht, .refl t⟩

lemma ensureType_spec (indices : TypeIndices) (type : String) :
    Grows indices (ensureType indices type) ∧
      ∃ t, (ensureType indices type).lookup type = some t := by
  unfold ensureType
  cases hlookup : indices.lookup type with
  | some t => exact ⟨.refl indices, t, hlookup⟩
  | none =>
    refine ⟨fun type' t ht => ?_, _, AList.lookup_insert _⟩
    rw [HashMap.lookup_insert_ite]
    split
    · next htype =>
      subst htype
      rw [hlookup] at ht
      cases ht
    · exact ⟨t, ht, .refl t⟩

/-- The pairs of an edge table number its rows. -/
def Numbers (indices : TypeIndices) (ends : String × String) (pairs : List (ℕ × ℕ))
    (rows : List (String × String)) : Prop :=
  List.Forall₂ (fun p row => Interned indices ends.1 p.1 row.1 ∧ Interned indices ends.2 p.2 row.2)
    pairs rows

variable {ends : String × String} {pairs : List (ℕ × ℕ)}

lemma Numbers.mono {rows : List (String × String)} (h : Numbers indices ends pairs rows)
    (hgrows : Grows indices indices') : Numbers indices' ends pairs rows :=
  h.imp fun _ _ hp => ⟨hp.1.mono hgrows, hp.2.mono hgrows⟩

lemma internEdges_spec (fromType toType : String) (done rows : List (String × String))
    (state : TypeIndices × List (ℕ × ℕ))
    (h : Numbers state.1 (fromType, toType) state.2 done) :
    Grows state.1 (rows.foldl (internEdge fromType toType) state).1 ∧
      Numbers (rows.foldl (internEdge fromType toType) state).1 (fromType, toType)
        (rows.foldl (internEdge fromType toType) state).2 (done ++ rows) := by
  induction rows generalizing state done with
  | nil => exact ⟨.refl _, by rwa [append_nil]⟩
  | cons row rows ih =>
    obtain ⟨hgrows, hsrc⟩ := intern_spec state.1 fromType row.1
    obtain ⟨hgrows', hdst⟩ := intern_spec (intern state.1 fromType row.1).1 toType row.2
    have hnext : Numbers (internEdge fromType toType state row).1 (fromType, toType)
        (internEdge fromType toType state row).2 (done ++ [row]) :=
      rel_append (h.mono (hgrows.trans hgrows')) (.cons ⟨hsrc.mono hgrows', hdst⟩ .nil)
    obtain ⟨hrest, hnumbers⟩ := ih (done ++ [row]) _ hnext
    refine ⟨(hgrows.trans hgrows').trans hrest, ?_⟩
    rw [append_cons]
    exact hnumbers

lemma Grows.exists_lookup (h : Grows indices indices') (ht : ∃ t, indices.lookup type = some t) :
    ∃ t, indices'.lookup type = some t := by
  obtain ⟨t, ht⟩ := ht
  obtain ⟨t', ht', -⟩ := h type t ht
  exact ⟨t', ht'⟩

variable {tables : String → Option (List (String × String))}
  {entry : Sigma fun _ : String => String × String} {rows : List (String × String)}

/-- The table of an edge type has been scanned. -/
structure ScanState.Scanned (state : ScanState) (name : String) (ends : String × String)
    (rows : List (String × String)) (pairs : List (ℕ × ℕ)) : Prop where
  lookup : state.edgePairs.lookup name = some pairs
  numbers : Numbers state.typeIndices ends pairs rows
  fromType : ∃ t, state.typeIndices.lookup ends.1 = some t
  toType : ∃ t, state.typeIndices.lookup ends.2 = some t

lemma scanEdgeType_scanned (state : ScanState) (hrows : tables entry.1 = some rows) :
    ∃ pairs, (scanEdgeType tables state entry).Scanned entry.1 entry.2 rows pairs := by
  obtain ⟨hgrows, hfrom⟩ := ensureType_spec state.typeIndices entry.2.1
  obtain ⟨hgrows', hto⟩ := ensureType_spec (ensureType state.typeIndices entry.2.1) entry.2.2
  obtain ⟨hscan, hnumbers⟩ := internEdges_spec entry.2.1 entry.2.2 [] rows
    (ensureType (ensureType state.typeIndices entry.2.1) entry.2.2, []) List.Forall₂.nil
  unfold scanEdgeType
  rw [hrows]
  exact ⟨_, AList.lookup_insert _, hnumbers, (hgrows'.trans hscan).exists_lookup hfrom,
    hscan.exists_lookup hto⟩

lemma scanEdgeType_grows (tables : String → Option (List (String × String))) (state : ScanState)
    (entry : Sigma fun _ : String => String × String) :
    Grows state.typeIndices (scanEdgeType tables state entry).typeIndices := by
  unfold scanEdgeType
  cases tables entry.1 with
  | none => exact .refl _
  | some rows =>
    obtain ⟨hgrows, -⟩ := ensureType_spec state.typeIndices entry.2.1
    obtain ⟨hgrows', -⟩ := ensureType_spec (ensureType state.typeIndices entry.2.1) entry.2.2
    obtain ⟨hscan, -⟩ := internEdges_spec entry.2.1 entry.2.2 [] rows
      (ensureType (ensureType state.typeIndices entry.2.1) entry.2.2, []) List.Forall₂.nil
    exact (hgrows.trans hgrows').trans hscan

variable {name : String} {state : ScanState}
  {entries : List (Sigma fun _ : String => String × String)}

/-- Scanning another table keeps what was scanned. -/
lemma ScanState.Scanned.scanEdgeType (h : state.Scanned name ends rows pairs)
    (hne : name ≠ entry.1) :
    (scanEdgeType tables state entry).Scanned name ends rows pairs := by
  have hgrows := scanEdgeType_grows tables state entry
  refine ⟨?_, h.numbers.mono hgrows, hgrows.exists_lookup h.fromType,
    hgrows.exists_lookup h.toType⟩
  unfold Traverse.scanEdgeType
  cases tables entry.1 with
  | none => exact h.lookup
  | some rows => exact (AList.lookup_insert_ne hne).trans h.lookup

lemma foldl_scanned (state : ScanState) (hnodup : entries.NodupKeys) (hentry : entry ∈ entries)
    (hrows : tables entry.1 = some rows) :
    ∃ pairs, (entries.foldl (scanEdgeType tables) state).Scanned entry.1 entry.2 rows pairs := by
  have hkeep : ∀ (entries : List (Sigma fun _ : String => String × String)) (state : ScanState)
      (pairs : List (ℕ × ℕ)), entry.1 ∉ entries.keys →
      state.Scanned entry.1 entry.2 rows pairs →
      (entries.foldl (scanEdgeType tables) state).Scanned entry.1 entry.2 rows pairs := by
    intro entries
    induction entries with
    | nil => exact fun _ _ _ h => h
    | cons other entries ih =>
      intro state pairs hnew h
      rw [keys_cons, mem_cons, not_or] at hnew
      exact ih _ pairs hnew.2 (h.scanEdgeType hnew.1)
  induction entries generalizing state with
  | nil => cases hentry
  | cons other entries ih =>
    obtain ⟨hnew, hrest⟩ := nodupKeys_cons.mp hnodup
    rcases mem_cons.mp hentry with rfl | hentry
    · obtain ⟨pairs, hscanned⟩ := scanEdgeType_scanned state hrows
      exact ⟨pairs, hkeep entries _ pairs hnew hscanned⟩
    · exact ih _ hrest hentry

/-- The array of an edge type. -/
def adjacency (state : ScanState) (reversed : Bool) (ends : String × String)
    (pairs : List (ℕ × ℕ)) : Csr :=
  if reversed then Csr.build (indexLen state.typeIndices ends.2) (pairs.map Prod.swap)
  else Csr.build (indexLen state.typeIndices ends.1) pairs

variable {arrays : HashMap String Csr} {reversed : Bool}

lemma lookup_addAdjacency_self (h : state.edgePairs.lookup entry.1 = some pairs) :
    (addAdjacency state reversed arrays entry).lookup entry.1 =
      some (adjacency state reversed entry.2 pairs) := by
  unfold addAdjacency adjacency
  rw [h]
  cases reversed with
  | false => exact AList.lookup_insert _
  | true => exact AList.lookup_insert _

lemma lookup_addAdjacency_ne (hne : name ≠ entry.1) :
    (addAdjacency state reversed arrays entry).lookup name = arrays.lookup name := by
  unfold addAdjacency
  cases state.edgePairs.lookup entry.1 with
  | none => rfl
  | some pairs =>
    cases reversed with
    | false => exact AList.lookup_insert_ne hne
    | true => exact AList.lookup_insert_ne hne

lemma lookup_foldl_addAdjacency (hnodup : entries.NodupKeys) (hentry : entry ∈ entries)
    (hpairs : state.edgePairs.lookup entry.1 = some pairs) :
    (entries.foldl (addAdjacency state reversed) arrays).lookup entry.1 =
      some (adjacency state reversed entry.2 pairs) := by
  have hkeep : ∀ (entries : List (Sigma fun _ : String => String × String))
      (arrays : HashMap String Csr), entry.1 ∉ entries.keys →
      (entries.foldl (addAdjacency state reversed) arrays).lookup entry.1 =
        arrays.lookup entry.1 := by
    intro entries
    induction entries with
    | nil => exact fun _ _ => rfl
    | cons other entries ih =>
      intro arrays hnew
      rw [keys_cons, mem_cons, not_or] at hnew
      rw [foldl_cons, ih _ hnew.2, lookup_addAdjacency_ne hnew.1]
  induction entries generalizing arrays with
  | nil => cases hentry
  | cons other entries ih =>
    obtain ⟨hnew, hrest⟩ := nodupKeys_cons.mp hnodup
    rw [foldl_cons]
    rcases mem_cons.mp hentry with rfl | hentry
    · rw [hkeep entries _ hnew, lookup_addAdjacency_self hpairs]
    · exact ih hrest hentry

/-- The index of an edge type: its ends are interned, and its arrays hold its rows by number. -/
structure GraphIndex.Indexes (index : GraphIndex) (name : String) (fromIndex toIndex : TypeIndex)
    (ends : String × String) (rows : List (String × String)) (pairs : List (ℕ × ℕ)) : Prop where
  fromType : index.typeIndices.lookup ends.1 = some fromIndex
  toType : index.typeIndices.lookup ends.2 = some toIndex
  csr : index.csr.lookup name = some (Csr.build fromIndex.len pairs)
  csc : index.csc.lookup name = some (Csr.build toIndex.len (pairs.map Prod.swap))
  numbers : List.Forall₂ (fun p row => fromIndex.Names p.1 row.1 ∧ toIndex.Names p.2 row.2)
    pairs rows

/-- The index holds every edge table that is there. -/
theorem GraphIndex.build_indexes {edgeTypes : HashMap String (String × String)}
    (hends : edgeTypes.lookup name = some ends) (hrows : tables name = some rows) :
    ∃ fromIndex toIndex pairs,
      (GraphIndex.build tables edgeTypes).Indexes name fromIndex toIndex ends rows pairs := by
  have hentry := HashMap.lookup_eq_some_iff_mem.mp hends
  obtain ⟨pairs, hscanned⟩ := foldl_scanned ⟨∅, ∅⟩ edgeTypes.nodupKeys hentry hrows
  obtain ⟨fromIndex, hfrom⟩ := hscanned.fromType
  obtain ⟨toIndex, hto⟩ := hscanned.toType
  refine ⟨fromIndex, toIndex, pairs, hfrom, hto, ?_, ?_, ?_⟩
  · refine (lookup_foldl_addAdjacency edgeTypes.nodupKeys hentry hscanned.lookup).trans ?_
    simp [adjacency, indexLen, hfrom]
  · refine (lookup_foldl_addAdjacency edgeTypes.nodupKeys hentry hscanned.lookup).trans ?_
    simp [adjacency, indexLen, hto]
  · refine hscanned.numbers.imp ?_
    rintro p row ⟨⟨t, ht, hp⟩, ⟨t', ht', hp'⟩⟩
    rw [hfrom] at ht
    rw [hto] at ht'
    cases ht
    cases ht'
    exact ⟨hp, hp'⟩

end Build

end Omnigraph.Traverse
