import Omnigraph.Traverse.Expand

/-!
# What the engine over adjacency arrays reports

The numbers of the arrays stand for ids, one to one, so the engine reports what the same searches
over ids report, source row by source row.
-/

namespace Omnigraph.Traverse

open List Levels Omnigraph.Compiler

/-! ### Neighbours -/

/-- The opposite ends of the scanned edges with a keyed end. -/
def neighborsOf (scanned : List (String × String)) (id : String) : List String :=
  (scanned.filter fun p => p.1 = id).map Prod.snd

/-- The neighbours of an id in a direction, in the order of the edges. -/
def adjacent (direction : Direction) (edges : List Edge) (id : String) : List String :=
  (endpointProbes direction).flatMap fun probe => neighborsOf (edges.map probe.read) id

lemma mem_neighborsOf {scanned : List (String × String)} {id v : String} :
    v ∈ neighborsOf scanned id ↔ (id, v) ∈ scanned := by
  simp only [neighborsOf, List.mem_map, mem_filter, decide_eq_true_eq]
  constructor
  · rintro ⟨⟨k, w⟩, ⟨hmem, rfl⟩, rfl⟩
    exact hmem
  · exact fun hmem => ⟨(id, v), ⟨hmem, rfl⟩, rfl⟩

section Arrays

variable {srcIndex dstIndex : TypeIndex} {pairs : List (ℕ × ℕ)} {rows : List (String × String)}
  {k : ℕ} {id : String}

variable
  (hnumbers :
  List.Forall₂ (fun p row => srcIndex.Names p.1 row.1 ∧ dstIndex.Names p.2 row.2) pairs rows)

include hnumbers in
/-- The neighbours of a number in an array are the numbers of the neighbours of its id. -/
lemma neighbors_build_names (hk : srcIndex.Names k id) :
    List.Forall₂ dstIndex.Names ((Csr.build srcIndex.len pairs).neighbors k)
      (neighborsOf rows id) := by
  have hedges : ∀ e ∈ pairs, e.1 < srcIndex.len := by
    intro e he
    obtain ⟨row, -, hrow⟩ := hnumbers.exists_right he
    exact hrow.1.lt_len
  rw [Csr.neighbors_build hedges hk.lt_len]
  refine rel_map (fun _ _ hp => hp.2) (rel_filter (fun p row hp => ?_) hnumbers)
  simp only [decide_eq_true_eq]
  exact Relator.rel_eq srcIndex.biUnique_names hp.1 hk

include hnumbers in
/-- An id without a number has no neighbours. -/
lemma neighborsOf_eq_nil (hid : srcIndex.toDense id = none) : neighborsOf rows id = [] := by
  rw [eq_nil_iff_forall_not_mem]
  intro v hv
  obtain ⟨p, -, hp⟩ := hnumbers.exists_left (mem_neighborsOf.mp hv)
  rw [TypeIndex.toDense_eq_some_iff.mpr hp.1] at hid
  cases hid

end Arrays

/-- The arrays a direction walks hold its neighbours. -/
structure Walks (srcIndex dstIndex : TypeIndex) (arrays : List Csr) (direction : Direction)
    (edges : List Edge) : Prop where
  names : ∀ k id, srcIndex.Names k id → List.Forall₂ dstIndex.Names
    (arrays.flatMap fun adj => adj.neighbors k) (adjacent direction edges id)
  absent : ∀ id, srcIndex.toDense id = none → adjacent direction edges id = []

variable {edgeType : String} {edges : List Edge} {ends : String × String}
  {fromIndex toIndex : TypeIndex} {index : GraphIndex} {direction : Direction}

/-- The arrays of a direction walk the edges in that direction. -/
lemma directionArrays_walks {pairs : List (ℕ × ℕ)}
    (h : index.Indexes edgeType fromIndex toIndex ends edges pairs) (direction : Direction)
    (hboth : direction = .both → ends.1 = ends.2) :
    ∃ srcIndex dstIndex arrays,
      typeIndexOf index (directionTypes ends direction).1 = .ok srcIndex ∧
      typeIndexOf index (directionTypes ends direction).2 = .ok dstIndex ∧
      directionArrays index edgeType direction = .ok arrays ∧
      Walks srcIndex dstIndex arrays direction edges := by
  have hout := h.numbers
  have hinto : Forall₂ (fun p row => toIndex.Names p.1 row.1 ∧ fromIndex.Names p.2 row.2)
      (pairs.map Prod.swap) (edges.map Prod.swap) :=
    rel_map (fun _ _ hp => ⟨hp.2, hp.1⟩) h.numbers
  have hread : edges.map (Probe.read ⟨.src, .dst⟩) = edges := List.map_id edges
  have hswap : edges.map (Probe.read ⟨.dst, .src⟩) = edges.map Prod.swap := rfl
  cases direction with
  | out =>
    refine ⟨fromIndex, toIndex, [Csr.build fromIndex.len pairs],
      by simp [typeIndexOf, directionTypes, h.fromType],
      by simp [typeIndexOf, directionTypes, h.toType], ?_, ?_, ?_⟩
    · simp only [directionArrays, adjacencyOf, h.csr]
      rfl
    · intro k id hk
      simpa [adjacent, endpointProbes, hread] using neighbors_build_names hout hk
    · intro id hid
      simp [adjacent, endpointProbes, hread, neighborsOf_eq_nil hout hid]
  | into =>
    refine ⟨toIndex, fromIndex, [Csr.build toIndex.len (pairs.map Prod.swap)],
      by simp [typeIndexOf, directionTypes, h.toType],
      by simp [typeIndexOf, directionTypes, h.fromType], ?_, ?_, ?_⟩
    · simp only [directionArrays, adjacencyOf, h.csc]
      rfl
    · intro k id hk
      simpa [adjacent, endpointProbes, hswap] using neighbors_build_names hinto hk
    · intro id hid
      simp [adjacent, endpointProbes, hswap, neighborsOf_eq_nil hinto hid]
  | both =>
    have hindex : toIndex = fromIndex := by
      have hto := h.toType
      rw [← hboth rfl, h.fromType] at hto
      exact (Option.some.inj hto).symm
    subst hindex
    refine ⟨toIndex, toIndex,
      [Csr.build toIndex.len pairs, Csr.build toIndex.len (pairs.map Prod.swap)],
      by simp [typeIndexOf, directionTypes, h.fromType],
      by simp [typeIndexOf, directionTypes, h.fromType], ?_, ?_, ?_⟩
    · simp only [directionArrays, adjacencyOf, h.csr, h.csc]
      rfl
    · intro k id hk
      simpa [adjacent, endpointProbes, hread, hswap] using
        rel_append (neighbors_build_names hout hk) (neighbors_build_names hinto hk)
    · intro id hid
      simp [adjacent, endpointProbes, hread, hswap, neighborsOf_eq_nil hout hid,
        neighborsOf_eq_nil hinto hid]

/-! ### Searches -/

section Searches

variable {V W : Type} [DecidableEq V] [DecidableEq W] {R R' : V → W → Prop} {same : Bool}
  {minHops : ℕ}

omit [DecidableEq V] [DecidableEq W] in
lemma eq_nil_iff_of_forall₂ {l : List V} {l' : List W} (h : List.Forall₂ R l l') :
    l = [] ↔ l' = [] := by
  cases h with
  | nil => simp
  | cons _ _ => simp

variable {nbrs : V → List V}

/-- A search does not depend on the names. Names of vertices and of neighbours differ only when
there is one level. -/
lemma csrHops_rel {nbrs' : W → List W} (hR : Relator.BiUnique R') (hsame : same = true → R = R')
    (hnbrs : ∀ a a', R a a' → List.Forall₂ R' (nbrs a) (nbrs' a')) (hops : List ℕ)
    (hhops : same = false → hops.length ≤ 1) {row : Levels.Row V} {row' : Levels.Row W}
    (hrow : row.Rel R R' row') :
    List.Forall₂ R' (csrHops same minHops nbrs hops row)
      (csrHops same minHops nbrs' hops row') := by
  induction hops generalizing row row' with
  | nil => exact .nil
  | cons hop hops ih =>
    have hself : same = true → ∀ a a' b b', R a a' → R' b b' → (b = a ↔ b' = a') := by
      intro htrue a a' b b' ha hb
      rw [hsame htrue] at ha
      exact Relator.rel_eq hR hb ha
    have hadvance : (row.advance same (minHops ≤ hop) nbrs).Rel R' (row'.advance same _ nbrs') :=
      hrow.advance hR hself hnbrs
    refine rel_append hadvance.emitted ?_
    rw [if_congr (eq_nil_iff_of_forall₂ hadvance.next) rfl rfl]
    split
    · exact .nil
    · cases same with
      | true =>
        obtain rfl := hsame rfl
        exact ih (fun hc => by cases hc) ⟨hadvance.next, hadvance.visited, hadvance.seenDst⟩
      | false =>
        obtain rfl : hops = [] := eq_nil_of_length_eq_zero (by simpa using hhops rfl)
        exact .nil

/-- The levels of a search report what its levels report one by one. -/
lemma csrHops_eq_flatMap (nbrs : V → List V) (row : Levels.Row V) (h n : ℕ) :
    csrHops same minHops nbrs (List.range' (h + 1) n)
        (rowAt same minHops (fun _ => nbrs) row h) =
      (List.range' h n).flatMap (emittedAt same minHops (fun _ => nbrs) row) := by
  induction n generalizing h with
  | zero => rfl
  | succ n ih =>
    rw [List.range'_succ, List.range'_succ, flatMap_cons, csrHops]
    refine congrArg₂ (· ++ ·) rfl ?_
    split
    · next hnil =>
      refine (flatMap_eq_nil_iff.mpr fun m hm => ?_).symm
      have hfrontier : (rowAt same minHops (fun _ => nbrs) row (h + 1)).frontier = [] := hnil
      exact emittedAt_of_frontier_nil hfrontier (mem_range'_1.mp hm).1
    · exact ih (h + 1)

lemma emittedAt_of_neighbors_nil {s : V} (hnil : nbrs s = []) (h : ℕ) :
    emittedAt same minHops (fun _ => nbrs) (.start same s) h = [] := by
  cases h with
  | zero => simp [emittedAt, rowAt, Levels.Row.advance, Levels.Row.start, hnil]
  | succ h =>
    have hfrontier : (rowAt same minHops (fun _ => nbrs) (.start same s) 1).frontier = [] := by
      simp [rowAt, Levels.Row.advance, Levels.Row.start, Hop.row, hnil]
    exact emittedAt_of_frontier_nil hfrontier (Nat.succ_le_succ (Nat.zero_le h))

end Searches

/-! ### The engine -/

lemma maxLevel_le (minHops : ℕ) (maxHops : Option ℕ) : maxLevel false minHops maxHops ≤ 1 :=
  min_le_right _ 1

/-- The pairs of one source row. -/
lemma csrRow_eq {srcIndex dstIndex : TypeIndex} {arrays : List Csr} {same : Bool}
    (h : Walks srcIndex dstIndex arrays direction edges) (hsame : same = true → srcIndex = dstIndex)
    (minHops : ℕ) (maxHops : Option ℕ) (id : String) (row : ℕ) :
    csrRow srcIndex dstIndex same minHops (maxLevel same minHops maxHops)
        (fun node => arrays.flatMap fun adj => adj.neighbors node) id row =
      ((List.range' 0 (maxLevel same minHops maxHops)).flatMap
        (emittedAt same minHops (fun _ => adjacent direction edges) (.start same id))).map
          fun v => (row, v) := by
  have hnames : ∀ (dense : List ℕ) (ids : List String), List.Forall₂ dstIndex.Names dense ids →
      (dense.filterMap fun d => (dstIndex.toId d).map fun dst => (row, dst)) =
        ids.map fun v => (row, v) := by
    intro dense ids hids
    induction hids with
    | nil => rfl
    | cons hd _ ih => rw [filterMap_cons, hd, Option.map_some, map_cons, ih]
  rw [← csrHops_eq_flatMap]
  unfold csrRow
  cases hid : srcIndex.toDense id with
  | none =>
    have hnil := h.absent id hid
    rw [csrHops_eq_flatMap]
    simp [emittedAt_of_neighbors_nil hnil]
  | some k =>
    have hk := TypeIndex.toDense_eq_some_iff.mp hid
    refine hnames _ _ (csrHops_rel dstIndex.biUnique_names ?_ h.names _ ?_ ?_)
    · exact fun htrue => by rw [hsame htrue]
    · rintro rfl
      rw [length_range']
      exact maxLevel_le minHops maxHops
    · refine ⟨.cons hk .nil, ?_, .nil⟩
      cases same with
      | false => exact .nil
      | true => exact .cons (hsame rfl ▸ hk) .nil

/-- The engine over arrays reports the searches over ids, source row by source row. -/
theorem executeExpandCsr_eq {edgeTypes : HashMap String (String × String)} {pairs : List (ℕ × ℕ)}
    (hends : edgeTypes.lookup edgeType = some ends)
    (hindex : index.Indexes edgeType fromIndex toIndex ends edges pairs)
    (hboth : direction = .both → ends.1 = ends.2) (srcIds : List String) (minHops : ℕ)
    (maxHops : Option ℕ) :
    executeExpandCsr index edgeTypes srcIds edgeType direction minHops maxHops =
      .ok (srcIds.zipIdx.flatMap fun p =>
        ((List.range' 0 (maxLevel (ends.1 = ends.2) minHops maxHops)).flatMap
          (emittedAt (ends.1 = ends.2) minHops (fun _ => adjacent direction edges)
            (.start (ends.1 = ends.2) p.1))).map fun v => (p.2, v)) := by
  obtain ⟨srcIndex, dstIndex, arrays, hsrc, hdst, harrays, hwalks⟩ :=
    directionArrays_walks hindex direction hboth
  have htypes : (directionTypes ends direction).1 = (directionTypes ends direction).2 ↔
      ends.1 = ends.2 := by
    cases direction with
    | out => exact Iff.rfl
    | into => exact eq_comm
    | both => exact iff_of_true rfl (hboth rfl)
  have hsame : decide (ends.1 = ends.2) = true → srcIndex = dstIndex := by
    intro heq
    rw [decide_eq_true_eq, ← htypes] at heq
    rw [heq, hdst] at hsrc
    exact (Except.ok.inj hsrc).symm
  have hedge : edgeEnds edgeTypes edgeType = .ok ends := by simp [edgeEnds, hends]
  unfold executeExpandCsr
  refine Except.bind_ok hedge (Except.bind_ok hsrc (Except.bind_ok hdst
    (Except.bind_ok harrays ?_)))
  simp only [htypes]
  exact congrArg Except.ok (flatMap_congr fun p _ =>
    csrRow_eq hwalks hsame minHops maxHops p.1 p.2)

end Omnigraph.Traverse
