import Omnigraph.Traverse.Arrays

/-!
# What the engine over edge scans reports

The numbers of the interner stand for ids, one to one, and keep their ids as the interner grows. So
the engine reports what the same searches over ids report, level by level.
-/

namespace Omnigraph.Traverse

open List Levels Omnigraph.Compiler

/-! ### Searches over ids -/

section Ids

variable (order : ℕ → Probe → IterOrder Edge) (edges : List Edge) (probes : List Probe)
  (same : Bool) (minHops : ℕ) (srcIds : List String)

/-- The searches of all sources after some levels. -/
def idRows : ℕ → List (Levels.Row String)
  | 0 => srcIds.map (.start same)
  | h + 1 => (idRows h).map fun row => (row.advance same (minHops ≤ h + 1)
      (neighborsOf (scanProbes (order (h + 1)) edges probes (unionFrontier (idRows h))))).row

/-- What a level reads. -/
def idNeighbors : ℕ → String → List String
  | 0 => fun _ => []
  | h + 1 => neighborsOf (scanProbes (order (h + 1)) edges probes
      (unionFrontier (idRows order edges probes same minHops srcIds h)))

lemma idRows_eq_map (h : ℕ) : idRows order edges probes same minHops srcIds h =
    srcIds.map fun id => rowAt same minHops (idNeighbors order edges probes same minHops srcIds)
      (.start same id) h := by
  induction h with
  | zero => rfl
  | succ h ih =>
    have hnext : idRows order edges probes same minHops srcIds (h + 1) =
        (idRows order edges probes same minHops srcIds h).map fun row =>
          (row.advance same (minHops ≤ h + 1)
            (idNeighbors order edges probes same minHops srcIds (h + 1))).row := rfl
    rw [hnext, ih, List.map_map]
    rfl

/-- The pairs that the searches report at a level, row by row. -/
def levelPairs (h : ℕ) : List (ℕ × String) :=
  srcIds.zipIdx.flatMap fun p =>
    (emittedAt same minHops (idNeighbors order edges probes same minHops srcIds)
      (.start same p.1) h).map fun v => (p.2, v)

end Ids

/-! ### Frontiers -/

section Frontiers

variable {V W : Type} [DecidableEq V] [DecidableEq W] {R : V → W → Prop}

variable {v : V}

lemma mem_foldl_insert {l seen : List V} :
    v ∈ l.foldl (fun seen node => if node ∈ seen then seen else seen ++ [node]) seen ↔
      v ∈ seen ∨ v ∈ l := by
  induction l generalizing seen with
  | nil => simp
  | cons node l ih =>
    rw [foldl_cons, ih, mem_cons]
    split
    · next hnode =>
      constructor
      · rintro (h | h)
        · exact .inl h
        · exact .inr (.inr h)
      · rintro (h | rfl | h)
        · exact .inl h
        · exact .inl hnode
        · exact .inr h
    · simp [or_assoc]

lemma mem_unionFrontier {rows : List (Levels.Row V)} :
    v ∈ unionFrontier rows ↔ ∃ row ∈ rows, v ∈ row.frontier := by
  simp [unionFrontier, mem_foldl_insert]

lemma unionFrontier_rel (hR : Relator.BiUnique R) {rows : List (Levels.Row V)}
    {rows' : List (Levels.Row W)}
    (h : List.Forall₂ (Levels.Row.Rel R R) rows rows') :
    List.Forall₂ R (unionFrontier rows) (unionFrontier rows') := by
  refine rel_foldl ?_ .nil (rel_flatMap h fun _ _ hrow => hrow.frontier)
  intro seen seen' hseen node node' hnode
  have hmem : node ∈ seen ↔ node' ∈ seen' := rel_mem hR hnode hseen
  show List.Forall₂ R (if node ∈ seen then seen else seen ++ [node]) _
  rw [if_congr hmem rfl rfl]
  show List.Forall₂ R _ (if node' ∈ seen' then seen' else seen' ++ [node'])
  split
  · exact hseen
  · exact rel_append hseen (.cons hnode .nil)

end Frontiers

/-! ### Reading the edges of a level -/

section Reads

variable {t t' : TypeIndex} {map : HashMap ℕ (List ℕ)} {done : List (String × String)}

/-- The neighbours read so far: the numbers of a key stand for the neighbours of its id. -/
structure Reads (t : TypeIndex) (map : HashMap ℕ (List ℕ)) (done : List (String × String)) :
    Prop where
  keyed : ∀ p ∈ done, ∃ k, t.Names k p.1
  known : ∀ k numbers, map.lookup k = some numbers → ∃ id, t.Names k id
  names : ∀ k id, t.Names k id →
    List.Forall₂ t.Names ((map.lookup k).getD []) (neighborsOf done id)

lemma Reads.extend (h : Reads t map done) (hext : t.Extends t') : Reads t' map done where
  keyed p hp := by
    obtain ⟨k, hk⟩ := h.keyed p hp
    exact ⟨k, hext k _ hk⟩
  known k numbers hk := by
    obtain ⟨id, hid⟩ := h.known k numbers hk
    exact ⟨id, hext k id hid⟩
  names k id hk := by
    by_cases hold : t.Names k id
    · exact (h.names k id hold).imp fun _ _ hv => hext _ _ hv
    · -- a new number has no neighbours yet, and neither has its id
      have hnone : map.lookup k = none := by
        cases hlookup : map.lookup k with
        | none => rfl
        | some numbers =>
          obtain ⟨id', hid'⟩ := h.known k numbers hlookup
          obtain rfl := t'.biUnique_names.2 hk (hext k id' hid')
          exact absurd hid' hold
      have hnil : neighborsOf done id = [] := by
        rw [eq_nil_iff_forall_not_mem]
        intro v hv
        obtain ⟨k', hk'⟩ := h.keyed _ (mem_neighborsOf.mp hv)
        obtain rfl := t'.biUnique_names.1 hk (hext k' id hk')
        exact hold hk'
      rw [hnone, hnil]
      exact .nil

lemma neighborsOf_append_singleton (done : List (String × String)) (p : String × String)
    (id : String) : neighborsOf (done ++ [p]) id =
      if p.1 = id then neighborsOf done id ++ [p.2] else neighborsOf done id := by
  unfold neighborsOf
  split
  · next h => simp [h]
  · next h => simp [h]

lemma Reads.addNeighbor (h : Reads t map done) (p : String × String) :
    t.Extends (addNeighbor (t, map) p).1 ∧
      Reads (addNeighbor (t, map) p).1 (addNeighbor (t, map) p).2 (done ++ [p]) := by
  obtain ⟨hext, hkey⟩ := t.getOrInsert_spec p.1
  obtain ⟨hext', hopposite⟩ := (t.getOrInsert p.1).1.getOrInsert_spec p.2
  have hread := (h.extend hext).extend hext'
  have hkey' := hext' _ _ hkey
  have hlookup : ∀ k, (Traverse.addNeighbor (t, map) p).2.lookup k =
      if k = (t.getOrInsert p.1).2 then some ((map.lookup (t.getOrInsert p.1).2).getD [] ++
        [((t.getOrInsert p.1).1.getOrInsert p.2).2]) else map.lookup k :=
    fun k => HashMap.lookup_insert_ite _ _ _ _
  refine ⟨hext.trans hext', ?_, ?_, ?_⟩
  · intro q hq
    rcases mem_append.mp hq with hq | hq
    · exact hread.keyed q hq
    · obtain rfl := mem_singleton.mp hq
      exact ⟨_, hkey'⟩
  · intro k numbers hk
    rw [hlookup] at hk
    split at hk
    · next heq => exact ⟨p.1, heq ▸ hkey'⟩
    · exact hread.known k numbers hk
  · intro k id hk
    have hsame : k = (t.getOrInsert p.1).2 ↔ p.1 = id := by
      rw [eq_comm (b := id)]
      exact Relator.rel_eq (TypeIndex.biUnique_names _) hk hkey'
    rw [hlookup, neighborsOf_append_singleton, if_congr hsame rfl rfl]
    split
    · next hid =>
      subst hid
      exact rel_append (hread.names _ _ hkey') (.cons hopposite .nil)
    · exact hread.names k id hk

lemma Reads.foldl (scanned : List (String × String)) (h : Reads t map done) :
    t.Extends (scanned.foldl Traverse.addNeighbor (t, map)).1 ∧
      Reads (scanned.foldl Traverse.addNeighbor (t, map)).1
        (scanned.foldl Traverse.addNeighbor (t, map)).2 (done ++ scanned) := by
  induction scanned generalizing t map done with
  | nil => exact ⟨.refl t, by rwa [append_nil]⟩
  | cons p scanned ih =>
    obtain ⟨hext, hread⟩ := h.addNeighbor p
    obtain ⟨hext', hrest⟩ := ih hread
    rw [append_cons]
    exact ⟨hext.trans hext', hrest⟩

lemma reads_empty (t : TypeIndex) : Reads t ∅ [] where
  keyed p hp := by cases hp
  known k numbers hk := by simp at hk
  names k id _ := by simp [neighborsOf]

end Reads

/-! ### Levels -/

section Levels

variable {order : ℕ → Probe → IterOrder Edge} {edges : List Edge} {probes : List Probe}
  {same : Bool} {minHops : ℕ} {srcIds : List String} {t : TypeIndex}

lemma mapM_toId {numbers : List ℕ} {ids : List String} (h : List.Forall₂ t.Names numbers ids) :
    numbers.mapM t.toId = some ids := by
  induction h with
  | nil => rfl
  | cons hk _ ih => rw [mapM_cons, hk, ih]; rfl

lemma mapM_pairs {pairs : List (ℕ × ℕ)} {named : List (ℕ × String)}
    (h : List.Forall₂ (fun p q => p.1 = q.1 ∧ t.Names p.2 q.2) pairs named) :
    (pairs.mapM fun p => (t.toId p.2).map fun dst => (p.1, dst)) = some named := by
  induction h with
  | nil => rfl
  | cons hp _ ih =>
    rw [mapM_cons, hp.2, ih, hp.1]
    rfl

lemma zipIdx_rel {α β : Type} {S : α → β → Prop} {l : List α} {l' : List β}
    (h : List.Forall₂ S l l') (n : ℕ) :
    List.Forall₂ (fun p q => S p.1 q.1 ∧ p.2 = q.2) (l.zipIdx n) (l'.zipIdx n) := by
  induction h generalizing n with
  | nil => exact .nil
  | cons hab _ ih => exact .cons ⟨hab, rfl⟩ (ih (n + 1))

variable {hops : List (Hop ℕ)} {hops' : List (Hop String)} {rows : List (Levels.Row ℕ)}
  {direction : Direction}

lemma reported_rel (h : List.Forall₂ (Hop.Rel t.Names) hops hops') :
    List.Forall₂ (fun p q => p.1 = q.1 ∧ t.Names p.2 q.2) (reported hops) (reported hops') := by
  refine rel_flatMap (zipIdx_rel h 0) fun p q hpq => ?_
  exact rel_map (fun _ _ hv => ⟨hpq.2, hv⟩) hpq.1.emitted

/-- The searches over ids report a level as its pairs. -/
lemma reported_idRows (order : ℕ → Probe → IterOrder Edge) (edges : List Edge)
    (probes : List Probe) (same : Bool) (minHops : ℕ) (srcIds : List String) (h : ℕ) :
    reported ((idRows order edges probes same minHops srcIds h).map fun row =>
        row.advance same (minHops ≤ h + 1)
          (idNeighbors order edges probes same minHops srcIds (h + 1))) =
      levelPairs order edges probes same minHops srcIds h := by
  rw [idRows_eq_map, List.map_map]
  unfold reported levelPairs
  rw [zipIdx_map, flatMap_map]
  rfl

lemma levelPairs_of_frontier_nil {h m : ℕ}
    (hnil : ∀ row ∈ idRows order edges probes same minHops srcIds h, row.frontier = [])
    (hm : h ≤ m) : levelPairs order edges probes same minHops srcIds m = [] := by
  refine flatMap_eq_nil_iff.mpr fun p hp => ?_
  have hfrontier : (rowAt same minHops (idNeighbors order edges probes same minHops srcIds)
      (.start same p.1) h).frontier = [] := by
    apply hnil
    rw [idRows_eq_map]
    exact List.mem_map_of_mem (fst_mem_of_mem_zipIdx hp)
  rw [emittedAt_of_frontier_nil hfrontier hm, map_nil]

/-- All searches advance over what a level has read as they advance over ids. -/
lemma advance_rel (same : Bool) {t' : TypeIndex} {map : HashMap ℕ (List ℕ)}
    {scanned : List (String × String)} {rows' : List (Levels.Row String)} (hext : t.Extends t')
    (hread : Reads t' map scanned)
    (hrows : List.Forall₂ (Levels.Row.Rel t.Names t.Names) rows rows') (emit : Bool) :
    List.Forall₂ (Hop.Rel t'.Names)
      (rows.map fun row => row.advance same emit fun node => (map.lookup node).getD [])
      (rows'.map fun row => row.advance same emit (neighborsOf scanned)) := by
  refine rel_map (fun row row' hrow => ?_) hrows
  have hrow' : Levels.Row.Rel t'.Names t'.Names row row' :=
    ⟨hrow.frontier.imp fun _ _ hk => hext _ _ hk, hrow.visited.imp fun _ _ hk => hext _ _ hk,
      hrow.seenDst.imp fun _ _ hk => hext _ _ hk⟩
  refine hrow'.advance t'.biUnique_names ?_ hread.names
  exact fun _ a a' b b' ha hb => Relator.rel_eq t'.biUnique_names hb ha

lemma row_rel (h : List.Forall₂ (Hop.Rel t.Names) hops hops') :
    List.Forall₂ (Levels.Row.Rel t.Names t.Names) (hops.map Hop.row) (hops'.map Hop.row) :=
  rel_map (fun _ _ hop => ⟨hop.next, hop.visited, hop.seenDst⟩) h

/-- The levels of the engine report the levels of the searches over ids. -/
lemma indexedHops_eq (order : ℕ → Probe → IterOrder Edge) (edges : List Edge) (probes : List Probe)
    (minHops : ℕ) (n h : ℕ)
    (hrows : List.Forall₂ (Levels.Row.Rel t.Names t.Names) rows
      (idRows order edges probes same minHops srcIds h)) :
    ∃ pairs t', indexedHops order edges probes same minHops (List.range' (h + 1) n) t rows =
        some (pairs, t') ∧
      List.Forall₂ (fun p q => p.1 = q.1 ∧ t'.Names p.2 q.2) pairs
        ((List.range' h n).flatMap (levelPairs order edges probes same minHops srcIds)) ∧
      t.Extends t' := by
  induction n generalizing h t rows with
  | zero => exact ⟨[], t, rfl, .nil, .refl t⟩
  | succ n ih =>
    have hunion := unionFrontier_rel t.biUnique_names hrows
    rw [List.range'_succ, List.range'_succ, flatMap_cons, indexedHops]
    by_cases hnil : unionFrontier rows = []
    · rw [if_pos hnil]
      have hidle : ∀ row ∈ idRows order edges probes same minHops srcIds h, row.frontier = [] := by
        intro row hrow
        rw [eq_nil_iff_forall_not_mem]
        intro v hv
        have hmem := mem_unionFrontier.mpr ⟨row, hrow, hv⟩
        rw [(eq_nil_iff_of_forall₂ hunion).mp hnil] at hmem
        cases hmem
      have hrest : (List.range' (h + 1) n).flatMap
          (levelPairs order edges probes same minHops srcIds) = [] :=
        flatMap_eq_nil_iff.mpr fun m hm => levelPairs_of_frontier_nil hidle
          (Nat.le_of_succ_le (mem_range'_1.mp hm).1)
      refine ⟨[], t, rfl, ?_, .refl t⟩
      rw [levelPairs_of_frontier_nil hidle le_rfl, nil_append, hrest]
      exact .nil
    · rw [if_neg hnil, mapM_toId hunion]
      obtain ⟨hext, hread⟩ := (reads_empty t).foldl (scanProbes (order (h + 1)) edges probes
        (unionFrontier (idRows order edges probes same minHops srcIds h)))
      rw [nil_append] at hread
      have hadvanced := advance_rel same hext hread hrows (minHops ≤ h + 1)
      have hids : ((idRows order edges probes same minHops srcIds h).map fun row =>
          row.advance same (minHops ≤ h + 1) (neighborsOf (scanProbes (order (h + 1)) edges probes
            (unionFrontier (idRows order edges probes same minHops srcIds h))))).map Hop.row =
          idRows order edges probes same minHops srcIds (h + 1) := List.map_map
      have hnext := row_rel hadvanced
      rw [hids] at hnext
      obtain ⟨pairs, t', hrest, hpairs, hext'⟩ := ih (h + 1) hnext
      have hreported := (reported_rel hadvanced).imp
        (S := fun p q => p.1 = q.1 ∧ t'.Names p.2 q.2) fun _ _ hp => ⟨hp.1, hext' _ _ hp.2⟩
      have hlevel := reported_idRows order edges probes same minHops srcIds h
      have hall := rel_append hreported hpairs
      refine ⟨_, t', ?_, hlevel ▸ hall, hext.trans hext'⟩
      simp only [Option.bind_eq_bind, Option.bind_some, hrest]
      rfl

/-! ### The engine -/

lemma internSources_rel (same : Bool) (srcIds : List String) :
    List.Forall₂ (Levels.Row.Rel (internSources same srcIds).1.Names
        (internSources same srcIds).1.Names)
      (internSources same srcIds).2 (srcIds.map (.start same)) := by
  induction srcIds using List.reverseRecOn with
  | nil => exact .nil
  | append_singleton srcIds id ih =>
    obtain ⟨hext, hnames⟩ := (internSources same srcIds).1.getOrInsert_spec id
    have hstep : internSources same (srcIds ++ [id]) =
        (((internSources same srcIds).1.getOrInsert id).1, (internSources same srcIds).2 ++
          [.start same ((internSources same srcIds).1.getOrInsert id).2]) := by
      simp [internSources]
    rw [hstep, map_append]
    refine rel_append (ih.imp fun row row' hrow => ?_)
      (.cons ⟨.cons hnames .nil, ?_, .nil⟩ .nil)
    · exact ⟨hrow.frontier.imp fun _ _ hk => hext _ _ hk,
        hrow.visited.imp fun _ _ hk => hext _ _ hk, hrow.seenDst.imp fun _ _ hk => hext _ _ hk⟩
    · cases same with
      | false => exact .nil
      | true => exact .cons hnames .nil

/-- The engine over scans reports the searches over ids, level by level. -/
theorem executeExpandIndexed_eq (order : ℕ → Probe → IterOrder Edge) (edges : List Edge)
    {edgeTypes : HashMap String (String × String)} {edgeType : String} {ends : String × String}
    (hends : edgeTypes.lookup edgeType = some ends) (srcIds : List String)
    (direction : Direction) (minHops : ℕ) (maxHops : Option ℕ) :
    executeExpandIndexed order edges edgeTypes srcIds edgeType direction minHops maxHops =
      .ok (some ((List.range' 0 (maxLevel (ends.1 = ends.2) minHops maxHops)).flatMap
        (levelPairs order edges (endpointProbes direction) (ends.1 = ends.2) minHops srcIds))) := by
  have hedge : edgeEnds edgeTypes edgeType = .ok ends := by simp [edgeEnds, hends]
  obtain ⟨pairs, t', hrun, hpairs, -⟩ :=
    indexedHops_eq order edges (endpointProbes direction) minHops
      (maxLevel (ends.1 = ends.2) minHops maxHops) 0
      (internSources_rel (ends.1 = ends.2) srcIds)
  refine Except.bind_ok hedge (congrArg Except.ok ?_)
  simp only [Option.bind_eq_bind, hrun, Option.bind_some]
  exact mapM_pairs hpairs

/-- A scan reads all edges of the keys it is given. -/
lemma mem_neighborsOf_scanProbes {order : Probe → IterOrder Edge} {keys : List String}
    {id v : String} (hid : id ∈ keys) :
    v ∈ neighborsOf (scanProbes order edges (endpointProbes direction) keys) id ↔
      v ∈ adjacent direction edges id := by
  simp only [mem_neighborsOf, scanProbes, adjacent, mem_flatMap, scanEdgesByEndpoint,
    List.mem_map, IterOrder.mem_walk, mem_filter, decide_eq_true_eq]
  constructor
  · rintro ⟨probe, hprobe, edge, ⟨hedge, -⟩, hread⟩
    exact ⟨probe, hprobe, edge, hedge, hread⟩
  · rintro ⟨probe, hprobe, edge, hedge, hread⟩
    have hkey : probe.key.value edge = id := congrArg Prod.fst hread
    exact ⟨probe, hprobe, edge, ⟨hedge, hkey ▸ hid⟩, hread⟩

/-- A level reads the neighbours of what was reached last. -/
lemma mem_idNeighbors {src : String} (hsrc : src ∈ srcIds) (h : ℕ) :
    ∀ v ∈ (rowAt same minHops
        (idNeighbors order edges (endpointProbes direction) same minHops srcIds)
        (.start same src) h).frontier,
      ∀ w, w ∈ idNeighbors order edges (endpointProbes direction) same minHops srcIds (h + 1) v ↔
        w ∈ adjacent direction edges v := by
  intro v hv w
  refine mem_neighborsOf_scanProbes (mem_unionFrontier.mpr ⟨_, ?_, hv⟩)
  rw [idRows_eq_map]
  exact List.mem_map_of_mem hsrc

end Levels

end Omnigraph.Traverse
