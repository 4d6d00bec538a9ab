import Omnigraph.Traverse.Scans

/-!
# The two engines agree on the pairs, and on their order only level by level

Both engines report the destinations of every source row, each once. The engine over arrays gives
them source row by source row. The engine over scans gives them level by level, so the source rows
come back in order only if no source row has a destination at a later level than one of a later
source row. The arrays are those of `GraphIndex.build`; by `build_simulates` the machine builds
them too, while no table has `2 ^ 32` edges and no node type `2 ^ 32` ids.
-/

namespace Omnigraph.Traverse

open List Levels Omnigraph.Compiler

/-- A source row and a destination of its source at some level. -/
def IsPair (direction : Direction) (edges : List Edge) (same : Bool) (minHops maxHops : ℕ)
    (srcIds : List String) (p : ℕ × String) : Prop :=
  ∃ src, srcIds[p.1]? = some src ∧
    ∃ h ≤ maxHops, IsDestination same (adjacent direction edges) minHops src h p.2

/-- The pairs are these, each comes once, and the source rows do not decrease. -/
structure Reports (Pair : ℕ × String → Prop) (pairs : List (ℕ × String)) : Prop where
  mem : ∀ p, p ∈ pairs ↔ Pair p
  nodup : pairs.Nodup
  ordered : (pairs.map Prod.fst).Pairwise (· ≤ ·)

/-- No source row has a destination at a later level than a destination of a later source row. -/
def LevelsInOrder (direction : Direction) (edges : List Edge) (same : Bool) (minHops maxHops : ℕ)
    (srcIds : List String) : Prop :=
  ∀ (i j : ℕ) (src src' : String), srcIds[i]? = some src → srcIds[j]? = some src' →
    ∀ h h' v w, h' ≤ maxHops →
    IsFirst same (adjacent direction edges) minHops src h v →
    IsFirst same (adjacent direction edges) minHops src' h' w → h < h' → i ≤ j

variable {m : ℕ}

section Order

variable {direction : Direction} {edges rows : List Edge} {same : Bool} {minHops maxHops : ℕ}
  {srcIds : List String} {emitted : String → ℕ → List String}

/-- What a search reports at each level. -/
structure Finds (direction : Direction) (edges : List Edge) (same : Bool) (minHops maxHops : ℕ)
    (srcIds : List String) (emitted : String → ℕ → List String) : Prop where
  mem : ∀ src ∈ srcIds, ∀ m < maxHops, ∀ v, v ∈ emitted src m ↔
    IsFirst same (adjacent direction edges) minHops src (m + 1) v
  nodup : ∀ src ∈ srcIds, ∀ m < maxHops, (emitted src m).Nodup

/-- The pairs of one source row at one level. -/
def cell (emitted : String → ℕ → List String) (p : String × ℕ) (m : ℕ) : List (ℕ × String) :=
  (emitted p.1 m).map fun v => (p.2, v)

variable {p : String × ℕ} {q : ℕ × String}

lemma mem_cell : q ∈ cell emitted p m ↔ q.1 = p.2 ∧ q.2 ∈ emitted p.1 m := by
  simp only [cell, List.mem_map]
  constructor
  · rintro ⟨v, hv, rfl⟩
    exact ⟨rfl, hv⟩
  · rintro ⟨h₁, h₂⟩
    exact ⟨q.2, h₂, Prod.ext h₁.symm rfl⟩

lemma mem_srcIds (hp : p ∈ srcIds.zipIdx) : srcIds[p.2]? = some p.1 := by
  simpa using mem_zipIdx_iff_getElem?.mp hp

variable (h : Finds direction edges same minHops maxHops srcIds emitted)

include h in
/-- The cells of all source rows at all levels hold the pairs. -/
lemma Finds.mem_iff (q : ℕ × String) :
    (∃ p ∈ srcIds.zipIdx, ∃ m < maxHops, q ∈ cell emitted p m) ↔
      IsPair direction edges same minHops maxHops srcIds q := by
  constructor
  · rintro ⟨p, hp, m, hm, hq⟩
    obtain ⟨hrow, hv⟩ := mem_cell.mp hq
    have hsrc := mem_srcIds hp
    refine ⟨p.1, hrow ▸ hsrc, exists_isFirst_iff.mp ⟨m, hm, ?_⟩⟩
    exact (h.mem p.1 (mem_of_getElem? hsrc) m hm q.2).mp hv
  · rintro ⟨src, hsrc, hdest⟩
    obtain ⟨m, hm, hfirst⟩ := exists_isFirst_iff.mpr hdest
    refine ⟨(src, q.1), mem_zipIdx_iff_getElem?.mpr (by simpa using hsrc), m, hm, ?_⟩
    exact mem_cell.mpr ⟨rfl, (h.mem src (mem_of_getElem? hsrc) m hm q.2).mpr hfirst⟩

include h in
/-- A pair lies in one cell. -/
lemma Finds.cell_unique {p' : String × ℕ} (hp : p ∈ srcIds.zipIdx) (hp' : p' ∈ srcIds.zipIdx)
    {m' : ℕ} (hm : m < maxHops) (hm' : m' < maxHops) (hq : q ∈ cell emitted p m)
    (hq' : q ∈ cell emitted p' m') : p.2 = p'.2 ∧ m = m' := by
  obtain ⟨hrow, hv⟩ := mem_cell.mp hq
  obtain ⟨hrow', hv'⟩ := mem_cell.mp hq'
  have hsame : p.2 = p'.2 := hrow.symm.trans hrow'
  have hsrc := mem_srcIds hp
  have hsrc' := mem_srcIds hp'
  have hid : p.1 = p'.1 := by
    rw [hsame, hsrc'] at hsrc
    exact (Option.some.inj hsrc).symm
  have hf := (h.mem _ (mem_of_getElem? hsrc) m hm q.2).mp hv
  have hf' := (h.mem _ (mem_of_getElem? hsrc') m' hm' q.2).mp hv'
  rw [hid] at hf
  exact ⟨hsame, Nat.succ.inj (hf.unique hf')⟩

include h in
lemma Finds.nodup_cell (hp : p ∈ srcIds.zipIdx) (hm : m < maxHops) : (cell emitted p m).Nodup :=
  (h.nodup p.1 (mem_of_getElem? (mem_srcIds hp)) m hm).map
    fun _ _ heq => congrArg Prod.snd heq

lemma zipIdx_pairwise (l : List String) : l.zipIdx.Pairwise fun p q => p.2 < q.2 := by
  have hsorted : (l.zipIdx.map Prod.snd).Pairwise (· < ·) := by
    rw [zipIdx_map_snd]
    exact pairwise_lt_range'
  exact pairwise_map.mp hsorted

lemma levels_pairwise (n : ℕ) : (List.range' 0 n).Pairwise (· < ·) := pairwise_lt_range'

include h in
/-- Source row by source row, the pairs come in order. -/
lemma Finds.reports_rows :
    Reports (IsPair direction edges same minHops maxHops srcIds)
      (srcIds.zipIdx.flatMap fun p =>
        ((List.range' 0 maxHops).flatMap (emitted p.1)).map fun v => (p.2, v)) := by
  have hcells : ∀ p : String × ℕ, ((List.range' 0 maxHops).flatMap (emitted p.1)).map
      (fun v => (p.2, v)) = (List.range' 0 maxHops).flatMap (cell emitted p) :=
    fun p => map_flatMap
  have hlevel : ∀ m ∈ List.range' 0 maxHops, m < maxHops := by simp
  simp only [hcells]
  refine ⟨fun q => ?_, ?_, ?_⟩
  · rw [← h.mem_iff]
    simp only [mem_flatMap, mem_range'_1, Nat.zero_le, true_and, Nat.zero_add]
  · refine pairwise_flatMap.mpr
      ⟨fun p hp => pairwise_flatMap.mpr ⟨fun m hm => ?_, ?_⟩, ?_⟩
    · exact h.nodup_cell hp (hlevel m hm)
    · refine (levels_pairwise maxHops).imp_of_mem fun hm hm' hlt q hq q' hq' heq => ?_
      subst heq
      exact absurd (h.cell_unique hp hp (hlevel _ hm) (hlevel _ hm') hq hq').2 hlt.ne
    · refine (zipIdx_pairwise srcIds).imp_of_mem fun hp hp' hlt q hq q' hq' heq => ?_
      subst heq
      obtain ⟨m, hm, hq⟩ := mem_flatMap.mp hq
      obtain ⟨m', hm', hq'⟩ := mem_flatMap.mp hq'
      exact absurd (h.cell_unique hp hp' (hlevel _ hm) (hlevel _ hm') hq hq').1 hlt.ne
  · rw [pairwise_map]
    have hrow : ∀ (p : String × ℕ) (q : ℕ × String),
        q ∈ (List.range' 0 maxHops).flatMap (cell emitted p) → q.1 = p.2 := by
      intro p q hq
      obtain ⟨m, -, hq⟩ := mem_flatMap.mp hq
      exact (mem_cell.mp hq).1
    refine pairwise_flatMap.mpr ⟨fun p _ => ?_, (zipIdx_pairwise srcIds).imp ?_⟩
    · exact pairwise_of_forall_mem_list fun q hq q' hq' =>
        ((hrow p q hq).trans (hrow p q' hq').symm).le
    · intro p p' hlt q hq q' hq'
      rw [hrow p q hq, hrow p' q' hq']
      exact hlt.le

include h in
/-- Level by level, the pairs are the same. -/
lemma Finds.levels_mem_nodup :
    (∀ q, q ∈ (List.range' 0 maxHops).flatMap (fun m => srcIds.zipIdx.flatMap fun p =>
        cell emitted p m) ↔ IsPair direction edges same minHops maxHops srcIds q) ∧
      ((List.range' 0 maxHops).flatMap (fun m => srcIds.zipIdx.flatMap fun p =>
        cell emitted p m)).Nodup := by
  have hlevel : ∀ m ∈ List.range' 0 maxHops, m < maxHops := by simp
  refine ⟨fun q => ?_, ?_⟩
  · rw [← h.mem_iff]
    simp only [mem_flatMap, mem_range'_1, Nat.zero_le, true_and, Nat.zero_add]
    constructor
    · rintro ⟨m, hm, p, hp, hq⟩
      exact ⟨p, hp, m, hm, hq⟩
    · rintro ⟨p, hp, m, hm, hq⟩
      exact ⟨m, hm, p, hp, hq⟩
  · refine pairwise_flatMap.mpr
      ⟨fun m hm => pairwise_flatMap.mpr ⟨fun p hp => ?_, ?_⟩, ?_⟩
    · exact h.nodup_cell hp (hlevel m hm)
    · refine (zipIdx_pairwise srcIds).imp_of_mem fun hp hp' hlt q hq q' hq' heq => ?_
      subst heq
      exact absurd (h.cell_unique hp hp' (hlevel m hm) (hlevel m hm) hq hq').1 hlt.ne
    · refine (levels_pairwise maxHops).imp_of_mem fun hm hm' hlt q hq q' hq' heq => ?_
      subst heq
      obtain ⟨p, hp, hq⟩ := mem_flatMap.mp hq
      obtain ⟨p', hp', hq'⟩ := mem_flatMap.mp hq'
      exact absurd (h.cell_unique hp hp' (hlevel _ hm) (hlevel _ hm') hq hq').2 hlt.ne

include h in
/-- Level by level, the source rows come in order exactly if their levels do. -/
lemma Finds.levels_ordered_iff :
    (((List.range' 0 maxHops).flatMap (fun m => srcIds.zipIdx.flatMap fun p =>
        cell emitted p m)).map Prod.fst).Pairwise (· ≤ ·) ↔
      LevelsInOrder direction edges same minHops maxHops srcIds := by
  have hlevel : ∀ m ∈ List.range' 0 maxHops, m < maxHops := by simp
  rw [pairwise_map, pairwise_flatMap]
  constructor
  · rintro ⟨-, hacross⟩ i j src src' hi hj n n' v w hn' hv hw hlt
    obtain ⟨m, rfl⟩ := Nat.exists_eq_succ_of_ne_zero (Nat.one_le_iff_ne_zero.mp hv.1.1)
    obtain ⟨m', rfl⟩ := Nat.exists_eq_succ_of_ne_zero (Nat.one_le_iff_ne_zero.mp hw.1.1)
    have hm' : m' < maxHops := hn'
    have hm : m < maxHops := by omega
    have hpairs := pairwise_iff_getElem.mp hacross m m' (by simpa using hm)
      (by simpa using hm') (by omega)
    simp only [getElem_range', Nat.one_mul, Nat.zero_add] at hpairs
    refine hpairs (i, v) (mem_flatMap.mpr ⟨(src, i), ?_, ?_⟩) (j, w)
      (mem_flatMap.mpr ⟨(src', j), ?_, ?_⟩)
    · exact mem_zipIdx_iff_getElem?.mpr (by simpa using hi)
    · exact mem_cell.mpr ⟨rfl, (h.mem src (mem_of_getElem? hi) m hm v).mpr hv⟩
    · exact mem_zipIdx_iff_getElem?.mpr (by simpa using hj)
    · exact mem_cell.mpr ⟨rfl, (h.mem src' (mem_of_getElem? hj) m' hm' w).mpr hw⟩
  · intro horder
    refine ⟨fun m _ => ?_, (levels_pairwise maxHops).imp_of_mem fun {m m'} hm hm' hlt => ?_⟩
    · refine pairwise_flatMap.mpr ⟨fun p _ => ?_, (zipIdx_pairwise srcIds).imp ?_⟩
      · exact pairwise_of_forall_mem_list fun q hq q' hq' =>
          ((mem_cell.mp hq).1.trans (mem_cell.mp hq').1.symm).le
      · intro p p' hlt q hq q' hq'
        rw [(mem_cell.mp hq).1, (mem_cell.mp hq').1]
        exact hlt.le
    · intro q hq q' hq'
      obtain ⟨p, hp, hq⟩ := mem_flatMap.mp hq
      obtain ⟨p', hp', hq'⟩ := mem_flatMap.mp hq'
      obtain ⟨hrow, hv⟩ := mem_cell.mp hq
      obtain ⟨hrow', hw⟩ := mem_cell.mp hq'
      have hsrc := mem_srcIds hp
      have hsrc' := mem_srcIds hp'
      rw [hrow, hrow']
      exact horder p.2 p'.2 p.1 p'.1 hsrc hsrc' (m + 1) (m' + 1) q.2 q'.2 (hlevel m' hm')
        ((h.mem _ (mem_of_getElem? hsrc) m (hlevel m hm) _).mp hv)
        ((h.mem _ (mem_of_getElem? hsrc') m' (hlevel m' hm') _).mp hw) (by omega)

end Order

/-! ### Both engines -/

section Engines

variable {direction : Direction} {edges rows : List Edge} {same : Bool} {minHops : ℕ}
  {maxHops : Option ℕ} {srcIds : List String}

lemma level_eq_zero (hm : m < maxLevel same minHops maxHops) (hsame : same = false) : m = 0 := by
  subst hsame
  exact Nat.lt_one_iff.mp (hm.trans_le (maxLevel_le minHops maxHops))

lemma finds_arrays (h : rows.Perm edges) :
    Finds direction edges same minHops (maxLevel same minHops maxHops) srcIds fun src =>
      emittedAt same minHops (fun _ => adjacent direction rows) (.start same src) where
  mem _ _ _ hm v := mem_emittedAt (level_eq_zero hm) (fun _ _ _ _ => by
    simp only [adjacent, mem_flatMap, mem_neighborsOf, List.mem_map, h.mem_iff]) v
  nodup _ _ _ hm := nodup_emittedAt (level_eq_zero hm) fun _ v _ w =>
    (Iff.rfl : w ∈ adjacent direction rows v ↔ _)

lemma finds_scans (order : ℕ → Probe → IterOrder Edge) :
    Finds direction edges same minHops (maxLevel same minHops maxHops) srcIds fun src =>
      emittedAt same minHops
        (idNeighbors order edges (endpointProbes direction) same minHops srcIds)
        (.start same src) where
  mem _ hsrc _ hm v := mem_emittedAt (level_eq_zero hm) (mem_idNeighbors hsrc) v
  nodup _ hsrc _ hm := nodup_emittedAt (level_eq_zero hm) (mem_idNeighbors hsrc)

end Engines

/-- Both engines give a result, the pairs of the searches, each once and with the source rows in
order. The edges are scanned in any order, for the index and at every level. -/
def EnginesAgree (order : ℕ → Probe → IterOrder Edge)
    (tables : String → Option (List Edge)) (indexTypes edgeTypes : HashMap String (String × String))
    (edges : List Edge) (ends : String × String) (srcIds : List String) (edgeType : String)
    (direction : Direction) (minHops : ℕ) (maxHops : Option ℕ) : Prop :=
  ∃ indexed csr,
    executeExpandIndexed order edges edgeTypes srcIds edgeType direction minHops maxHops =
      .ok (some indexed) ∧
    executeExpandCsr (GraphIndex.build tables indexTypes) edgeTypes srcIds edgeType direction
      minHops maxHops = .ok csr ∧
    Reports (IsPair direction edges (ends.1 = ends.2) minHops
      (maxLevel (ends.1 = ends.2) minHops maxHops) srcIds) indexed ∧
    Reports (IsPair direction edges (ends.1 = ends.2) minHops
      (maxLevel (ends.1 = ends.2) minHops maxHops) srcIds) csr

/-- The engines agree exactly when no source row has a destination at a later level than one of a
later source row. -/
theorem enginesAgree_iff (order : ℕ → Probe → IterOrder Edge)
    (tables : String → Option (List Edge)) (indexTypes edgeTypes : HashMap String (String × String))
    (edges rows : List Edge) (ends : String × String) (srcIds : List String) (edgeType : String)
    (direction : Direction) (minHops : ℕ) (maxHops : Option ℕ)
    (hends : edgeTypes.lookup edgeType = some ends)
    (hindexed : indexTypes.lookup edgeType = some ends) (htable : tables edgeType = some rows)
    (hperm : rows.Perm edges) (hboth : direction = .both → ends.1 = ends.2) :
    EnginesAgree order tables indexTypes edgeTypes edges ends srcIds edgeType direction minHops
        maxHops ↔
      LevelsInOrder direction edges (ends.1 = ends.2) minHops
        (maxLevel (ends.1 = ends.2) minHops maxHops) srcIds := by
  obtain ⟨fromIndex, toIndex, pairs, hindex⟩ := GraphIndex.build_indexes hindexed htable
  have hcsr := executeExpandCsr_eq hends hindex hboth srcIds minHops maxHops
  have hscan := executeExpandIndexed_eq order edges hends srcIds direction minHops maxHops
  have harrays : Finds direction edges (ends.1 = ends.2) minHops
      (maxLevel (ends.1 = ends.2) minHops maxHops) srcIds _ := finds_arrays hperm
  have hscans : Finds direction edges (ends.1 = ends.2) minHops
      (maxLevel (ends.1 = ends.2) minHops maxHops) srcIds _ := finds_scans order
  rw [← hscans.levels_ordered_iff]
  constructor
  · rintro ⟨indexed, csr, hrun, -, hreports, -⟩
    rw [hscan] at hrun
    cases hrun
    exact hreports.ordered
  · intro hordered
    obtain ⟨hmem, hnodup⟩ := hscans.levels_mem_nodup
    exact ⟨_, _, hscan, hcsr, ⟨hmem, hnodup, hordered⟩, harrays.reports_rows⟩

/-- Two sources, where the first one has a destination two levels away. -/
def twoLevels : List Edge := [("a", "c"), ("c", "d"), ("b", "e")]

/-- One level is in order. -/
theorem enginesAgree_oneLevel :
    EnginesAgree (fun _ _ => .stored Edge) (fun _ => some twoLevels)
      (AList.singleton "Knows" ("Person", "Person")) (AList.singleton "Knows" ("Person", "Person"))
      twoLevels ("Person", "Person") ["a", "b"] "Knows" .out 1 (some 1) := by
  refine (enginesAgree_iff _ _ _ _ twoLevels twoLevels _ _ _ .out 1 (some 1) rfl rfl rfl (.refl _)
    (fun hc => by cases hc)).mpr ?_
  intro i j src src' _ _ h h' v w hh' hv _ hlt
  have hpos := hv.1.1
  have hmax : h' ≤ 1 := hh'
  omega

/-- With two levels the engine over scans gives the second level of the first source row after the
first level of the second one. -/
theorem not_enginesAgree_twoLevels :
    ¬ EnginesAgree (fun _ _ => .stored Edge) (fun _ => some twoLevels)
      (AList.singleton "Knows" ("Person", "Person")) (AList.singleton "Knows" ("Person", "Person"))
      twoLevels ("Person", "Person") ["a", "b"] "Knows" .out 1 (some 2) := by
  rintro ⟨indexed, csr, hrun, -, hreports, -⟩
  have hvalue : executeExpandIndexed (fun _ _ => .stored Edge) twoLevels
      (AList.singleton "Knows" ("Person", "Person")) ["a", "b"] "Knows" .out 1 (some 2) =
      .ok (some [(0, "c"), (1, "e"), (0, "d")]) := by rfl
  rw [hvalue] at hrun
  cases hrun
  exact absurd hreports.ordered (by decide)

end Omnigraph.Traverse
