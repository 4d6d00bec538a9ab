import Omnigraph.Lib.Bfs

/-!
# Search level by level

A search keeps the vertices it reached last, the vertices it has seen and the vertices it has
reported, and advances one level at a time. The neighbours of a vertex may come in any order and
may repeat, and the order may change from level to level. A vertex with an edge to itself is
reported again at the next level if it was not reported yet.
-/

namespace Levels

open List

variable {V : Type*} [DecidableEq V]

/-- The search from one start. -/
structure Row (V : Type*) where
  frontier : List V
  visited : List V
  seenDst : List V

/-- The loop variables of one level. -/
structure Hop (V : Type*) where
  next : List V
  visited : List V
  seenDst : List V
  emitted : List V

/-- Reports a vertex unless it was reported before. -/
def Hop.emit (emit : Bool) (v : V) (h : Hop V) : Hop V :=
  if emit && v ∉ h.seenDst then
    { h with seenDst := v :: h.seenDst, emitted := h.emitted ++ [v] }
  else h

/-- Looks at one neighbour. Without `same`, neighbours are of another kind than the vertices they
are neighbours of, and nothing is known to have been visited. -/
def Hop.visit (same emit : Bool) (h : Hop V) (node neighbor : V) : Hop V :=
  if same && neighbor = node then h.emit emit neighbor
  else if !same then { h with next := h.next ++ [neighbor] }.emit emit neighbor
  else if neighbor ∈ h.visited then h
  else
    { h with next := h.next ++ [neighbor], visited := neighbor :: h.visited }.emit emit neighbor

def Hop.row (h : Hop V) : Row V := ⟨h.next, h.visited, h.seenDst⟩

/-- One level of a search. -/
def Row.advance (same emit : Bool) (neighbors : V → List V) (row : Row V) : Hop V :=
  row.frontier.foldl (fun h node => (neighbors node).foldl (fun h v => h.visit same emit node v) h)
    ⟨[], row.visited, row.seenDst, []⟩

/-! ### One level -/

variable {node v : V}

section Advance

variable {same emit : Bool} {neighbors : V → List V} {row : Row V} {h : Hop V}

/-- What a level looks at, in order. -/
def Row.visits (neighbors : V → List V) (row : Row V) : List (V × V) :=
  row.frontier.flatMap fun node => (neighbors node).map (node, ·)

omit [DecidableEq V] in
lemma Row.mem_visits :
    (node, v) ∈ row.visits neighbors ↔ node ∈ row.frontier ∧ v ∈ neighbors node := by
  simp [Row.visits]

lemma Row.advance_eq_foldl : row.advance same emit neighbors =
    (row.visits neighbors).foldl (fun h p => h.visit same emit p.1 p.2)
      ⟨[], row.visited, row.seenDst, []⟩ := by
  simp only [Row.advance, Row.visits, foldl_flatMap, foldl_map]

@[simp] lemma Hop.emit_next (v : V) : (h.emit emit v).next = h.next := by
  unfold Hop.emit
  split <;> rfl

@[simp] lemma Hop.emit_visited (v : V) : (h.emit emit v).visited = h.visited := by
  unfold Hop.emit
  split <;> rfl

variable {w : V}

lemma Hop.mem_emit_emitted :
    w ∈ (h.emit emit v).emitted ↔
      w ∈ h.emitted ∨ emit = true ∧ w = v ∧ v ∉ h.seenDst := by
  unfold Hop.emit
  split
  · next hc => simp_all
  · next hc =>
    simp only [Bool.and_eq_true, decide_eq_true_eq, not_and, not_not] at hc
    constructor
    · exact .inl
    · rintro (hw | ⟨hemit, -, hseen⟩)
      · exact hw
      · exact absurd (hc hemit) hseen

lemma Hop.mem_emit_seenDst : w ∈ (h.emit emit v).seenDst ↔ w ∈ h.seenDst ∨ emit = true ∧ w = v := by
  unfold Hop.emit
  split
  · next hc =>
    simp only [Bool.and_eq_true, decide_eq_true_eq] at hc
    simp [hc.1, or_comm]
  · next hc =>
    simp only [Bool.and_eq_true, decide_eq_true_eq, not_and, not_not] at hc
    constructor
    · exact .inl
    · rintro (hw | ⟨hemit, rfl⟩)
      · exact hw
      · exact hc hemit

lemma Hop.nodup_emit (hnodup : h.emitted.Nodup) (hseen : ∀ w ∈ h.emitted, w ∈ h.seenDst) :
    (h.emit emit v).emitted.Nodup := by
  unfold Hop.emit
  split
  · next hc =>
    simp only [Bool.and_eq_true, decide_eq_true_eq] at hc
    exact concat_eq_append ▸ hnodup.concat fun hv => hc.2 (hseen v hv)
  · exact hnodup

/-- What the visits done so far have found. -/
structure Hop.Found (same emit : Bool) (row : Row V) (done : List (V × V)) (h : Hop V) : Prop where
  next : ∀ v, v ∈ h.next ↔ (same = true → v ∉ row.visited) ∧ ∃ node, (node, v) ∈ done
  visited : ∀ v, v ∈ h.visited ↔ v ∈ row.visited ∨ same = true ∧ v ∈ h.next
  seenDst : ∀ v, v ∈ h.seenDst ↔ v ∈ row.seenDst ∨ v ∈ h.emitted
  emitted : ∀ v, v ∈ h.emitted ↔ emit = true ∧ v ∉ row.seenDst ∧
    (v ∈ h.next ∨ same = true ∧ (v, v) ∈ done)
  nodup : h.emitted.Nodup

variable {done : List (V × V)}

/-- A vertex that is looked at is reported once. -/
lemma Hop.Found.report
    (hnext : ∀ w, w ∈ h.next ↔ (same = true → w ∉ row.visited) ∧ ∃ node, (node, w) ∈ done)
    (hvisited : ∀ w, w ∈ h.visited ↔ w ∈ row.visited ∨ same = true ∧ w ∈ h.next)
    (hseen : ∀ w, w ∈ h.seenDst ↔ w ∈ row.seenDst ∨ w ∈ h.emitted) (hnodup : h.emitted.Nodup)
    (hemitted : ∀ w, w ∈ h.emitted ∨ emit = true ∧ w = v ∧ w ∉ row.seenDst ↔
      emit = true ∧ w ∉ row.seenDst ∧ (w ∈ h.next ∨ same = true ∧ (w, w) ∈ done)) :
    (h.emit emit v).Found same emit row done where
  next w := by rw [Hop.emit_next, hnext]
  visited w := by rw [Hop.emit_next, Hop.emit_visited, hvisited]
  seenDst w := by
    rw [Hop.mem_emit_seenDst, Hop.mem_emit_emitted, hseen, hseen]
    by_cases hw : w = v
    · subst hw
      tauto
    · tauto
  emitted w := by
    rw [Hop.emit_next, ← hemitted, Hop.mem_emit_emitted, hseen]
    by_cases hw : w = v
    · subst hw
      tauto
    · tauto
  nodup := Hop.nodup_emit hnodup fun w hw => (hseen w).mpr (.inr hw)

lemma Hop.Found.visit (hf : h.Found same emit row done) (hnode : same = true → node ∈ row.visited) :
    (h.visit same emit node v).Found same emit row (done ++ [(node, v)]) := by
  have hreached : ∀ w, (∃ n, (n, w) ∈ done ++ [(node, v)]) ↔ (∃ n, (n, w) ∈ done) ∨ w = v := by
    simp [exists_or]
  have hself : ∀ w, (w, w) ∈ done ++ [(node, v)] ↔ (w, w) ∈ done ∨ w = node ∧ w = v := by simp
  unfold Hop.visit
  cases same with
  | false =>
    simp only [Bool.false_and, Bool.false_eq_true, if_false, Bool.not_false, if_true]
    refine .report (fun w => ?_) (fun w => ?_) hf.seenDst hf.nodup (fun w => ?_)
    · rw [mem_append, mem_singleton, hf.next w, hreached]
      tauto
    · rw [hf.visited w]
      tauto
    · rw [mem_append, mem_singleton, hf.emitted w]
      tauto
  | true =>
    have hold := hnode rfl
    simp only [Bool.true_and, decide_eq_true_eq, Bool.not_true, Bool.false_eq_true, if_false]
    split
    · -- an edge to itself leads nowhere new
      next hloop =>
      subst hloop
      have hstay : ∀ w, w ∈ h.next ↔ (true = true → w ∉ row.visited) ∧
          ∃ n, (n, w) ∈ done ++ [(v, v)] := by
        intro w
        rw [hf.next w, hreached]
        by_cases hw : w = v
        · subst hw
          tauto
        · tauto
      refine .report hstay hf.visited hf.seenDst hf.nodup (fun w => ?_)
      rw [hf.emitted w, hself]
      tauto
    · next hloop =>
      have hne : ∀ w, ¬ (w = node ∧ w = v) := fun w hc => hloop (hc.2.symm.trans hc.1)
      split
      · next hvisited =>
        have hfound := (hf.visited v).mp hvisited
        refine ⟨fun w => ?_, hf.visited, hf.seenDst, fun w => ?_, hf.nodup⟩
        · rw [hreached]
          by_cases hw : w = v
          · subst hw
            rw [hf.next w] at hfound ⊢
            tauto
          · rw [hf.next w]
            tauto
        · rw [hf.emitted w, hself]
          have := hne w
          tauto
      · next hvisited =>
        have hfresh : v ∉ row.visited := fun hrow => hvisited ((hf.visited v).mpr (.inl hrow))
        refine .report (fun w => ?_) (fun w => ?_) hf.seenDst hf.nodup (fun w => ?_)
        · rw [mem_append, mem_singleton, hf.next w, hreached]
          by_cases hw : w = v
          · subst hw
            tauto
          · tauto
        · rw [mem_cons, mem_append, mem_singleton, hf.visited w]
          tauto
        · rw [mem_append, mem_singleton, hf.emitted w, hself]
          have := hne w
          tauto

/-- What a level finds. -/
theorem Row.advance_found (hfrontier : same = true → ∀ node ∈ row.frontier, node ∈ row.visited) :
    (row.advance same emit neighbors).Found same emit row (row.visits neighbors) := by
  have hnodes : ∀ p ∈ row.visits neighbors, same = true → p.1 ∈ row.visited := by
    rintro ⟨node, v⟩ hp hsame
    exact hfrontier hsame node (Row.mem_visits.mp hp).1
  rw [Row.advance_eq_foldl]
  generalize row.visits neighbors = visits at hnodes ⊢
  induction visits using List.reverseRecOn with
  | nil => exact ⟨by simp, by simp, by simp, by simp, nodup_nil⟩
  | append_singleton done p ih =>
    rw [foldl_append]
    exact (ih fun q hq => hnodes q (mem_append_left _ hq)).visit
      (hnodes p (mem_append_right _ (mem_singleton_self p)))

end Advance

/-! ### All levels -/

/-- A search starts at one vertex, which counts as visited if it can be reached again. -/
def Row.start (same : Bool) (s : V) : Row V := ⟨[s], if same then [s] else [], []⟩

/-- A search after some levels. Level `h` reads `neighbors h`, and levels from `min` on report. -/
def rowAt (same : Bool) (min : ℕ) (neighbors : ℕ → V → List V) (row : Row V) : ℕ → Row V
  | 0 => row
  | h + 1 =>
    ((rowAt same min neighbors row h).advance same (min ≤ h + 1) (neighbors (h + 1))).row

/-- What level `h + 1` reports. -/
def emittedAt (same : Bool) (min : ℕ) (neighbors : ℕ → V → List V) (row : Row V) (h : ℕ) : List V :=
  ((rowAt same min neighbors row h).advance same (min ≤ h + 1) (neighbors (h + 1))).emitted

/-- `v` is a destination of `s` at level `h`: it is first reached there, or it was reached one level
earlier and has an edge to itself. Neighbours of another kind have no neighbours. -/
def IsDestination (same : Bool) (succ : V → List V) (min : ℕ) (s : V) (h : ℕ) (v : V) : Prop :=
  1 ≤ h ∧ min ≤ h ∧
    if same then Bfs.IsDist succ s v h ∨ Bfs.IsDist succ s v (h - 1) ∧ v ∈ succ v
    else h = 1 ∧ v ∈ succ s

/-- `h` is the first level at which `v` is a destination of `s`. -/
def IsFirst (same : Bool) (succ : V → List V) (min : ℕ) (s : V) (h : ℕ) (v : V) : Prop :=
  IsDestination same succ min s h v ∧ ∀ h' < h, ¬ IsDestination same succ min s h' v

variable {nbrs : V → List V}

section Run

variable {same : Bool} {min : ℕ} {succ : V → List V} {neighbors : ℕ → V → List V} {s : V} {h : ℕ}

omit [DecidableEq V] in
lemma IsFirst.unique {v : V} {h h' : ℕ} (hf : IsFirst same succ min s h v)
    (hf' : IsFirst same succ min s h' v) : h = h' := by
  rcases Nat.lt_trichotomy h h' with hlt | heq | hlt
  · exact absurd hf.1 (hf'.2 h hlt)
  · exact heq
  · exact absurd hf'.1 (hf.2 h' hlt)

variable {m : ℕ}

omit [DecidableEq V] in
/-- A destination is one for the first time at some level. -/
lemma exists_isFirst_iff : (∃ h < m, IsFirst same succ min s (h + 1) v) ↔
    ∃ h ≤ m, IsDestination same succ min s h v := by
  classical
  constructor
  · rintro ⟨h, hh, hfirst⟩
    exact ⟨h + 1, hh, hfirst.1⟩
  · rintro ⟨h, hh, hdest⟩
    have hex : ∃ h, IsDestination same succ min s h v := ⟨h, hdest⟩
    have hle := Nat.find_min' hex hdest
    have hspec := Nat.find_spec hex
    obtain ⟨k, hk⟩ : ∃ k, Nat.find hex = k + 1 := Nat.exists_eq_succ_of_ne_zero (by
      have hpos := hspec.1
      omega)
    rw [hk] at hle hspec
    refine ⟨k, by omega, hspec, fun h' hh' => Nat.find_min hex (by omega)⟩

/-- A search that can go on, after `h` levels. -/
structure Row.AtLevel (succ : V → List V) (min : ℕ) (s : V) (h : ℕ) (row : Row V) : Prop where
  frontier : ∀ v, v ∈ row.frontier ↔ Bfs.IsDist succ s v h
  visited : ∀ v, v ∈ row.visited ↔ ∃ d ≤ h, Bfs.IsDist succ s v d
  seenDst : ∀ v, v ∈ row.seenDst ↔ ∃ h' ≤ h, IsDestination true succ min s h' v

omit [DecidableEq V] in
lemma exists_le_succ_iff {P : ℕ → Prop} : (∃ d ≤ h + 1, P d) ↔ (∃ d ≤ h, P d) ∨ P (h + 1) := by
  constructor
  · rintro ⟨d, hd, hP⟩
    rcases Nat.le_or_eq_of_le_succ hd with hd | rfl
    · exact .inl ⟨d, hd, hP⟩
    · exact .inr hP
  · rintro (⟨d, hd, hP⟩ | hP)
    · exact ⟨d, Nat.le_succ_of_le hd, hP⟩
    · exact ⟨h + 1, le_rfl, hP⟩

omit [DecidableEq V] in
lemma Row.AtLevel.start : (Row.start true s).AtLevel succ min s 0 where
  frontier v := by simp [Row.start, Bfs.isDist_zero_iff]
  visited v := by simp [Row.start, Bfs.isDist_zero_iff]
  seenDst v := by simp [Row.start, IsDestination]

/-- One level on, from what the level finds. -/
lemma Row.AtLevel.advance {row : Row V} (hrow : row.AtLevel succ min s h)
    (hnbrs : ∀ v ∈ row.frontier, ∀ w, w ∈ nbrs v ↔ w ∈ succ v) :
    (row.advance true (min ≤ h + 1) nbrs).row.AtLevel succ min s (h + 1) ∧
      ∀ v, v ∈ (row.advance true (min ≤ h + 1) nbrs).emitted ↔
        IsFirst true succ min s (h + 1) v := by
  have hfound : (row.advance true (min ≤ h + 1) nbrs).Found true (min ≤ h + 1) row _ :=
    Row.advance_found fun _ node hnode =>
      (hrow.visited node).mpr ⟨h, le_rfl, (hrow.frontier node).mp hnode⟩
  have hvisit : ∀ u v, (u, v) ∈ row.visits nbrs ↔ Bfs.IsDist succ s u h ∧ v ∈ succ u := by
    intro u v
    rw [Row.mem_visits, hrow.frontier]
    constructor
    · exact fun hu => ⟨hu.1, (hnbrs u ((hrow.frontier u).mpr hu.1) v).mp hu.2⟩
    · exact fun hu => ⟨hu.1, (hnbrs u ((hrow.frontier u).mpr hu.1) v).mpr hu.2⟩
  have hnext : ∀ v, v ∈ (row.advance true (min ≤ h + 1) nbrs).next ↔
      Bfs.IsDist succ s v (h + 1) := by
    intro v
    rw [hfound.next, Bfs.isDist_succ_iff, hrow.visited]
    simp only [hvisit, true_implies]
  have hemitted : ∀ v, v ∈ (row.advance true (min ≤ h + 1) nbrs).emitted ↔
      IsFirst true succ min s (h + 1) v := by
    intro v
    rw [hfound.emitted, hnext, hvisit, hrow.seenDst]
    simp only [IsFirst, IsDestination, Nat.lt_succ_iff, decide_eq_true_eq, if_true,
      Nat.add_sub_cancel, not_exists, not_and, true_and]
    constructor
    · rintro ⟨hmin, hunseen, hdest⟩
      exact ⟨⟨by omega, hmin, hdest⟩, hunseen⟩
    · rintro ⟨⟨-, hmin, hdest⟩, hunseen⟩
      exact ⟨hmin, hunseen, hdest⟩
  refine ⟨⟨hnext, fun v => ?_, fun v => ?_⟩, hemitted⟩
  · show v ∈ (row.advance true (min ≤ h + 1) nbrs).visited ↔ _
    rw [hfound.visited, hnext, hrow.visited, exists_le_succ_iff]
    simp only [true_and]
  · show v ∈ (row.advance true (min ≤ h + 1) nbrs).seenDst ↔ _
    rw [hfound.seenDst, hemitted, hrow.seenDst, exists_le_succ_iff]
    simp only [IsFirst, Nat.lt_succ_iff]
    constructor
    · rintro (hold | hnew)
      · exact .inl hold
      · exact .inr hnew.1
    · rintro (hold | hnew)
      · exact .inl hold
      · by_cases hold : ∃ h' ≤ h, IsDestination true succ min s h' v
        · exact .inl hold
        · exact .inr ⟨hnew, fun h' hh' hdest => hold ⟨h', hh', hdest⟩⟩

lemma rowAt_atLevel (hneighbors : ∀ h, ∀ v ∈ (rowAt true min neighbors (.start true s) h).frontier,
      ∀ w, w ∈ neighbors (h + 1) v ↔ w ∈ succ v) (h : ℕ) :
    (rowAt true min neighbors (.start true s) h).AtLevel succ min s h := by
  induction h with
  | zero => exact .start
  | succ h ih => exact (ih.advance (hneighbors h)).1

/-- Without `same` only the first level counts. -/
lemma advance_start_found {emit : Bool} :
    ((Row.start false s).advance false emit nbrs).Found false emit (.start false s)
      ((Row.start false s).visits nbrs) :=
  Row.advance_found fun hc => absurd hc Bool.false_ne_true

/-- A level reports what is a destination for the first time there. -/
theorem mem_emittedAt (hsame : same = false → h = 0)
    (hneighbors : ∀ h, ∀ v ∈ (rowAt same min neighbors (.start same s) h).frontier,
      ∀ w, w ∈ neighbors (h + 1) v ↔ w ∈ succ v) (v : V) :
    v ∈ emittedAt same min neighbors (.start same s) h ↔ IsFirst same succ min s (h + 1) v := by
  cases same with
  | true => exact ((rowAt_atLevel hneighbors h).advance (hneighbors h)).2 v
  | false =>
    obtain rfl := hsame rfl
    have hadj := hneighbors 0 s (mem_singleton_self s) v
    show v ∈ ((Row.start false s).advance false (min ≤ 1) (neighbors 1)).emitted ↔ _
    rw [advance_start_found.emitted, advance_start_found.next]
    simp only [Row.mem_visits, IsFirst, IsDestination]
    simp [Row.start, hadj]

/-- A level reports a vertex once. -/
theorem nodup_emittedAt (hsame : same = false → h = 0)
    (hneighbors : ∀ h, ∀ v ∈ (rowAt same min neighbors (.start same s) h).frontier,
      ∀ w, w ∈ neighbors (h + 1) v ↔ w ∈ succ v) :
    (emittedAt same min neighbors (.start same s) h).Nodup := by
  cases same with
  | true =>
    have hlevel := rowAt_atLevel hneighbors h
    exact (Row.advance_found fun _ node hnode =>
      (hlevel.visited node).mpr ⟨h, le_rfl, (hlevel.frontier node).mp hnode⟩).nodup
  | false =>
    obtain rfl := hsame rfl
    exact advance_start_found.nodup

lemma emittedAt_of_frontier_nil {row : Row V}
    (hnil : (rowAt same min neighbors row h).frontier = []) (hm : h ≤ m) :
    emittedAt same min neighbors row m = [] := by
  have hstay : (rowAt same min neighbors row m).frontier = [] := by
    induction m, hm using Nat.le_induction with
    | base => exact hnil
    | succ m _ ih => simp [rowAt, Row.advance, Hop.row, ih]
  simp [emittedAt, Row.advance, hstay]

end Run

/-! ### Renaming -/

section Rename

variable {W : Type*} [DecidableEq W] {R R' : V → W → Prop}

/-- The same search under other names: `R` for the vertices reached last, `R'` for the rest. -/
structure Row.Rel (R R' : V → W → Prop) (row : Row V) (row' : Row W) : Prop where
  frontier : List.Forall₂ R row.frontier row'.frontier
  visited : List.Forall₂ R' row.visited row'.visited
  seenDst : List.Forall₂ R' row.seenDst row'.seenDst

structure Hop.Rel (R' : V → W → Prop) (h : Hop V) (h' : Hop W) : Prop where
  next : List.Forall₂ R' h.next h'.next
  visited : List.Forall₂ R' h.visited h'.visited
  seenDst : List.Forall₂ R' h.seenDst h'.seenDst
  emitted : List.Forall₂ R' h.emitted h'.emitted

variable {h' : Hop W} {v' : W}

lemma Hop.Rel.emit {emit : Bool} {h : Hop V} (hR : Relator.BiUnique R') (hh : h.Rel R' h')
    (hv : R' v v') : (h.emit emit v).Rel R' (h'.emit emit v') := by
  have hmem := rel_mem hR hv hh.seenDst
  unfold Hop.emit
  simp only [hmem]
  split
  · exact ⟨hh.next, hh.visited, .cons hv hh.seenDst, rel_append hh.emitted (.cons hv .nil)⟩
  · exact hh

lemma Hop.Rel.visit {same emit : Bool} {h : Hop V} {node' : W} (hR : Relator.BiUnique R')
    (hh : h.Rel R' h') (hv : R' v v') (hself : same = true → (v = node ↔ v' = node')) :
    (h.visit same emit node v).Rel R' (h'.visit same emit node' v') := by
  have hmem := rel_mem hR hv hh.visited
  have hnext := rel_append hh.next (.cons hv .nil)
  unfold Hop.visit
  cases same with
  | false => exact Hop.Rel.emit hR ⟨hnext, hh.visited, hh.seenDst, hh.emitted⟩ hv
  | true =>
    simp only [hself rfl, hmem, Bool.true_and, decide_eq_true_eq, Bool.not_true,
      Bool.false_eq_true, if_false]
    split
    · exact hh.emit hR hv
    · split
      · exact hh
      · exact Hop.Rel.emit hR ⟨hnext, .cons hv hh.visited, hh.seenDst, hh.emitted⟩ hv

/-- A level does not depend on the names. -/
theorem Row.Rel.advance {same emit : Bool} {row : Row V} {row' : Row W} {nbrs' : W → List W}
    (hR : Relator.BiUnique R')
    (hself : same = true → ∀ a a' b b', R a a' → R' b b' → (b = a ↔ b' = a'))
    (hrow : row.Rel R R' row') (hnbrs : ∀ a a', R a a' → List.Forall₂ R' (nbrs a) (nbrs' a')) :
    (row.advance same emit nbrs).Rel R' (row'.advance same emit nbrs') := by
  have hinner : ∀ h h', Hop.Rel R' h h' → ∀ a a', R a a' →
      Hop.Rel R' ((nbrs a).foldl (fun h v => h.visit same emit a v) h)
        ((nbrs' a').foldl (fun h v => h.visit same emit a' v) h') := by
    intro h h' hh a a' ha
    refine rel_foldl (fun _ _ hh b b' hb => ?_) hh (hnbrs a a' ha)
    exact Hop.Rel.visit hR hh hb fun hsame => hself hsame a a' b b' ha hb
  exact rel_foldl hinner ⟨.nil, hrow.visited, hrow.seenDst, .nil⟩ hrow.frontier

end Rename

end Levels
