import Mathlib.Data.Finset.Basic
import Mathlib.Data.Finset.Lattice.Lemmas
import Omnigraph.Lib.Keyed

/-!
# The last row of each key

Of rows with keys the last one of each key is kept, and every row without a key. A walk from the
last row to the first, with the set of the keys it has met, finds them.
-/

namespace LastWins

open List

variable {κ R β : Type*} [DecidableEq κ] {key : R → Option κ}

/-- The keys of rows. -/
def keys (key : R → Option κ) (rows : List R) : Finset κ := (rows.filterMap key).toFinset

/-- The rows that are kept, where some keys are met later on. -/
def keepBefore (key : R → Option κ) (later : Finset κ) : List R → List R
  | [] => []
  | r :: rest =>
    if ∃ k ∈ key r, k ∈ keys key rest ∪ later then keepBefore key later rest
    else r :: keepBefore key later rest

/-- The last row of each key and the rows without one, in order. -/
def keep (key : R → Option κ) (rows : List R) : List R := keepBefore key ∅ rows

@[simp] lemma keys_nil : keys key ([] : List R) = ∅ := rfl

variable {k : κ} {rows : List R} {r : R} {R' : Type*}

lemma mem_keys : k ∈ keys key rows ↔ ∃ r ∈ rows, key r = some k := by
  simp [keys]

lemma keys_append (rows rows' : List R) :
    keys key (rows ++ rows') = keys key rows ∪ keys key rows' := by
  simp [keys, filterMap_append, toFinset_append]

lemma keys_cons_of_none (h : key r = none) (rest : List R) :
    keys key (r :: rest) = keys key rest := by
  simp [keys, h]

lemma keys_cons_of_some (h : key r = some k) (rest : List R) :
    keys key (r :: rest) = insert k (keys key rest) := by
  simp [keys, h]

lemma keys_map (f : R' → R) (rows : List R') :
    keys key (rows.map f) = keys (fun r => key (f r)) rows := by
  rw [keys, keys, filterMap_map]
  rfl

lemma keepBefore_append (later : Finset κ) (rows rows' : List R) :
    keepBefore key later (rows ++ rows') =
      keepBefore key (keys key rows' ∪ later) rows ++ keepBefore key later rows' := by
  induction rows with
  | nil => rfl
  | cons r rest ih =>
    rw [cons_append, keepBefore, keepBefore, ih, keys_append, Finset.union_assoc]
    split_ifs
    · rfl
    · rfl

lemma keepBefore_map (f : R' → R) (later : Finset κ) (rows : List R') :
    keepBefore key later (rows.map f) = (keepBefore (fun r => key (f r)) later rows).map f := by
  induction rows with
  | nil => rfl
  | cons r rest ih =>
    rw [map_cons, keepBefore, keepBefore, ih, keys_map]
    split_ifs
    · rfl
    · rfl

lemma keepBefore_sublist (later : Finset κ) (rows : List R) :
    (keepBefore key later rows).Sublist rows := by
  induction rows with
  | nil => exact List.Sublist.refl _
  | cons r rest ih =>
    rw [keepBefore]
    split_ifs
    · exact ih.cons r
    · exact ih.cons_cons r

/-- The last row is kept, so some row is. -/
lemma keep_ne_nil (h : rows ≠ []) : keep key rows ≠ [] := by
  obtain ⟨front, last, rfl⟩ := (eq_nil_or_concat rows).resolve_left h
  rw [concat_eq_append, keep, keepBefore_append]
  simp [keepBefore]

/-- A row at its place has no key, or no row at a later place has the same one. -/
def lastAt (key : R → Option κ) (rows : List (R × ℕ)) (p : R × ℕ) : Bool :=
  decide (key p.1 = none ∨ ∀ q ∈ rows, p.2 < q.2 → key q.1 ≠ key p.1)

variable {start : ℕ} {rest : List R} {q : R}

lemma lastAt_cons_of_lt {rows : List (R × ℕ)} {p : R × ℕ} (h : start < p.2) :
    lastAt key ((r, start) :: rows) p = lastAt key rows p := by
  unfold lastAt
  rw [decide_eq_decide, forall_mem_cons]
  refine or_congr_right (and_iff_right fun hlt => ?_)
  exact absurd h (Nat.lt_asymm hlt)

lemma lastAt_head :
    lastAt key ((r, start) :: rest.zipIdx (start + 1)) (r, start) = true ↔
      ¬ ∃ k ∈ key r, k ∈ keys key rest ∪ ∅ := by
  unfold lastAt
  rw [decide_eq_true_iff, Finset.union_empty]
  cases hkey : key r with
  | none => simp
  | some k =>
    simp only [Option.mem_some_iff, exists_eq_left', mem_keys, reduceCtorEq, false_or, not_exists,
      not_and]
    constructor
    · intro h q hq
      obtain ⟨i, hi, rfl⟩ := getElem_of_mem hq
      refine h (rest[i], start + 1 + i) (mem_cons_of_mem _ ?_) (by show start < _; omega)
      rw [mk_add_mem_zipIdx_iff_getElem?]
      exact List.getElem?_eq_getElem hi
    · rintro h q hq hlt
      rcases mem_cons.mp hq with rfl | hq
      · exact absurd hlt (Nat.lt_irrefl _)
      · exact h q.1 (fst_mem_of_mem_zipIdx hq)

/-- A row is kept where it is unless a later row has its key. -/
theorem keep_eq_filter (rows : List R) :
    keep key rows = (rows.zipIdx.filter (lastAt key rows.zipIdx)).map Prod.fst := by
  have hrun : ∀ start, keepBefore key ∅ rows =
      ((rows.zipIdx start).filter (lastAt key (rows.zipIdx start))).map Prod.fst := by
    induction rows with
    | nil => exact fun _ => rfl
    | cons r rest ih =>
      intro start
      -- the first row comes after no other
      have hrest : (rest.zipIdx (start + 1)).filter
          (lastAt key ((r, start) :: rest.zipIdx (start + 1))) =
            (rest.zipIdx (start + 1)).filter (lastAt key (rest.zipIdx (start + 1))) :=
        filter_congr fun p hp => lastAt_cons_of_lt (le_snd_of_mem_zipIdx hp)
      rw [zipIdx_cons, keepBefore, ih (start + 1), ← hrest]
      by_cases hlater : ∃ k ∈ key r, k ∈ keys key rest ∪ ∅
      · rw [if_pos hlater, filter_cons_of_neg (mt lastAt_head.mp (not_not.mpr hlater))]
      · rw [if_neg hlater, filter_cons_of_pos (lastAt_head.mpr hlater), map_cons]
  exact hrun 0

/-! ### The last rows -/

omit [DecidableEq κ] in
lemma isLast_cons :
    Keyed.IsLast key (r :: rest) q ↔
      Keyed.IsLast key rest q ∨ (q = r ∧ ∀ p ∈ rest, key p ≠ key r) := by
  constructor
  · rintro ⟨pre, post, heq, hlast⟩
    cases pre with
    | nil =>
      obtain ⟨rfl, rfl⟩ := List.cons.inj heq
      exact .inr ⟨rfl, hlast⟩
    | cons p pre =>
      obtain ⟨rfl, rfl⟩ := List.cons.inj heq
      exact .inl ⟨pre, post, rfl, hlast⟩
  · rintro (⟨pre, post, rfl, hlast⟩ | ⟨rfl, hlast⟩)
    · exact ⟨r :: pre, post, rfl, hlast⟩
    · exact ⟨[], rest, rfl, hlast⟩

omit [DecidableEq κ] in
/-- Last rows of images are images of last rows, where the keys of the images tell the same
apart. -/
lemma isLast_map {R' κ' : Type*} {key' : R' → κ'} {f : R → R'} {rows : List R}
    (hkeys : ∀ r ∈ rows, ∀ q ∈ rows, key' (f r) = key' (f q) ↔ key r = key q) {p : R'} :
    Keyed.IsLast key' (rows.map f) p ↔ ∃ r, Keyed.IsLast key rows r ∧ f r = p := by
  constructor
  · rintro ⟨pre, post, heq, hlast⟩
    obtain ⟨pre, rest, rfl, rfl, hrest⟩ := map_eq_append_iff.mp heq
    obtain ⟨r, post, rfl, rfl, rfl⟩ := map_eq_cons_iff.mp hrest
    refine ⟨r, ⟨pre, post, rfl, fun q hq hkey => ?_⟩, rfl⟩
    refine hlast (f q) (List.mem_map_of_mem hq) ?_
    exact (hkeys q (by simp [hq]) r (by simp)).mpr hkey
  · rintro ⟨r, ⟨pre, post, rfl, hlast⟩, rfl⟩
    refine ⟨pre.map f, post.map f, by simp, fun p hp hkey => ?_⟩
    obtain ⟨q, hq, rfl⟩ := List.mem_map.mp hp
    exact hlast q hq ((hkeys q (by simp [hq]) r (by simp)).mp hkey)

/-- Where every row has a key, the rows that are kept are the last ones. -/
lemma mem_keep_iff (hkeys : ∀ r ∈ rows, key r ≠ none) :
    q ∈ keep key rows ↔ Keyed.IsLast key rows q := by
  induction rows with
  | nil => simp [keep, keepBefore, Keyed.isLast_nil]
  | cons r rest ih =>
    obtain ⟨k, hk⟩ := Option.ne_none_iff_exists'.mp (hkeys r mem_cons_self)
    have ih := ih fun p hp => hkeys p (mem_cons_of_mem _ hp)
    have hlater : (∃ j ∈ key r, j ∈ keys key rest ∪ ∅) ↔ ¬ ∀ p ∈ rest, key p ≠ key r := by
      simp [hk, mem_keys]
    rw [isLast_cons, ← ih, keep, keepBefore, keep]
    split_ifs with h
    · rw [hlater] at h
      simp [h]
    · rw [hlater, not_not] at h
      rw [mem_cons, or_comm, and_iff_left h]

lemma nodup_keep (hkeys : ∀ r ∈ rows, key r ≠ none) : ((keep key rows).map key).Nodup := by
  induction rows with
  | nil => exact nodup_nil
  | cons r rest ih =>
    have ih := ih fun p hp => hkeys p (mem_cons_of_mem _ hp)
    rw [keep, keepBefore]
    split_ifs with h
    · exact ih
    · rw [map_cons, nodup_cons]
      refine ⟨fun hmem => ?_, ih⟩
      obtain ⟨k, hk⟩ := Option.ne_none_iff_exists'.mp (hkeys r mem_cons_self)
      obtain ⟨p, hp, hpk⟩ := List.mem_map.mp hmem
      refine h ⟨k, hk, Finset.mem_union_left _ (mem_keys.mpr ⟨p, ?_, hpk.trans hk⟩)⟩
      exact (keepBefore_sublist ∅ rest).subset hp

/-! ### The walk -/

/-- One row of the walk: the keys met, what is put down for the rows kept, and whether one was
not. -/
def step (key : R → Option κ) (put : R → β) (r : R) (state : Finset κ × List β × Bool) :
    Finset κ × List β × Bool :=
  match key r with
  | none => (state.1, put r :: state.2.1, state.2.2)
  | some k =>
    if k ∈ state.1 then (state.1, state.2.1, true)
    else (insert k state.1, put r :: state.2.1, state.2.2)

/-- The walk puts down the rows that are kept, and tells whether these are all. -/
lemma foldr_step (put : R → β) (later : Finset κ) (dropped : Bool) (rows : List R) :
    rows.foldr (step key put) (later, [], dropped) =
      (keys key rows ∪ later, (keepBefore key later rows).map put,
        dropped || decide ((keepBefore key later rows).length < rows.length)) := by
  induction rows with
  | nil => simp [keepBefore]
  | cons r rest ih =>
    have hle := (@keepBefore_sublist _ _ _ key later rest).length_le
    rw [foldr_cons, ih, step, keepBefore]
    cases hkey : key r with
    | none => simp [keys_cons_of_none hkey]
    | some k =>
      have hlater : (∃ j ∈ some k, j ∈ keys key rest ∪ later) ↔ k ∈ keys key rest ∪ later := by
        simp
      rw [keys_cons_of_some hkey, Finset.insert_union]
      dsimp only
      by_cases hk : k ∈ keys key rest ∪ later
      · have hlt : (keepBefore key later rest).length < (r :: rest).length := Nat.lt_succ_of_le hle
        rw [if_pos hk, if_pos (hlater.mpr hk), Finset.insert_eq_of_mem hk, decide_eq_true hlt,
          Bool.or_true]
      · rw [if_neg hk, if_neg (mt hlater.mp hk), map_cons]
        simp only [length_cons, Nat.succ_lt_succ_iff]

end LastWins
