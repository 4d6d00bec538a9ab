import Omnigraph.Lib.MergeJoin

/-!
# Differences of sorted lists

Two lists, each strictly ascending by key, are walked together. A key in the first list only is
deleted, a key in the second list only is inserted, and a key in both is updated unless the two rows
count as the same.
-/

namespace Diff

open List

open MergeJoin (Ascending)

inductive Edit (R : Type*)
  | delete (a : R)
  | insert (b : R)
  | update (a b : R)

variable {κ R : Type*} [LinearOrder κ] (key : R → κ) (same : R → R → Bool)

def Edit.keyOf : Edit R → κ
  | delete a => key a
  | insert b => key b
  | update _ b => key b

/-- The walk while `a` is at the head of the first list; `rest` walks on without `a`. -/
def diffFrom (a : R) (rest : List R → List (Edit R)) : List R → List (Edit R)
  | [] => .delete a :: rest []
  | b :: tgt =>
    if key a < key b then .delete a :: rest (b :: tgt)
    else if key b < key a then .insert b :: diffFrom a rest tgt
    else if same a b then rest tgt
    else .update a b :: rest tgt

/-- The edits that lead from the first list to the second. -/
def diff : List R → List R → List (Edit R)
  | [], tgt => tgt.map .insert
  | a :: src, tgt => diffFrom key same a (diff src) tgt

/-- One step of the walk, while `a` is at the head of the first list. -/
def nextFrom (a : R) (src : List R) (rest : List R → Option (Edit R × List R × List R)) :
    List R → Option (Edit R × List R × List R)
  | [] => some (.delete a, src, [])
  | b :: tgt =>
    if key a < key b then some (.delete a, src, b :: tgt)
    else if key b < key a then some (.insert b, a :: src, tgt)
    else if same a b then rest tgt
    else some (.update a b, src, tgt)

/-- The next edit, with what is left of the two lists after it. -/
def next : List R → List R → Option (Edit R × List R × List R)
  | [], [] => none
  | [], b :: tgt => some (.insert b, [], tgt)
  | a :: src, tgt => nextFrom key same a src (next src) tgt

variable {key same}

/-- Induction along the walk. -/
lemma walk_induction (key : R → κ) {P : List R → List R → Prop} (insert : ∀ tgt, P [] tgt)
    (delete : ∀ a src, P src [] → P (a :: src) [])
    (less : ∀ a src b tgt, key a < key b → P src (b :: tgt) → P (a :: src) (b :: tgt))
    (greater : ∀ a src b tgt, key b < key a → P (a :: src) tgt → P (a :: src) (b :: tgt))
    (equal : ∀ a src b tgt, key a = key b → P src tgt → P (a :: src) (b :: tgt))
    (src tgt : List R) : P src tgt := by
  induction src generalizing tgt with
  | nil => exact insert tgt
  | cons a src ih =>
    induction tgt with
    | nil => exact delete a src (ih [])
    | cons b tgt ihtgt =>
      rcases lt_trichotomy (key a) (key b) with h | h | h
      · exact less a src b tgt h (ih (b :: tgt))
      · exact equal a src b tgt h (ih tgt)
      · exact greater a src b tgt h ihtgt

section Equations

variable {a b : R} {src tgt : List R}

@[simp] lemma diff_nil : diff key same [] tgt = tgt.map .insert := by
  cases tgt <;> rfl

@[simp] lemma diff_cons_nil : diff key same (a :: src) [] = .delete a :: diff key same src [] := rfl

lemma diff_of_lt (h : key a < key b) :
    diff key same (a :: src) (b :: tgt) = .delete a :: diff key same src (b :: tgt) := by
  rw [diff, diffFrom, if_pos h]

lemma diff_of_gt (h : key b < key a) :
    diff key same (a :: src) (b :: tgt) = .insert b :: diff key same (a :: src) tgt := by
  rw [diff, diffFrom, if_neg h.not_gt, if_pos h, ← diff]

lemma diff_of_eq (h : key a = key b) :
    diff key same (a :: src) (b :: tgt) =
      if same a b then diff key same src tgt else .update a b :: diff key same src tgt := by
  rw [diff, diffFrom, if_neg h.not_lt, if_neg h.not_gt]

end Equations

/-- The walk step by step gives the edits. -/
lemma next_eq (src tgt : List R) :
    (next key same src tgt = none ∧ diff key same src tgt = []) ∨
      ∃ e src' tgt', next key same src tgt = some (e, src', tgt') ∧
        diff key same src tgt = e :: diff key same src' tgt' := by
  induction src, tgt using walk_induction key with
  | insert tgt =>
    cases tgt with
    | nil => exact .inl ⟨rfl, rfl⟩
    | cons b tgt => exact .inr ⟨_, _, _, rfl, by simp⟩
  | delete a src => exact .inr ⟨_, _, _, rfl, rfl⟩
  | less a src b tgt h =>
    exact .inr ⟨.delete a, src, b :: tgt, by rw [next, nextFrom, if_pos h], diff_of_lt h⟩
  | greater a src b tgt h =>
    refine .inr ⟨.insert b, a :: src, tgt, ?_, diff_of_gt h⟩
    rw [next, nextFrom, if_neg h.not_gt, if_pos h]
  | equal a src b tgt h ih =>
    rw [diff_of_eq h, next, nextFrom, if_neg h.not_lt, if_neg h.not_gt]
    by_cases hsame : same a b
    · rw [if_pos hsame, if_pos hsame]
      exact ih
    · rw [if_neg hsame, if_neg hsame]
      exact .inr ⟨_, _, _, rfl, rfl⟩

/-! ### What the edits are -/

/-- What an edit says about the two lists. -/
def Edit.Holds (key : R → κ) (same : R → R → Bool) (src tgt : List R) : Edit R → Prop
  | .delete a => a ∈ src ∧ ∀ b ∈ tgt, key b ≠ key a
  | .insert b => b ∈ tgt ∧ ∀ a ∈ src, key a ≠ key b
  | .update a b => a ∈ src ∧ b ∈ tgt ∧ key a = key b ∧ same a b = false

section Holds

variable {a b : R} {src tgt : List R}

lemma holds_of_lt (h : key a < key b) (ha : ∀ x ∈ src, key a < key x)
    (hb : ∀ y ∈ tgt, key b < key y) (e : Edit R) :
    e.Holds key same (a :: src) (b :: tgt) ↔ e = .delete a ∨ e.Holds key same src (b :: tgt) := by
  have hlt : ∀ y ∈ b :: tgt, key a < key y :=
    forall_mem_cons.mpr ⟨h, fun y hy => h.trans (hb y hy)⟩
  cases e with
  | delete x =>
    simp only [Edit.Holds, mem_cons, Edit.delete.injEq]
    constructor
    · rintro ⟨rfl | hx, hne⟩
      · exact .inl rfl
      · exact .inr ⟨hx, hne⟩
    · rintro (rfl | ⟨hx, hne⟩)
      · exact ⟨.inl rfl, fun y hy => (hlt y (mem_cons.mpr hy)).ne'⟩
      · exact ⟨.inr hx, hne⟩
  | insert y =>
    simp only [Edit.Holds, forall_mem_cons, reduceCtorEq, false_or]
    exact and_congr_right fun hy => and_iff_right (hlt y hy).ne
  | update x y =>
    simp only [Edit.Holds, reduceCtorEq, false_or]
    refine ⟨?_, fun ⟨hx, hrest⟩ => ⟨mem_cons_of_mem a hx, hrest⟩⟩
    rintro ⟨hx, hy, hkey, hsame⟩
    rcases mem_cons.mp hx with rfl | hx
    · exact absurd hkey (hlt y hy).ne
    · exact ⟨hx, hy, hkey, hsame⟩

lemma holds_of_gt (h : key b < key a) (ha : ∀ x ∈ src, key a < key x)
    (e : Edit R) :
    e.Holds key same (a :: src) (b :: tgt) ↔ e = .insert b ∨ e.Holds key same (a :: src) tgt := by
  have hlt : ∀ x ∈ a :: src, key b < key x :=
    forall_mem_cons.mpr ⟨h, fun x hx => h.trans (ha x hx)⟩
  cases e with
  | delete x =>
    simp only [Edit.Holds, forall_mem_cons, reduceCtorEq, false_or]
    exact and_congr_right fun hx => and_iff_right (hlt x hx).ne
  | insert y =>
    simp only [Edit.Holds, mem_cons (b := b), Edit.insert.injEq]
    constructor
    · rintro ⟨rfl | hy, hne⟩
      · exact .inl rfl
      · exact .inr ⟨hy, hne⟩
    · rintro (rfl | ⟨hy, hne⟩)
      · exact ⟨.inl rfl, fun x hx => (hlt x hx).ne'⟩
      · exact ⟨.inr hy, hne⟩
  | update x y =>
    simp only [Edit.Holds, reduceCtorEq, false_or]
    refine ⟨?_, fun ⟨hx, hy, hrest⟩ => ⟨hx, mem_cons_of_mem b hy, hrest⟩⟩
    rintro ⟨hx, hy, hkey, hsame⟩
    rcases mem_cons.mp hy with rfl | hy
    · exact absurd hkey (hlt x hx).ne'
    · exact ⟨hx, hy, hkey, hsame⟩

lemma holds_of_eq (h : key a = key b) (ha : ∀ x ∈ src, key a < key x)
    (hb : ∀ y ∈ tgt, key b < key y) (e : Edit R) :
    e.Holds key same (a :: src) (b :: tgt) ↔
      (e = .update a b ∧ same a b = false) ∨ e.Holds key same src tgt := by
  have ha' : ∀ x ∈ src, key b < key x := fun x hx => h ▸ ha x hx
  have hb' : ∀ y ∈ tgt, key a < key y := fun y hy => h ▸ hb y hy
  cases e with
  | delete x =>
    simp only [Edit.Holds, mem_cons (b := a), forall_mem_cons, reduceCtorEq, false_and,
      false_or]
    constructor
    · rintro ⟨rfl | hx, hne, hrest⟩
      · exact absurd h.symm hne
      · exact ⟨hx, hrest⟩
    · rintro ⟨hx, hrest⟩
      exact ⟨.inr hx, (ha' x hx).ne, hrest⟩
  | insert y =>
    simp only [Edit.Holds, mem_cons (b := b), forall_mem_cons, reduceCtorEq, false_and,
      false_or]
    constructor
    · rintro ⟨rfl | hy, hne, hrest⟩
      · exact absurd h hne
      · exact ⟨hy, hrest⟩
    · rintro ⟨hy, hrest⟩
      exact ⟨.inr hy, (hb' y hy).ne, hrest⟩
  | update x y =>
    simp only [Edit.Holds, mem_cons, Edit.update.injEq]
    constructor
    · rintro ⟨rfl | hx, rfl | hy, hkey, hsame⟩
      · exact .inl ⟨⟨rfl, rfl⟩, hsame⟩
      · exact absurd hkey (hb' y hy).ne
      · exact absurd hkey (ha' x hx).ne'
      · exact .inr ⟨hx, hy, hkey, hsame⟩
    · rintro (⟨⟨rfl, rfl⟩, hsame⟩ | ⟨hx, hy, hkey, hsame⟩)
      · exact ⟨.inl rfl, .inl rfl, h, hsame⟩
      · exact ⟨.inr hx, .inr hy, hkey, hsame⟩

end Holds

theorem mem_diff {src tgt : List R} (hsrc : Ascending key src) (htgt : Ascending key tgt)
    (e : Edit R) : e ∈ diff key same src tgt ↔ e.Holds key same src tgt := by
  induction src, tgt using walk_induction key with
  | insert tgt => cases e <;> simp [Edit.Holds]
  | delete a src ih =>
    rw [diff_cons_nil, mem_cons, ih (pairwise_cons.mp hsrc).2 htgt]
    cases e <;> simp [Edit.Holds]
  | less a src b tgt h ih =>
    obtain ⟨ha, hsrc'⟩ := pairwise_cons.mp hsrc
    rw [diff_of_lt h, mem_cons, ih hsrc' htgt,
      holds_of_lt h ha (pairwise_cons.mp htgt).1]
  | greater a src b tgt h ih =>
    rw [diff_of_gt h, mem_cons, ih hsrc (pairwise_cons.mp htgt).2,
      holds_of_gt h (pairwise_cons.mp hsrc).1]
  | equal a src b tgt h ih =>
    obtain ⟨ha, hsrc'⟩ := pairwise_cons.mp hsrc
    obtain ⟨hb, htgt'⟩ := pairwise_cons.mp htgt
    rw [diff_of_eq h, holds_of_eq h ha hb, ← ih hsrc' htgt']
    cases hsame : same a b <;> simp

variable {e : Edit R}

omit [LinearOrder κ] in
lemma mem_keys_of_holds {src tgt : List R} (h : e.Holds key same src tgt) :
    e.keyOf key ∈ src.map key ∨ e.keyOf key ∈ tgt.map key := by
  cases e with
  | delete a => exact .inl (List.mem_map_of_mem h.1)
  | insert b => exact .inr (List.mem_map_of_mem h.1)
  | update a b => exact .inr (List.mem_map_of_mem h.2.1)

/-- Edits between rows above a key are above it. -/
lemma lt_keyOf {k : κ} {src tgt : List R} (hsrc : Ascending key src) (htgt : Ascending key tgt)
    (ha : ∀ x ∈ src, k < key x) (hb : ∀ y ∈ tgt, k < key y) (he : e ∈ diff key same src tgt) :
    k < e.keyOf key := by
  rcases mem_keys_of_holds ((mem_diff hsrc htgt e).mp he) with hkey | hkey
  · obtain ⟨x, hx, heq⟩ := List.mem_map.mp hkey
    exact heq ▸ ha x hx
  · obtain ⟨y, hy, heq⟩ := List.mem_map.mp hkey
    exact heq ▸ hb y hy

/-- There is one edit a key, and they ascend. -/
theorem diff_ascending {src tgt : List R} (hsrc : Ascending key src) (htgt : Ascending key tgt) :
    Ascending (Edit.keyOf key) (diff key same src tgt) := by
  induction src, tgt using walk_induction key with
  | insert tgt =>
    rw [diff_nil]
    exact pairwise_map.mpr htgt
  | delete a src ih =>
    obtain ⟨ha, hsrc'⟩ := pairwise_cons.mp hsrc
    rw [diff_cons_nil]
    exact pairwise_cons.mpr
      ⟨fun e he => lt_keyOf hsrc' htgt ha (by simp) he, ih hsrc' htgt⟩
  | less a src b tgt h ih =>
    obtain ⟨ha, hsrc'⟩ := pairwise_cons.mp hsrc
    obtain ⟨hb, -⟩ := pairwise_cons.mp htgt
    rw [diff_of_lt h]
    refine pairwise_cons.mpr ⟨fun e he => lt_keyOf hsrc' htgt ha ?_ he, ih hsrc' htgt⟩
    exact forall_mem_cons.mpr ⟨h, fun y hy => h.trans (hb y hy)⟩
  | greater a src b tgt h ih =>
    obtain ⟨ha, -⟩ := pairwise_cons.mp hsrc
    obtain ⟨hb, htgt'⟩ := pairwise_cons.mp htgt
    rw [diff_of_gt h]
    refine pairwise_cons.mpr ⟨fun e he => lt_keyOf hsrc htgt' ?_ hb he, ih hsrc htgt'⟩
    exact forall_mem_cons.mpr ⟨h, fun x hx => h.trans (ha x hx)⟩
  | equal a src b tgt h ih =>
    obtain ⟨ha, hsrc'⟩ := pairwise_cons.mp hsrc
    obtain ⟨hb, htgt'⟩ := pairwise_cons.mp htgt
    rw [diff_of_eq h]
    split
    · exact ih hsrc' htgt'
    · refine pairwise_cons.mpr ⟨fun e he => lt_keyOf hsrc' htgt' ?_ hb he, ih hsrc' htgt'⟩
      intro x hx
      rw [Edit.keyOf, ← h]
      exact ha x hx

/-- The walk over the rows above a key gives the edits above it. -/
theorem diff_filter_lt {src tgt : List R} (hsrc : Ascending key src) (htgt : Ascending key tgt)
    (k : κ) :
    diff key same (src.filter fun r => k < key r) (tgt.filter fun r => k < key r) =
      (diff key same src tgt).filter fun e => k < e.keyOf key := by
  have hsrc' : Ascending key (src.filter fun r => k < key r) := List.Pairwise.filter _ hsrc
  have htgt' : Ascending key (tgt.filter fun r => k < key r) := List.Pairwise.filter _ htgt
  refine MergeJoin.Ascending.ext (diff_ascending hsrc' htgt')
    (List.Pairwise.filter _ (diff_ascending hsrc htgt)) fun e => ?_
  rw [mem_diff hsrc' htgt', mem_filter, mem_diff hsrc htgt, decide_eq_true_eq]
  cases e with
  | delete a =>
    simp only [Edit.Holds, Edit.keyOf, mem_filter, decide_eq_true_eq]
    constructor
    · rintro ⟨⟨ha, hk⟩, hne⟩
      exact ⟨⟨ha, fun b hb heq => hne b ⟨hb, heq ▸ hk⟩ heq⟩, hk⟩
    · rintro ⟨⟨ha, hne⟩, hk⟩
      exact ⟨⟨ha, hk⟩, fun b hb => hne b hb.1⟩
  | insert b =>
    simp only [Edit.Holds, Edit.keyOf, mem_filter, decide_eq_true_eq]
    constructor
    · rintro ⟨⟨hb, hk⟩, hne⟩
      exact ⟨⟨hb, fun a ha heq => hne a ⟨ha, heq ▸ hk⟩ heq⟩, hk⟩
    · rintro ⟨⟨hb, hne⟩, hk⟩
      exact ⟨⟨hb, hk⟩, fun a ha => hne a ha.1⟩
  | update a b =>
    simp only [Edit.Holds, Edit.keyOf, mem_filter, decide_eq_true_eq]
    constructor
    · rintro ⟨⟨ha, -⟩, ⟨hb, hk⟩, hkey, hsame⟩
      exact ⟨⟨ha, hb, hkey, hsame⟩, hk⟩
    · rintro ⟨⟨ha, hb, hkey, hsame⟩, hk⟩
      exact ⟨⟨ha, hkey ▸ hk⟩, ⟨hb, hk⟩, hkey, hsame⟩

end Diff
