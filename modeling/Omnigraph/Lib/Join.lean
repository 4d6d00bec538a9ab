import Mathlib.Data.List.Count
import Mathlib.Data.List.Forall2

/-!
# Separator-joined texts

When does a separator-joined text determine its pieces? Pieces free of the separator's first
symbol can be cut off from the left one by one; one piece that may hold the separator is bounded
from both sides, by the count of separators that follow it.
-/

namespace Join

open List

variable {α : Type*}

variable {c : α} {u u' w w' s : List α} {l l' : List (List α)}

/-- Two texts that agree up to the first separator agree before and after it. -/
lemma cut_left (hu : c ∉ u) (hu' : c ∉ u') (h : u ++ c :: w = u' ++ c :: w') : u = u' ∧ w = w' := by
  induction u generalizing u' with
  | nil =>
    cases u' with
    | nil => simpa using h
    | cons x u' =>
      simp only [nil_append, cons_append, List.cons.injEq] at h
      exact absurd (h.1 ▸ mem_cons_self) hu'
  | cons x u ih =>
    cases u' with
    | nil =>
      simp only [nil_append, cons_append, List.cons.injEq] at h
      exact absurd (h.1 ▸ mem_cons_self) hu
    | cons y u' =>
      simp only [cons_append, List.cons.injEq] at h
      obtain ⟨rfl, h⟩ := h
      simp only [mem_cons, not_or] at hu hu'
      obtain ⟨rfl, hw⟩ := ih hu.2 hu'.2 h
      exact ⟨rfl, hw⟩

/-- Two texts with the same number of separators after a marked one agree on both sides of it. -/
lemma cut_right [DecidableEq α] (hc : w.count c = w'.count c) (h : u ++ c :: w = u' ++ c :: w') :
    u = u' ∧ w = w' := by
  -- a difference in the lengths of `u` and `u'` would put one more separator into `w` or `w'`
  rcases append_eq_append_iff.mp h with ⟨a, rfl, ha⟩ | ⟨a, rfl, ha⟩
  · cases a with
    | nil => simpa using ha
    | cons x a =>
      simp only [cons_append, List.cons.injEq] at ha
      obtain ⟨rfl, rfl⟩ := ha
      simp only [count_append, count_cons_self] at hc
      omega
  · cases a with
    | nil => simpa [eq_comm] using ha
    | cons x a =>
      simp only [cons_append, List.cons.injEq] at ha
      obtain ⟨rfl, rfl⟩ := ha
      simp only [count_append, count_cons_self] at hc
      omega

/-- Pieces free of the separator's first symbol are determined by their joined text and their
number. -/
lemma intercalate_inj_of_length (hlen : l.length = l'.length) (hl : ∀ x ∈ l, c ∉ x)
    (hl' : ∀ x ∈ l', c ∉ x) (h : (c :: s).intercalate l = (c :: s).intercalate l') : l = l' := by
  induction l generalizing l' with
  | nil => exact (length_eq_zero_iff.mp hlen.symm).symm
  | cons x l ih =>
    cases l' with
    | nil => simp at hlen
    | cons x' l' =>
      have hx := hl x mem_cons_self
      have hx' := hl' x' mem_cons_self
      cases l with
      | nil =>
        obtain rfl : l' = [] := by simpa [eq_comm] using hlen
        simpa using h
      | cons y l =>
        cases l' with
        | nil => simp at hlen
        | cons y' l' =>
          simp only [intercalate_cons_cons, append_assoc, cons_append] at h
          obtain ⟨rfl, hrest⟩ := cut_left hx hx' h
          rw [ih (by simpa using hlen) (fun z hz => hl z (mem_cons_of_mem _ hz))
            (fun z hz => hl' z (mem_cons_of_mem _ hz)) (append_cancel_left hrest)]

/-- Non-empty pieces free of the separator's first symbol are determined by their joined text. -/
lemma intercalate_inj_of_ne_nil (hl : ∀ x ∈ l, x ≠ [] ∧ c ∉ x) (hl' : ∀ x ∈ l', x ≠ [] ∧ c ∉ x)
    (h : (c :: s).intercalate l = (c :: s).intercalate l') : l = l' := by
  induction l generalizing l' with
  | nil =>
    cases l' with
    | nil => rfl
    | cons x' l' =>
      have hx' := (hl' x' mem_cons_self).1
      cases l' <;> simp [hx'.symm] at h
  | cons x l ih =>
    obtain ⟨hx, hcx⟩ := hl x mem_cons_self
    cases l' with
    | nil => cases l <;> simp [hx] at h
    | cons x' l' =>
      obtain ⟨hx', hcx'⟩ := hl' x' mem_cons_self
      cases l with
      | nil =>
        cases l' with
        | nil => simpa using h
        | cons y' l' =>
          simp only [intercalate_singleton, intercalate_cons_cons] at h
          exact absurd (by simp [h]) hcx
      | cons y l =>
        cases l' with
        | nil =>
          simp only [intercalate_singleton, intercalate_cons_cons] at h
          exact absurd (by simp [← h]) hcx'
        | cons y' l' =>
          simp only [intercalate_cons_cons, append_assoc, cons_append] at h
          obtain ⟨rfl, hrest⟩ := cut_left hcx hcx' h
          rw [ih (fun z hz => hl z (mem_cons_of_mem _ hz))
            (fun z hz => hl' z (mem_cons_of_mem _ hz)) (append_cancel_left hrest)]

lemma notMem_intercalate (hs : c ∉ s) (hl : ∀ x ∈ l, c ∉ x) : c ∉ s.intercalate l := by
  induction l with
  | nil => simp
  | cons x l ih =>
    have hx := hl x mem_cons_self
    cases l with
    | nil => simpa using hx
    | cons y l =>
      rw [intercalate_cons_cons, mem_append, mem_append]
      simp only [hx, hs, ih fun z hz => hl z (mem_cons_of_mem _ hz), or_self,
        not_false_eq_true]

/-- Joining separator-free pieces puts in one separator less than there are pieces. -/
lemma count_intercalate [DecidableEq α] (hl : ∀ x ∈ l, c ∉ x) :
    ([c].intercalate l).count c = l.length - 1 := by
  induction l with
  | nil => rfl
  | cons x l ih =>
    have hx := count_eq_zero_of_not_mem (hl x mem_cons_self)
    cases l with
    | nil => simpa using hx
    | cons y l =>
      rw [intercalate_cons_cons, count_append, count_append, hx,
        ih (fun z hz => hl z (mem_cons_of_mem _ hz))]
      simp [Nat.add_comm]

/-- A list of pieces of which at most one holds the separator `c`, at a place given by `free`: the
pieces marked `true` may hold anything, and at most one is marked. -/
structure OneFree (c : α) (free : List Bool) (l : List (List α)) : Prop where
  held : List.Forall₂ (fun b x => b = false → c ∉ x) free l
  atMostOne : free.count true ≤ 1

lemma OneFree.tail {c : α} {b : Bool} {free : List Bool} {x : List α} {l : List (List α)}
    (h : OneFree c (b :: free) (x :: l)) : OneFree c free l :=
  ⟨(List.forall₂_cons.mp h.held).2, Nat.le_trans count_le_count_cons h.atMostOne⟩

variable {free : List Bool}

lemma OneFree.notMem_of_count (h : List.Forall₂ (fun b x => b = false → c ∉ x) free l)
    (hfree : free.count true = 0) : ∀ x ∈ l, c ∉ x := by
  induction h with
  | nil => simp
  | cons hx _ ih =>
    rename_i b x free l _
    cases b with
    | true => simp at hfree
    | false =>
      intro z hz
      rcases mem_cons.mp hz with rfl | hz
      · exact hx rfl
      · exact ih (by simpa using hfree) z hz

/-- A text joined with a one-symbol separator determines its pieces when at most one place may
hold the separator. -/
theorem intercalate_inj_of_oneFree [DecidableEq α] (hl : OneFree c free l) (hl' : OneFree c free l')
    (h : [c].intercalate l = [c].intercalate l') : l = l' := by
  induction free generalizing l l' with
  | nil =>
    cases hl.held
    cases hl'.held
    rfl
  | cons b free ih =>
    obtain ⟨x, l, hx, -, rfl⟩ := List.forall₂_cons_left_iff.mp hl.held
    obtain ⟨x', l', hx', -, rfl⟩ := List.forall₂_cons_left_iff.mp hl'.held
    have hlen : l.length = l'.length :=
      hl.tail.held.length_eq.symm.trans hl'.tail.held.length_eq
    cases l with
    | nil =>
      obtain rfl : l' = [] := length_eq_zero_iff.mp hlen.symm
      simpa using h
    | cons y l =>
      cases l' with
      | nil => simp at hlen
      | cons y' l' =>
        simp only [intercalate_cons_cons, append_assoc, cons_append,
          nil_append] at h
        cases b with
        | false =>
          obtain ⟨rfl, htail⟩ := cut_left (hx rfl) (hx' rfl) h
          rw [ih hl.tail hl'.tail htail]
        | true =>
          -- the marked piece comes first, so all that follows is free of the separator
          have hfree : free.count true = 0 := by
            have := hl.atMostOne
            simp only [count_cons_self] at this
            omega
          have hrest := OneFree.notMem_of_count hl.tail.held hfree
          have hrest' := OneFree.notMem_of_count hl'.tail.held hfree
          obtain ⟨rfl, htail⟩ := cut_right (by
            rw [count_intercalate hrest, count_intercalate hrest', hlen]) h
          rw [ih hl.tail hl'.tail htail]

/-! ### The pieces of a join -/

/-- Splitting a join gives the pieces of its parts. -/
lemma splitOn_intercalate_cons [DecidableEq α] (c : α) (x : List α) (l : List (List α)) :
    ([c].intercalate (x :: l)).splitOn c = (x :: l).flatMap (List.splitOn c) := by
  induction l generalizing x with
  | nil => simp
  | cons y l ih =>
    rw [intercalate_cons_cons, append_assoc, singleton_append,
      splitOn_append_cons_self, ih]
    simp only [flatMap_cons]

/-- Two joins are equal exactly when their parts have the same pieces. -/
lemma intercalate_eq_iff [DecidableEq α] {x y : List α} {m : List (List α)} :
    [c].intercalate (x :: l) = [c].intercalate (y :: m) ↔
      (x :: l).flatMap (List.splitOn c) = (y :: m).flatMap (List.splitOn c) := by
  rw [← splitOn_intercalate_cons, ← splitOn_intercalate_cons]
  constructor
  · exact congrArg (List.splitOn c)
  · intro h
    calc [c].intercalate (x :: l)
        = [c].intercalate (([c].intercalate (x :: l)).splitOn c) := (intercalate_splitOn c).symm
      _ = [c].intercalate (y :: m) := by rw [h, intercalate_splitOn]

/-! ### What a join cannot tell apart -/

lemma exists_intercalate_append (s : List α) (l : List (List α)) :
    ∃ p, ∀ x l', s.intercalate (l ++ x :: l') = p ++ s.intercalate (x :: l') := by
  induction l with
  | nil => exact ⟨[], fun x l' => rfl⟩
  | cons y l ih =>
    obtain ⟨p, hp⟩ := ih
    refine ⟨y ++ s ++ p, fun x l' => ?_⟩
    rw [cons_append, intercalate_cons_of_ne_nil (by simp), hp]
    simp only [append_assoc]

lemma exists_intercalate_cons (s : List α) (l : List (List α)) :
    ∃ t, ∀ x, s.intercalate (x :: l) = x ++ t := by
  cases l with
  | nil => exact ⟨[], fun x => by simp⟩
  | cons y l => exact ⟨s ++ s.intercalate (y :: l), fun x => by simp⟩

/-- A join with two open places leaves a fixed text between them; the text can move from one place
to the other unseen. -/
theorem exists_swap (hs : s ≠ []) (l m r : List (List α)) :
    ∃ j, j ≠ [] ∧
      s.intercalate (l ++ [] :: (m ++ j :: r)) = s.intercalate (l ++ j :: (m ++ [] :: r)) := by
  obtain ⟨p, hp⟩ := exists_intercalate_append s l
  obtain ⟨q, hq⟩ := exists_intercalate_append s m
  obtain ⟨t, ht⟩ := exists_intercalate_cons s r
  refine ⟨s ++ q, by simp [hs], ?_⟩
  rw [hp, hp, intercalate_cons_of_ne_nil (by simp),
    intercalate_cons_of_ne_nil (by simp), hq, hq, ht, ht]
  simp only [nil_append, append_assoc]

end Join
