import Mathlib.Data.List.Induction
import Mathlib.Data.List.Nodup

/-!
# Keyed row sets

Rows stored under a key, at most one row a key, in no particular order. An upsert replaces the row
of its key or adds one. Of a list with several rows of one key, the last one or the first one is
kept.
-/

namespace Keyed

open List

variable {κ R : Type*} {key : R → κ}

/-- Rows that agree on the key are the same row. -/
def Functional (key : R → κ) (rows : List R) : Prop :=
  ∀ r ∈ rows, ∀ q ∈ rows, key r = key q → r = q

variable {rows : List R}

lemma functional_of_nodup (h : (rows.map key).Nodup) : Functional key rows :=
  fun _ hr _ hq hkey => inj_on_of_nodup_map h hr hq hkey

/-- `q` is the last row of its key. -/
def IsLast (key : R → κ) (pending : List R) (q : R) : Prop :=
  ∃ pre post, pending = pre ++ q :: post ∧ ∀ r ∈ post, key r ≠ key q

variable {pending : List R} {q r : R}

lemma IsLast.mem (h : IsLast key pending q) : q ∈ pending := by
  obtain ⟨pre, post, rfl, -⟩ := h
  simp

lemma isLast_nil : ¬ IsLast key [] q := by
  rintro ⟨pre, post, h, -⟩
  simp at h

lemma isLast_append_singleton :
    IsLast key (pending ++ [r]) q ↔ q = r ∨ (IsLast key pending q ∧ key r ≠ key q) := by
  constructor
  · rintro ⟨pre, post, heq, hlast⟩
    rcases eq_nil_or_concat post with rfl | ⟨front, last, rfl⟩
    · exact .inl (append_inj_right' heq rfl |> singleton_inj.mp).symm
    · rw [concat_eq_append] at heq hlast
      have heq' : pending ++ [r] = (pre ++ q :: front) ++ [last] := by simpa using heq
      obtain ⟨hpending, hr⟩ := append_inj' heq' rfl
      cases singleton_inj.mp hr
      refine .inr ⟨⟨pre, front, hpending, fun p hp => hlast p (by simp [hp])⟩, ?_⟩
      exact hlast r (by simp)
  · rintro (rfl | ⟨⟨pre, post, rfl, hlast⟩, hne⟩)
    · exact ⟨pending, [], rfl, by simp⟩
    · refine ⟨pre, post ++ [r], by simp, fun p hp => ?_⟩
      rcases mem_append.mp hp with hp | hp
      · exact hlast p hp
      · rw [mem_singleton.mp hp]
        exact hne

/-- Every key that occurs has a last row. -/
lemma exists_isLast {pending : List R} {r : R} (hr : r ∈ pending) :
    ∃ q, IsLast key pending q ∧ key q = key r := by
  induction pending using List.reverseRecOn with
  | nil => cases hr
  | append_singleton pending last ih =>
    simp only [isLast_append_singleton]
    by_cases hkey : key last = key r
    · exact ⟨last, .inl rfl, hkey⟩
    · have hr : r ∈ pending := by
        rcases mem_append.mp hr with hr | hr
        · exact hr
        · rw [mem_singleton.mp hr] at hkey
          exact absurd rfl hkey
      obtain ⟨q, hq, hqr⟩ := ih hr
      exact ⟨q, .inr ⟨hq, fun h => hkey (h.trans hqr)⟩, hqr⟩

lemma isLast_iff_mem (h : Functional key pending) : IsLast key pending q ↔ q ∈ pending := by
  constructor
  · exact IsLast.mem
  · intro hq
    obtain ⟨last, hlast, hkey⟩ := @exists_isLast _ _ key _ _ hq
    rwa [← h last hlast.mem q hq hkey]

variable [DecidableEq κ]

def upsert (key : R → κ) (rows : List R) (r : R) : List R :=
  rows.filter (fun q => key q ≠ key r) ++ [r]

def upsertAll (key : R → κ) (rows pending : List R) : List R := pending.foldl (upsert key) rows

lemma mem_upsert : q ∈ upsert key rows r ↔ (q ∈ rows ∧ key q ≠ key r) ∨ q = r := by
  simp [upsert]

lemma nodup_upsert (h : (rows.map key).Nodup) (r : R) : ((upsert key rows r).map key).Nodup := by
  rw [upsert, map_append, map_singleton]
  apply List.Nodup.append
  · exact h.sublist (filter_sublist.map key)
  · exact nodup_singleton _
  · intro k hk hr
    obtain ⟨q, hq, rfl⟩ := List.mem_map.mp hk
    rw [mem_singleton] at hr
    exact (of_decide_eq_true (mem_filter.mp hq).2) hr

lemma nodup_upsertAll (h : (rows.map key).Nodup) (pending : List R) :
    ((upsertAll key rows pending).map key).Nodup := by
  induction pending generalizing rows with
  | nil => exact h
  | cons r pending ih => exact ih (nodup_upsert h r)

/-- After upserting, the set holds the last row of each key and what no row replaced. -/
theorem mem_upsertAll_iff :
    q ∈ upsertAll key rows pending ↔
      IsLast key pending q ∨ (q ∈ rows ∧ ∀ r ∈ pending, key r ≠ key q) := by
  induction pending using List.reverseRecOn with
  | nil => simp [upsertAll, isLast_nil]
  | append_singleton pending r ih =>
    rw [upsertAll, foldl_append, foldl_cons, foldl_nil, ← upsertAll, mem_upsert, ih,
      isLast_append_singleton]
    simp only [mem_append, mem_singleton, or_imp, forall_and, forall_eq]
    constructor
    · rintro (⟨hlast | ⟨hq, hkeep⟩, hne⟩ | rfl)
      · exact .inl (.inr ⟨hlast, Ne.symm hne⟩)
      · exact .inr ⟨hq, hkeep, Ne.symm hne⟩
      · exact .inl (.inl rfl)
    · rintro ((rfl | ⟨hlast, hne⟩) | ⟨hq, hkeep, hne⟩)
      · exact .inr rfl
      · exact .inl ⟨.inl hlast, Ne.symm hne⟩
      · exact .inl ⟨.inr ⟨hq, hkeep⟩, Ne.symm hne⟩

/-- After upserting rows that agree where their keys do, the set holds these rows and what they
did not replace. -/
theorem mem_upsertAll (h : Functional key pending) :
    q ∈ upsertAll key rows pending ↔
      q ∈ pending ∨ (q ∈ rows ∧ ∀ r ∈ pending, key r ≠ key q) := by
  rw [mem_upsertAll_iff, isLast_iff_mem h]

/-! ### The first element of each key -/

section Firsts

variable {α β : Type*} (key : α → κ) (value : α → β)

/-- The keys met and the values kept. -/
def keepFirst (acc : List κ × List β) (a : α) : List κ × List β :=
  if key a ∈ acc.1 then acc else (key a :: acc.1, acc.2 ++ [value a])

/-- The value of the first element of each key. -/
def firsts (l : List α) : List β := (l.foldl (keepFirst key value) ([], [])).2

variable {key value}

lemma firsts_run (l : List α) (acc : List κ × List β) :
    ∃ kept : List α, kept.Sublist l ∧
      (l.foldl (keepFirst key value) acc).2 = acc.2 ++ kept.map value ∧
      (kept.map key).Nodup ∧ (∀ a ∈ kept, key a ∉ acc.1) ∧
      ∀ a ∈ l, key a ∈ acc.1 ∨ ∃ b ∈ kept, key b = key a := by
  induction l generalizing acc with
  | nil => exact ⟨[], by simp⟩
  | cons a l ih =>
    by_cases hseen : key a ∈ acc.1
    · obtain ⟨kept, hsub, hval, hnodup, hnew, hall⟩ := ih acc
      refine ⟨kept, hsub.cons a, ?_, hnodup, hnew, ?_⟩
      · rw [foldl_cons, keepFirst, if_pos hseen, hval]
      · exact forall_mem_cons.mpr ⟨.inl hseen, hall⟩
    · obtain ⟨kept, hsub, hval, hnodup, hnew, hall⟩ := ih (key a :: acc.1, acc.2 ++ [value a])
      simp only [mem_cons, not_or] at hnew hall
      refine ⟨a :: kept, hsub.cons_cons a, ?_, ?_, ?_, ?_⟩
      · rw [foldl_cons, keepFirst, if_neg hseen, hval]
        simp
      · rw [map_cons, nodup_cons]
        refine ⟨fun hmem => ?_, hnodup⟩
        obtain ⟨b, hb, hkey⟩ := List.mem_map.mp hmem
        exact (hnew b hb).1 hkey
      · exact forall_mem_cons.mpr ⟨hseen, fun b hb => (hnew b hb).2⟩
      · refine forall_mem_cons.mpr ⟨.inr ⟨a, by simp, rfl⟩, fun b hb => ?_⟩
        rcases hall b hb with (hkey | hkey) | ⟨c, hc, hkey⟩
        · exact .inr ⟨a, by simp, hkey.symm⟩
        · exact .inl hkey
        · exact .inr ⟨c, by simp [hc], hkey⟩

/-- One element is kept for each key. -/
theorem exists_kept (l : List α) :
    ∃ kept : List α, kept.Sublist l ∧ firsts key value l = kept.map value ∧
      (kept.map key).Nodup ∧ ∀ a ∈ l, ∃ b ∈ kept, key b = key a := by
  obtain ⟨kept, hsub, hval, hnodup, -, hall⟩ := @firsts_run _ _ _ _ key value l ([], [])
  refine ⟨kept, hsub, hval, hnodup, fun a ha => ?_⟩
  rcases hall a ha with hkey | hkept
  · cases hkey
  · exact hkept

end Firsts

/-! ### The last row of each key, laid over a table -/

section Overlay

variable {κ R : Type*} [DecidableEq κ] {key : R → κ}

/-- The last row of each key, in order. -/
def lasts (key : R → κ) : List R → List R
  | [] => []
  | r :: rest => if key r ∈ rest.map key then lasts key rest else r :: lasts key rest

/-- The rows of a table with pending rows over them. -/
def overlay (key : R → κ) (rows pending : List R) : List R :=
  rows.filter (fun r => key r ∉ pending.map key) ++ lasts key pending

lemma lasts_sublist (l : List R) : (lasts key l).Sublist l := by
  induction l with
  | nil => exact List.Sublist.refl _
  | cons r rest ih =>
    rw [lasts]
    split
    · exact ih.cons r
    · exact ih.cons_cons r

variable {l : List R}

lemma mem_map_lasts {k : κ} : k ∈ (lasts key l).map key ↔ k ∈ l.map key := by
  induction l with
  | nil => rfl
  | cons r rest ih =>
    rw [lasts]
    split
    case isTrue hlater =>
      rw [ih, map_cons, mem_cons]
      refine ⟨.inr, ?_⟩
      rintro (rfl | hk)
      · exact hlater
      · exact hk
    case isFalse => rw [map_cons, map_cons, mem_cons, mem_cons, ih]

lemma nodup_map_lasts (l : List R) : ((lasts key l).map key).Nodup := by
  induction l with
  | nil => exact nodup_nil
  | cons r rest ih =>
    rw [lasts]
    split
    case isTrue => exact ih
    case isFalse hlater =>
      rw [map_cons, nodup_cons, mem_map_lasts]
      exact ⟨hlater, ih⟩

lemma lasts_eq_self (h : (l.map key).Nodup) : lasts key l = l := by
  induction l with
  | nil => rfl
  | cons r rest ih =>
    rw [map_cons, nodup_cons] at h
    rw [lasts, if_neg h.1, ih h.2]

/-- Later rows replace the earlier ones of their keys. -/
lemma lasts_append {later : List R} (h : (later.map key).Nodup) :
    lasts key (l ++ later) = (lasts key l).filter (fun r => key r ∉ later.map key) ++ later := by
  induction l with
  | nil => simpa [lasts] using lasts_eq_self h
  | cons r rest ih =>
    have hmem : key r ∈ (rest ++ later).map key ↔ key r ∈ rest.map key ∨ key r ∈ later.map key := by
      rw [map_append, mem_append]
    rw [cons_append, lasts, lasts, ih]
    by_cases hrest : key r ∈ rest.map key
    · rw [if_pos (hmem.mpr (.inl hrest)), if_pos hrest]
    · by_cases hlater : key r ∈ later.map key
      · rw [if_pos (hmem.mpr (.inr hlater)), if_neg hrest,
          filter_cons_of_neg (by simpa using hlater)]
      · rw [if_neg (fun h => (hmem.mp h).elim hrest hlater), if_neg hrest,
          filter_cons_of_pos (by simpa using hlater), cons_append]

lemma overlay_append {rows pending later : List R} (h : (later.map key).Nodup) :
    overlay key rows (pending ++ later) =
      (overlay key rows pending).filter (fun r => key r ∉ later.map key) ++ later := by
  rw [overlay, overlay, lasts_append h, List.filter_append, List.append_assoc, List.filter_filter]
  congr 1
  apply List.filter_congr
  intro r _
  simp only [List.map_append, List.mem_append, not_or, Bool.decide_and, Bool.and_comm]

lemma nodup_map_overlay {rows : List R} (h : (rows.map key).Nodup) (pending : List R) :
    ((overlay key rows pending).map key).Nodup := by
  rw [overlay, List.map_append]
  refine List.Nodup.append (h.sublist (List.filter_sublist.map key)) (nodup_map_lasts pending) ?_
  intro k hk hlast
  obtain ⟨r, hr, rfl⟩ := List.mem_map.mp hk
  exact of_decide_eq_true (List.mem_filter.mp hr).2 (mem_map_lasts.mp hlast)

/-- No row with a later one of its key is selected. -/
def SelectsLasts (key : R → κ) (select : R → Bool) (l : List R) : Prop :=
  ∀ pre r post, l = pre ++ r :: post → key r ∈ post.map key → select r = false

omit [DecidableEq κ] in
lemma selectsLasts_cons {select : R → Bool} {r : R} {rest : List R} :
    SelectsLasts key select (r :: rest) ↔
      (key r ∈ rest.map key → select r = false) ∧ SelectsLasts key select rest := by
  constructor
  · intro h
    refine ⟨h [] r rest rfl, fun pre q post heq => ?_⟩
    exact h (r :: pre) q post (by rw [heq, List.cons_append])
  · rintro ⟨hr, hrest⟩ pre q post heq
    cases pre with
    | nil =>
      obtain ⟨rfl, rfl⟩ := List.cons.inj heq
      exact hr
    | cons p pre => exact hrest pre q post (List.cons.inj heq).2

variable {select : R → Bool}

/-- A selection from all rows is one from the last rows exactly when it passes over the others. -/
lemma length_filter_lasts_eq_iff :
    ((lasts key l).filter select).length = (l.filter select).length ↔
      SelectsLasts key select l := by
  induction l with
  | nil => simp [lasts, SelectsLasts]
  | cons r rest ih =>
    rw [selectsLasts_cons, ← ih, lasts]
    have hsub : (lasts key rest).Sublist rest := lasts_sublist rest
    have hle := (hsub.filter select).length_le
    by_cases hlater : key r ∈ rest.map key
    · rw [if_pos hlater]
      cases hsel : select r with
      | false => simp [hsel]
      | true =>
        simp only [filter_cons_of_pos hsel, length_cons, hlater, true_imp_iff,
          Bool.true_eq_false, false_and, iff_false]
        omega
    · rw [if_neg hlater]
      cases hsel : select r <;> simp [hsel, hlater]

lemma filter_lasts_eq (h : SelectsLasts key select l) :
    (lasts key l).filter select = l.filter select :=
  ((lasts_sublist l).filter select).eq_of_length (length_filter_lasts_eq_iff.mpr h)

end Overlay

end Keyed
