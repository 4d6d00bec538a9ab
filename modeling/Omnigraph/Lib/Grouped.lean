import Omnigraph.Lib.HashMap

/-!
# Grouping by a key

A program that groups a list keeps a map from a key to the number of its group and the groups in
the order their keys first occur. The groups are the elements of each key, in the order of the list.
-/

namespace Grouped

open List

variable {α κ : Type*} [DecidableEq κ]

/-! ### Keys in the order they first occur -/

def see (acc : List κ) (k : κ) : List κ := if k ∈ acc then acc else acc ++ [k]

/-- The members of a list in the order they first occur. -/
def seen (l : List κ) : List κ := l.foldl see []

@[simp] lemma seen_nil : seen ([] : List κ) = [] := rfl

variable {k : κ}

lemma mem_see {acc : List κ} {k' : κ} : k' ∈ see acc k ↔ k' ∈ acc ∨ k' = k := by
  rw [see]
  split_ifs with h
  · constructor
    · exact .inl
    · rintro (hk | rfl)
      · exact hk
      · exact h
  · simp

lemma seen_concat (l : List κ) (k : κ) : seen (l ++ [k]) = see (seen l) k := by
  rw [seen, foldl_append]
  rfl

@[simp] lemma mem_seen {l : List κ} : k ∈ seen l ↔ k ∈ l := by
  induction l using List.reverseRecOn with
  | nil => simp
  | append_singleton l a ih => rw [seen_concat, mem_see, ih, mem_append, mem_singleton]

lemma seen_append_singleton (l : List κ) (k : κ) :
    seen (l ++ [k]) = if k ∈ l then seen l else seen l ++ [k] := by
  rw [seen_concat, see]
  simp only [mem_seen]

lemma nodup_seen (l : List κ) : (seen l).Nodup := by
  induction l using List.reverseRecOn with
  | nil => simp
  | append_singleton l a ih =>
    rw [seen_append_singleton]
    split_ifs with h
    · exact ih
    · rw [← concat_eq_append]
      exact ih.concat (by simpa using h)

/-- The members of two lists: those of the first one, then the new ones of the second one. -/
lemma seen_append (l l' : List κ) : seen (l ++ l') = seen l ++ (seen l').filter (· ∉ l) := by
  induction l' using List.reverseRecOn with
  | nil => simp
  | append_singleton l' a ih =>
    rw [← append_assoc, seen_append_singleton, seen_append_singleton]
    by_cases ha' : a ∈ l'
    · rw [if_pos (mem_append_right _ ha'), if_pos ha', ih]
    · by_cases ha : a ∈ l
      · rw [if_pos (mem_append_left _ ha), if_neg ha', ih, filter_append]
        simp [ha]
      · have hboth : a ∉ l ++ l' := by simp [ha, ha']
        rw [if_neg hboth, if_neg ha', ih, filter_append]
        simp [ha]

/-! ### Ranks -/

/-- The ranks given so far and the keys that have one. -/
abbrev Ranks (κ : Type*) := HashMap κ ℕ × List κ

/-- A new key gets the next rank. -/
def rank (s : Ranks κ) (k : κ) : Ranks κ :=
  if k ∈ s.1 then s else (s.1.insert k s.2.length, s.2 ++ [k])

/-- The rank of a key is its place among the keys seen. -/
lemma ranks_spec (l : List κ) :
    (l.foldl rank (∅, [])).2 = seen l ∧
      ∀ k, (l.foldl rank (∅, [])).1.lookup k =
        if k ∈ l then some ((seen l).idxOf k) else none := by
  induction l using List.reverseRecOn with
  | nil => simp
  | append_singleton l a ih =>
    obtain ⟨hkeys, hranks⟩ := ih
    have hmem : a ∈ (l.foldl rank (∅, [])).1 ↔ a ∈ l := by
      rw [← AList.lookup_isSome, hranks]
      by_cases ha : a ∈ l
      · simp [ha]
      · simp [ha]
    rw [foldl_append, foldl_cons, foldl_nil, rank, seen_append_singleton]
    by_cases ha : a ∈ l
    · rw [if_pos (hmem.mpr ha), if_pos ha]
      refine ⟨hkeys, fun k => ?_⟩
      rw [hranks]
      by_cases hk : k ∈ l
      · simp [hk]
      · have hne : k ≠ a := fun h => hk (h ▸ ha)
        simp [hk, hne]
    · rw [if_neg (mt hmem.mp ha), if_neg ha]
      refine ⟨by rw [hkeys], fun k => ?_⟩
      rw [HashMap.lookup_insert_ite, hkeys, hranks]
      by_cases hka : k = a
      · subst hka
        rw [if_pos rfl, if_pos (by simp), idxOf_append_of_notMem (by simpa using ha)]
        simp
      · by_cases hk : k ∈ l
        · rw [if_neg hka, if_pos hk, if_pos (by simp [hk]),
            idxOf_append_of_mem (by simpa using hk)]
        · rw [if_neg hka, if_neg hk, if_neg (by simp [hk, hka])]

/-! ### Groups -/

section Groups

variable (key : α → κ)

/-- The number of each group and the groups so far. -/
abbrev State (α κ : Type*) := HashMap κ ℕ × List (List α)

/-- An element joins the group of its key, a new group if the key is new. -/
def add (s : State α κ) (a : α) : State α κ :=
  match s.1.lookup (key a) with
  | some idx => (s.1, s.2.modify idx (· ++ [a]))
  | none => (s.1.insert (key a) s.2.length, s.2 ++ [[a]])

/-- The groups of a list. -/
def groups (l : List α) : List (List α) := (l.foldl (add key) (∅, [])).2

variable {key}

variable {β : Type*} {l : List α} {ks : List κ}

lemma map_modify_idxOf {l : List κ} (hl : l.Nodup) {f g : κ → β} {h : β → β}
    (hne : ∀ k' ∈ l, k' ≠ k → g k' = f k') (heq : g k = h (f k)) :
    (l.map f).modify (l.idxOf k) h = l.map g := by
  apply ext_getElem
  · simp
  · intro i hi hi'
    rw [getElem_modify, getElem_map, getElem_map]
    have hlt : i < l.length := by simpa using hi'
    split_ifs with hidx
    · subst hidx
      rw [getElem_idxOf, heq]
    · refine (hne _ (getElem_mem hlt) fun hget => hidx ?_).symm
      rw [← hget, hl.idxOf_getElem]

/-- The groups are the elements of each key. -/
theorem groups_spec (l : List α) :
    groups key l = (seen (l.map key)).map (fun k => l.filter (key · = k)) ∧
      ∀ k, (l.foldl (add key) (∅, [])).1.lookup k =
        if k ∈ l.map key then some ((seen (l.map key)).idxOf k) else none := by
  unfold groups
  induction l using List.reverseRecOn with
  | nil => simp
  | append_singleton l a ih =>
    obtain ⟨hgroups, hlookup⟩ := ih
    rw [foldl_append, foldl_cons, foldl_nil, add, map_append, map_cons,
      map_nil, seen_append_singleton, hlookup]
    -- a known key gets the element, a new one begins a group at the end
    by_cases ha : key a ∈ l.map key
    · rw [if_pos ha, if_pos ha]
      refine ⟨?_, fun k => ?_⟩
      · dsimp only
        rw [hgroups]
        apply map_modify_idxOf (nodup_seen _)
        · intro k _ hne
          simp [filter_append, Ne.symm hne]
        · simp [filter_append]
      · rw [hlookup]
        by_cases hk : k ∈ l.map key
        · rw [if_pos hk, if_pos (mem_append_left _ hk)]
        · have hne : k ≠ key a := fun h => hk (h ▸ ha)
          rw [if_neg hk, if_neg (by simp [hne]; simpa using hk)]
    · rw [if_neg ha, if_neg ha]
      refine ⟨?_, fun k => ?_⟩
      · dsimp only
        rw [hgroups, map_append, map_cons, map_nil]
        congr 1
        · apply map_congr_left
          intro k hk
          have hne : key a ≠ k := fun h => ha (h ▸ mem_seen.mp hk)
          simp [filter_append, hne]
        · have hnone : l.filter (key · = key a) = [] := by
            rw [filter_eq_nil_iff]
            intro b hb h
            exact ha (List.mem_map.mpr ⟨b, hb, of_decide_eq_true h⟩)
          simp [filter_append, hnone]
      · dsimp only
        rw [HashMap.lookup_insert_ite, hlookup, hgroups, length_map]
        by_cases hka : k = key a
        · subst hka
          rw [if_pos rfl, if_pos (by simp), idxOf_append_of_notMem (by rwa [mem_seen])]
          simp
        · by_cases hk : k ∈ l.map key
          · rw [if_neg hka, if_pos hk, if_pos (mem_append_left _ hk),
              idxOf_append_of_mem (by rwa [mem_seen])]
          · rw [if_neg hka, if_neg hk, if_neg]
            rw [mem_append, mem_singleton]
            exact not_or.mpr ⟨hk, hka⟩

lemma groups_eq (l : List α) :
    groups key l = (seen (l.map key)).map fun k => l.filter (key · = k) := (groups_spec l).1

lemma groups_congr {key' : α → κ} {l : List α} (h : ∀ a ∈ l, key a = key' a) :
    groups key l = groups key' l := by
  rw [groups_eq, groups_eq, map_congr_left h]
  apply map_congr_left
  intro k _
  apply filter_congr
  intro a ha
  rw [h a ha]

/-- Grouping the images of elements. -/
lemma groups_map (key : β → κ) (f : α → β) (l : List α) :
    (groups (fun a => key (f a)) l).map (List.map f) = groups key (l.map f) := by
  rw [groups_eq, groups_eq, List.map_map, List.map_map]
  apply map_congr_left
  intro k _
  rw [List.filter_map]
  rfl

/-- Two elements are in one group if and only if they have one key. -/
lemma mem_group_iff {a b : α} (ha : a ∈ l) (hb : b ∈ l) :
    (∃ g ∈ groups key l, a ∈ g ∧ b ∈ g) ↔ key a = key b := by
  rw [groups_eq]
  constructor
  · rintro ⟨g, hg, hag, hbg⟩
    obtain ⟨k, -, rfl⟩ := List.mem_map.mp hg
    simp only [mem_filter, decide_eq_true_eq] at hag hbg
    rw [hag.2, hbg.2]
  · intro h
    refine ⟨_, List.mem_map_of_mem (mem_seen.mpr (List.mem_map_of_mem ha)), ?_, ?_⟩
    · simp [ha]
    · simp [hb, h]

lemma ne_nil_of_mem_groups {g : List α} (h : g ∈ groups key l) : g ≠ [] := by
  rw [groups_eq] at h
  obtain ⟨k, hk, rfl⟩ := List.mem_map.mp h
  obtain ⟨a, ha, rfl⟩ := List.mem_map.mp (mem_seen.mp hk)
  exact ne_nil_of_mem (mem_filter.mpr ⟨ha, by simp⟩)

lemma flatMap_filter_perm {ks : List κ} (hks : ks.Nodup) (l : List α) :
    (ks.flatMap fun k => l.filter (key · = k)).Perm (l.filter (key · ∈ ks)) := by
  induction ks with
  | nil => simp
  | cons k ks ih =>
    obtain ⟨hk, hks⟩ := nodup_cons.mp hks
    have hfirst : (l.filter (key · ∈ k :: ks)).filter (key · = k) = l.filter (key · = k) := by
      rw [List.filter_filter]
      apply filter_congr
      intro a _
      by_cases ha : key a = k
      · simp [ha]
      · simp [ha]
    have hrest : (l.filter (key · ∈ k :: ks)).filter (fun a => !decide (key a = k)) =
        l.filter (key · ∈ ks) := by
      rw [List.filter_filter]
      apply filter_congr
      intro a _
      by_cases ha : key a = k
      · simp [ha, hk]
      · simp [ha]
    have hsplit := filter_append_perm (fun a => decide (key a = k))
      (l.filter (key · ∈ k :: ks))
    rw [hfirst, hrest] at hsplit
    rw [flatMap_cons]
    exact ((ih hks).append_left _).trans hsplit

/-- The groups hold every element, as often as the list does. -/
lemma flatten_groups_perm (l : List α) : (groups key l).flatten.Perm l := by
  have hall : l.filter (key · ∈ seen (l.map key)) = l := by
    rw [filter_eq_self]
    intro a ha
    simpa using ⟨a, ha, rfl⟩
  have h := @flatMap_filter_perm _ _ _ key _ (nodup_seen (l.map key)) l
  rw [hall] at h
  rw [groups_eq, ← flatMap_def]
  exact h

/-- The elements of some keys, key by key, keep the elements of each key. -/
lemma filter_flatMap_filter (hks : ks.Nodup) (l : List α) (hk : k ∈ ks) :
    (ks.flatMap fun k => l.filter (key · = k)).filter (key · = k) = l.filter (key · = k) := by
  induction ks with
  | nil => cases hk
  | cons k' ks ih =>
    obtain ⟨hk', hks⟩ := nodup_cons.mp hks
    rw [flatMap_cons, filter_append, List.filter_filter]
    by_cases heq : k = k'
    · subst heq
      have hrest : (ks.flatMap fun k => l.filter (key · = k)).filter (key · = k) = [] := by
        rw [filter_eq_nil_iff]
        intro a ha hkey
        obtain ⟨k'', hk'', ha⟩ := mem_flatMap.mp ha
        have hkey' := of_decide_eq_true (mem_filter.mp ha).2
        exact hk' ((of_decide_eq_true hkey).symm.trans hkey' ▸ hk'')
      rw [hrest, append_nil]
      simp
    · have hfirst : l.filter (fun a => decide (key a = k) && decide (key a = k')) = [] := by
        rw [filter_eq_nil_iff]
        intro a _ hkey
        simp only [Bool.and_eq_true, decide_eq_true_eq] at hkey
        exact heq (hkey.1.symm.trans hkey.2)
      rw [hfirst, nil_append]
      exact ih hks ((mem_cons.mp hk).resolve_left heq)

/-- The elements of some keys, key by key, have the keys in that order. -/
lemma seen_flatMap_filter (hks : ks.Nodup) (h : ∀ k ∈ ks, k ∈ l.map key) :
    seen ((ks.flatMap fun k => l.filter (key · = k)).map key) = ks := by
  induction ks using List.reverseRecOn with
  | nil => rfl
  | append_singleton ks k ih =>
    obtain ⟨hks, -, hdisjoint⟩ := nodup_append.mp hks
    have hk : k ∉ ks := fun hmem => hdisjoint k hmem k (by simp) rfl
    obtain ⟨a, ha, hkey⟩ := List.mem_map.mp (h k (by simp))
    have hlast : seen ((l.filter (key · = k)).map key) = [k] := by
      apply perm_singleton.mp
      rw [perm_ext_iff_of_nodup (nodup_seen _) (nodup_singleton k)]
      intro k'
      rw [mem_seen, List.mem_map, mem_singleton]
      constructor
      · rintro ⟨b, hb, rfl⟩
        exact of_decide_eq_true (mem_filter.mp hb).2
      · rintro rfl
        exact ⟨a, mem_filter.mpr ⟨ha, by simpa using hkey⟩, hkey⟩
    have hnew : k ∉ (ks.flatMap fun k => l.filter (key · = k)).map key := by
      intro hmem
      obtain ⟨b, hb, rfl⟩ := List.mem_map.mp hmem
      obtain ⟨k', hk', hb⟩ := mem_flatMap.mp hb
      exact hk (of_decide_eq_true (mem_filter.mp hb).2 ▸ hk')
    rw [flatMap_append, flatMap_singleton, map_append, seen_append, hlast,
      ih hks fun k' hk' => h k' (mem_append_left _ hk')]
    simp only [filter_cons, hnew, not_false_eq_true, decide_true, if_true, filter_nil]

end Groups

end Grouped
