import Omnigraph.Lib.Sorted

/-!
# Ordered maps

An ordered map is a list of entries with increasing keys. Two maps that hold the same value under
every key are equal, so a map is determined by `lookup` and what is read off its entries in order
is determined by it too.
-/

/-- A map with keys `κ` and values `ν`, in the order of the keys. -/
structure BTreeMap (κ ν : Type*) [LinearOrder κ] where
  entries : List (κ × ν)
  sorted : Sorted.Increasing Prod.fst entries

namespace BTreeMap

open List

variable {κ ν ν' : Type*} [LinearOrder κ]

instance [DecidableEq ν] : DecidableEq (BTreeMap κ ν) := fun m m' =>
  decidable_of_iff (m.entries = m'.entries) (by cases m; cases m'; simp)

/-! ### Looking up -/

def lookup (m : BTreeMap κ ν) (k : κ) : Option ν :=
  (m.entries.find? fun e => e.1 = k).map Prod.snd

def keys (m : BTreeMap κ ν) : List κ := m.entries.map Prod.fst

instance : Membership κ (BTreeMap κ ν) := ⟨fun m k => k ∈ m.keys⟩

instance (k : κ) (m : BTreeMap κ ν) : Decidable (k ∈ m) := inferInstanceAs (Decidable (k ∈ m.keys))

variable {e : κ × ν} {k : κ} {m : BTreeMap κ ν} {v : ν}

lemma eq_of_key_eq (m : BTreeMap κ ν) {e' : κ × ν} (he : e ∈ m.entries) (he' : e' ∈ m.entries)
    (h : e.1 = e'.1) : e = e' :=
  m.sorted.eq_of_key_eq e he e' he' h

lemma lookup_eq_some_iff : m.lookup k = some v ↔ (k, v) ∈ m.entries := by
  rw [lookup, Option.map_eq_some_iff]
  constructor
  · rintro ⟨e, he, rfl⟩
    have hkey : e.1 = k := by simpa using List.find?_some he
    rw [← hkey]
    exact mem_of_find?_eq_some he
  · intro hmem
    cases hfind : m.entries.find? fun e => e.1 = k with
    | none =>
      have := List.find?_eq_none.mp hfind _ hmem
      simp at this
    | some e =>
      have hkey : e.1 = k := by simpa using List.find?_some hfind
      exact ⟨e, rfl, by rw [m.eq_of_key_eq (mem_of_find?_eq_some hfind) hmem hkey]⟩

lemma mem_iff_exists : k ∈ m ↔ ∃ v, m.lookup k = some v := by
  show k ∈ m.keys ↔ _
  simp only [keys, List.mem_map, lookup_eq_some_iff]
  constructor
  · rintro ⟨e, he, rfl⟩
    exact ⟨e.2, he⟩
  · rintro ⟨v, hv⟩
    exact ⟨_, hv, rfl⟩

lemma mem_of_lookup (h : m.lookup k = some v) : k ∈ m :=
  mem_iff_exists.mpr ⟨v, h⟩

lemma lookup_eq_none_iff : m.lookup k = none ↔ k ∉ m := by
  rw [mem_iff_exists, not_exists]
  constructor
  · intro h v hv
    rw [h] at hv
    cases hv
  · exact fun h => Option.eq_none_iff_forall_not_mem.mpr h

/-- Two maps with the same values are the same. -/
@[ext] lemma ext {m m' : BTreeMap κ ν} (h : ∀ k, m.lookup k = m'.lookup k) : m = m' := by
  have hentries : m.entries = m'.entries := by
    classical
    apply Sorted.Increasing.ext m.sorted m'.sorted
    intro e
    rw [← Prod.mk.eta (p := e), ← lookup_eq_some_iff, ← lookup_eq_some_iff, h]
  cases m
  cases m'
  cases hentries
  rfl

/-! ### The empty map -/

instance : EmptyCollection (BTreeMap κ ν) := ⟨⟨[], List.isChain_nil⟩⟩

@[simp] lemma entries_empty : (∅ : BTreeMap κ ν).entries = [] := rfl

@[simp] lemma lookup_empty (k : κ) : (∅ : BTreeMap κ ν).lookup k = none := rfl

/-! ### Inserting -/

/-- The entries with a value under `k`, which replaces the value there was. -/
def insertEntry (k : κ) (v : ν) : List (κ × ν) → List (κ × ν)
  | [] => [(k, v)]
  | e :: l =>
    if k < e.1 then (k, v) :: e :: l
    else if k = e.1 then (k, v) :: l
    else e :: insertEntry k v l

variable {l : List (κ × ν)}

lemma mem_insertEntry (hl : l.Pairwise fun a b => a.1 < b.1) :
    e ∈ insertEntry k v l ↔ e = (k, v) ∨ e ∈ l ∧ e.1 ≠ k := by
  induction l with
  | nil => simp [insertEntry]
  | cons b l ih =>
    have hhead := (pairwise_cons.mp hl).1
    rw [insertEntry]
    split_ifs with hlt heq
    · have hne : ∀ e ∈ b :: l, e.1 ≠ k := by
        intro e he
        rcases mem_cons.mp he with rfl | he
        · exact hlt.ne'
        · exact (hlt.trans (hhead e he)).ne'
      rw [mem_cons]
      exact or_congr_right ⟨fun h => ⟨h, hne e h⟩, And.left⟩
    · subst heq
      have hne : ∀ e ∈ l, e.1 ≠ b.1 := fun e he => (hhead e he).ne'
      simp only [mem_cons]
      constructor
      · rintro (rfl | he)
        · exact .inl rfl
        · exact .inr ⟨.inr he, hne e he⟩
      · rintro (rfl | ⟨rfl | he, hkey⟩)
        · exact .inl rfl
        · exact absurd rfl hkey
        · exact .inr he
    · simp only [mem_cons, ih (pairwise_cons.mp hl).2]
      constructor
      · rintro (rfl | rfl | ⟨he, hkey⟩)
        · exact .inr ⟨.inl rfl, Ne.symm heq⟩
        · exact .inl rfl
        · exact .inr ⟨.inr he, hkey⟩
      · rintro (rfl | ⟨rfl | he, hkey⟩)
        · exact .inr (.inl rfl)
        · exact .inl rfl
        · exact .inr (.inr ⟨he, hkey⟩)

lemma insertEntry_pairwise (hl : l.Pairwise fun a b => a.1 < b.1) :
    (insertEntry k v l).Pairwise fun a b => a.1 < b.1 := by
  induction l with
  | nil => exact pairwise_singleton _ _
  | cons b l ih =>
    obtain ⟨hhead, htail⟩ := pairwise_cons.mp hl
    rw [insertEntry]
    split_ifs with hlt heq
    · refine pairwise_cons.mpr ⟨fun e he => ?_, hl⟩
      rcases mem_cons.mp he with rfl | he
      · exact hlt
      · exact hlt.trans (hhead e he)
    · subst heq
      exact pairwise_cons.mpr ⟨hhead, htail⟩
    · refine pairwise_cons.mpr ⟨fun e he => ?_, ih htail⟩
      rcases (mem_insertEntry htail).mp he with rfl | ⟨he, -⟩
      · exact lt_of_le_of_ne (not_lt.mp hlt) (Ne.symm heq)
      · exact hhead e he

lemma insertEntry_increasing (hl : Sorted.Increasing Prod.fst l) :
    Sorted.Increasing Prod.fst (insertEntry k v l) :=
  Sorted.increasing_iff_pairwise.mpr
    (insertEntry_pairwise (Sorted.increasing_iff_pairwise.mp hl))

def insert (m : BTreeMap κ ν) (k : κ) (v : ν) : BTreeMap κ ν :=
  ⟨insertEntry k v m.entries, insertEntry_increasing m.sorted⟩

lemma mem_entries_insert : e ∈ (m.insert k v).entries ↔ e = (k, v) ∨ e ∈ m.entries ∧ e.1 ≠ k :=
  mem_insertEntry (Sorted.increasing_iff_pairwise.mp m.sorted)

lemma lookup_insert (m : BTreeMap κ ν) (k k' : κ) (v : ν) :
    (m.insert k v).lookup k' = if k' = k then some v else m.lookup k' := by
  apply Option.ext
  intro w
  rw [lookup_eq_some_iff, mem_entries_insert]
  split_ifs with h
  · subst h
    simp [eq_comm]
  · rw [lookup_eq_some_iff]
    simp [h]

@[simp] lemma lookup_insert_self (m : BTreeMap κ ν) (k : κ) (v : ν) :
    (m.insert k v).lookup k = some v := by
  rw [lookup_insert, if_pos rfl]

variable {k' : κ}

lemma lookup_insert_ne (m : BTreeMap κ ν) (v : ν) (h : k' ≠ k) :
    (m.insert k v).lookup k' = m.lookup k' := by
  rw [lookup_insert, if_neg h]

lemma mem_insert : k' ∈ m.insert k v ↔ k' = k ∨ k' ∈ m := by
  rw [mem_iff_exists, mem_iff_exists, lookup_insert]
  by_cases h : k' = k
  · simp [h]
  · simp [h]

/-! ### Keeping a part -/

/-- The entries whose keys satisfy `p`. -/
def retain (m : BTreeMap κ ν) (p : κ → Bool) : BTreeMap κ ν :=
  ⟨m.entries.filter fun e => p e.1, Sorted.increasing_iff_pairwise.mpr
    ((Sorted.increasing_iff_pairwise.mp m.sorted).filter _)⟩

lemma lookup_retain (m : BTreeMap κ ν) (p : κ → Bool) (k : κ) :
    (m.retain p).lookup k = if p k then m.lookup k else none := by
  apply Option.ext
  intro w
  rw [lookup_eq_some_iff]
  show (k, w) ∈ m.entries.filter (fun e => p e.1) ↔ _
  rw [mem_filter, ← lookup_eq_some_iff]
  split_ifs with h
  · simp [h]
  · simp [h]

def erase (m : BTreeMap κ ν) (k : κ) : BTreeMap κ ν := m.retain fun k' => k' ≠ k

lemma lookup_erase (m : BTreeMap κ ν) (k k' : κ) :
    (m.erase k).lookup k' = if k' = k then none else m.lookup k' := by
  rw [erase, lookup_retain]
  by_cases h : k' = k
  · simp [h]
  · simp [h]

@[simp] lemma lookup_erase_self (m : BTreeMap κ ν) (k : κ) : (m.erase k).lookup k = none := by
  rw [lookup_erase, if_pos rfl]

lemma lookup_erase_ne (m : BTreeMap κ ν) (h : k' ≠ k) : (m.erase k).lookup k' = m.lookup k' := by
  rw [lookup_erase, if_neg h]

/-! ### Changing the values -/

/-- The map with `f` applied to each value. -/
def mapValues (f : ν → ν') (m : BTreeMap κ ν) : BTreeMap κ ν' :=
  ⟨m.entries.map fun e => (e.1, f e.2), Sorted.Increasing.map.mpr m.sorted⟩

lemma lookup_mapValues (f : ν → ν') (m : BTreeMap κ ν) (k : κ) :
    (m.mapValues f).lookup k = (m.lookup k).map f := by
  apply Option.ext
  intro w
  rw [lookup_eq_some_iff, Option.map_eq_some_iff]
  simp only [lookup_eq_some_iff]
  show (k, w) ∈ m.entries.map (fun e => (e.1, f e.2)) ↔ _
  rw [List.mem_map]
  constructor
  · rintro ⟨e, he, heq⟩
    cases heq
    exact ⟨e.2, he, rfl⟩
  · rintro ⟨v, hv, rfl⟩
    exact ⟨_, hv, rfl⟩

/-! ### Maps of a list -/

/-- The elements of a list, inserted one after the other. -/
def insertAll {α : Type*} (m : BTreeMap κ ν) (f : α → κ × ν) (l : List α) : BTreeMap κ ν :=
  l.foldl (fun m a => m.insert (f a).1 (f a).2) m

lemma mem_insertAll {α : Type*} {f : α → κ × ν} {l : List α} :
    k ∈ m.insertAll f l ↔ k ∈ m ∨ ∃ a ∈ l, (f a).1 = k := by
  induction l generalizing m with
  | nil => simp [insertAll]
  | cons a l ih =>
    show k ∈ (m.insert (f a).1 (f a).2).insertAll f l ↔ _
    rw [ih, mem_insert, exists_mem_cons_iff, eq_comm (a := k), or_comm (a := (f a).1 = k),
      or_assoc]

/-- A value that was inserted or was there before. -/
lemma lookup_insertAll {α : Type*} {f : α → κ × ν} {l : List α}
    (h : (m.insertAll f l).lookup k = some v) : m.lookup k = some v ∨ ∃ a ∈ l, f a = (k, v) := by
  induction l generalizing m with
  | nil => exact .inl h
  | cons a l ih =>
    rcases ih (m := m.insert (f a).1 (f a).2) h with hinsert | ⟨b, hb, hfb⟩
    · rw [lookup_insert] at hinsert
      split_ifs at hinsert with hkey
      · cases hinsert
        exact .inr ⟨a, by simp, by rw [hkey]⟩
      · exact .inl hinsert
    · exact .inr ⟨b, by simp [hb], hfb⟩

/-- Elements with the same key have the same value. -/
lemma lookup_insertAll_of_mem {α : Type*} {f : α → κ × ν} {l : List α}
    (hinj : ∀ a ∈ l, ∀ b ∈ l, (f a).1 = (f b).1 → (f a).2 = (f b).2) {a : α} (ha : a ∈ l) :
    ((∅ : BTreeMap κ ν).insertAll f l).lookup (f a).1 = some (f a).2 := by
  have hmem : (f a).1 ∈ (∅ : BTreeMap κ ν).insertAll f l := mem_insertAll.mpr (.inr ⟨a, ha, rfl⟩)
  obtain ⟨v, hv⟩ := mem_iff_exists.mp hmem
  rcases lookup_insertAll hv with hempty | ⟨b, hb, hfb⟩
  · cases hempty
  · rw [hv, hinj a ha b hb (by rw [hfb]), hfb]

lemma lookup_insertAll_of_forall_ne {α : Type*} {f : α → κ × ν} {l : List α}
    (h : ∀ a ∈ l, (f a).1 ≠ k) : ((∅ : BTreeMap κ ν).insertAll f l).lookup k = none := by
  rw [lookup_eq_none_iff, mem_insertAll]
  rintro (hempty | ⟨a, ha, hkey⟩)
  · cases hempty
  · exact h a ha hkey

/-- Entries with different keys. -/
lemma lookup_insertAll_id (hinj : ∀ a ∈ l, ∀ b ∈ l, a.1 = b.1 → a.2 = b.2) :
    ((∅ : BTreeMap κ ν).insertAll id l).lookup k = some v ↔ (k, v) ∈ l := by
  constructor
  · intro h
    rcases lookup_insertAll h with hempty | ⟨a, ha, rfl⟩
    · cases hempty
    · exact ha
  · exact fun h => lookup_insertAll_of_mem (f := id) hinj h

/-! ### Changing one key after the other -/

section Fold

variable {σ α : Type*} {get : σ → BTreeMap κ ν} {step : σ → α → σ} {key : α → κ}
  {value : α → Option ν → Option ν}

/-- A key that no element changes. -/
lemma lookup_foldl_of_forall_ne
    (hstep : ∀ s a k, (get (step s a)).lookup k =
      if k = key a then value a ((get s).lookup k) else (get s).lookup k) {l : List α}
    (h : ∀ a ∈ l, key a ≠ k) (s : σ) : (get (l.foldl step s)).lookup k = (get s).lookup k := by
  induction l generalizing s with
  | nil => rfl
  | cons a l ih =>
    rw [foldl_cons, ih (fun b hb => h b (by simp [hb])), hstep,
      if_neg (Ne.symm (h a (by simp)))]

/-- A key that one element changes. -/
lemma lookup_foldl_of_mem
    (hstep : ∀ s a k, (get (step s a)).lookup k =
      if k = key a then value a ((get s).lookup k) else (get s).lookup k)
    {l : List α} (hnodup : (l.map key).Nodup) {a : α} (ha : a ∈ l) (s : σ) :
    (get (l.foldl step s)).lookup (key a) = value a ((get s).lookup (key a)) := by
  induction l generalizing s with
  | nil => cases ha
  | cons b l ih =>
    rw [map_cons, nodup_cons] at hnodup
    rw [foldl_cons]
    rcases mem_cons.mp ha with rfl | ha
    · have hne : ∀ c ∈ l, key c ≠ key a := by
        intro c hc hkey
        exact hnodup.1 (hkey ▸ List.mem_map_of_mem hc)
      rw [lookup_foldl_of_forall_ne hstep hne, hstep, if_pos rfl]
    · have hne : key a ≠ key b := fun hkey => hnodup.1 (hkey ▸ List.mem_map_of_mem ha)
      rw [ih hnodup.2 ha, hstep, if_neg hne]

end Fold

/-- Inserting what is there changes nothing. -/
lemma insert_eq_self (h : m.lookup k = some v) : m.insert k v = m := by
  ext1 k'
  rw [lookup_insert]
  split_ifs with hk
  · rw [hk, h]
  · rfl

end BTreeMap
