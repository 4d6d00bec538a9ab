import Mathlib.Data.List.AList
import Omnigraph.Lib.Keyed

/-!
# Hash maps

A hash map is an association list with distinct keys. Its iteration order is not part of its
meaning: a program that walks over the entries may see them in any order, so code that iterates
takes the order as an argument (`IterOrder`), and code that only looks keys up does not.
-/

/-- A hash map with keys `κ` and values `ν`. -/
abbrev HashMap (κ : Type*) (ν : Type*) := AList (fun _ : κ => ν)

/-- The order in which a program happens to walk over the entries of a map. -/
structure IterOrder (α : Type*) where
  walk : List α → List α
  perm : ∀ l, (walk l).Perm l

/-- Entries visited in the order they are stored. -/
def IterOrder.stored (α : Type*) : IterOrder α := ⟨id, fun l => List.Perm.refl l⟩

@[simp] lemma IterOrder.mem_walk {α : Type*} (o : IterOrder α) (l : List α) (a : α) :
    a ∈ o.walk l ↔ a ∈ l := (o.perm l).mem_iff

namespace HashMap

variable {κ ν : Type*} [DecidableEq κ]

lemma lookup_insert_ite (k k' : κ) (v : ν) (m : HashMap κ ν) :
    (m.insert k v).lookup k' = if k' = k then some v else m.lookup k' := by
  by_cases h : k' = k
  · subst h; simp
  · rw [AList.lookup_insert_ne h, if_neg h]

variable {k : κ} {m : HashMap κ ν} {v : ν}

lemma lookup_eq_some_iff_mem : m.lookup k = some v ↔ (⟨k, v⟩ : Sigma fun _ : κ => ν) ∈ m.entries :=
  AList.mem_lookup_iff

lemma mem_of_lookup (h : m.lookup k = some v) : k ∈ m :=
  AList.lookup_isSome.mp (by simp [h])

lemma mem_iff_exists_lookup : k ∈ m ↔ ∃ v, m.lookup k = some v := by
  rw [← AList.lookup_isSome, Option.isSome_iff_exists]

/-! ### Inserting a list -/

section InsertAll

variable {α : Type*}

/-- The elements of a list, inserted one after the other. -/
def insertAll (key : α → κ) (value : α → ν) (m : HashMap κ ν) (l : List α) : HashMap κ ν :=
  l.foldl (fun m a => m.insert (key a) (value a)) m

variable {key : α → κ} {value : α → ν}

lemma insertAll_append (m : HashMap κ ν) (l l' : List α) :
    insertAll key value m (l ++ l') = insertAll key value (insertAll key value m l) l' := by
  simp only [insertAll, List.foldl_append]

/-- Of the elements of one key the last one stays. -/
lemma lookup_insertAll_iff {m : HashMap κ ν} {l : List α} {k : κ} {v : ν} :
    (insertAll key value m l).lookup k = some v ↔
      (∃ a, Keyed.IsLast key l a ∧ key a = k ∧ value a = v) ∨
        ((∀ a ∈ l, key a ≠ k) ∧ m.lookup k = some v) := by
  induction l using List.reverseRecOn with
  | nil => simp [insertAll, Keyed.isLast_nil]
  | append_singleton l a ih =>
    rw [insertAll_append, insertAll, List.foldl_cons, List.foldl_nil, lookup_insert_ite]
    simp only [Keyed.isLast_append_singleton, List.mem_append, List.mem_singleton, or_imp,
      forall_and, forall_eq]
    split_ifs with hk
    · subst hk
      constructor
      · intro hv
        exact .inl ⟨a, .inl rfl, rfl, Option.some.inj hv⟩
      · rintro (⟨b, rfl | ⟨hlast, hne⟩, hb, rfl⟩ | ⟨⟨-, hne⟩, -⟩)
        · rfl
        · exact absurd hb.symm hne
        · exact absurd rfl hne
    · rw [ih]
      constructor
      · rintro (⟨b, hlast, hb, hv⟩ | ⟨hno, hv⟩)
        · exact .inl ⟨b, .inr ⟨hlast, fun h => hk (hb.symm.trans h.symm)⟩, hb, hv⟩
        · exact .inr ⟨⟨hno, Ne.symm hk⟩, hv⟩
      · rintro (⟨b, rfl | ⟨hlast, hne⟩, hb, hv⟩ | ⟨⟨hno, -⟩, hv⟩)
        · exact absurd hb.symm hk
        · exact .inl ⟨b, hlast, hb, hv⟩
        · exact .inr ⟨hno, hv⟩

lemma lookup_insertAll_of_forall_ne {m : HashMap κ ν} {l : List α} {k : κ}
    (h : ∀ a ∈ l, key a ≠ k) : (insertAll key value m l).lookup k = m.lookup k := by
  apply Option.ext
  intro v
  rw [lookup_insertAll_iff]
  constructor
  · rintro (⟨a, hlast, hak, -⟩ | ⟨-, hv⟩)
    · exact absurd hak (h a hlast.mem)
    · exact hv
  · exact fun hv => .inr ⟨h, hv⟩

lemma exists_lookup_insertAll (key : α → κ) (value : α → ν) (m : HashMap κ ν) {l : List α} {a : α}
    (h : a ∈ l) :
    ∃ b ∈ l, key b = key a ∧ (insertAll key value m l).lookup (key a) = some (value b) := by
  obtain ⟨b, hlast, hb⟩ := @Keyed.exists_isLast _ _ key _ _ h
  exact ⟨b, hlast.mem, hb, lookup_insertAll_iff.mpr (.inl ⟨b, hlast, hb, rfl⟩)⟩

/-- When elements of one key have one value, their order does not matter. -/
lemma lookup_insertAll {m : HashMap κ ν} {l : List α}
    (hfun : ∀ a ∈ l, ∀ b ∈ l, key a = key b → value a = value b) {k : κ} {v : ν} :
    (insertAll key value m l).lookup k = some v ↔
      (∃ a ∈ l, key a = k ∧ value a = v) ∨ ((∀ a ∈ l, key a ≠ k) ∧ m.lookup k = some v) := by
  rw [lookup_insertAll_iff]
  refine or_congr_left ⟨?_, ?_⟩
  · rintro ⟨a, hlast, ha⟩
    exact ⟨a, hlast.mem, ha⟩
  · rintro ⟨a, ha, rfl, rfl⟩
    obtain ⟨b, hlast, hkey⟩ := @Keyed.exists_isLast _ _ key _ _ ha
    exact ⟨b, hlast, hkey, hfun b hlast.mem a ha hkey⟩

/-- The same elements in another order. -/
lemma lookup_insertAll_perm {l l' : List α} (hperm : l.Perm l')
    (hfun : ∀ a ∈ l, ∀ b ∈ l, key a = key b → value a = value b) (k : κ) :
    (insertAll key value ∅ l).lookup k = (insertAll key value ∅ l').lookup k := by
  have hfun' : ∀ a ∈ l', ∀ b ∈ l', key a = key b → value a = value b :=
    fun a ha b hb => hfun a (hperm.mem_iff.mpr ha) b (hperm.mem_iff.mpr hb)
  apply Option.ext
  intro v
  rw [lookup_insertAll hfun, lookup_insertAll hfun']
  simp only [hperm.mem_iff]

/-- The values replaced, key by key. -/
def mapValues {ν' : Type*} (f : ν → ν') (m : HashMap κ ν) : HashMap κ ν' :=
  insertAll (fun e => e.1) (fun e => f e.2) ∅ m.entries

lemma lookup_mapValues {ν' : Type*} (f : ν → ν') (m : HashMap κ ν) (k : κ) :
    (mapValues f m).lookup k = (m.lookup k).map f := by
  have hfun : ∀ a ∈ m.entries, ∀ b ∈ m.entries, a.1 = b.1 → f a.2 = f b.2 := by
    rintro ⟨a, x⟩ ha ⟨b, y⟩ hb hab
    have hab : a = b := hab
    subst hab
    have hx := lookup_eq_some_iff_mem.mpr ha
    rw [lookup_eq_some_iff_mem.mpr hb] at hx
    cases hx
    rfl
  apply Option.ext
  intro v
  rw [mapValues, lookup_insertAll hfun, Option.map_eq_some_iff]
  simp only [AList.lookup_empty, reduceCtorEq, and_false, or_false]
  constructor
  · rintro ⟨⟨a, x⟩, ha, rfl, hv⟩
    exact ⟨x, lookup_eq_some_iff_mem.mpr ha, hv⟩
  · rintro ⟨x, hx, hv⟩
    exact ⟨⟨k, x⟩, lookup_eq_some_iff_mem.mp hx, rfl, hv⟩

/-- A loop that inserts one computed value for each element, if their keys differ. -/
lemma lookup_foldlM_insert {ε : Type*} {step : HashMap κ ν → α → Except ε (HashMap κ ν)}
    {value : α → Except ε ν}
    (hstep : ∀ m a m', step m a = .ok m' → ∃ v, value a = .ok v ∧ m' = m.insert (key a) v)
    {l : List α} {m m' : HashMap κ ν} (h : l.foldlM step m = .ok m') (hkeys : (l.map key).Nodup) :
    (∀ a ∈ l, ∃ v, value a = .ok v ∧ m'.lookup (key a) = some v) ∧
      ∀ k, (∀ a ∈ l, key a ≠ k) → m'.lookup k = m.lookup k := by
  induction l generalizing m with
  | nil =>
    cases h
    simp
  | cons a l ih =>
    rw [List.foldlM_cons] at h
    cases hfirst : step m a with
    | error e =>
      rw [hfirst] at h
      cases h
    | ok m1 =>
      rw [hfirst] at h
      obtain ⟨v, hv, rfl⟩ := hstep m a m1 hfirst
      rw [List.map_cons, List.nodup_cons] at hkeys
      obtain ⟨hin, hout⟩ := ih h hkeys.2
      have hfresh : ∀ b ∈ l, key b ≠ key a := fun b hb hba =>
        hkeys.1 (List.mem_map.mpr ⟨b, hb, hba⟩)
      refine ⟨fun b hb => ?_, fun k hk => ?_⟩
      · rcases List.mem_cons.mp hb with rfl | hb
        · exact ⟨v, hv, by rw [hout _ hfresh, AList.lookup_insert]⟩
        · exact hin b hb
      · rw [hout k fun b hb => hk b (List.mem_cons_of_mem _ hb),
          AList.lookup_insert_ne (hk a List.mem_cons_self).symm]

end InsertAll

/-! ### Keeping the greatest value of each key -/

section MaxBy

variable {α : Type*} (key : α → κ) (value : α → ν) (rank : ν → ℕ)

/-- One step of `maxBy`: of two values of equal rank the first stays. -/
def keepMax (m : HashMap κ ν) (a : α) : HashMap κ ν :=
  match m.lookup (key a) with
  | some existing =>
    if rank existing ≥ rank (value a) then m else m.insert (key a) (value a)
  | none => m.insert (key a) (value a)

/-- The greatest value of each key. -/
def maxBy (l : List α) : HashMap κ ν := l.foldl (keepMax key value rank) ∅

/-- `m` holds, for each key of `l`, a value of greatest rank. -/
structure HoldsMax (l : List α) (m : HashMap κ ν) : Prop where
  none_iff : ∀ k, m.lookup k = none ↔ ∀ a ∈ l, key a ≠ k
  some_spec : ∀ k v, m.lookup k = some v → (∃ a ∈ l, key a = k ∧ value a = v) ∧
    ∀ a ∈ l, key a = k → rank (value a) ≤ rank v

variable {key value rank}

lemma HoldsMax.keepMax {l : List α} {m : HashMap κ ν} (h : HoldsMax key value rank l m) (a : α) :
    HoldsMax key value rank (l ++ [a]) (HashMap.keepMax key value rank m a) := by
  -- inserting `a` is right whenever it ranks above every earlier value of its key
  have hinsert : (∀ b ∈ l, key b = key a → rank (value b) ≤ rank (value a)) →
      HoldsMax key value rank (l ++ [a]) (m.insert (key a) (value a)) := by
    intro hmax
    refine ⟨fun k => ?_, fun k v hv => ?_⟩
    · rw [lookup_insert_ite]
      split_ifs with hk
      · simp [hk]
      · rw [h.none_iff k]
        simp only [List.mem_append, List.mem_singleton, or_imp, forall_and, forall_eq]
        exact ⟨fun hno => ⟨hno, Ne.symm hk⟩, fun hno => hno.1⟩
    · rw [lookup_insert_ite] at hv
      split_ifs at hv with hk
      · cases hv
        refine ⟨⟨a, by simp, hk.symm, rfl⟩, fun b hb hbk => ?_⟩
        rcases List.mem_append.mp hb with hb | hb
        · exact hmax b hb (hbk.trans hk)
        · rw [List.mem_singleton.mp hb]
      · obtain ⟨⟨b, hb, hbk, hbv⟩, hle⟩ := h.some_spec k v hv
        refine ⟨⟨b, by simp [hb], hbk, hbv⟩, fun c hc hck => ?_⟩
        rcases List.mem_append.mp hc with hc | hc
        · exact hle c hc hck
        · rw [List.mem_singleton.mp hc] at hck
          exact absurd hck.symm hk
  unfold HashMap.keepMax
  cases hlook : m.lookup (key a) with
  | none =>
    apply hinsert
    intro b hb hba
    exact absurd hba ((h.none_iff (key a)).mp hlook b hb)
  | some existing =>
    obtain ⟨⟨b, hb, hbk, hbv⟩, hle⟩ := h.some_spec _ _ hlook
    show HoldsMax key value rank (l ++ [a])
      (if rank existing ≥ rank (value a) then m else m.insert (key a) (value a))
    split_ifs with hrank
    · refine ⟨fun k => ?_, fun k v hv => ?_⟩
      · rw [h.none_iff k]
        constructor
        · intro hno c hc
          rcases List.mem_append.mp hc with hc | hc
          · exact hno c hc
          · rw [List.mem_singleton.mp hc]
            exact fun hk => hno b hb (hbk.trans hk)
        · exact fun hno c hc => hno c (by simp [hc])
      · obtain ⟨⟨c, hc, hck, hcv⟩, hlec⟩ := h.some_spec k v hv
        refine ⟨⟨c, by simp [hc], hck, hcv⟩, fun d hd hdk => ?_⟩
        rcases List.mem_append.mp hd with hd | hd
        · exact hlec d hd hdk
        · rw [List.mem_singleton.mp hd] at hdk ⊢
          rw [← hdk, hlook] at hv
          cases hv
          exact hrank
    · apply hinsert
      intro c hc hca
      exact Nat.le_trans (hle c hc hca) (Nat.le_of_not_ge hrank)

theorem maxBy_holdsMax (l : List α) : HoldsMax key value rank l (maxBy key value rank l) := by
  have hrun : ∀ (pre post : List α) (m : HashMap κ ν), HoldsMax key value rank pre m →
      HoldsMax key value rank (pre ++ post) (post.foldl (HashMap.keepMax key value rank) m) := by
    intro pre post
    induction post generalizing pre with
    | nil => intro m hm; simpa using hm
    | cons a post ih =>
      intro m hm
      have := ih (pre ++ [a]) _ (hm.keepMax a)
      simpa using this
  exact hrun [] l ∅ ⟨by simp, by simp⟩

end MaxBy

end HashMap
