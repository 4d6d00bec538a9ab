import Mathlib.Data.List.Sort
import Mathlib.Data.List.Count
import Mathlib.Data.List.Flatten

/-!
# Sorted orders with ties

A sort that is not stable returns any order that is sorted by its keys. Two sorted orders of the
same elements agree up to ties: at every place they have elements of equal keys, and an element of
fewer than `n` smaller ones can be at a place below `n`.
-/

namespace Ranked

open List

variable {α : Type*} {r : α → α → Prop} [DecidableRel r]

/-- The number of elements before an element in every sorted order. -/
def rank (r : α → α → Prop) [DecidableRel r] (l : List α) (a : α) : ℕ :=
  l.countP fun c => !decide (r a c)

variable {l' : List α}

lemma rank_perm {l : List α} (h : l.Perm l') (a : α) : rank r l a = rank r l' a :=
  h.countP_eq _

/-- The orders a sort may return. -/
structure Sorts (r : α → α → Prop) (l τ : List α) : Prop where
  perm : τ.Perm l
  sorted : τ.Pairwise r

/-- An order of the images is an order of the elements. -/
lemma exists_perm_map {β : Type*} [DecidableEq α] {f : α → β} {l : List α} {τ : List β}
    (h : τ.Perm (l.map f)) : ∃ l' : List α, l'.Perm l ∧ τ = l'.map f := by
  induction τ generalizing l with
  | nil => exact ⟨[], by rw [map_eq_nil_iff.mp h.nil_eq.symm], rfl⟩
  | cons t τ ih =>
    obtain ⟨a, ha, rfl⟩ := List.mem_map.mp (h.mem_iff.mp mem_cons_self)
    have hcons := perm_cons_erase ha
    have hrest : τ.Perm ((l.erase a).map f) :=
      (h.trans (hcons.map f)).cons_inv
    obtain ⟨l', hperm, rfl⟩ := ih hrest
    exact ⟨a :: l', (hperm.cons a).trans hcons.symm, rfl⟩

variable {a : α} {p : ℕ}

section Preorder

variable (hrefl : ∀ a, r a a) (htrans : ∀ a b c, r a b → r b c → r a c)
  (htotal : ∀ a b, r a b ∨ r b a)

include hrefl in
/-- Only smaller elements count, and they come before. -/
lemma rank_getElem_le {τ : List α} (h : τ.Pairwise r) (hp : p < τ.length) : rank r τ τ[p] ≤ p := by
  have hsplit : τ = τ.take p ++ τ.drop p := (take_append_drop p τ).symm
  have hdrop : ∀ c ∈ τ.drop p, r τ[p] c := by
    intro c hc
    obtain ⟨i, hi, rfl⟩ := mem_iff_getElem.mp hc
    rw [getElem_drop]
    rw [length_drop] at hi
    rcases Nat.eq_zero_or_pos i with rfl | hpos
    · exact hrefl _
    · exact pairwise_iff_getElem.mp h p (p + i) hp (by omega) (by omega)
  have hzero : (τ.drop p).countP (fun c => !decide (r τ[p] c)) = 0 := by
    rw [countP_eq_zero]
    intro c hc
    simp [hdrop c hc]
  calc rank r τ τ[p] = (τ.take p ++ τ.drop p).countP (fun c => !decide (r τ[p] c)) := by
        rw [← hsplit, rank]
    _ = (τ.take p).countP (fun c => !decide (r τ[p] c)) := by
        rw [countP_append, hzero, Nat.add_zero]
    _ ≤ (τ.take p).length := countP_le_length
    _ ≤ p := by
        rw [length_take]
        omega

include hrefl htrans in
/-- Sorted orders agree up to ties. -/
lemma Sorts.le_getElem {l τ τ' : List α} (h : Sorts r l τ) (h' : Sorts r l τ') (hp : p < τ.length)
    (hp' : p < τ'.length) : r τ[p] τ'[p] := by
  by_contra hnot
  have hle := rank_getElem_le hrefl h.sorted hp
  -- all elements of the other order up to this place are smaller
  have hall : ∀ c ∈ τ'.take (p + 1), ¬ r τ[p] c := by
    intro c hc hrc
    obtain ⟨i, hi, rfl⟩ := mem_iff_getElem.mp hc
    rw [getElem_take] at hrc
    rw [length_take] at hi
    refine hnot (htrans _ _ _ hrc ?_)
    rcases Nat.lt_or_eq_of_le (Nat.le_of_lt_succ (show i < p + 1 by omega)) with hlt | rfl
    · exact pairwise_iff_getElem.mp h'.sorted i p (by omega) hp' hlt
    · exact hrefl _
  have hcount : (τ'.take (p + 1)).countP (fun c => !decide (r τ[p] c)) = p + 1 := by
    rw [countP_eq_length.mpr fun c hc => by simpa using hall c hc, length_take]
    omega
  have hge : p + 1 ≤ rank r τ' τ[p] := by
    rw [← hcount]
    exact (take_sublist _ _).countP_le
  rw [rank_perm (h.perm.trans h'.perm.symm)] at hle
  omega

include htrans htotal in
/-- Some sorted order has an element at the place of its rank. -/
lemma exists_sorts_getElem [DecidableEq α] {l : List α} (ha : a ∈ l) :
    ∃ τ, Sorts r l τ ∧ τ[rank r l a]? = some a := by
  have htrans' : IsTrans α r := ⟨htrans⟩
  have htotal' : Std.Total r := ⟨htotal⟩
  set smaller := l.filter fun c => !decide (r a c) with hsmaller
  set others := (l.filter fun c => decide (r a c)).erase a
  have hrefl : r a a := (htotal a a).elim id id
  have hmem : a ∈ l.filter fun c => decide (r a c) := mem_filter.mpr ⟨ha, by simpa using hrefl⟩
  refine ⟨smaller.insertionSort r ++ a :: others.insertionSort r, ⟨?_, ?_⟩, ?_⟩
  · have hsplit := filter_append_perm (fun c => !decide (r a c)) l
    simp only [Bool.not_not] at hsplit
    refine List.Perm.trans ?_ hsplit
    refine (perm_insertionSort r smaller).append ?_
    exact ((perm_insertionSort r others).cons a).trans (perm_cons_erase hmem).symm
  · rw [pairwise_append]
    refine ⟨pairwise_insertionSort r _, ?_, ?_⟩
    · rw [pairwise_cons]
      refine ⟨fun c hc => ?_, pairwise_insertionSort r _⟩
      have hc := mem_of_mem_erase ((perm_insertionSort r _).mem_iff.mp hc)
      exact of_decide_eq_true (mem_filter.mp hc).2
    · intro b hb c hc
      have hb := (mem_filter.mp ((perm_insertionSort r _).mem_iff.mp hb)).2
      have hba : r b a := (htotal b a).resolve_right (by simpa using hb)
      rcases mem_cons.mp hc with rfl | hc
      · exact hba
      · have hc := mem_of_mem_erase ((perm_insertionSort r _).mem_iff.mp hc)
        exact htrans _ _ _ hba (of_decide_eq_true (mem_filter.mp hc).2)
  · have hlen : (smaller.insertionSort r).length = rank r l a := by
      rw [length_insertionSort, hsmaller, rank, countP_eq_length_filter]
    rw [← hlen, List.getElem?_append_right (le_refl _)]
    simp

end Preorder

/-! ### The first elements -/

section Limit

/-- Whether a place is shown under a limit. -/
def Within (limit : Option ℕ) (p : ℕ) : Prop := ∀ n, limit = some n → p < n

/-- The first elements, as many as the limit says. -/
def limited {β : Type*} (limit : Option ℕ) (l : List β) : List β :=
  match limit with
  | some n => l.take n
  | none => l

variable {limit : Option ℕ}

lemma getElem?_limited {β : Type*} {l : List β} (h : Within limit p) :
    (limited limit l)[p]? = l[p]? := by
  cases limit with
  | none => rfl
  | some n => exact List.getElem?_take_of_lt (h n rfl)

lemma mem_of_mem_limited {β : Type*} {l : List β} {a : β} (h : a ∈ limited limit l) : a ∈ l := by
  cases limit with
  | none => exact h
  | some n => exact mem_of_mem_take h

/-- Lists that agree on the places shown. -/
lemma limited_eq {β : Type*} {l l' : List β} (h : ∀ p, Within limit p → l[p]? = l'[p]?) :
    limited limit l = limited limit l' := by
  cases limit with
  | none => exact ext_getElem? fun p => h p nofun
  | some n =>
    apply ext_getElem?
    intro p
    simp only [limited, List.getElem?_take]
    split_ifs with hp
    · exact h p fun m hm => by cases hm; exact hp
    · rfl

/-- Elements that tie and differ are beyond the limit. -/
def TiesBeyond {β : Type*} (r : α → α → Prop) [DecidableRel r] (f : α → β) (limit : Option ℕ)
    (l : List α) : Prop :=
  ∀ a ∈ l, ∀ b ∈ l, r a b → r b a → f a ≠ f b → ¬ Within limit (rank r l a)

/-- The first elements of a list of blocks are in its first blocks. -/
lemma take_flatMap_take {β γ : Type*} {f : β → List γ} {l : List β} (h : ∀ b ∈ l, f b ≠ [])
    (n : ℕ) : ((l.take n).flatMap f).take n = (l.flatMap f).take n := by
  have hlength : ∀ l' : List β, (∀ b ∈ l', f b ≠ []) → l'.length ≤ (l'.flatMap f).length := by
    intro l' h'
    induction l' with
    | nil => simp
    | cons b l' ih =>
      have hpos := length_pos_iff.mpr (h' b mem_cons_self)
      have := ih fun c hc => h' c (mem_cons_of_mem _ hc)
      rw [flatMap_cons, length_append, length_cons]
      omega
  rcases le_total l.length n with hle | hle
  · rw [take_of_length_le hle]
  · have hlong := hlength (l.take n) fun b hb => h b (mem_of_mem_take hb)
    rw [length_take, min_eq_left hle] at hlong
    conv_rhs => rw [← take_append_drop n l, flatMap_append,
      take_append_of_le_length hlong]

variable (hrefl : ∀ a, r a a) (htrans : ∀ a b c, r a b → r b c → r a c)
  (htotal : ∀ a b, r a b ∨ r b a)

include hrefl in
lemma within_rank {l τ : List α} (h : Sorts r l τ) (hp : p < τ.length) (hwithin : Within limit p) :
    Within limit (rank r l τ[p]) := by
  intro n hn
  have hle := rank_getElem_le hrefl h.sorted hp
  rw [rank_perm h.perm] at hle
  exact lt_of_le_of_lt hle (hwithin n hn)

include hrefl htrans in
/-- Every sorted order shows the same if what ties is beyond the limit. -/
theorem limited_map_eq {β : Type*} {f : α → β} {l τ τ' : List α} (hties : TiesBeyond r f limit l)
    (h : Sorts r l τ) (h' : Sorts r l τ') : limited limit (τ.map f) = limited limit (τ'.map f) := by
  have hlen : τ.length = τ'.length := (h.perm.trans h'.perm.symm).length_eq
  apply limited_eq
  intro p hp
  by_cases hlt : p < τ.length
  · have hlt' : p < τ'.length := hlen ▸ hlt
    rw [List.getElem?_map, List.getElem?_map, List.getElem?_eq_getElem hlt,
      List.getElem?_eq_getElem hlt', Option.map_some, Option.map_some]
    by_contra hne
    exact hties _ (h.perm.mem_iff.mp (getElem_mem hlt)) _
      (h'.perm.mem_iff.mp (getElem_mem hlt')) (h.le_getElem hrefl htrans h' hlt hlt')
      (h'.le_getElem hrefl htrans h hlt' hlt) (fun heq => hne (by rw [heq]))
      (within_rank hrefl h hlt hp)
  · rw [List.getElem?_eq_none (by simpa using hlt),
      List.getElem?_eq_none (by simpa [← hlen] using hlt)]

include htrans htotal in
/-- If every sorted order shows the same, what ties is beyond the limit. -/
theorem tiesBeyond_of_forall [DecidableEq α] {β : Type*} {f : α → β} {l : List α}
    (h : ∀ τ τ', Sorts r l τ → Sorts r l τ' → limited limit (τ.map f) = limited limit (τ'.map f)) :
    TiesBeyond r f limit l := by
  intro a ha b hb hab hba hne hwithin
  have hrank : rank r l a = rank r l b := by
    apply countP_congr
    intro c _
    simp only [Bool.not_eq_true', decide_eq_false_iff_not]
    exact ⟨mt fun hbc => htrans _ _ _ hab hbc, mt fun hac => htrans _ _ _ hba hac⟩
  obtain ⟨τ, hτ, hget⟩ := exists_sorts_getElem htrans htotal ha
  obtain ⟨τ', hτ', hget'⟩ := exists_sorts_getElem htrans htotal hb
  have hplace : (limited limit (τ.map f))[rank r l a]? = (limited limit (τ'.map f))[rank r l a]? :=
    by rw [h τ τ' hτ hτ']
  rw [getElem?_limited hwithin, getElem?_limited hwithin, List.getElem?_map, List.getElem?_map,
    hget, hrank, hget'] at hplace
  exact hne (Option.some.inj hplace)

lemma Within.of_le {q : ℕ} (h : Within limit q) (hle : p ≤ q) :
    Within limit p := fun n hn => lt_of_le_of_lt hle (h n hn)

/-- Elements that are not shown can be left out. -/
lemma getElem?_filter_of_shown {l : List α} {keep : α → Bool}
    (h : ∀ p (hp : p < l.length), Within limit p → keep l[p] = true) (hwithin : Within limit p) :
    (l.filter keep)[p]? = l[p]? := by
  by_cases hp : p < l.length
  · have hall : ∀ a ∈ l.take (p + 1), keep a = true := by
      intro a ha
      obtain ⟨i, hi, rfl⟩ := mem_iff_getElem.mp ha
      rw [getElem_take]
      rw [length_take] at hi
      exact h i (by omega) (hwithin.of_le (by omega))
    have hlen : p < (l.take (p + 1)).length := by
      rw [length_take]
      omega
    have hsplit : l.filter keep = l.take (p + 1) ++ (l.drop (p + 1)).filter keep := by
      rw [← filter_eq_self.mpr hall, ← filter_append, take_append_drop]
    rw [hsplit, List.getElem?_append_left hlen, List.getElem?_take_of_lt (Nat.lt_succ_self p)]
  · have hle := length_filter_le keep l
    rw [List.getElem?_eq_none (by omega), List.getElem?_eq_none (by omega)]

include hrefl htrans in
/-- Two lists show the same if what is shown of one is in the other. -/
theorem limited_eq_of_shown [DecidableEq α] {l τ τ' : List α} (hl : l.Nodup) (hl' : l'.Nodup)
    (hties : TiesBeyond r id limit l) (hshown : ∀ a ∈ l, Within limit (rank r l a) → a ∈ l')
    (hshown' : ∀ a ∈ l', Within limit (rank r l' a) → a ∈ l) (h : Sorts r l τ)
    (h' : Sorts r l' τ') :
    limited limit τ = limited limit τ' := by
  have hkept : ∀ p, Within limit p → (τ.filter (· ∈ l'))[p]? = τ[p]? := by
    intro p hp
    refine getElem?_filter_of_shown (fun q hq hwithin => ?_) hp
    simpa using hshown _ (h.perm.mem_iff.mp (getElem_mem hq)) (within_rank hrefl h hq hwithin)
  have hkept' : ∀ p, Within limit p → (τ'.filter (· ∈ l))[p]? = τ'[p]? := by
    intro p hp
    refine getElem?_filter_of_shown (fun q hq hwithin => ?_) hp
    simpa using hshown' _ (h'.perm.mem_iff.mp (getElem_mem hq))
      (within_rank hrefl h' hq hwithin)
  -- the elements of both lists, in two sorted orders
  have hsorts : Sorts r (l.filter (· ∈ l')) (τ.filter (· ∈ l')) :=
    ⟨h.perm.filter _, h.sorted.filter _⟩
  have hsorts' : Sorts r (l.filter (· ∈ l')) (τ'.filter (· ∈ l)) := by
    refine ⟨(h'.perm.filter _).trans ?_, h'.sorted.filter _⟩
    rw [perm_ext_iff_of_nodup (hl'.filter _) (hl.filter _)]
    intro a
    simp [and_comm]
  apply limited_eq
  intro p hp
  rw [← hkept p hp, ← hkept' p hp]
  have hlen := (hsorts.perm.trans hsorts'.perm.symm).length_eq
  by_cases hlt : p < (τ.filter (· ∈ l')).length
  · have hlt' : p < (τ'.filter (· ∈ l)).length := hlen ▸ hlt
    have hτ : p < τ.length := hlt.trans_le (length_filter_le _ _)
    have hget : (τ.filter (· ∈ l'))[p] = τ[p] := by
      have := hkept p hp
      rw [List.getElem?_eq_getElem hlt, List.getElem?_eq_getElem hτ] at this
      exact Option.some.inj this
    rw [List.getElem?_eq_getElem hlt, List.getElem?_eq_getElem hlt']
    -- two elements at one place would tie within the limit
    by_contra hne
    have hmem : (τ'.filter (· ∈ l))[p] ∈ l := by
      simpa using (mem_filter.mp (getElem_mem hlt')).2
    refine hties τ[p] (h.perm.mem_iff.mp (getElem_mem hτ)) _ hmem ?_ ?_ ?_
      (within_rank hrefl h hτ hp)
    · rw [← hget]
      exact hsorts.le_getElem hrefl htrans hsorts' hlt hlt'
    · rw [← hget]
      exact hsorts'.le_getElem hrefl htrans hsorts hlt' hlt
    · rw [← hget]
      exact fun heq => hne (congrArg some heq)
  · rw [List.getElem?_eq_none (by simpa using hlt),
      List.getElem?_eq_none (by simpa [← hlen] using hlt)]

end Limit

/-! ### Lexicographic orders -/

section Lexicographic

variable {ι κ : Type*} [LinearOrder κ]

/-- Whether a key comes before another one, in ascending or descending order. -/
def before (descending : Bool) (a b : κ) : Prop := if descending then b < a else a < b

instance (descending : Bool) (a b : κ) : Decidable (before descending a b) :=
  inferInstanceAs (Decidable (if descending then b < a else a < b))

/-- The order by several keys, each ascending or descending. -/
def lexLe : List (Bool × (ι → κ)) → ι → ι → Prop
  | [], _, _ => True
  | (descending, key) :: keys, i, j =>
      before descending (key i) (key j) ∨ (key i = key j ∧ lexLe keys i j)

instance decidableLexLe : (keys : List (Bool × (ι → κ))) → DecidableRel (lexLe keys)
  | [] => fun _ _ => .isTrue trivial
  | (descending, key) :: keys => fun i j =>
    have := decidableLexLe keys i j
    inferInstanceAs (Decidable (before descending (key i) (key j) ∨
      (key i = key j ∧ lexLe keys i j)))

lemma before_irrefl (descending : Bool) (a : κ) : ¬ before descending a a := by
  cases descending <;> exact lt_irrefl a

lemma before_trans {descending : Bool} {a b c : κ} (hab : before descending a b)
    (hbc : before descending b c) : before descending a c := by
  cases descending with
  | false => exact lt_trans hab hbc
  | true => exact lt_trans hbc hab

lemma before_or_eq (descending : Bool) (a b : κ) :
    before descending a b ∨ a = b ∨ before descending b a := by
  cases descending with
  | false => exact lt_trichotomy a b
  | true =>
    rcases lt_trichotomy a b with h | h | h
    · exact .inr (.inr h)
    · exact .inr (.inl h)
    · exact .inl h

lemma lexLe_refl (keys : List (Bool × (ι → κ))) (i : ι) : lexLe keys i i := by
  induction keys with
  | nil => trivial
  | cons k keys ih => exact .inr ⟨rfl, ih⟩

lemma lexLe_trans (keys : List (Bool × (ι → κ))) (i j k : ι) (hij : lexLe keys i j)
    (hjk : lexLe keys j k) : lexLe keys i k := by
  induction keys with
  | nil => trivial
  | cons key keys ih =>
    rcases hij with hij | ⟨heq, hij⟩
    · rcases hjk with hjk | ⟨heq', -⟩
      · exact .inl (before_trans hij hjk)
      · exact .inl (heq' ▸ hij)
    · rcases hjk with hjk | ⟨heq', hjk⟩
      · exact .inl (heq ▸ hjk)
      · exact .inr ⟨heq.trans heq', ih hij hjk⟩

lemma lexLe_total (keys : List (Bool × (ι → κ))) (i j : ι) : lexLe keys i j ∨ lexLe keys j i := by
  induction keys with
  | nil => exact .inl trivial
  | cons key keys ih =>
    rcases before_or_eq key.1 (key.2 i) (key.2 j) with h | h | h
    · exact .inl (.inl h)
    · exact ih.imp (fun hij => .inr ⟨h, hij⟩) fun hji => .inr ⟨h.symm, hji⟩
    · exact .inr (.inl h)

variable {i j : ι} {keys : List (Bool × (ι → κ))}

/-- Keys that agree on two elements order them alike. -/
lemma lexLe_congr {ι' : Type*} {keys' : List (Bool × (ι' → κ))} {i' j' : ι'}
    (h : List.Forall₂ (fun k k' => k.1 = k'.1 ∧ k.2 i = k'.2 i' ∧ k.2 j = k'.2 j') keys keys') :
    lexLe keys i j ↔ lexLe keys' i' j' := by
  induction h with
  | nil => exact Iff.rfl
  | cons hkey _ ih =>
    obtain ⟨hdir, hi, hj⟩ := hkey
    simp only [lexLe, hdir, hi, hj, ih]

/-- What ties has equal keys. -/
lemma eq_of_lexLe (hij : lexLe keys i j) (hji : lexLe keys j i) :
    ∀ key ∈ keys, key.2 i = key.2 j := by
  induction keys with
  | nil => simp
  | cons key keys ih =>
    rcases hij with hij | ⟨heq, hij⟩
    · rcases hji with hji | ⟨heq, -⟩
      · exact absurd (before_trans hij hji) (before_irrefl _ _)
      · exact absurd (heq ▸ hij) (before_irrefl _ _)
    · rcases hji with hji | ⟨-, hji⟩
      · exact absurd (heq ▸ hji) (before_irrefl _ _)
      · intro key' hkey'
        rcases mem_cons.mp hkey' with rfl | hkey'
        · exact heq
        · exact ih hij hji key' hkey'

end Lexicographic

/-! ### Orders by a score -/

/-- An element inserted before the first one it does not come after. -/
lemma pairwise_orderedInsert {R : α → α → Prop} {τ : List α} (hτ : τ.Pairwise R)
    (hafter : ∀ b ∈ τ, r a b → R a b) (hbefore : ∀ b ∈ τ, ¬ r a b → R b a)
    (hnext : ∀ b c, r a b → R b c → r a c) : (τ.orderedInsert r a).Pairwise R := by
  induction τ with
  | nil => simp
  | cons b τ ih =>
    obtain ⟨hb, hτ⟩ := pairwise_cons.mp hτ
    rw [orderedInsert_cons]
    split_ifs with hab
    · refine pairwise_cons.mpr ⟨fun c hc => hafter c hc ?_, pairwise_cons.mpr ⟨hb, hτ⟩⟩
      rcases mem_cons.mp hc with rfl | hc
      · exact hab
      · exact hnext b c hab (hb c hc)
    · refine pairwise_cons.mpr ⟨fun c hc => ?_, ih hτ
        (fun c hc => hafter c (mem_cons_of_mem _ hc))
        fun c hc => hbefore c (mem_cons_of_mem _ hc)⟩
      rcases (mem_orderedInsert r).mp hc with rfl | hc
      · exact hbefore b mem_cons_self hab
      · exact hb c hc

section Scores

variable {κ : Type*} [LinearOrder κ] [DecidableEq α] {score : α → κ} {l τ : List α}

/-- Elements of greater score come first, elements of one score as they come in a list. -/
def Outranks (score : α → κ) (l : List α) (a b : α) : Prop :=
  score b < score a ∨ (score a = score b ∧ l.idxOf a < l.idxOf b)

/-- The elements of a list, ranked by their scores. -/
structure RankedBy (score : α → κ) (l τ : List α) : Prop where
  perm : τ.Perm l
  sorted : τ.Pairwise (Outranks score l)

variable {b : α}

lemma Outranks.not_outranks (h : Outranks score l a b) : ¬ Outranks score l b a := by
  rintro (hlt | ⟨heq, hidx⟩)
  · rcases h with h | ⟨heq, -⟩
    · exact lt_asymm h hlt
    · exact absurd hlt (by simp [heq])
  · rcases h with h | ⟨-, hidx'⟩
    · exact absurd h (by simp [heq])
    · exact lt_asymm hidx hidx'

/-- There is one ranking. -/
lemma RankedBy.unique {τ' : List α} (h : RankedBy score l τ) (h' : RankedBy score l τ') :
    τ = τ' :=
  (h.perm.trans h'.perm.symm).eq_of_pairwise
    (fun _ _ _ _ hab hba => absurd hba hab.not_outranks) h.sorted h'.sorted

lemma Outranks.le (h : Outranks score l a b) : score b ≤ score a := by
  rcases h with h | ⟨h, -⟩
  · exact h.le
  · exact h.ge

/-- A stable sort by descending score ranks the elements. -/
theorem rankedBy_insertionSort (hl : l.Nodup) :
    RankedBy score l (l.insertionSort fun a b => score b ≤ score a) := by
  refine ⟨perm_insertionSort _ _, ?_⟩
  induction l with
  | nil => simp
  | cons a l ih =>
    obtain ⟨ha, hl⟩ := nodup_cons.mp hl
    have hne : ∀ b ∈ l.insertionSort fun a b => score b ≤ score a, a ≠ b := by
      rintro b hb rfl
      exact ha ((mem_insertionSort _).mp hb)
    have hshift : ∀ b, a ≠ b → (a :: l).idxOf b = l.idxOf b + 1 :=
      fun b hb => idxOf_cons_ne _ hb
    rw [insertionSort_cons]
    apply pairwise_orderedInsert
    · refine (ih hl).imp_of_mem fun {b c} hb hc hbc => hbc.imp_right fun htie => ⟨htie.1, ?_⟩
      rw [hshift b (hne b hb), hshift c (hne c hc)]
      exact Nat.succ_lt_succ htie.2
    · intro b hb hle
      rcases hle.lt_or_eq with hlt | heq
      · exact .inl hlt
      · refine .inr ⟨heq.symm, ?_⟩
        rw [idxOf_cons_self, hshift b (hne b hb)]
        exact Nat.succ_pos _
    · intro b _ hnot
      exact .inl (not_le.mp hnot)
    · intro b c hle hbc
      exact hbc.le.trans hle

/-! ### Blocks of ranked elements -/

section Blocks

variable {score' : α → κ} {τ' : List α} {β : Type*} {f : α → List β} {n : ℕ}

instance (score : α → κ) (l : List α) (a b : α) : Decidable (Outranks score l a b) :=
  inferInstanceAs (Decidable (score b < score a ∨ (score a = score b ∧ l.idxOf a < l.idxOf b)))

/-- The block of an element starts before place `n`. -/
def Shown (score : α → κ) (l : List α) (f : α → List β) (n : ℕ) (a : α) : Prop :=
  ((l.filter fun b => Outranks score l b a).flatMap f).length < n

/-- Another score puts the same elements before each one whose block starts before place `n`. -/
def ShownAlike (score score' : α → κ) (l : List α) (f : α → List β) (n : ℕ) : Prop :=
  ∀ a ∈ l, Shown score l f n a → ∀ b ∈ l, Outranks score' l b a ↔ Outranks score l b a

instance (score : α → κ) (l : List α) (f : α → List β) (n : ℕ) (a : α) :
    Decidable (Shown score l f n a) :=
  inferInstanceAs (Decidable (_ < n))

instance (score score' : α → κ) (l : List α) (f : α → List β) (n : ℕ) :
    Decidable (ShownAlike score score' l f n) :=
  inferInstanceAs (Decidable (∀ a ∈ l, _ → ∀ b ∈ l, _))

/-- What outranks an element is what comes before it. -/
lemma RankedBy.filter_outranks (h : RankedBy score l τ) (hp : p < τ.length) :
    (τ.filter fun b => Outranks score l b τ[p]) = τ.take p := by
  have hsorted := pairwise_iff_getElem.mp h.sorted
  have hbefore : ((τ.take p).filter fun b => Outranks score l b τ[p]) = τ.take p := by
    rw [filter_eq_self]
    intro b hb
    obtain ⟨i, hi, rfl⟩ := mem_iff_getElem.mp hb
    rw [length_take] at hi
    rw [getElem_take]
    exact decide_eq_true (hsorted i p (by omega) hp (by omega))
  have hafter : ((τ.drop p).filter fun b => Outranks score l b τ[p]) = [] := by
    rw [filter_eq_nil_iff]
    intro b hb
    obtain ⟨i, hi, rfl⟩ := mem_iff_getElem.mp hb
    rw [length_drop] at hi
    rw [getElem_drop, decide_eq_true_eq]
    intro hout
    rcases Nat.eq_zero_or_pos i with rfl | hpos
    · exact hout.not_outranks hout
    · exact hout.not_outranks (hsorted p (p + i) hp (by omega) (by omega))
  calc τ.filter (fun b => Outranks score l b τ[p])
      = (τ.take p ++ τ.drop p).filter fun b => Outranks score l b τ[p] := by
        rw [take_append_drop]
    _ = τ.take p := by rw [filter_append, hbefore, hafter, append_nil]

lemma RankedBy.outranks_iff (h : RankedBy score l τ) (hp : p < τ.length) (hb : b ∈ l) :
    Outranks score l b τ[p] ↔ b ∈ τ.take p := by
  rw [← h.filter_outranks hp, mem_filter, decide_eq_true_eq]
  exact ⟨fun hout => ⟨h.perm.mem_iff.mpr hb, hout⟩, fun hout => hout.2⟩

lemma RankedBy.shown_iff (h : RankedBy score l τ) (hp : p < τ.length) :
    Shown score l f n τ[p] ↔ ((τ.take p).flatMap f).length < n := by
  rw [Shown, ← h.filter_outranks hp, ((h.perm.filter _).flatMap_right f).length_eq]

/-- Two rankings have the same elements at the places shown. -/
lemma ShownAlike.getElem?_eq (halike : ShownAlike score score' l f n) (h : RankedBy score l τ)
    (h' : RankedBy score' l τ') (hp : ((τ.take p).flatMap f).length < n) : τ[p]? = τ'[p]? := by
  have hlen : τ.length = τ'.length := (h.perm.trans h'.perm.symm).length_eq
  by_cases hlt : p < τ.length
  · have hmem : τ[p] ∈ l := h.perm.mem_iff.mp (getElem_mem hlt)
    obtain ⟨q, hq, hget⟩ := mem_iff_getElem.mp (h'.perm.mem_iff.mpr hmem)
    -- as many elements outrank it by each of the scores
    have hcount : (τ'.filter fun b => Outranks score' l b τ'[q]).length =
        (τ.filter fun b => Outranks score l b τ[p]).length := by
      rw [(h'.perm.filter _).length_eq, (h.perm.filter _).length_eq, hget]
      refine congrArg List.length (filter_congr fun b hb => ?_)
      exact decide_eq_decide.mpr (halike _ hmem ((h.shown_iff hlt).mpr hp) b hb)
    rw [h'.filter_outranks hq, h.filter_outranks hlt, length_take, length_take] at hcount
    have hqp : q = p := by omega
    subst hqp
    rw [List.getElem?_eq_getElem hlt, List.getElem?_eq_getElem hq, hget]
  · rw [List.getElem?_eq_none (not_lt.mp hlt), List.getElem?_eq_none (hlen ▸ not_lt.mp hlt)]

/-- Lists with the same elements at the places shown. -/
lemma take_flatMap_eq (h : ∀ p, ((τ.take p).flatMap f).length < n → τ[p]? = τ'[p]?) :
    (τ.flatMap f).take n = (τ'.flatMap f).take n := by
  induction τ generalizing τ' n with
  | nil =>
    rcases Nat.eq_zero_or_pos n with rfl | hn
    · simp
    · have hnil := h 0 (by simpa using hn)
      rw [List.getElem?_nil, eq_comm, List.getElem?_eq_none_iff] at hnil
      rw [length_eq_zero_iff.mp (Nat.le_zero.mp hnil)]
  | cons a τ ih =>
    rcases Nat.eq_zero_or_pos n with rfl | hn
    · simp
    · have hhead := h 0 (by simpa using hn)
      cases τ' with
      | nil => cases hhead
      | cons b τ' =>
        cases hhead
        rw [flatMap_cons, flatMap_cons, take_append, take_append]
        congr 1
        refine ih fun p hp => ?_
        have hnext := h (p + 1) (by
          rw [take_succ_cons, flatMap_cons, length_append]
          omega)
        simpa using hnext

variable {owner : β → α}

/-- The elements that the first places belong to tell the elements shown. -/
lemma getElem?_eq_of_owners (hne : ∀ a ∈ l, f a ≠ []) (howner : ∀ a ∈ l, ∀ i ∈ f a, owner i = a)
    (hτ : ∀ a ∈ τ, a ∈ l) (hτ' : ∀ a ∈ τ', a ∈ l)
    (h : ((τ.flatMap f).take n).map owner = ((τ'.flatMap f).take n).map owner)
    (hp : ((τ.take p).flatMap f).length < n) : τ[p]? = τ'[p]? := by
  -- the first place of a list of blocks belongs to the first block
  have hhead : ∀ {a : α} {τ : List α} {n : ℕ}, a ∈ l → 0 < n →
      ((((a :: τ).flatMap f).take n).map owner).head? = some a := by
    intro a τ n ha hn
    obtain ⟨i, rest, hblock⟩ := exists_cons_of_ne_nil (hne a ha)
    obtain ⟨n, rfl⟩ := Nat.exists_eq_succ_of_ne_zero hn.ne'
    rw [flatMap_cons, hblock, cons_append, take_succ_cons, map_cons,
      List.head?_cons, howner a ha i (hblock ▸ mem_cons_self)]
  have hpos : 0 < n := by omega
  induction τ generalizing τ' n p with
  | nil =>
    cases τ' with
    | nil => rfl
    | cons b τ' =>
      have hsame := congrArg List.head? h
      rw [hhead (hτ' b mem_cons_self) hpos] at hsame
      simp at hsame
  | cons a τ ih =>
    have ha := hτ a mem_cons_self
    have hsame := congrArg List.head? h
    rw [hhead ha hpos] at hsame
    cases τ' with
    | nil => simp at hsame
    | cons b τ' =>
      rw [hhead (hτ' b mem_cons_self) hpos] at hsame
      cases hsame
      cases p with
      | zero => rfl
      | succ p =>
        rw [take_succ_cons, flatMap_cons, length_append] at hp
        rw [flatMap_cons, flatMap_cons, take_append, take_append,
          map_append, map_append] at h
        rw [List.getElem?_cons_succ, List.getElem?_cons_succ]
        exact ih (fun c hc => hτ c (mem_cons_of_mem _ hc))
          (fun c hc => hτ' c (mem_cons_of_mem _ hc)) (append_cancel_left h)
          (p := p) (by omega) (by omega)

/-- Rankings with the same elements at the places shown rank what is shown alike. -/
lemma shownAlike_of_getElem? (h : RankedBy score l τ) (h' : RankedBy score' l τ')
    (hplaces : ∀ p, ((τ.take p).flatMap f).length < n → τ[p]? = τ'[p]?) :
    ShownAlike score score' l f n := by
  intro a ha hshown b hb
  obtain ⟨p, hp, rfl⟩ := mem_iff_getElem.mp (h.perm.mem_iff.mpr ha)
  rw [h.shown_iff hp] at hshown
  have hget := hplaces p hshown
  obtain ⟨hp', hget⟩ := List.getElem?_eq_some_iff.mp ((List.getElem?_eq_getElem hp).symm.trans
    hget).symm
  have htake : τ.take p = τ'.take p := by
    apply ext_getElem?
    intro q
    rw [List.getElem?_take, List.getElem?_take]
    split_ifs with hq
    · refine hplaces q (lt_of_le_of_lt ?_ hshown)
      exact ((take_prefix_take_left hq.le).sublist.flatMap f).length_le
    · rfl
  rw [h.outranks_iff hp hb, htake, ← h'.outranks_iff hp' hb, hget]

/-- Two rankings show the same if and only if they rank what is shown alike. -/
theorem shownAlike_iff (hne : ∀ a ∈ l, f a ≠ []) (howner : ∀ a ∈ l, ∀ i ∈ f a, owner i = a)
    (h : RankedBy score l τ) (h' : RankedBy score' l τ') : ShownAlike score score' l f n ↔
      ((τ.flatMap f).take n).map owner = ((τ'.flatMap f).take n).map owner :=
  ⟨fun halike => by rw [take_flatMap_eq fun _ => halike.getElem?_eq h h'],
    fun hsame => shownAlike_of_getElem? h h' fun _ => getElem?_eq_of_owners hne howner
      (fun _ => h.perm.mem_iff.mp) (fun _ => h'.perm.mem_iff.mp) hsame⟩

end Blocks

end Scores

end Ranked
