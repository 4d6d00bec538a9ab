import Mathlib.Data.List.TakeWhile
import Omnigraph.Lib.Separated

/-!
# Texts with a prefix

Stripping a prefix and splitting at a character, and when two texts with prefixes differ.
-/

namespace Prefixed

open List

/-- The text after a prefix, if it is there. -/
def strip (pre s : String) : Option String :=
  if pre.toList.isPrefixOf s.toList then some (String.ofList (s.toList.drop pre.toList.length))
  else none

/-- The parts before and after the first `x`, if there is one. -/
def splitOnce (x : Char) (s : String) : Option (String × String) :=
  match s.toList.dropWhile (· ≠ x) with
  | [] => none
  | _ :: rest => some (String.ofList (s.toList.takeWhile (· ≠ x)), String.ofList rest)

/-! ### Stripping -/

@[simp] lemma strip_append (pre rest : String) : strip pre (pre ++ rest) = some rest := by
  rw [strip, if_pos (List.isPrefixOf_iff_prefix.mpr (by simp))]
  simp

variable {s : String}

lemma strip_eq_some_iff {pre rest : String} : strip pre s = some rest ↔ s = pre ++ rest := by
  constructor
  · intro h
    unfold strip at h
    split_ifs at h with hpre
    obtain ⟨t, ht⟩ := isPrefixOf_iff_prefix.mp hpre
    cases h
    apply String.toList_inj.mp
    rw [String.toList_append, String.toList_ofList, ← ht, drop_left]
  · rintro rfl
    exact strip_append pre rest

lemma append_inj {pre s s' : String} (h : pre ++ s = pre ++ s') : s = s' := by
  have := strip_append pre s
  rw [h, strip_append] at this
  exact (Option.some.inj this).symm

/-- Neither prefix is a prefix of the other. -/
def Apart (p q : String) : Prop :=
  p.toList.isPrefixOf q.toList = false ∧ q.toList.isPrefixOf p.toList = false

instance (p q : String) : Decidable (Apart p q) := inferInstanceAs (Decidable (_ ∧ _))

variable {p q a b : String} {x : Char}

lemma Apart.append_ne (h : Apart p q) (s t : String) : p ++ s ≠ q ++ t := by
  intro heq
  have hlist := congrArg String.toList heq
  rw [String.toList_append, String.toList_append] at hlist
  have hp : p.toList <+: q.toList ++ t.toList := ⟨_, hlist⟩
  have hq : q.toList <+: q.toList ++ t.toList := ⟨_, rfl⟩
  rcases prefix_or_prefix_of_prefix hp hq with hpq | hqp
  · rw [← isPrefixOf_iff_prefix, h.1] at hpq
    cases hpq
  · rw [← isPrefixOf_iff_prefix, h.2] at hqp
    cases hqp

lemma Apart.strip_append (h : Apart p q) (s : String) : strip p (q ++ s) = none := by
  rw [Option.eq_none_iff_forall_ne_some]
  intro rest hrest
  exact h.append_ne rest s (strip_eq_some_iff.mp hrest).symm

/-! ### Splitting -/

lemma splitOnce_append (ha : x ∉ a.toList) :
    splitOnce x (a ++ (String.singleton x ++ b)) = some (a, b) := by
  have hall : ∀ c ∈ a.toList, (c ≠ x) := fun c hc hcx => ha (hcx ▸ hc)
  have hdrop : (a ++ (String.singleton x ++ b)).toList.dropWhile (· ≠ x) = x :: b.toList := by
    rw [String.toList_append, dropWhile_append_of_pos (by simpa using hall)]
    simp
  have htake : (a ++ (String.singleton x ++ b)).toList.takeWhile (· ≠ x) = a.toList := by
    rw [String.toList_append, takeWhile_append_of_pos (by simpa using hall)]
    simp
  rw [splitOnce, hdrop, htake]
  simp

lemma splitOnce_eq_some_iff :
    splitOnce x s = some (a, b) ↔ x ∉ a.toList ∧ s = a ++ (String.singleton x ++ b) := by
  constructor
  · intro h
    unfold splitOnce at h
    split at h
    · cases h
    · next c rest hrest =>
      cases h
      have hc : c = x := by
        have := List.head?_dropWhile_not (fun c => decide (c ≠ x)) s.toList
        rw [hrest] at this
        simpa using this
      constructor
      · rw [String.toList_ofList]
        intro hmem
        have := mem_takeWhile_imp hmem
        simp at this
      · apply String.toList_inj.mp
        have := takeWhile_append_dropWhile (p := fun c => decide (c ≠ x)) (l := s.toList)
        rw [hrest, hc] at this
        simpa using this.symm
  · rintro ⟨ha, rfl⟩
    exact splitOnce_append ha

end Prefixed
