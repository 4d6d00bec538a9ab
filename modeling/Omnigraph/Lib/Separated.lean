import Mathlib.Data.String.Basic
import Mathlib.Tactic

/-!
# Texts with separators

Parts that do not contain the separator can be read back from the text they are joined to.
-/

namespace Separated

/-- The part before the first separator, and what follows it. -/
lemma append_cons_inj {α : Type*} {x : α} {a a' r r' : List α} (ha : x ∉ a) (ha' : x ∉ a')
    (h : a ++ x :: r = a' ++ x :: r') : a = a' ∧ r = r' := by
  induction a generalizing a' with
  | nil =>
    cases a' with
    | nil => exact ⟨rfl, (List.cons.inj h).2⟩
    | cons b a' => exact absurd (by simp [(List.cons.inj h).1]) ha'
  | cons b a ih =>
    cases a' with
    | nil => exact absurd (by simp [(List.cons.inj h).1]) ha
    | cons b' a' =>
      obtain ⟨rfl, hrest⟩ := List.cons.inj h
      obtain ⟨rfl, rfl⟩ := ih (fun hc => ha (List.mem_cons_of_mem _ hc))
        (fun hc => ha' (List.mem_cons_of_mem _ hc)) hrest
      exact ⟨rfl, rfl⟩

/-- Joined parts, none of which contains the separator. -/
lemma intercalate_inj {x : Char} {l l' : List String} (hl : ∀ s ∈ l, x ∉ s.toList)
    (hl' : ∀ s ∈ l', x ∉ s.toList) (hne : l ≠ []) (hne' : l' ≠ [])
    (h : (String.singleton x).intercalate l = (String.singleton x).intercalate l') : l = l' := by
  have hlist := congrArg String.toList h
  rw [String.toList_intercalate, String.toList_intercalate, String.toList_singleton] at hlist
  have hsplit := congrArg (List.splitOn x) hlist
  rw [List.splitOn_intercalate x (by simpa using hl) (by simpa using hne),
    List.splitOn_intercalate x (by simpa using hl') (by simpa using hne')] at hsplit
  exact List.map_injective_iff.mpr (fun _ _ hst => String.toList_inj.mp hst) hsplit

end Separated
