import Omnigraph.Lib.Digits
import Omnigraph.Lib.Separated

/-!
# Length-prefixed texts

Optional texts written one after the other, each with its length in bytes before it. The sequence of
texts can be read back, whatever characters they hold.
-/

namespace Framed

open List

lemma utf8Len_toList (s : String) : String.utf8Len s.toList = s.utf8ByteSize := by
  rw [← String.utf8ByteSize_ofList, String.ofList_toList]

/-- Of two texts at the start of one text the longer one has more bytes. -/
lemma append_inj_of_utf8Len {a b r r' : List Char} (h : a ++ r = b ++ r')
    (hlen : String.utf8Len a = String.utf8Len b) : a = b ∧ r = r' := by
  induction a generalizing b with
  | nil =>
    have hb : b = [] := String.utf8Len_eq_zero.mp hlen.symm
    subst hb
    exact ⟨rfl, h⟩
  | cons c a ih =>
    cases b with
    | nil => cases String.utf8Len_eq_zero.mp hlen
    | cons d b =>
      obtain ⟨rfl, htail⟩ := List.cons.inj h
      obtain ⟨rfl, rfl⟩ := ih htail (by simpa using hlen)
      exact ⟨rfl, rfl⟩

/-- A text with its length, or the mark of no text. -/
def frame : Option String → List Char
  | none => ['N']
  | some s => 'L' :: ((toString s.utf8ByteSize).toList ++ ':' :: s.toList)

lemma frame_append_inj {o o' : Option String} {r r' : List Char}
    (h : frame o ++ r = frame o' ++ r') : o = o' ∧ r = r' := by
  cases o with
  | none =>
    cases o' with
    | none => exact ⟨rfl, (List.cons.inj h).2⟩
    | some s' => simp [frame] at h
  | some s =>
    cases o' with
    | none => simp [frame] at h
    | some s' =>
      have hcolon : ∀ n : ℕ, ':' ∉ (toString n).toList := by
        intro n hmem
        have := Digits.isDigit_of_mem_toString hmem
        simp at this
      have htail : (toString s.utf8ByteSize).toList ++ ':' :: (s.toList ++ r) =
          (toString s'.utf8ByteSize).toList ++ ':' :: (s'.toList ++ r') := by
        simpa [frame] using h
      obtain ⟨hlen, hrest⟩ := Separated.append_cons_inj (hcolon _) (hcolon _) htail
      have hsize : s.utf8ByteSize = s'.utf8ByteSize :=
        Digits.toString_injective (String.toList_inj.mp hlen)
      obtain ⟨hs, hr⟩ := append_inj_of_utf8Len hrest
        (by rw [utf8Len_toList, utf8Len_toList, hsize])
      exact ⟨by rw [String.toList_inj.mp hs], hr⟩

lemma frame_ne_nil (o : Option String) : frame o ≠ [] := by
  cases o with
  | none => simp [frame]
  | some s => simp [frame]

/-- Texts with the same frames are the same texts. -/
theorem flatMap_frame_inj {l l' : List (Option String)} (h : l.flatMap frame = l'.flatMap frame) :
    l = l' := by
  induction l generalizing l' with
  | nil =>
    cases l' with
    | nil => rfl
    | cons o' l' =>
      rw [flatMap_nil, flatMap_cons] at h
      exact absurd (append_eq_nil_iff.mp h.symm).1 (frame_ne_nil o')
  | cons o l ih =>
    cases l' with
    | nil =>
      rw [flatMap_nil, flatMap_cons] at h
      exact absurd (append_eq_nil_iff.mp h).1 (frame_ne_nil o)
    | cons o' l' =>
      rw [flatMap_cons, flatMap_cons] at h
      obtain ⟨rfl, hrest⟩ := frame_append_inj h
      rw [ih hrest]

end Framed
