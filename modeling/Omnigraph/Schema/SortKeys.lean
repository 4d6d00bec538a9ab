import Omnigraph.Lib.Digits
import Omnigraph.Lib.Separated
import Omnigraph.Schema.Parsed

/-!
# Sort keys

The texts annotations and constraints are sorted by tell them apart: annotations always, and
constraints if they are grammatical, since names contain no separator.
-/

namespace Omnigraph.Schema

open List Sorted

/-! ### Annotations -/

lemma kwargsJson_cons (m : String × String) (l : List (String × String)) :
    kwargsJson (m :: l) = Quoted.quote m.1 ++ ':' :: (Quoted.quote m.2 ++
      if l = [] then [] else ',' :: kwargsJson l) := by
  cases l with
  | nil => simp [kwargsJson]
  | cons _ _ => simp [kwargsJson]

variable {r r' : List Char} {s : String}

lemma quote_ne_brace : Quoted.quote s ++ r ≠ '\x7d' :: r' := by
  intro hc
  rw [Quoted.quote, cons_append] at hc
  exact absurd (List.cons.inj hc).1 (by decide)

lemma kwargsJson_append_inj {l l' : List (String × String)}
    (h : kwargsJson l ++ '\x7d' :: r = kwargsJson l' ++ '\x7d' :: r') : l = l' := by
  induction l generalizing l' with
  | nil =>
    cases l' with
    | nil => rfl
    | cons m' l' =>
      rw [kwargsJson_cons, append_assoc] at h
      exact absurd h.symm quote_ne_brace
  | cons m l ih =>
    cases l' with
    | nil =>
      rw [kwargsJson_cons, append_assoc] at h
      exact absurd h quote_ne_brace
    | cons m' l' =>
      rw [kwargsJson_cons, kwargsJson_cons, append_assoc, append_assoc] at h
      obtain ⟨hkey, h⟩ := Quoted.quote_append_inj h
      rw [cons_append, cons_append, append_assoc, append_assoc] at h
      obtain ⟨hvalue, h⟩ := Quoted.quote_append_inj (List.cons.inj h).2
      have hm : m = m' := Prod.ext hkey hvalue
      by_cases hl : l = [] <;> by_cases hl' : l' = []
      · rw [hm, hl, hl']
      · rw [if_pos hl, if_neg hl', nil_append, cons_append] at h
        exact absurd (List.cons.inj h).1 (by decide)
      · rw [if_neg hl, if_pos hl', nil_append, cons_append] at h
        exact absurd (List.cons.inj h).1 (by decide)
      · rw [if_neg hl, if_neg hl', cons_append, cons_append] at h
        rw [hm, ih (List.cons.inj h).2]

lemma valueJson_append_inj {v v' : Option String} (h : valueJson v ++ r = valueJson v' ++ r') :
    v = v' ∧ r = r' := by
  have hnull : ∀ (s : String) (r r' : List Char), Quoted.quote s ++ r ≠ valueJson none ++ r' := by
    intro s r r' hc
    rw [Quoted.quote, cons_append] at hc
    exact absurd (List.cons.inj hc).1 (by decide)
  cases v with
  | none =>
    cases v' with
    | none => exact ⟨rfl, append_cancel_left h⟩
    | some s' => exact absurd h.symm (hnull _ _ _)
  | some s =>
    cases v' with
    | none => exact absurd h (hnull _ _ _)
    | some s' =>
      obtain ⟨rfl, hr⟩ := Quoted.quote_append_inj h
      exact ⟨rfl, hr⟩

/-- The JSON text of an annotation determines it. -/
lemma Annotation.json_injective : Function.Injective Annotation.json := by
  rintro ⟨name, value, kwargs⟩ ⟨name', value', kwargs'⟩ h
  have htext := String.ofList_injective h
  simp only [append_assoc] at htext
  obtain ⟨hname, hrest⟩ := Quoted.quote_append_inj (append_cancel_left htext)
  obtain ⟨hvalue, h⟩ := valueJson_append_inj (append_cancel_left hrest)
  have hkwargs : kwargs = kwargs' := by
    by_cases hk : kwargs = [] <;> by_cases hk' : kwargs' = []
    · rw [hk, hk']
    · rw [if_pos hk, if_neg hk'] at h
      exact absurd (List.cons.inj h).1 (by decide)
    · rw [if_neg hk, if_pos hk'] at h
      exact absurd (List.cons.inj h).1 (by decide)
    · rw [if_neg hk, if_neg hk'] at h
      exact kwargsJson_append_inj (append_cancel_left h)
  rw [hname, hvalue, hkwargs]

/-! ### Constraints -/

lemma isIdent_chars (h : isIdent s = true) {c : Char} (hc : c ∈ s.toList) :
    isIdentChar c = true := by
  unfold isIdent at h
  cases hs : s.toList with
  | nil =>
    rw [hs] at hc
    cases hc
  | cons d ds =>
    rw [hs] at h hc
    simp only [Bool.and_eq_true, Bool.or_eq_true, List.all_eq_true, decide_eq_true_eq] at h
    rcases mem_cons.mp hc with rfl | hc
    · unfold isIdentChar Char.isAlphanum Char.isAlpha
      rcases h.1 with h | h
      · simp [h]
      · simp [h]
    · exact h.2 c hc

lemma not_mem_of_isIdent (h : isIdent s = true) {c : Char} (hc : isIdentChar c = false) :
    c ∉ s.toList := by
  intro hmem
  rw [isIdent_chars h hmem] at hc
  cases hc

/-- The bounds a printed range can have. -/
def BoundPrinted (b : Option ConstraintBound) : Prop :=
  ∀ text, b = some (.float text) → isFloatText text = true

lemma boundText_chars {b : Option ConstraintBound} (h : BoundPrinted b) :
    ':' ∉ (boundText b).toList := by
  cases b with
  | none => decide
  | some b =>
    cases b with
    | integer n =>
      simp only [boundText, String.toList_append]
      intro hc
      simp only [mem_append] at hc
      rcases hc with (hc | hc) | hc
      · revert hc
        decide
      · rcases Digits.isDigit_of_mem_toString_int hc with hd | hd
        · revert hd
          decide
        · revert hd
          decide
      · revert hc
        decide
    | float text =>
      simp only [boundText, String.toList_append]
      intro hc
      simp only [mem_append] at hc
      rcases hc with (hc | hc) | hc
      · revert hc
        decide
      · have hall := List.all_eq_true.mp (h text rfl) ':' hc
        revert hall
        decide
      · revert hc
        decide

/-- The text of a bound that may be missing determines it. -/
lemma boundText_injective : Function.Injective boundText := by
  have hsome : ∀ b : ConstraintBound, ∃ l, (boundText (some b)).toList = 'S' :: l := by
    rintro (n | text)
    · exact ⟨_, by rw [boundText, String.toList_append, String.toList_append]; rfl⟩
    · exact ⟨_, by rw [boundText, String.toList_append, String.toList_append]; rfl⟩
  have hnone : ∀ b : ConstraintBound, boundText none ≠ boundText (some b) := by
    intro b hc
    obtain ⟨l, hl⟩ := hsome b
    rw [← hc] at hl
    exact absurd (List.cons.inj hl).1 (by decide)
  have hkind : ∀ (n : ℤ) (text : String),
      boundText (some (.integer n)) ≠ boundText (some (.float text)) := by
    intro n text hc
    have hl := congrArg String.toList hc
    simp only [boundText, String.toList_append, append_assoc] at hl
    have hchar : some 'I' = some 'F' := congrArg (fun l => l[5]?) hl
    exact absurd (Option.some.inj hchar) (by decide)
  intro b b' h
  cases b with
  | none =>
    cases b' with
    | none => rfl
    | some b' => exact absurd h (hnone b')
  | some b =>
    cases b' with
    | none => exact absurd h.symm (hnone b)
    | some b' =>
      cases b with
      | integer n =>
        cases b' with
        | integer n' =>
          have hl := congrArg String.toList h
          simp only [boundText, String.toList_append, append_assoc] at hl
          have hn := append_cancel_right (append_cancel_left hl)
          rw [Digits.toString_int_injective (String.toList_inj.mp hn)]
        | float text' => exact absurd h (hkind n text')
      | float text =>
        cases b' with
        | integer n' => exact absurd h.symm (hkind n' text)
        | float text' =>
          have hl := congrArg String.toList h
          simp only [boundText, String.toList_append, append_assoc] at hl
          have hn := append_cancel_right (append_cancel_left hl)
          have htext : text = text' := String.toList_inj.mp hn
          rw [htext]

/-- The letter the sort key of a constraint starts with. -/
def Constraint.letter : Constraint → Char
  | .key _ => 'k'
  | .unique _ => 'u'
  | .index _ => 'i'
  | .range _ _ _ => 'r'
  | .check _ _ => 'c'

lemma constraintSortKey_head (c : Constraint) :
    (constraintSortKey c).toList.head? = some c.letter := by
  cases c <;> simp only [constraintSortKey, String.toList_append, append_assoc] <;> rfl

lemma columns_inj {label : String} {columns columns' : List String} (hne : columns ≠ [])
    (hne' : columns' ≠ []) (hident : ∀ c ∈ columns, isIdent c = true)
    (hident' : ∀ c ∈ columns', isIdent c = true)
    (h : label ++ ",".intercalate columns = label ++ ",".intercalate columns') :
    columns = columns' := by
  have hlist := congrArg String.toList h
  rw [String.toList_append, String.toList_append] at hlist
  have hcols := String.toList_inj.mp (append_cancel_left hlist)
  have hcomma : isIdentChar ',' = false := by decide
  exact Separated.intercalate_inj (fun c hc => not_mem_of_isIdent (hident c hc) hcomma)
    (fun c hc => not_mem_of_isIdent (hident' c hc) hcomma) hne hne' hcols

variable {c : Constraint}

/-- The sort key of a grammatical constraint determines it. -/
lemma constraintSortKey_inj {c' : Constraint} (hc : c.Grammatical) (hc' : c'.Grammatical)
    (h : constraintSortKey c = constraintSortKey c') : c = c' := by
  have hletter : c.letter = c'.letter := by
    have hhead := congrArg (fun s : String => s.toList.head?) h
    simp only [constraintSortKey_head] at hhead
    exact Option.some.inj hhead
  have hcolon : isIdentChar ':' = false := by decide
  have hident := hc.idents
  have hident' := hc'.idents
  cases c <;> cases c' <;> try (simp [Constraint.letter] at hletter; done)
  · exact congrArg _ (columns_inj hc.nonempty hc'.nonempty hident hident' h)
  · exact congrArg _ (columns_inj hc.nonempty hc'.nonempty hident hident' h)
  · exact congrArg _ (columns_inj hc.nonempty hc'.nonempty hident hident' h)
  · rename_i p min max p' min' max'
    have hlist := congrArg String.toList h
    simp only [constraintSortKey, String.toList_append, append_assoc] at hlist
    obtain ⟨hp, hbounds⟩ := Separated.append_cons_inj
      (not_mem_of_isIdent (hident p (by simp [Constraint.columns])) hcolon)
      (not_mem_of_isIdent (hident' p' (by simp [Constraint.columns])) hcolon)
      (append_cancel_left hlist)
    obtain ⟨hmin, hmax⟩ := Separated.append_cons_inj
      (boundText_chars fun text ht => hc.bounds text (.inl ht))
      (boundText_chars fun text ht => hc'.bounds text (.inl ht)) hbounds
    rw [String.toList_inj.mp hp, boundText_injective (String.toList_inj.mp hmin),
      boundText_injective (String.toList_inj.mp hmax)]
  · rename_i p pattern p' pattern'
    have hlist := congrArg String.toList h
    simp only [constraintSortKey, String.toList_append, append_assoc] at hlist
    obtain ⟨hp, hpattern⟩ := Separated.append_cons_inj
      (not_mem_of_isIdent (hident p (by simp [Constraint.columns])) hcolon)
      (not_mem_of_isIdent (hident' p' (by simp [Constraint.columns])) hcolon)
      (append_cancel_left hlist)
    have hpattern : pattern = pattern' := String.toList_inj.mp hpattern
    rw [String.toList_inj.mp hp, hpattern]

/-- A normalized constraint is grammatical if it was. -/
lemma Constraint.Grammatical.normalize (h : c.Grammatical) :
    (normalizeConstraint c).Grammatical := by
  have hcanon : ∀ columns : List String, columns ≠ [] → canonical id columns ≠ [] := by
    intro columns hne hc
    obtain ⟨x, hx⟩ := exists_mem_of_ne_nil columns hne
    have hmem : x ∈ canonical id columns := mem_canonical.mpr hx
    rw [hc] at hmem
    cases hmem
  cases c with
  | key columns =>
    exact ⟨hcanon _ h.nonempty, fun x hx => h.idents x (mem_canonical.mp hx), trivial⟩
  | unique columns =>
    exact ⟨hcanon _ h.nonempty, fun x hx => h.idents x (mem_canonical.mp hx), trivial⟩
  | index columns =>
    exact ⟨hcanon _ h.nonempty, fun x hx => h.idents x (mem_canonical.mp hx), trivial⟩
  | range p min max => exact h
  | check p pattern => exact h

end Omnigraph.Schema
