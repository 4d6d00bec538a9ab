import Mathlib.Tactic

/-!
# Quoted strings

The JSON text of a string, with the escapes of quotes, backslashes and control characters. A quoted
string ends where its text says it ends: the string and what follows it can be told apart.
-/

namespace Quoted

open List

def hexDigit (n : ℕ) : Char := if n < 10 then Char.ofNat (48 + n) else Char.ofNat (87 + n)

def hexValue (c : Char) : ℕ := if c.toNat < 58 then c.toNat - 48 else c.toNat - 87

/-- The text of one character. -/
def escapeChar (c : Char) : List Char :=
  if c = '"' then ['\\', '"']
  else if c = '\\' then ['\\', '\\']
  else if c.toNat = 8 then ['\\', 'b']
  else if c.toNat = 9 then ['\\', 't']
  else if c.toNat = 10 then ['\\', 'n']
  else if c.toNat = 12 then ['\\', 'f']
  else if c.toNat = 13 then ['\\', 'r']
  else if c.toNat < 32 then ['\\', 'u', '0', '0', hexDigit (c.toNat / 16), hexDigit (c.toNat % 16)]
  else [c]

def escape (s : List Char) : List Char := s.flatMap escapeChar

/-- A string between quotes. -/
def quote (s : String) : List Char := '"' :: (escape s.toList ++ ['"'])

/-! ### Reading -/

/-- The character a letter after a backslash stands for. -/
def escaped (c : Char) : Char :=
  if c = 'b' then Char.ofNat 8
  else if c = 't' then Char.ofNat 9
  else if c = 'n' then Char.ofNat 10
  else if c = 'f' then Char.ofNat 12
  else if c = 'r' then Char.ofNat 13
  else c

/-- The first character of a text, and the rest. -/
def readChar : List Char → Option (Char × List Char)
  | [] => none
  | c :: cs =>
    if c = '"' then none
    else if c ≠ '\\' then some (c, cs)
    else match cs with
      | 'u' :: '0' :: '0' :: a :: b :: rest =>
        some (Char.ofNat (16 * hexValue a + hexValue b), rest)
      | d :: rest => some (escaped d, rest)
      | [] => none

lemma control_cases (c : Char) (h : c.toNat < 32) : ∃ n < 32, c = Char.ofNat n := by
  refine ⟨c.toNat, h, ?_⟩
  rw [Char.ofNat_toNat]

lemma readChar_escapeChar (c : Char) (rest : List Char) :
    readChar (escapeChar c ++ rest) = some (c, rest) := by
  by_cases hcontrol : c.toNat < 32
  · obtain ⟨n, hn, rfl⟩ := control_cases c hcontrol
    interval_cases n <;> rfl
  · by_cases hquote : c = '"'
    · subst hquote; rfl
    by_cases hback : c = '\\'
    · subst hback; rfl
    have hlen : escapeChar c = [c] := by
      simp only [escapeChar, hquote, hback, hcontrol, if_false]
      split_ifs <;> first | rfl | omega
    simp [hlen, readChar, hquote, hback]

lemma readChar_quote (rest : List Char) : readChar ('"' :: rest) = none := rfl

/-! ### Where a string ends -/

variable {rest rest' : List Char}

lemma escape_append_inj {s s' : List Char}
    (h : escape s ++ '"' :: rest = escape s' ++ '"' :: rest') :
    s = s' ∧ rest = rest' := by
  induction s generalizing s' with
  | nil =>
    cases s' with
    | nil => simpa [escape] using h
    | cons c s' =>
      have hread := congrArg readChar h
      rw [escape, escape, flatMap_nil, nil_append, flatMap_cons, append_assoc,
        readChar_quote, readChar_escapeChar] at hread
      cases hread
  | cons c s ih =>
    cases s' with
    | nil =>
      have hread := congrArg readChar h
      rw [escape, escape, flatMap_nil, nil_append, flatMap_cons, append_assoc,
        readChar_quote, readChar_escapeChar] at hread
      cases hread
    | cons d s' =>
      have hread := congrArg readChar h
      rw [escape, escape, flatMap_cons, flatMap_cons, append_assoc,
        append_assoc, readChar_escapeChar, readChar_escapeChar] at hread
      injection hread with hread
      injection hread with hc hrest
      obtain ⟨hs, hr⟩ := ih hrest
      exact ⟨by rw [hc, hs], hr⟩

/-- A quoted string can be told from what follows it. -/
lemma quote_append_inj {s s' : String} (h : quote s ++ rest = quote s' ++ rest') :
    s = s' ∧ rest = rest' := by
  rw [quote, quote, cons_append, cons_append, append_assoc, append_assoc] at h
  injection h with _ h
  obtain ⟨hs, hr⟩ := escape_append_inj h
  exact ⟨String.toList_inj.mp hs, hr⟩

/-! ### Arrays of strings -/

/-- Strings between quotes, with commas between them. -/
def items : List String → List Char
  | [] => []
  | [s] => quote s
  | s :: s' :: rest => quote s ++ ',' :: items (s' :: rest)

/-- The JSON text of an array of strings. -/
def array (l : List String) : String := String.ofList ('[' :: (items l ++ [']']))

lemma items_append_inj : ∀ {l l' : List String},
    items l ++ [']'] = items l' ++ [']'] → l = l' := by
  have hnil : ∀ (s : String) (l : List String), items (s :: l) ++ [']'] ≠ [']'] := by
    intro s l h
    cases l <;> simp [items, quote] at h
  intro l
  induction l with
  | nil =>
    intro l' h
    cases l' with
    | nil => rfl
    | cons s' l' => exact absurd h.symm (hnil s' l')
  | cons s l ih =>
    intro l' h
    cases l' with
    | nil => exact absurd h (hnil s l)
    | cons s' l' =>
      -- after the first string there is a comma, unless it is the last one
      have hfirst : ∀ (s : String) (l : List String), items (s :: l) ++ [']'] =
          quote s ++ (if l = [] then [']'] else ',' :: (items l ++ [']'])) := by
        intro s l
        cases l <;> simp [items]
      rw [hfirst, hfirst] at h
      obtain ⟨rfl, hrest⟩ := quote_append_inj h
      split_ifs at hrest with hl hl' hl'
      · rw [hl, hl']
      · simp at hrest
      · simp at hrest
      · rw [ih (List.cons.inj hrest).2]

/-- An array can be read off its text. -/
lemma array_injective : Function.Injective array := by
  intro l l' h
  have h := String.ofList_injective h
  exact items_append_inj (List.cons.inj h).2

end Quoted
