import Mathlib.Data.List.Induction
import Mathlib.Tactic.NormNum
import Omnigraph.Lib.Delimited
import Omnigraph.Lib.Word

/-!
# Range headers

A request for a Blob may name one range of bytes. A header that is not one range of bytes is
ignored; so is one with a number that does not fit 64 bits.
-/

namespace Omnigraph.Server

open List Option Word Delimited

inductive RequestedRange
  | ignore
  | satisfiable (start stop : ℕ)
  | unsatisfiable (start stop : ℕ)
deriving DecidableEq

/-! ### The parser -/

def isOws (byte : UInt8) : Bool := byte = 32 || byte = 9

variable {byte : UInt8}

lemma isOws_iff : isOws byte = true ↔ byte = 32 ∨ byte = 9 := by
  simp [isOws]

def isDigitByte (byte : UInt8) : Bool := 48 ≤ byte && byte ≤ 57

def lowerByte (byte : UInt8) : UInt8 := if 65 ≤ byte && byte ≤ 90 then byte + 32 else byte

/-- The bytes of `bytes`. -/
def bytesUnit : List UInt8 := [98, 121, 116, 101, 115]

def parseDigits (value : ℕ) : List UInt8 → Option ℕ
  | [] => some value
  | digit :: raw => do
    let value ← fits (value * 10)
    let value ← fits (value + (digit.toNat - 48))
    parseDigits value raw

def parseDecimal (raw : List UInt8) : Option ℕ :=
  if raw = [] ∨ raw.all isDigitByte = false then none else parseDigits 0 raw

/-- The range of the last `suffixLength` bytes. -/
def suffixRange (suffixLength length : ℕ) : RequestedRange :=
  if suffixLength = 0 ∨ length = 0 then .unsatisfiable length length
  else .satisfiable (length - suffixLength) length

def openRange (start length : ℕ) : RequestedRange :=
  if length ≤ start then .unsatisfiable start length else .satisfiable start length

/-- A range with an inclusive end; none if an operation overflows. -/
def closedRange (start inclusiveEnd length : ℕ) : Option RequestedRange :=
  if inclusiveEnd < start then some .ignore
  else if length ≤ start then
    some (.unsatisfiable start (saturatingAdd inclusiveEnd 1))
  else do
    let last ← checkedSub length 1
    if last ≤ inclusiveEnd then return .satisfiable start length
    else return .satisfiable start (← fits (inclusiveEnd + 1))

/-- The texts before and after the dash of a range. -/
def parseBounds (first last : List UInt8) (length : ℕ) : Option RequestedRange :=
  if first = [] then
    match parseDecimal last with
    | none => some .ignore
    | some suffixLength => some (suffixRange suffixLength length)
  else
    match parseDecimal first with
    | none => some .ignore
    | some start =>
      if last = [] then some (openRange start length)
      else
        match parseDecimal last with
        | none => some .ignore
        | some inclusiveEnd => closedRange start inclusiveEnd length

def parseRangeHeader (raw : List UInt8) (length : ℕ) : Option RequestedRange :=
  match splitFirst 61 (trim isOws raw) with
  | none => some .ignore
  | some (unit, spec) =>
    if unit.map lowerByte ≠ bytesUnit then some .ignore
    else if spec = [] ∨ 44 ∈ spec then some .ignore
    else
      match splitFirst 45 spec with
      | none => some .ignore
      | some (first, last) => if 45 ∈ last then some .ignore else parseBounds first last length

/-! ### The grammar -/

/-- A range of bytes. -/
inductive ByteRange
  | closed (first last : ℕ)
  | tail (first : ℕ)
  | suffix (length : ℕ)

/-- A decimal numeral. -/
def Numeral (raw : List UInt8) (n : ℕ) : Prop :=
  raw ≠ [] ∧ (∀ byte ∈ raw, isDigitByte byte = true) ∧
    raw.foldl (fun value digit => value * 10 + (digit.toNat - 48)) 0 = n

/-- The texts of ranges: `first-last`, `first-` and `-length`. -/
inductive RangeSpec : List UInt8 → ByteRange → Prop
  | closed {a b : List UInt8} {first last : ℕ} :
      Numeral a first → Numeral b last → first ≤ last →
        RangeSpec (a ++ 45 :: b) (.closed first last)
  | tail {a : List UInt8} {first : ℕ} : Numeral a first → RangeSpec (a ++ [45]) (.tail first)
  | suffix {b : List UInt8} {length : ℕ} : Numeral b length → RangeSpec (45 :: b) (.suffix length)

/-- The header is one range of bytes, with white space around it. -/
def HeaderRange (raw : List UInt8) (range : ByteRange) : Prop :=
  ∃ left unit spec right, raw = left ++ (unit ++ 61 :: spec) ++ right ∧
    (∀ byte ∈ left, isOws byte = true) ∧ (∀ byte ∈ right, isOws byte = true) ∧
      unit.map lowerByte = bytesUnit ∧ RangeSpec spec range

/-- The numbers of a range fit 64 bits. -/
def ByteRange.Fits : ByteRange → Prop
  | closed first last => first < 2 ^ 64 ∧ last < 2 ^ 64
  | tail first => first < 2 ^ 64
  | suffix length => length < 2 ^ 64

/-- What a range prescribes for a Blob: its bytes, cut off at the end of the Blob, or none. -/
def ByteRange.Prescribes (range : ByteRange) (length : ℕ) (requested : RequestedRange) : Prop :=
  match range with
  | .closed first last =>
    if first < length then requested = .satisfiable first (min (last + 1) length)
    else ∃ start stop, requested = .unsatisfiable start stop
  | .tail first =>
    if first < length then requested = .satisfiable first length
    else ∃ start stop, requested = .unsatisfiable start stop
  | .suffix n =>
    if 0 < n ∧ 0 < length then requested = .satisfiable (length - n) length
    else ∃ start stop, requested = .unsatisfiable start stop

/-! ### Numerals -/

lemma foldl_digits_mono (raw : List UInt8) (value : ℕ) :
    value ≤ raw.foldl (fun value digit => value * 10 + (digit.toNat - 48)) value := by
  induction raw generalizing value with
  | nil => exact le_rfl
  | cons digit raw ih =>
    have hstep : value ≤ value * 10 + (digit.toNat - 48) := by omega
    exact le_trans hstep (ih _)

/-- The digits are read unless their number does not fit. -/
lemma parseDigits_eq (raw : List UInt8) (value : ℕ) (hvalue : value < 2 ^ 64) :
    parseDigits value raw =
      fits (raw.foldl (fun value digit => value * 10 + (digit.toNat - 48)) value) := by
  induction raw generalizing value with
  | nil => exact (fits_eq_some_iff.mpr ⟨hvalue, rfl⟩).symm
  | cons digit raw ih =>
    have hmono := foldl_digits_mono raw (value * 10 + (digit.toNat - 48))
    rw [parseDigits, foldl_cons]
    by_cases hfits : value * 10 + (digit.toNat - 48) < 2 ^ 64
    · have hten : fits (value * 10) = some (value * 10) := fits_eq_some_iff.mpr ⟨by omega, rfl⟩
      have hsum := fits_eq_some_iff.mpr ⟨hfits, rfl⟩
      rw [hten, bind_eq_bind, bind_some, hsum]
      exact ih _ hfits
    · have hnone : fits (raw.foldl (fun value digit => value * 10 + (digit.toNat - 48))
          (value * 10 + (digit.toNat - 48))) = none := if_neg (by omega)
      rw [hnone]
      by_cases hten : value * 10 < 2 ^ 64
      · have hsum : fits (value * 10 + (digit.toNat - 48)) = none := if_neg hfits
        rw [fits_eq_some_iff.mpr ⟨hten, rfl⟩, bind_eq_bind, bind_some, hsum]
        rfl
      · have hten : fits (value * 10) = none := if_neg hten
        rw [hten]
        rfl

variable {n : ℕ} {raw : List UInt8}

/-- The decimal reader reads the numerals that fit 64 bits. -/
lemma parseDecimal_eq_some_iff : parseDecimal raw = some n ↔ Numeral raw n ∧ n < 2 ^ 64 := by
  unfold parseDecimal Numeral
  split_ifs with hbad
  · simp only [false_iff, not_and]
    rintro ⟨hne, hdigits, -⟩
    rcases hbad with hnil | hall
    · exact absurd hnil hne
    · rw [List.all_eq_true.mpr hdigits] at hall
      cases hall
  · rw [not_or, Bool.not_eq_false, List.all_eq_true] at hbad
    rw [parseDigits_eq raw 0 (by norm_num), fits_eq_some_iff]
    constructor
    · rintro ⟨hlt, rfl⟩
      exact ⟨⟨hbad.1, hbad.2, rfl⟩, hlt⟩
    · rintro ⟨⟨-, -, rfl⟩, hlt⟩
      exact ⟨hlt, rfl⟩

lemma Numeral.not_mem (h : Numeral raw n) (hbyte : isDigitByte byte = false) : byte ∉ raw := by
  intro hmem
  rw [h.2.1 byte hmem] at hbyte
  cases hbyte

/-! ### Ranges that fit -/

/-- The answer of the parser to a range. -/
def ByteRange.answer (range : ByteRange) (length : ℕ) : Option RequestedRange :=
  match range with
  | .closed first last => closedRange first last length
  | .tail first => some (openRange first length)
  | .suffix n => some (suffixRange n length)

variable {length : ℕ} {range : ByteRange} {first last : List UInt8}

/-- The answer is what the range prescribes, without overflow. -/
lemma ByteRange.answer_prescribes (hlength : length < 2 ^ 64)
    (horder : ∀ first last, range = .closed first last → first ≤ last) :
    ∃ requested, range.answer length = some requested ∧ range.Prescribes length requested := by
  cases range with
  | closed first last =>
    have hle := horder first last rfl
    simp only [ByteRange.answer, ByteRange.Prescribes, closedRange, if_neg (not_lt.mpr hle)]
    by_cases hstart : length ≤ first
    · simp only [if_pos hstart, if_neg (not_lt.mpr hstart)]
      exact ⟨_, rfl, _, _, rfl⟩
    · have hsub : checkedSub length 1 = some (length - 1) := if_pos (by omega)
      simp only [if_neg hstart, if_pos (not_le.mp hstart), hsub, bind_eq_bind,
        bind_some]
      by_cases hclip : length - 1 ≤ last
      · have hmin : min (last + 1) length = length := min_eq_right (by omega)
        simp only [if_pos hclip, hmin]
        exact ⟨_, rfl, rfl⟩
      · have hfits : fits (last + 1) = some (last + 1) :=
          fits_eq_some_iff.mpr ⟨by omega, rfl⟩
        have hmin : min (last + 1) length = last + 1 := min_eq_left (by omega)
        simp only [if_neg hclip, hfits, hmin]
        exact ⟨_, rfl, rfl⟩
  | tail first =>
    simp only [ByteRange.answer, ByteRange.Prescribes, openRange]
    by_cases hstart : length ≤ first
    · simp only [if_pos hstart, if_neg (not_lt.mpr hstart)]
      exact ⟨_, rfl, _, _, rfl⟩
    · simp only [if_neg hstart, if_pos (not_le.mp hstart)]
      exact ⟨_, rfl, rfl⟩
  | suffix n =>
    simp only [ByteRange.answer, ByteRange.Prescribes, suffixRange]
    by_cases hempty : n = 0 ∨ length = 0
    · have hnone : ¬ (0 < n ∧ 0 < length) := by omega
      simp only [if_pos hempty, if_neg hnone]
      exact ⟨_, rfl, _, _, rfl⟩
    · have hsome : 0 < n ∧ 0 < length := by omega
      simp only [if_neg hempty, if_pos hsome]
      exact ⟨_, rfl, rfl⟩

/-- The bounds of a range that fits are answered. -/
lemma parseBounds_eq (hspec : RangeSpec (first ++ 45 :: last) range) (hfirst : 45 ∉ first)
    (hfits : range.Fits) : parseBounds first last length = range.answer length := by
  generalize hspecEq : first ++ 45 :: last = spec at hspec
  have hparts : ∀ {a b : List UInt8}, 45 ∉ a → first ++ 45 :: last = a ++ 45 :: b →
      first = a ∧ last = b := by
    intro a b ha heq
    have h := splitFirst_eq_some_iff.mpr ⟨heq, ha⟩
    rw [splitFirst_eq_some_iff.mpr ⟨rfl, hfirst⟩] at h
    exact Prod.mk.inj (Option.some.inj h)
  have hdash : isDigitByte 45 = false := by decide
  cases hspec with
  | @closed a b m n ha hb hle =>
    obtain ⟨rfl, rfl⟩ := hparts (ha.not_mem hdash) hspecEq
    simp only [parseBounds, ha.1, hb.1, if_false, parseDecimal_eq_some_iff.mpr ⟨ha, hfits.1⟩,
      parseDecimal_eq_some_iff.mpr ⟨hb, hfits.2⟩, ByteRange.answer]
  | @tail a m ha =>
    obtain ⟨rfl, rfl⟩ := hparts (ha.not_mem hdash) hspecEq
    have hread : parseDecimal first = some m := parseDecimal_eq_some_iff.mpr ⟨ha, hfits⟩
    simp only [parseBounds, ha.1, if_false, hread, if_true, ByteRange.answer]
  | @suffix b n hb =>
    obtain ⟨rfl, rfl⟩ := hparts (a := []) (b := b) (by simp) hspecEq
    have hread : parseDecimal last = some n := parseDecimal_eq_some_iff.mpr ⟨hb, hfits⟩
    simp only [parseBounds, if_true, hread, ByteRange.answer]

/-- The bounds are ignored, or they are a range that fits. -/
lemma parseBounds_ignore (h : parseBounds first last length ≠ some .ignore) :
    ∃ range : ByteRange, RangeSpec (first ++ 45 :: last) range ∧ range.Fits := by
  unfold parseBounds at h
  by_cases hfirst : first = []
  · rw [if_pos hfirst] at h
    subst hfirst
    cases hlast : parseDecimal last with
    | none =>
      rw [hlast] at h
      exact absurd rfl h
    | some n =>
      obtain ⟨hn, hfits⟩ := parseDecimal_eq_some_iff.mp hlast
      exact ⟨.suffix n, .suffix hn, hfits⟩
  rw [if_neg hfirst] at h
  cases hstart : parseDecimal first with
  | none =>
    rw [hstart] at h
    exact absurd rfl h
  | some start =>
    obtain ⟨hm, hmfits⟩ := parseDecimal_eq_some_iff.mp hstart
    by_cases hlast : last = []
    · subst hlast
      exact ⟨.tail start, .tail hm, hmfits⟩
    simp only [hstart, hlast, if_false] at h
    cases hend : parseDecimal last with
    | none =>
      rw [hend] at h
      exact absurd rfl h
    | some inclusiveEnd =>
      obtain ⟨hn, hnfits⟩ := parseDecimal_eq_some_iff.mp hend
      rw [hend] at h
      refine ⟨.closed start inclusiveEnd, .closed hm hn ?_, hmfits, hnfits⟩
      by_contra horder
      exact h (if_pos (not_le.mp horder))

/-! ### Headers -/

lemma RangeSpec.shape {spec : List UInt8} (h : RangeSpec spec range) :
    ∃ first last, spec = first ++ 45 :: last ∧
      (∀ byte ∈ first, isDigitByte byte = true) ∧ ∀ byte ∈ last, isDigitByte byte = true := by
  cases h with
  | closed ha hb _ => exact ⟨_, _, rfl, ha.2.1, hb.2.1⟩
  | tail ha => exact ⟨_, [], rfl, ha.2.1, by simp⟩
  | suffix hb => exact ⟨[], _, rfl, by simp, hb.2.1⟩

/-- A header that is one range of bytes is answered for that range. -/
lemma parseRangeHeader_eq (h : HeaderRange raw range) (hfits : range.Fits) :
    parseRangeHeader raw length = range.answer length := by
  obtain ⟨left, unit, spec, right, rfl, hleft, hright, hunit, hspec⟩ := h
  obtain ⟨first, last, rfl, hfirst, hlast⟩ := hspec.shape
  have hdigits : ∀ {l : List UInt8} {x : UInt8}, (∀ byte ∈ l, isDigitByte byte = true) →
      isDigitByte x = false → x ∉ l := by
    intro l x hl hx hmem
    rw [hl x hmem] at hx
    cases hx
  have hbyte : ∀ byte ∈ unit, lowerByte byte ∈ bytesUnit := fun byte hmem =>
    hunit ▸ List.mem_map_of_mem hmem
  have hequals : (61 : UInt8) ∉ unit := fun hmem => by
    have := hbyte 61 hmem
    revert this
    decide
  have hhead : ∀ byte ∈ unit, isOws byte = false := by
    intro byte hmem
    have hin := hbyte byte hmem
    by_contra hows
    have hspace := isOws_iff.mp (Bool.eq_true_of_not_eq_false hows)
    rcases hspace with rfl | rfl <;> revert hin <;> decide
  have hunitNe : unit ≠ [] := by
    rintro rfl
    cases hunit
  have hlastOws : ∀ byte ∈ (first ++ 45 :: last).getLast?, isOws byte = false := by
    intro byte hmem
    have hin := mem_of_mem_getLast? hmem
    have hkind : isDigitByte byte = true ∨ byte = 45 := by
      rcases mem_append.mp hin with hin | hin
      · exact .inl (hfirst byte hin)
      · rcases mem_cons.mp hin with rfl | hin
        · exact .inr rfl
        · exact .inl (hlast byte hin)
    by_contra hows
    have hspace := isOws_iff.mp (Bool.eq_true_of_not_eq_false hows)
    rcases hspace with rfl | rfl <;> revert hkind <;> decide
  have htrim : trim isOws (left ++ (unit ++ 61 :: (first ++ 45 :: last)) ++ right) =
      unit ++ 61 :: (first ++ 45 :: last) := by
    refine trim_append isOws hleft hright ?_ ?_ (by simp)
    · obtain ⟨byte, rest, rfl⟩ := exists_cons_of_ne_nil hunitNe
      intro b hb
      cases hb
      exact hhead byte mem_cons_self
    · intro byte hmem
      refine hlastOws byte ?_
      rw [append_cons, List.getLast?_append] at hmem
      cases hgetLast : (first ++ 45 :: last).getLast? with
      | none => simp at hgetLast
      | some b => rwa [hgetLast, some_or] at hmem
  have hcomma : (44 : UInt8) ∉ first ++ 45 :: last := by
    simp only [mem_append, mem_cons, not_or]
    exact ⟨hdigits hfirst (by decide), by decide, hdigits hlast (by decide)⟩
  have hdashFirst : (45 : UInt8) ∉ first := hdigits hfirst (by decide)
  have hdashLast : (45 : UInt8) ∉ last := hdigits hlast (by decide)
  rw [parseRangeHeader, htrim, splitFirst_eq_some_iff.mpr ⟨rfl, hequals⟩]
  simp only [hunit, ne_eq, not_true_eq_false, if_false, hcomma, or_false,
    splitFirst_eq_some_iff.mpr ⟨rfl, hdashFirst⟩, hdashLast]
  rw [if_neg (by simp)]
  exact parseBounds_eq hspec hdashFirst hfits

/-- A header that is not ignored is one range of bytes. -/
lemma headerRange_of_parse (h : parseRangeHeader raw length ≠ some .ignore) :
    ∃ range : ByteRange, HeaderRange raw range ∧ range.Fits := by
  obtain ⟨left, right, hraw, hleft, hright⟩ := exists_trim isOws raw
  unfold parseRangeHeader at h
  cases hequals : splitFirst 61 (trim isOws raw) with
  | none =>
    rw [hequals] at h
    exact absurd rfl h
  | some parts =>
    obtain ⟨unit, spec⟩ := parts
    rw [hequals] at h
    dsimp only at h
    by_cases hunit : unit.map lowerByte ≠ bytesUnit
    · rw [if_pos hunit] at h
      exact absurd rfl h
    rw [if_neg hunit] at h
    by_cases hempty : spec = [] ∨ 44 ∈ spec
    · rw [if_pos hempty] at h
      exact absurd rfl h
    rw [if_neg hempty] at h
    cases hdash : splitFirst 45 spec with
    | none =>
      rw [hdash] at h
      exact absurd rfl h
    | some bounds =>
      obtain ⟨first, last⟩ := bounds
      rw [hdash] at h
      dsimp only at h
      by_cases hsecond : 45 ∈ last
      · rw [if_pos hsecond] at h
        exact absurd rfl h
      rw [if_neg hsecond] at h
      obtain ⟨range, hspec, hfits⟩ := parseBounds_ignore h
      obtain ⟨htrim, -⟩ := splitFirst_eq_some_iff.mp hequals
      obtain ⟨rfl, -⟩ := splitFirst_eq_some_iff.mp hdash
      rw [htrim] at hraw
      exact ⟨range, ⟨left, unit, _, right, hraw, hleft, hright, not_not.mp hunit, hspec⟩, hfits⟩

/-- A range is prescribed by its text: an inclusive end is not before the start. -/
lemma HeaderRange.ordered (h : HeaderRange raw range) (first last : ℕ)
    (hrange : range = .closed first last) : first ≤ last := by
  obtain ⟨_, _, _, _, -, -, -, -, hspec⟩ := h
  subst hrange
  cases hspec with
  | closed _ _ hle => exact hle

/-- The parser answers what the range of a header prescribes if its numbers fit 64 bits, and ignores
every other header. No operation overflows. -/
theorem parseRangeHeader_exact (raw : List UInt8) (hlength : length < 2 ^ 64) :
    ∃ requested, parseRangeHeader raw length = some requested ∧
      (∀ range, HeaderRange raw range → range.Fits → range.Prescribes length requested) ∧
        ((∀ range, HeaderRange raw range → ¬ range.Fits) → requested = .ignore) := by
  by_cases hignored : parseRangeHeader raw length = some .ignore
  · refine ⟨.ignore, hignored, fun range hrange hfits => ?_, fun _ => rfl⟩
    obtain ⟨requested, hanswer, hprescribes⟩ :=
      ByteRange.answer_prescribes hlength hrange.ordered
    rw [← parseRangeHeader_eq hrange hfits, hignored] at hanswer
    cases hanswer
    exact hprescribes
  · obtain ⟨range, hrange, hfits⟩ := headerRange_of_parse hignored
    obtain ⟨requested, hanswer, -⟩ := ByteRange.answer_prescribes hlength hrange.ordered
    refine ⟨requested, (parseRangeHeader_eq hrange hfits).trans hanswer, ?_,
      fun hnone => absurd hfits (hnone range hrange)⟩
    intro range' hrange' hfits'
    obtain ⟨requested', hanswer', hprescribes'⟩ :=
      ByteRange.answer_prescribes hlength hrange'.ordered
    rw [← parseRangeHeader_eq hrange' hfits', parseRangeHeader_eq hrange hfits, hanswer]
      at hanswer'
    cases hanswer'
    exact hprescribes'

end Omnigraph.Server
