import Mathlib.Data.List.GetD
import Omnigraph.Lib.Delimited
import Omnigraph.Lib.Separated
import Omnigraph.Lib.Word

/-!
# Framing of batch lines

The lines of a batch are read from a buffered reader, which shows the bytes that are left in chunks
of any size. A line that is too long is not kept; its tail is read up to the delimiter all the same.
-/

namespace Omnigraph.Loader

open List Word Delimited

/-! ### The reader -/

/-- The bytes that are left and, for the calls of `fillBuf` to come, how many bytes they show beside
the first. -/
structure BufRead where
  rest : List UInt8
  extra : ℕ → ℕ

variable {reader : BufRead}

namespace BufRead

def fillBuf (reader : BufRead) : List UInt8 := reader.rest.take (reader.extra 0 + 1)

def consume (reader : BufRead) (consumed : ℕ) : BufRead :=
  ⟨reader.rest.drop consumed, fun n => reader.extra (n + 1)⟩

@[simp] lemma consume_rest (reader : BufRead) (consumed : ℕ) :
    (reader.consume consumed).rest = reader.rest.drop consumed := rfl

lemma fillBuf_eq_nil_iff : reader.fillBuf = [] ↔ reader.rest = [] := by
  simp [fillBuf]

/-- A chunk is what is left up to its length. -/
lemma fillBuf_append (reader : BufRead) :
    reader.rest = reader.fillBuf ++ (reader.consume reader.fillBuf.length).rest := by
  rw [consume_rest, fillBuf, length_take]
  rcases Nat.le_total (reader.extra 0 + 1) reader.rest.length with h | h
  · rw [Nat.min_eq_left h, take_append_drop]
  · rw [Nat.min_eq_right h, drop_length, append_nil, take_of_length_le h]

end BufRead

/-! ### One line -/

inductive BoundedGraphBatchLine
  | line (bytes : List UInt8)
  | inputTooLarge (limit actual : ℕ)

/-- The line as far as it has been read. -/
structure LineState where
  line : List UInt8
  currentLineBytes : ℕ
  lastByteWasCr : Bool
  discarding : Bool

variable {before : List UInt8}

namespace LineState

def start : LineState := ⟨[], 0, false, false⟩

/-- One byte of the line. The byte past the limit is kept if it may belong to a delimiter. -/
def push (maxLineBytes : ℕ) (s : LineState) (byte : UInt8) : LineState :=
  let currentLineBytes := saturatingAdd s.currentLineBytes 1
  let lastByteWasCr := byte == 13
  if s.discarding then ⟨s.line, currentLineBytes, lastByteWasCr, true⟩
  else
    let line := s.line ++ [byte]
    let possibleCrlf := line.length == maxLineBytes + 1 && byte == 13
    if line.length > maxLineBytes && !possibleCrlf then
      ⟨[], currentLineBytes, lastByteWasCr, true⟩
    else ⟨line, currentLineBytes, lastByteWasCr, false⟩

/-- The bytes that are available, up to a delimiter: the line, the number of bytes that were
consumed and whether there was a delimiter. -/
def scan (maxLineBytes : ℕ) (s : LineState) : List UInt8 → LineState × ℕ × Bool
  | [] => (s, 0, false)
  | byte :: available =>
    if byte = 10 then (s, 1, true)
    else
      let scanned := scan maxLineBytes (s.push maxLineBytes byte) available
      (scanned.1, scanned.2.1 + 1, scanned.2.2)

/-- The line at the end of the input. -/
def finish (maxLineBytes : ℕ) (s : LineState) : Option BoundedGraphBatchLine :=
  if s.currentLineBytes = 0 then none
  else if s.discarding || s.currentLineBytes > maxLineBytes then
    some (.inputTooLarge maxLineBytes s.currentLineBytes)
  else some (.line s.line)

/-- The line at a delimiter. -/
def delimit (maxLineBytes : ℕ) (s : LineState) : BoundedGraphBatchLine :=
  let actual := s.currentLineBytes - s.lastByteWasCr.toNat
  if s.discarding || actual > maxLineBytes then .inputTooLarge maxLineBytes actual
  else if s.lastByteWasCr then .line s.line.dropLast
  else .line s.line

variable {chunk : List UInt8}

lemma scan_of_not_mem (maxLineBytes : ℕ) (s : LineState) (h : 10 ∉ chunk) :
    s.scan maxLineBytes chunk = (chunk.foldl (push maxLineBytes) s, chunk.length, false) := by
  induction chunk generalizing s with
  | nil => rfl
  | cons byte chunk ih =>
    rw [mem_cons, not_or] at h
    rw [scan, if_neg (Ne.symm h.1), ih _ h.2]
    rfl

lemma scan_append_cons (maxLineBytes : ℕ) (s : LineState) (h : 10 ∉ before) (after : List UInt8) :
    s.scan maxLineBytes (before ++ 10 :: after) =
      (before.foldl (push maxLineBytes) s, before.length + 1, true) := by
  induction before generalizing s with
  | nil => rfl
  | cons byte before ih =>
    rw [mem_cons, not_or] at h
    rw [cons_append, scan, if_neg (Ne.symm h.1), ih _ h.2]
    rfl

/-- A chunk that is not empty is consumed in part. -/
lemma scan_consumed_pos (maxLineBytes : ℕ) (s : LineState) (h : chunk ≠ []) :
    0 < (s.scan maxLineBytes chunk).2.1 := by
  cases chunk with
  | nil => exact absurd rfl h
  | cons byte chunk =>
    rw [scan]
    split_ifs
    · exact Nat.zero_lt_one
    · exact Nat.succ_pos _

end LineState

/-- The rest of a line. -/
def readLoop (maxLineBytes : ℕ) (s : LineState) (reader : BufRead) :
    Option BoundedGraphBatchLine × BufRead :=
  if _h : reader.fillBuf = [] then (s.finish maxLineBytes, reader)
  else
    let scanned := s.scan maxLineBytes reader.fillBuf
    if scanned.2.2 then
      (some (scanned.1.delimit maxLineBytes), reader.consume scanned.2.1)
    else readLoop maxLineBytes scanned.1 (reader.consume scanned.2.1)
termination_by reader.rest.length
decreasing_by
  have hpos := LineState.scan_consumed_pos maxLineBytes s _h
  have hne : reader.rest ≠ [] := fun hrest => _h (BufRead.fillBuf_eq_nil_iff.mpr hrest)
  have hlength := List.length_pos_iff.mpr hne
  rw [BufRead.consume_rest, List.length_drop]
  omega

/-- Read one line; none at the end of the input. -/
def readBoundedGraphBatchLine (maxLineBytes : ℕ) (reader : BufRead) :
    Option BoundedGraphBatchLine × BufRead :=
  readLoop maxLineBytes .start reader

/-! ### What has been read -/

variable {raw : List UInt8}

namespace LineState

variable (maxLineBytes : ℕ)

/-- The bytes are too long for a line, whatever follows them. -/
def overlong (raw : List UInt8) : Bool :=
  raw.length > maxLineBytes && !(raw.length == maxLineBytes + 1 && raw.getLast? == some 13)

/-- The state after the first bytes of a line. -/
def reading (raw : List UInt8) : LineState :=
  ⟨if overlong maxLineBytes raw then [] else raw, min raw.length maxValue,
    raw.getLast? == some 13, overlong maxLineBytes raw⟩

lemma overlong_concat (h : overlong maxLineBytes raw = true) (byte : UInt8) :
    overlong maxLineBytes (raw ++ [byte]) = true := by
  simp only [overlong, Bool.and_eq_true, decide_eq_true_eq, Bool.not_eq_true',
    Bool.and_eq_false_iff, beq_eq_false_iff_ne, length_append, length_singleton] at h ⊢
  omega

lemma push_reading (raw : List UInt8) (byte : UInt8) :
    (reading maxLineBytes raw).push maxLineBytes byte = reading maxLineBytes (raw ++ [byte]) := by
  have hcount : saturatingAdd (min raw.length maxValue) 1 =
      min (raw ++ [byte]).length maxValue := by
    simp only [saturatingAdd, length_append, length_singleton]
    omega
  have hlast : (byte == 13) = ((raw ++ [byte]).getLast? == some 13) := by simp
  cases hdiscard : overlong maxLineBytes raw with
  | true =>
    have hover := overlong_concat maxLineBytes hdiscard byte
    simp only [push, reading, hdiscard, hover, if_true, hcount, hlast]
  | false =>
    have hover : (((raw ++ [byte]).length > maxLineBytes) &&
        !((raw ++ [byte]).length == maxLineBytes + 1 && byte == 13)) =
          overlong maxLineBytes (raw ++ [byte]) := by
      rw [overlong, hlast]
    simp only [push, reading, hdiscard, hcount, hover, Bool.false_eq_true, if_false]
    rw [← hlast]
    cases overlong maxLineBytes (raw ++ [byte]) <;> rfl

/-- The bytes of a line are read one after the other. -/
lemma foldl_push_reading (raw more : List UInt8) :
    more.foldl (push maxLineBytes) (reading maxLineBytes raw) =
      reading maxLineBytes (raw ++ more) := by
  induction more generalizing raw with
  | nil => rw [append_nil]; rfl
  | cons byte more ih =>
    rw [foldl_cons, push_reading, ih, append_assoc, singleton_append]

lemma reading_nil : reading maxLineBytes [] = start := by
  have hover : overlong maxLineBytes [] = false := by simp [overlong]
  rw [reading, hover, length_nil, Nat.zero_min]
  rfl

end LineState

/-! ### The lines of the input -/

/-- The bytes of a line without its delimiter: a line feed and one carriage return before it. -/
def lineContent (piece : List UInt8) : List UInt8 :=
  if piece.getLast? = some 10 then
    if piece.dropLast.getLast? = some 13 then piece.dropLast.dropLast else piece.dropLast
  else piece

/-- What is read of a line: its content, or that the content is longer than the limit. -/
inductive Framed (maxLineBytes : ℕ) (piece : List UInt8) : BoundedGraphBatchLine → Prop
  | line (h : (lineContent piece).length ≤ maxLineBytes) :
      Framed maxLineBytes piece (.line (lineContent piece))
  | tooLarge {actual : ℕ} (h : maxLineBytes < (lineContent piece).length)
      (hactual : piece.length ≤ maxValue → actual = (lineContent piece).length) :
      Framed maxLineBytes piece (.inputTooLarge maxLineBytes actual)

lemma lineContent_of_not_mem (h : 10 ∉ raw) : lineContent raw = raw :=
  if_neg fun hlast => h (mem_of_getLast? hlast)

/-- A delimiter ends the line that has been read. -/
lemma framed_delimit (maxLineBytes : ℕ) (raw : List UInt8) : Framed maxLineBytes (raw ++ [10])
    ((LineState.reading maxLineBytes raw).delimit maxLineBytes) := by
  have hcontent : lineContent (raw ++ [10]) =
      if raw.getLast? = some 13 then raw.dropLast else raw := by
    rw [lineContent, if_pos List.getLast?_concat, dropLast_concat]
  have hlength : (lineContent (raw ++ [10])).length =
      raw.length - (raw.getLast? == some 13).toNat := by
    rw [hcontent]
    split_ifs with hcr
    · simp [hcr]
    · rw [beq_eq_false_iff_ne.mpr hcr]
      rfl
  have hnonempty : (raw.getLast? == some 13) = true → 0 < raw.length := by
    cases raw <;> simp
  cases hover : LineState.overlong maxLineBytes raw with
  | true =>
    simp only [LineState.delimit, LineState.reading, hover, Bool.true_or, if_true]
    simp only [LineState.overlong, Bool.and_eq_true, decide_eq_true_eq, Bool.not_eq_true',
      Bool.and_eq_false_iff, beq_eq_false_iff_ne] at hover
    refine .tooLarge ?_ fun hfits => ?_
    · rw [hlength]
      cases hcr : raw.getLast? == some 13 with
      | true =>
        have hne := hover.2.resolve_right (by simpa using hcr)
        simp only [Bool.toNat_true]
        omega
      | false => exact hover.1
    · rw [hlength, Nat.min_eq_left]
      rw [length_append, length_singleton] at hfits
      omega
  | false =>
    have hle : (lineContent (raw ++ [10])).length ≤ maxLineBytes := by
      rw [hlength]
      simp only [LineState.overlong, Bool.and_eq_false_iff, decide_eq_false_iff_not,
        Bool.not_eq_false', Bool.and_eq_true, beq_iff_eq] at hover
      rcases hover with hshort | ⟨hexact, hcr⟩
      · omega
      · simp only [hcr, beq_self_eq_true, Bool.toNat_true]
        omega
    have hactual : ¬ min raw.length maxValue - (raw.getLast? == some 13).toNat >
        maxLineBytes := by
      have := Nat.min_le_left raw.length maxValue
      omega
    have hframed := Framed.line hle
    rw [hcontent] at hframed
    simp only [LineState.delimit, LineState.reading, hover, Bool.false_or, decide_eq_true_eq,
      if_neg hactual, Bool.false_eq_true, if_false, beq_iff_eq]
    split_ifs with hcr
    · rwa [if_pos hcr] at hframed
    · rwa [if_neg hcr] at hframed

/-- The end of the input ends the line that has been read. -/
lemma framed_finish {maxLineBytes : ℕ} (hraw : 10 ∉ raw) (hne : raw ≠ [])
    (hfits : maxLineBytes < maxValue ∨ raw.length ≤ maxValue) :
    ∃ frame, (LineState.reading maxLineBytes raw).finish maxLineBytes = some frame ∧
      Framed maxLineBytes raw frame := by
  have hcontent := lineContent_of_not_mem hraw
  have hlength := length_pos_iff.mpr hne
  have hcount : (LineState.reading maxLineBytes raw).currentLineBytes ≠ 0 := by
    simp only [LineState.reading, maxValue]
    omega
  rw [LineState.finish, if_neg hcount]
  by_cases hle : raw.length ≤ maxLineBytes
  · have hover : LineState.overlong maxLineBytes raw = false := by
      simp [LineState.overlong, Nat.not_lt.mpr hle]
    have hactual : ¬ min raw.length maxValue > maxLineBytes := by omega
    have hframed := Framed.line (hcontent.symm ▸ hle : (lineContent raw).length ≤ maxLineBytes)
    rw [hcontent] at hframed
    simp only [LineState.reading, hover, Bool.false_or, decide_eq_true_eq, if_neg hactual,
      Bool.false_eq_true, if_false]
    exact ⟨_, rfl, hframed⟩
  · have hcond : (LineState.overlong maxLineBytes raw ||
        decide (min raw.length maxValue > maxLineBytes)) = true := by
      cases hover : LineState.overlong maxLineBytes raw with
      | true => rfl
      | false =>
        simp only [LineState.overlong, Bool.and_eq_false_iff, decide_eq_false_iff_not,
          Bool.not_eq_false', Bool.and_eq_true, beq_iff_eq] at hover
        simp only [Bool.false_or, decide_eq_true_eq]
        omega
    refine ⟨_, if_pos hcond, .tooLarge (by rw [hcontent]; omega) fun hshort => ?_⟩
    rw [hcontent]
    exact Nat.min_eq_left hshort

/-- One more chunk of a line without its delimiter. -/
lemma readLoop_of_not_mem {maxLineBytes : ℕ} (hne : reader.rest ≠ []) (h : 10 ∉ reader.fillBuf) :
    readLoop maxLineBytes (.reading maxLineBytes raw) reader =
      readLoop maxLineBytes (.reading maxLineBytes (raw ++ reader.fillBuf))
        (reader.consume reader.fillBuf.length) := by
  have hbuf : reader.fillBuf ≠ [] := fun hnil => hne (BufRead.fillBuf_eq_nil_iff.mp hnil)
  rw [readLoop, dif_neg hbuf, LineState.scan_of_not_mem _ _ h, LineState.foldl_push_reading]
  rfl

variable {after : List UInt8}

/-- The chunk with the delimiter of the line. -/
lemma readLoop_of_mem {maxLineBytes : ℕ} (hbefore : 10 ∉ before)
    (h : reader.fillBuf = before ++ 10 :: after) :
    readLoop maxLineBytes (.reading maxLineBytes raw) reader =
      (some ((LineState.reading maxLineBytes (raw ++ before)).delimit maxLineBytes),
        reader.consume (before.length + 1)) := by
  have hbuf : reader.fillBuf ≠ [] := by
    rw [h]
    exact append_ne_nil_of_right_ne_nil _ (cons_ne_nil _ _)
  rw [readLoop, dif_neg hbuf, h, LineState.scan_append_cons _ _ hbefore,
    LineState.foldl_push_reading]
  rfl

/-- A chunk without a delimiter is part of the line. -/
lemma exists_more (hrest : reader.rest = before ++ 10 :: after) (h : 10 ∉ reader.fillBuf) :
    ∃ more, before = reader.fillBuf ++ more ∧
      (reader.consume reader.fillBuf.length).rest = more ++ 10 :: after := by
  have hsplit := reader.fillBuf_append
  rw [hrest, eq_comm, append_eq_append_iff] at hsplit
  rcases hsplit with ⟨more, hmore, hleft⟩ | ⟨shown, hshown, hleft⟩
  · exact ⟨more, hmore, hleft⟩
  · cases shown with
    | nil => exact ⟨[], by rw [hshown, append_nil, append_nil], hleft.symm⟩
    | cons byte shown =>
      cases hleft
      exact absurd (hshown ▸ mem_append_right before mem_cons_self) h

/-- What is left becomes less with every chunk. -/
lemma consume_length_lt (hne : reader.rest ≠ []) :
    (reader.consume reader.fillBuf.length).rest.length < reader.rest.length := by
  have hbuf : reader.fillBuf ≠ [] := fun hnil => hne (BufRead.fillBuf_eq_nil_iff.mp hnil)
  have hpos := length_pos_iff.mpr hbuf
  have hrest := length_pos_iff.mpr hne
  rw [BufRead.consume_rest, length_drop]
  omega

/-- A line with a delimiter is read up to it, in however many chunks. -/
lemma readLoop_delimited {maxLineBytes : ℕ} {raw before after : List UInt8} {reader : BufRead}
    (hbefore : 10 ∉ before) (hrest : reader.rest = before ++ 10 :: after) :
    ∃ reader', reader'.rest = after ∧
      readLoop maxLineBytes (.reading maxLineBytes raw) reader =
        (some ((LineState.reading maxLineBytes (raw ++ before)).delimit maxLineBytes),
          reader') := by
  induction hn : reader.rest.length using Nat.strong_induction_on
    generalizing raw before reader with
  | _ n ih =>
    subst hn
    by_cases hmem : 10 ∈ reader.fillBuf
    · obtain ⟨parts, hparts⟩ := Option.ne_none_iff_exists'.mp
        (mt splitFirst_eq_none_iff.mp (not_not.mpr hmem))
      obtain ⟨hbuf, hfirst⟩ := splitFirst_eq_some_iff.mp hparts
      have hsame := reader.fillBuf_append
      rw [hrest, hbuf, append_assoc, cons_append] at hsame
      obtain ⟨rfl, -⟩ := Separated.append_cons_inj hbefore hfirst hsame
      refine ⟨_, ?_, readLoop_of_mem hfirst hbuf⟩
      rw [BufRead.consume_rest, hrest, drop_length_add_append]
      rfl
    · have hne : reader.rest ≠ [] := by
        rw [hrest]
        exact append_ne_nil_of_right_ne_nil _ (cons_ne_nil _ _)
      obtain ⟨more, hmore, hleft⟩ := exists_more hrest hmem
      rw [hmore, mem_append, not_or] at hbefore
      obtain ⟨reader', hafter, hread⟩ := @ih _ (consume_length_lt hne) (raw ++ reader.fillBuf) _ _
        hbefore.2 hleft rfl
      refine ⟨reader', hafter, ?_⟩
      rw [readLoop_of_not_mem hne hmem, hread, append_assoc, ← hmore]

/-- A line without a delimiter is read up to the end of the input. -/
lemma readLoop_undelimited {maxLineBytes : ℕ} {raw : List UInt8} {reader : BufRead}
    (hrest : 10 ∉ reader.rest) :
    ∃ reader', reader'.rest = [] ∧
      readLoop maxLineBytes (.reading maxLineBytes raw) reader =
        ((LineState.reading maxLineBytes (raw ++ reader.rest)).finish maxLineBytes, reader') := by
  induction hn : reader.rest.length using Nat.strong_induction_on generalizing raw reader with
  | _ n ih =>
    subst hn
    by_cases hne : reader.rest = []
    · refine ⟨reader, hne, ?_⟩
      rw [readLoop, dif_pos (BufRead.fillBuf_eq_nil_iff.mpr hne), hne, append_nil]
    · have happend := reader.fillBuf_append
      have hparts := hrest
      rw [happend, mem_append, not_or] at hparts
      obtain ⟨reader', hafter, hread⟩ := @ih _ (consume_length_lt hne) (raw ++ reader.fillBuf) _
        hparts.2 rfl
      refine ⟨reader', hafter, ?_⟩
      rw [readLoop_of_not_mem hne hparts.1, hread, append_assoc, ← happend]

/-! ### All lines -/

/-- The reader after a number of lines. -/
def afterLines (maxLineBytes : ℕ) (reader : BufRead) : ℕ → BufRead
  | 0 => reader
  | n + 1 => (readBoundedGraphBatchLine maxLineBytes (afterLines maxLineBytes reader n)).2

/-- One call reads the first piece of what is left and leaves the other pieces. -/
lemma readLine_exact {maxLineBytes : ℕ}
    (hfits : maxLineBytes < maxValue ∨ reader.rest.length ≤ maxValue) :
    (readBoundedGraphBatchLine maxLineBytes reader).2.rest = (pieces 10 reader.rest).tail.flatten ∧
      match (pieces 10 reader.rest).head? with
      | none => (readBoundedGraphBatchLine maxLineBytes reader).1 = none
      | some piece => ∃ frame, (readBoundedGraphBatchLine maxLineBytes reader).1 = some frame ∧
          Framed maxLineBytes piece frame := by
  rw [readBoundedGraphBatchLine, ← LineState.reading_nil]
  cases hsplit : splitFirst 10 reader.rest with
  | some parts =>
    obtain ⟨before, after⟩ := parts
    obtain ⟨hrest, hbefore⟩ := splitFirst_eq_some_iff.mp hsplit
    obtain ⟨reader', hafter, hread⟩ := @readLoop_delimited maxLineBytes [] _ _ _
      hbefore hrest
    rw [hread, hrest, pieces_append_cons hbefore]
    exact ⟨by rw [hafter, tail_cons, flatten_pieces], _, rfl, framed_delimit _ _⟩
  | none =>
    have hrest := splitFirst_eq_none_iff.mp hsplit
    obtain ⟨reader', hafter, hread⟩ := @readLoop_undelimited maxLineBytes [] _ hrest
    rw [hread, nil_append]
    by_cases hne : reader.rest = []
    · rw [hne, LineState.reading_nil]
      exact ⟨hafter, rfl⟩
    · rw [pieces_of_not_mem hrest hne]
      obtain ⟨frame, hframe, hframed⟩ := framed_finish hrest hne hfits
      exact ⟨hafter, frame, hframe, hframed⟩

/-- After a number of lines the other pieces are left. -/
lemma pieces_afterLines {maxLineBytes : ℕ}
    (hfits : maxLineBytes < maxValue ∨ reader.rest.length ≤ maxValue) (n : ℕ) :
    pieces 10 (afterLines maxLineBytes reader n).rest = (pieces 10 reader.rest).drop n ∧
      (maxLineBytes < maxValue ∨ (afterLines maxLineBytes reader n).rest.length ≤ maxValue) := by
  induction n with
  | zero => exact ⟨rfl, hfits⟩
  | succ n ih =>
    have hread := (readLine_exact ih.2).1
    refine ⟨?_, ih.2.imp_right fun hlength => le_trans ?_ hlength⟩
    · rw [afterLines, hread, pieces_flatten_tail, ih.1, tail_drop]
    · have hsublist : (pieces 10 (afterLines maxLineBytes reader n).rest).tail.flatten.Sublist
          (afterLines maxLineBytes reader n).rest := by
        nth_rewrite 2 [← flatten_pieces 10 (afterLines maxLineBytes reader n).rest]
        exact (tail_sublist _).flatten
      rw [afterLines, hread]
      exact hsublist.length_le

/-- Framing depends on the bytes only. However the reader splits them, every call reads the next
piece of the input and leaves what follows it; after the last piece there is nothing to read. The
counter saturates, so an input longer than any vector must not meet the greatest limit. -/
theorem readLines_exact (maxLineBytes : ℕ) (reader : BufRead)
    (hfits : maxLineBytes < maxValue ∨ reader.rest.length ≤ maxValue) (n : ℕ) :
    (afterLines maxLineBytes reader n).rest = ((pieces 10 reader.rest).drop n).flatten ∧
      match (pieces 10 reader.rest)[n]? with
      | none => (readBoundedGraphBatchLine maxLineBytes (afterLines maxLineBytes reader n)).1 = none
      | some piece => ∃ frame,
          (readBoundedGraphBatchLine maxLineBytes (afterLines maxLineBytes reader n)).1 =
            some frame ∧ Framed maxLineBytes piece frame := by
  obtain ⟨hpieces, hleft⟩ := pieces_afterLines hfits n
  constructor
  · rw [← hpieces, flatten_pieces]
  · have hread := (readLine_exact hleft).2
    rwa [hpieces, List.head?_drop] at hread

/-- Two bytes at a time, a line feed after the first chunk. -/
theorem readLines_exact_pair : (afterLines 1 ⟨[97, 13, 10, 98, 99], fun _ => 1⟩ 1).rest =
    ((pieces 10 [97, 13, 10, 98, 99]).drop 1).flatten :=
  (readLines_exact 1 ⟨[97, 13, 10, 98, 99], fun _ => 1⟩ (.inl (by decide)) 1).1

end Omnigraph.Loader
