import Omnigraph.Cluster.BlockLayout

/-!
# The scan of a layout

What the scan makes of the lines of a block: which frames are open after it, and which keys it
reports. With this the layouts are told apart on which the reports are right.
-/

namespace Omnigraph.Yaml

open List

open Params (isWhitespace)

/-! ### A line as it is read -/

variable {n : ℕ}

lemma isWhitespace_of_mem_spaces : ∀ ch ∈ spaces n, isWhitespace ch = true := by
  intro ch hch
  rw [eq_of_mem_replicate hch]
  decide

lemma trim_spaces (n : ℕ) : trim (spaces n) = [] := by
  have hall : (spaces n).dropWhile isWhitespace = [] :=
    dropWhile_eq_nil_iff.mpr isWhitespace_of_mem_spaces
  rw [trim, Delimited.trim, hall]
  rfl

/-- A text without number signs and quotes. -/
def Unquoted (text : List Char) : Prop := ∀ ch ∈ text, ch ∉ ['#', '"', '\x27']

lemma unquoted_spaces (n : ℕ) : Unquoted (spaces n) := by
  intro ch hch
  rw [eq_of_mem_replicate hch]
  decide

variable {text : List Char}

lemma Unquoted.append {text' : List Char} (h : Unquoted text) (h' : Unquoted text') :
    Unquoted (text ++ text') :=
  forall_mem_append.mpr ⟨h, h'⟩

lemma Plain.unquoted {text : String} (h : Plain text) : Unquoted text.toList := by
  intro ch hch hmem
  have hnot := h.chars ch hch
  simp only [mem_cons, not_mem_nil, or_false] at hmem hnot
  tauto

lemma stripComment_append (h : Unquoted text) (rest : List Char) :
    stripComment (text ++ rest) = text ++ stripComment rest := by
  induction text with
  | nil => rfl
  | cons ch text ih =>
    have hch := h ch mem_cons_self
    simp only [mem_cons, not_mem_nil, or_false, not_or] at hch
    have ih := ih fun c hc => h c (mem_cons_of_mem _ hc)
    rw [stripComment] at ih ⊢
    rw [cons_append, stripFrom]
    simp [hch.1, hch.2.1, hch.2.2, ih, stripComment]

lemma stripComment_of_unquoted (h : Unquoted text) : stripComment text = text := by
  have happend := stripComment_append h []
  rwa [append_nil, show stripComment [] = [] from rfl, append_nil] at happend

lemma stripComment_comment (comment : List Char) : stripComment ('#' :: comment) = [] := by
  simp [stripComment, stripFrom]

lemma stripComment_ending (gap : Gap) : ∃ n, stripComment gap.ending = spaces n := by
  unfold Gap.ending
  split
  · exact ⟨gap.trailing, stripComment_of_unquoted (unquoted_spaces _)⟩
  · refine ⟨gap.trailing + 1, ?_⟩
    rw [stripComment_append (unquoted_spaces _), stripComment_comment, append_nil]

lemma scanLine_noise (stack : List Frame) (noise : Noise) :
    scanLine stack noise.text = (stack, none) := by
  have hstrip : stripComment noise.text = spaces noise.indent := by
    unfold Noise.text
    rw [stripComment_append (unquoted_spaces _)]
    split
    · exact append_nil _
    · rw [stripComment_comment, append_nil]
  unfold scanLine
  rw [hstrip]
  exact if_pos (trim_spaces _)

/-! ### Keys -/

/-- A key as it is read after dashes. -/
def rawKey (dashes : List ℕ) (key : String) : String := String.ofList (dashed dashes ++ key.toList)

lemma rawKey_nil (key : String) : rawKey [] key = key := by
  simp [rawKey, dashed]

lemma head_dashed_append (dashes : List ℕ) (h : ∀ ch ∈ text.head?, isWhitespace ch = false) :
    ∀ ch ∈ (dashed dashes ++ text).head?, isWhitespace ch = false := by
  cases dashes with
  | nil => exact h
  | cons n dashes =>
    rintro ch ⟨⟩
    decide

variable {key : String}

lemma readKey_entry (dashes : List ℕ) (hkey : Plain key) (n : ℕ) (rest : List Char) :
    readKey (dashed dashes ++ key.toList ++ spaces n ++ ':' :: rest) =
      some (rawKey dashes key, rest) := by
  have hcolon : ':' ∉ dashed dashes ++ key.toList ++ spaces n := by
    simp only [mem_append, not_or]
    refine ⟨⟨?_, fun hmem => ?_⟩, ?_⟩
    · simp [dashed, spaces]
    · have hnot := hkey.chars ':' hmem
      simp at hnot
    · simp [spaces]
  have hsplit : Delimited.splitFirst ':' (dashed dashes ++ key.toList ++ spaces n ++ ':' :: rest) =
      some (dashed dashes ++ key.toList ++ spaces n, rest) :=
    Delimited.splitFirst_eq_some_iff.mpr ⟨rfl, hcolon⟩
  have hhead := head_dashed_append dashes hkey.head
  have hne : dashed dashes ++ key.toList ≠ [] := by
    simp [hkey.ne_nil]
  have hlast : ∀ ch ∈ (dashed dashes ++ key.toList).getLast?, isWhitespace ch = false := by
    rw [List.getLast?_append_of_ne_nil _ hkey.ne_nil]
    exact hkey.last
  have htrim : trim (dashed dashes ++ key.toList ++ spaces n) = dashed dashes ++ key.toList :=
    @Delimited.trim_append _ isWhitespace [] _ (spaces n) (by simp) isWhitespace_of_mem_spaces hhead
      hlast hne
  have hopening : ∀ ch ∈ (dashed dashes ++ key.toList).head?, ch ≠ '\x7b' ∧ ch ≠ '[' := by
    cases dashes with
    | nil =>
      intro ch hch
      have hnot := hkey.chars ch (mem_of_mem_head? hch)
      simp only [mem_cons, not_or] at hnot
      tauto
    | cons m dashes =>
      rintro ch ⟨⟩
      decide
  rw [readKey, hsplit, Option.bind_some]
  dsimp only
  rw [htrim, if_neg]
  · rfl
  · rintro (hnil | hbrace | hbracket)
    · exact hne hnil
    · exact absurd rfl (hopening _ hbrace).1
    · exact absurd rfl (hopening _ hbracket).2

lemma readKey_of_not_mem {item : List Char} (h : ':' ∉ item) : readKey item = none := by
  rw [readKey, Delimited.splitFirst_eq_none_iff.mpr h]
  rfl

lemma trim_ne_nil {l : List Char} {ch : Char} (hmem : ch ∈ l) (hch : isWhitespace ch = false) :
    trim l ≠ [] := by
  intro hnil
  obtain ⟨left, right, hl, hleft, hright⟩ := Delimited.exists_trim isWhitespace l
  rw [show Delimited.trim isWhitespace l = [] from hnil, append_nil] at hl
  rw [hl, mem_append] at hmem
  rcases hmem with hmem | hmem
  · simp [hleft ch hmem] at hch
  · simp [hright ch hmem] at hch

lemma trim_ne_nil_of_plain {text : String} (h : Plain text) (left right : List Char) :
    trim (left ++ text.toList ++ right) ≠ [] := by
  obtain ⟨ch, rest, htext⟩ := exists_cons_of_ne_nil h.ne_nil
  have hch := h.head ch (by simp [htext])
  exact trim_ne_nil (show ch ∈ _ by simp [htext]) hch

/-- What a key is entered with matters only in that there is a value or none. -/
lemma enterKey_congr {indent : ℤ} {rawValue rawValue' : List Char} {stack : List Frame}
    (h : trim rawValue = [] ↔ trim rawValue' = []) :
    enterKey indent key rawValue stack = enterKey indent key rawValue' stack := by
  unfold enterKey
  simp only [h]

/-! ### Lines -/

def Content.WellFormed (dashes : List ℕ) : Content → Prop
  | .nothing => dashes ≠ []
  | .scalar text => dashes ≠ [] ∧ Plain text
  | .scalarEntry key text => Plain key ∧ Plain text
  | .blockEntry key => Plain key

/-- A line starts with a dash or a key, and there is a space after a dash that something follows. -/
structure Line.WellFormed (line : Line) : Prop where
  content : line.content.WellFormed line.dashes
  inner : ∀ n ∈ line.dashes.dropLast, 0 < n
  spaced : line.content.text line.gap ≠ [] → ∀ n ∈ line.dashes, 0 < n

section Content

variable {gap : Gap} {dashes : List ℕ} {content : Content}

lemma Content.WellFormed.head (h : content.WellFormed dashes) (gap : Gap) :
    ∀ ch ∈ (content.text gap).head?, isWhitespace ch = false := by
  have hkey : ∀ (key : String) (rest : List Char), Plain key →
      ∀ ch ∈ (key.toList ++ rest).head?, isWhitespace ch = false := by
    intro key rest hkey ch hch
    rw [List.head?_append_of_ne_nil _ hkey.ne_nil] at hch
    exact hkey.head ch hch
  cases content with
  | nothing => simp [text]
  | scalar text => exact h.2.head
  | scalarEntry key text =>
    simp only [Content.text, append_assoc]
    exact hkey key _ h.1
  | blockEntry key =>
    simp only [Content.text, append_assoc]
    exact hkey key _ h

lemma unquoted_dashed (dashes : List ℕ) : Unquoted (dashed dashes) := by
  intro ch hch
  obtain ⟨n, -, hmem⟩ := mem_flatMap.mp hch
  rcases mem_cons.mp hmem with rfl | hmem
  · decide
  · exact unquoted_spaces n ch hmem

lemma Content.WellFormed.unquoted (h : content.WellFormed dashes) :
    Unquoted (content.text gap) := by
  have hcolon : Unquoted [':'] := by
    rintro ch hch
    rw [mem_singleton.mp hch]
    decide
  cases content with
  | nothing => simp [Unquoted, text]
  | scalar text => exact h.2.unquoted
  | scalarEntry key text =>
    have hkey := h.1.unquoted.append (unquoted_spaces gap.colon)
    exact (hkey.append (hcolon.append (unquoted_spaces _))).append h.2.unquoted
  | blockEntry key => exact (Plain.unquoted h |>.append (unquoted_spaces _)).append hcolon

/-- The key that is read in a line, after its first dash if it has one. -/
lemma readKey_content (h : content.WellFormed dashes) (inner : List ℕ) (m : ℕ) :
    (∀ key text, content = .scalarEntry key text → ∃ rawValue, trim rawValue ≠ [] ∧
      readKey (dashed inner ++ content.text gap ++ spaces m) = some (rawKey inner key, rawValue)) ∧
    (∀ key, content = .blockEntry key → ∃ rawValue, trim rawValue = [] ∧
      readKey (dashed inner ++ content.text gap ++ spaces m) = some (rawKey inner key, rawValue)) ∧
    (∀ text, content = .nothing ∨ content = .scalar text →
      readKey (dashed inner ++ content.text gap ++ spaces m) = none) := by
  refine ⟨?_, ?_, ?_⟩
  · rintro key text rfl
    refine ⟨spaces (gap.space + 1) ++ text.toList ++ spaces m, trim_ne_nil_of_plain h.2 _ _, ?_⟩
    have hread := readKey_entry inner h.1 gap.colon
      (spaces (gap.space + 1) ++ text.toList ++ spaces m)
    simpa [Content.text] using hread
  · rintro key rfl
    refine ⟨spaces m, trim_spaces m, ?_⟩
    have hread := readKey_entry inner (show Plain key from h) gap.colon (spaces m)
    simpa [Content.text] using hread
  · intro text htext
    apply readKey_of_not_mem
    rw [mem_append, mem_append, not_or, not_or]
    refine ⟨⟨by simp [dashed, spaces], ?_⟩, by simp [spaces]⟩
    rcases htext with rfl | rfl
    · simp [Content.text]
    · intro hmem
      have hnot := h.2.chars ':' hmem
      simp at hnot

end Content

/-- What a line does to the frames. -/
def Line.effect (line : Line) (stack : List Frame) : List Frame × Option (String × String) :=
  let opened := if line.dashes = [] then pop line.indent stack else openItem line.indent stack
  match line.content with
  | .nothing => (opened, none)
  | .scalar _ => (opened, none)
  | .scalarEntry key text => enterKey line.indent (rawKey line.dashes.tail key) text.toList opened
  | .blockEntry key => enterKey line.indent (rawKey line.dashes.tail key) [] opened

variable {line : Line}

/-- The item of a line, without its first dash. -/
lemma readKey_effect (h : line.WellFormed) (m : ℕ) (opened : List Frame) :
    (match readKey (dashed line.dashes.tail ++ line.content.text line.gap ++ spaces m) with
      | none => (opened, none)
      | some (key, rawValue) => enterKey line.indent key rawValue opened) =
    match line.content with
      | .nothing => (opened, none)
      | .scalar _ => (opened, none)
      | .scalarEntry key text =>
        enterKey line.indent (rawKey line.dashes.tail key) text.toList opened
      | .blockEntry key => enterKey line.indent (rawKey line.dashes.tail key) [] opened := by
  obtain ⟨hscalarEntry, hblockEntry, hnone⟩ :=
    @readKey_content line.gap line.dashes line.content h.content line.dashes.tail m
  have hcontent := h.content
  cases hc : line.content with
  | nothing =>
    rw [hc] at hnone
    rw [hnone "" (.inl rfl)]
  | scalar text =>
    rw [hc] at hnone
    rw [hnone text (.inr rfl)]
  | scalarEntry key text =>
    rw [hc] at hcontent hscalarEntry
    obtain ⟨rawValue, hraw, hread⟩ := hscalarEntry key text rfl
    have htext : trim text.toList ≠ [] := by
      simpa using trim_ne_nil_of_plain hcontent.2 [] []
    rw [hread]
    exact enterKey_congr (iff_of_false hraw htext)
  | blockEntry key =>
    rw [hc] at hblockEntry
    obtain ⟨rawValue, hraw, hread⟩ := hblockEntry key rfl
    rw [hread]
    exact enterKey_congr (iff_of_true hraw rfl)

lemma stripComment_text (h : line.WellFormed) :
    ∃ m, stripComment line.text =
      spaces line.indent ++ (dashed line.dashes ++ line.content.text line.gap) ++ spaces m := by
  obtain ⟨m, hm⟩ := stripComment_ending line.gap
  have hbody : Unquoted
      (spaces line.indent ++ dashed line.dashes ++ line.content.text line.gap) :=
    ((unquoted_spaces _).append (unquoted_dashed _)).append h.content.unquoted
  refine ⟨m, ?_⟩
  rw [Line.text, stripComment_append hbody, hm, append_assoc (spaces line.indent)]

/-- A line without a dash starts with its key. -/
lemma not_item_of_plain (h : Plain key) {rest : List Char} (hrest : rest ≠ []) :
    ¬ (key.toList ++ rest = ['-'] ∨ ['-', ' '] <+: key.toList ++ rest) := by
  obtain ⟨hdash, hitem⟩ := h.not_item
  obtain ⟨first, chars, hkey⟩ := exists_cons_of_ne_nil h.ne_nil
  rintro (hsame | hprefix)
  · rw [hkey, cons_append, List.cons.injEq, append_eq_nil_iff] at hsame
    exact hrest hsame.2.2
  · cases chars with
    | nil =>
      rw [hkey, cons_append, nil_append] at hprefix
      have hfirst := (cons_prefix_cons.mp hprefix).1
      refine hdash (String.toList_inj.mp ?_)
      rw [hkey, ← hfirst]
      rfl
    | cons second chars =>
      rw [hkey, cons_append, cons_append, cons_prefix_cons,
        cons_prefix_cons] at hprefix
      refine hitem ?_
      rw [hkey, ← hprefix.1, ← hprefix.2.1]
      exact ⟨chars, rfl⟩

/-- The item after a dash. -/
lemma trimStart_item (h : line.WellFormed) {inner : List ℕ} (hdashes : line.dashes = n :: inner)
    (m : ℕ) :
    let item := spaces n ++ (dashed inner ++ line.content.text line.gap ++ spaces m)
    ('-' :: item = ['-'] ∨ ['-', ' '] <+: '-' :: item) ∧
      readKey (trimStart item) =
        readKey (dashed inner ++ line.content.text line.gap ++ spaces m) := by
  dsimp only
  by_cases hnil : dashed inner ++ line.content.text line.gap = []
  · rw [hnil, nil_append]
    have hall : trimStart (spaces n ++ spaces m) = [] := by
      refine dropWhile_eq_nil_iff.mpr fun ch hch => ?_
      rcases mem_append.mp hch with hch | hch
      · exact isWhitespace_of_mem_spaces ch hch
      · exact isWhitespace_of_mem_spaces ch hch
    refine ⟨?_, ?_⟩
    · rw [spaces, spaces, replicate_append_replicate]
      cases n + m with
      | zero => exact .inl rfl
      | succ k => exact .inr ⟨List.replicate k ' ', rfl⟩
    · rw [hall, readKey_of_not_mem (by simp), readKey_of_not_mem (by simp [spaces])]
  · have hn : 0 < n := by
      cases inner with
      | nil =>
        refine h.spaced (fun hcontent => hnil ?_) n (by simp [hdashes])
        rw [hcontent]
        rfl
      | cons next inner => exact h.inner n (by simp [hdashes])
    obtain ⟨k, rfl⟩ := Nat.exists_eq_succ_of_ne_zero hn.ne'
    refine ⟨.inr ⟨List.replicate k ' ' ++ _, rfl⟩, ?_⟩
    have hhead := head_dashed_append inner (h.content.head line.gap)
    rw [trimStart, Delimited.dropWhile_append_padding isWhitespace isWhitespace_of_mem_spaces]
    rwa [List.head?_append_of_ne_nil _ hnil]

/-- A line is read as what it says. -/
lemma scanLine_text (h : line.WellFormed) (stack : List Frame) :
    scanLine stack line.text = line.effect stack := by
  obtain ⟨m, hstrip⟩ := stripComment_text h
  have hne : dashed line.dashes ++ line.content.text line.gap ≠ [] := by
    have hcontent := h.content
    cases hdashes : line.dashes with
    | cons n inner => simp [dashed]
    | nil =>
      rw [hdashes] at hcontent
      cases hc : line.content with
      | nothing => simp [hc, Content.WellFormed] at hcontent
      | scalar text => simp [hc, Content.WellFormed] at hcontent
      | scalarEntry key text => simp [Content.text]
      | blockEntry key => simp [Content.text]
  have hhead := head_dashed_append line.dashes (h.content.head line.gap)
  generalize hbody : dashed line.dashes ++ line.content.text line.gap = body at hstrip hne hhead
  obtain ⟨first, rest, rfl⟩ := exists_cons_of_ne_nil hne
  have hfirst : isWhitespace first = false := hhead first rfl
  have hspace : first ≠ ' ' := by
    rintro rfl
    exact absurd hfirst (by decide)
  have htrim : trim (spaces line.indent ++ first :: rest ++ spaces m) ≠ [] :=
    trim_ne_nil (show first ∈ _ by simp) hfirst
  have hindent : ((spaces line.indent ++ first :: rest ++ spaces m).takeWhile (· = ' ')).length =
      line.indent := by
    rw [append_assoc, takeWhile_append_of_pos (by simp [spaces]), cons_append,
      takeWhile_cons_of_neg (by simpa using hspace), append_nil, spaces,
      length_replicate]
  have htrimmed : trimStart (spaces line.indent ++ first :: rest ++ spaces m) =
      first :: rest ++ spaces m := by
    rw [append_assoc, trimStart]
    refine Delimited.dropWhile_append_padding isWhitespace isWhitespace_of_mem_spaces ?_
    rintro ch ⟨⟩
    exact hfirst
  unfold scanLine Line.effect
  dsimp only
  rw [hstrip, if_neg htrim, hindent, htrimmed, ← hbody]
  cases hdashes : line.dashes with
  | nil =>
    have hcontent := h.content
    have hitem : ¬ (line.content.text line.gap ++ spaces m = ['-'] ∨
        ['-', ' '] <+: line.content.text line.gap ++ spaces m) := by
      rw [hdashes] at hcontent
      cases hc : line.content with
      | nothing => simp [hc, Content.WellFormed] at hcontent
      | scalar text => simp [hc, Content.WellFormed] at hcontent
      | scalarEntry key text =>
        rw [hc] at hcontent
        simp only [Content.text, append_assoc]
        exact not_item_of_plain hcontent.1 (by simp)
      | blockEntry key =>
        rw [hc] at hcontent
        simp only [Content.text, append_assoc]
        exact not_item_of_plain hcontent (by simp)
    rw [show dashed [] = [] from rfl, nil_append, if_neg hitem, if_pos rfl]
    have hread := readKey_effect h m (pop line.indent stack)
    rw [hdashes] at hread
    exact hread
  | cons n inner =>
    obtain ⟨hopen, hread⟩ := trimStart_item h hdashes m
    have hshape : dashed (n :: inner) ++ line.content.text line.gap ++ spaces m =
        '-' :: (spaces n ++ (dashed inner ++ line.content.text line.gap ++ spaces m)) := by
      simp [dashed]
    rw [hshape, if_pos hopen, if_neg (cons_ne_nil n inner), tail_cons, hread]
    have heffect := readKey_effect h m (openItem line.indent stack)
    rw [hdashes] at heffect
    exact heffect

end Omnigraph.Yaml
