import Omnigraph.Cluster.RepeatedKeys

/-!
# Exact reports

The lines of a document are those of its layout, and the reports on them are the keys that a mapping
has twice on exactly the layouts in which what follows the first entry after a dash is compared with
the right keys.
-/

namespace Omnigraph.Yaml

open List Block

/-! ### The lines of a document -/

/-- A text within a line. -/
def Inline (text : List Char) : Prop := ∀ ch ∈ text, ch ≠ '\n' ∧ ch ≠ '\r'

lemma Inline.append {text text' : List Char} (h : Inline text) (h' : Inline text') :
    Inline (text ++ text') :=
  forall_mem_append.mpr ⟨h, h'⟩

lemma Inline.cons {ch : Char} {text : List Char} (hch : ch ≠ '\n' ∧ ch ≠ '\r')
    (h : Inline text) : Inline (ch :: text) :=
  forall_mem_cons.mpr ⟨hch, h⟩

lemma inline_nil : Inline [] := fun _ h => by cases h

lemma inline_spaces (n : ℕ) : Inline (spaces n) := by
  intro ch hch
  rw [eq_of_mem_replicate hch]
  decide

lemma inline_dashed (dashes : List ℕ) : Inline (dashed dashes) := by
  intro ch hch
  obtain ⟨n, -, hmem⟩ := mem_flatMap.mp hch
  exact Inline.cons (by decide) (inline_spaces n) ch hmem

lemma Plain.inline {text : String} (h : Plain text) : Inline text.toList := by
  intro ch hch
  have hnot := h.chars ch hch
  simp only [mem_cons, not_or] at hnot
  tauto

lemma Noise.inline {noise : Noise} (h : Commented noise.comment) : Inline noise.text := by
  unfold Noise.text
  split
  next => exact (inline_spaces _).append inline_nil
  next comment hcomment =>
    exact (inline_spaces _).append (Inline.cons (by decide) (h comment hcomment))

variable {gap : Gap} {dashes : List ℕ}

lemma Gap.WellFormed.inline (h : gap.WellFormed) : Inline gap.ending := by
  unfold Gap.ending
  split
  next => exact inline_spaces _
  next comment hcomment =>
    exact (inline_spaces _).append (Inline.cons (by decide) (h.comment comment hcomment))

lemma Content.WellFormed.inline {content : Content} (h : content.WellFormed dashes) :
    Inline (content.text gap) := by
  have hcolon : ∀ {text : List Char}, Inline text → Inline (':' :: text) :=
    fun htext => Inline.cons (by decide) htext
  cases content with
  | nothing => exact inline_nil
  | scalar text => exact h.2.inline
  | scalarEntry key text =>
    have hkey := h.1.inline.append (inline_spaces gap.colon)
    exact (hkey.append (hcolon (inline_spaces _))).append h.2.inline
  | blockEntry key =>
    exact ((Plain.inline h).append (inline_spaces _)).append (hcolon inline_nil)

lemma Line.inline {line : Line} (hgap : line.gap.WellFormed)
    (hcontent : line.content.WellFormed line.dashes) : ∀ text ∈ line.texts, Inline text := by
  rw [Line.texts, forall_mem_append, forall_mem_singleton]
  refine ⟨fun text htext => ?_, ?_⟩
  · obtain ⟨noise, hnoise, rfl⟩ := List.mem_map.mp htext
    exact Noise.inline (hgap.before noise hnoise)
  · exact (((inline_spaces _).append (inline_dashed _)).append hcontent.inline).append hgap.inline

lemma Block.WellFormed.inline {k : Kind} {b : Block k} (h : b.WellFormed) (indent : ℕ)
    (dashes : List ℕ) (column : ℕ) :
    ∀ text ∈ (b.render indent dashes column).flatMap Line.texts, Inline text := by
  induction b generalizing indent dashes column with
  | nil =>
    intro text htext
    cases htext
  | scalarEntry gap key text rest ih =>
    obtain ⟨hgap, hkey, htext, hrest⟩ := h
    rw [render, flatMap_cons, forall_mem_append]
    exact ⟨Line.inline hgap ⟨hkey, htext⟩, ih hrest _ _ _⟩
  | blockEntry gap key shift block rest ihBlock ihRest =>
    obtain ⟨hgap, hkey, -, -, hblock, hrest⟩ := h
    rw [render, flatMap_cons, flatMap_append, forall_mem_append,
      forall_mem_append]
    exact ⟨Line.inline hgap hkey, ihBlock hblock _ _ _, ihRest hrest _ _ _⟩
  | scalarItem gap text rest ih =>
    obtain ⟨hgap, htext, hrest⟩ := h
    rw [render, flatMap_cons, forall_mem_append]
    exact ⟨Line.inline hgap ⟨by simp, htext⟩, ih hrest _ _ _⟩
  | belowItem gap shift block rest ihBlock ihRest =>
    obtain ⟨hgap, -, -, hblock, hrest⟩ := h
    rw [render, flatMap_cons, flatMap_append, forall_mem_append,
      forall_mem_append]
    refine ⟨Line.inline hgap ?_, ihBlock hblock _ _ _, ihRest hrest _ _ _⟩
    simp [Content.WellFormed]
  | inlineItem shift block rest ihBlock ihRest =>
    obtain ⟨-, -, hblock, hrest⟩ := h
    rw [render, flatMap_append, forall_mem_append]
    exact ⟨ihBlock hblock _ _ _, ihRest hrest _ _ _⟩

lemma lines_flatMap {texts : List (List Char)} (h : ∀ text ∈ texts, Inline text) :
    lines (texts.flatMap fun text => text ++ ['\n']) = texts := by
  induction texts with
  | nil => rfl
  | cons text texts ih =>
    rw [forall_mem_cons] at h
    have hnot : '\n' ∉ text := fun hmem => (h.1 _ hmem).1 rfl
    have hlast : text.getLast? ≠ some '\r' := fun hr =>
      (h.1 _ (mem_of_mem_getLast? hr)).2 rfl
    have hchomp : chomp (text ++ ['\n']) = text := by
      rw [chomp, if_pos (by simp), dropLast_concat, if_neg hlast]
    rw [lines, flatMap_cons, append_assoc, singleton_append,
      Delimited.pieces_append_cons hnot, map_cons, hchomp]
    exact congrArg (List.cons text) (ih h.2)

/-! ### Marks -/

section Marks

variable {k : Kind} {rule rule' : List ℕ → String → Option (Finset String) → Finset String →
  Finset String}

lemma length_marks (b : Block k) (dashes dashes' : List ℕ) (seen seen' : Finset String) :
    (b.marks rule dashes seen).length = (b.marks rule' dashes' seen').length := by
  induction b generalizing dashes dashes' seen seen' with
  | nil => rfl
  | scalarEntry gap key text rest ih =>
    simp only [marks, length_append, length_cons]
    rw [ih]
  | blockEntry gap key shift block rest ihBlock ihRest =>
    simp only [marks, length_append, length_cons]
    rw [ihBlock, ihRest]
  | scalarItem gap text rest ih => simp [marks, ih [] [] seen seen']
  | belowItem gap shift block rest ihBlock ihRest =>
    simp [marks, ihBlock [] [] ∅ ∅, ihRest [] [] seen seen']
  | inlineItem shift block rest ihBlock ihRest =>
    simp [marks, ihBlock (dashes ++ [shift - 1]) (dashes' ++ [shift - 1]) ∅ ∅,
      ihRest [] [] seen seen']

variable {key : String} {seen seen' : Finset String} {b : Block k}

lemma mark_eq_iff : mark seen key = mark seen' key ↔ (key ∈ seen ↔ key ∈ seen') := by
  unfold mark
  split_ifs <;> simp_all

lemma number_inj {start : ℕ} {marks marks' : List (Option String)}
    (hlength : marks.length = marks'.length) (h : number start marks = number start marks') :
    marks = marks' := by
  have hlow : ∀ (marks : List (Option String)) (start : ℕ), ∀ p ∈ number start marks,
      start ≤ p.1 := by
    intro marks
    induction marks with
    | nil => simp [number]
    | cons found marks ih =>
      intro start p hp
      cases found with
      | none => exact Nat.le_of_succ_le (ih (start + 1) p hp)
      | some key =>
        rcases mem_cons.mp hp with rfl | hp
        · exact le_rfl
        · exact Nat.le_of_succ_le (ih (start + 1) p hp)
  induction marks generalizing start marks' with
  | nil => exact (length_eq_zero_iff.mp hlength.symm).symm
  | cons found marks ih =>
    cases marks' with
    | nil => cases hlength
    | cons found' marks' =>
      have htail : marks.length = marks'.length := Nat.succ.inj hlength
      cases found with
      | none =>
        cases found' with
        | none => rw [ih htail h]
        | some key' =>
          have hmem : (start, key') ∈ number (start + 1) marks := by
            rw [show number (start + 1) marks = _ from h]
            exact mem_cons_self
          exact absurd (hlow _ _ _ hmem) (Nat.not_succ_le_self start)
      | some key =>
        cases found' with
        | none =>
          have hmem : (start, key) ∈ number (start + 1) marks' := by
            rw [show number (start + 1) marks' = _ from h.symm]
            exact mem_cons_self
          exact absurd (hlow _ _ _ hmem) (Nat.not_succ_le_self start)
        | some key' =>
          obtain ⟨hkey, hrest⟩ := List.cons.inj h
          rw [ih htail hrest, show key = key' from (Prod.mk.inj hkey).2]

/-- After a further dash a key is read with this dash, so it is no plain key. -/
lemma not_plain_rawKey {n : ℕ} {inner : List ℕ} (hn : 0 < n) :
    ¬ Plain (rawKey (n :: inner) key) := by
  intro hplain
  obtain ⟨m, rfl⟩ := Nat.exists_eq_succ_of_ne_zero hn.ne'
  refine hplain.not_item.2 ?_
  rw [rawKey, String.toList_ofList]
  refine ⟨List.replicate m ' ' ++ dashed inner ++ key.toList, ?_⟩
  simp [dashed, spaces, List.replicate]

lemma Block.WellFormed.plain_of_mem_keys (h : b.WellFormed) : ∀ key ∈ b.keys, Plain key := by
  induction b with
  | scalarEntry gap key text rest ih =>
    rw [keys, Finset.forall_mem_insert]
    exact ⟨h.2.1, ih h.2.2.2⟩
  | blockEntry gap key shift block rest _ ih =>
    rw [keys, Finset.forall_mem_insert]
    exact ⟨h.2.1, ih h.2.2.2.2.2⟩
  | _ => simp [keys]

/-- An entry is compared with the keys before as long as the entries after it are. -/
lemma forall_mem_insert_iff {keys : Finset String} :
    ((key ∈ seen ↔ key ∈ seen') ∧
        ∀ later ∈ keys, later ∈ insert key seen ↔ later ∈ insert key seen') ↔
      ∀ later ∈ insert key keys, later ∈ seen ↔ later ∈ seen' := by
  simp only [Finset.mem_insert, forall_eq_or_imp]
  refine and_congr_right fun hkey => forall₂_congr fun later _ => ?_
  by_cases hlater : later = key
  · simp [hlater, hkey]
  · simp [hlater]

/-- The entries after a scalar entry. -/
lemma asScanned_scalar_iff {rest : Block .mapping} (hrest : rest.WellFormed) {dashes : List ℕ}
    (hspaced : ∀ n ∈ dashes, 0 < n) {seen seen' : Finset String} {key : String}
    (hempty : dashes ≠ [] → seen = ∅ ∧ seen' = ∅) :
    ((key ∈ seen ↔ key ∈ seen') ∧
        ∀ later ∈ rest.keys, later ∈ asScanned dashes key none seen ↔ later ∈ insert key seen') ↔
      (∀ later ∈ insert key rest.keys, later ∈ seen ↔ later ∈ seen') ∧
        (1 < dashes.length → key ∉ rest.keys) := by
  cases dashes with
  | nil =>
    rw [show asScanned [] key none seen = insert key seen from rfl, forall_mem_insert_iff]
    simp
  | cons n inner =>
    obtain ⟨rfl, rfl⟩ := hempty (cons_ne_nil _ _)
    cases inner with
    | nil => simp [asScanned, rawKey_nil]
    | cons m inner =>
      have hraw : ∀ later ∈ rest.keys, later ≠ rawKey (m :: inner) key := by
        rintro later hlater rfl
        exact not_plain_rawKey (hspaced m (by simp)) (hrest.plain_of_mem_keys _ hlater)
      have hkeys : (∀ later ∈ rest.keys,
          later ∈ insert (rawKey (m :: inner) key) (∅ : Finset String) ↔
            later ∈ insert key (∅ : Finset String)) ↔ key ∉ rest.keys := by
        simp only [Finset.mem_insert, Finset.notMem_empty, or_false]
        constructor
        · intro h hmem
          exact hraw key hmem ((h key hmem).mpr rfl)
        · intro h later hlater
          refine iff_of_false (hraw later hlater) ?_
          rintro rfl
          exact h hlater
      rw [show asScanned (n :: m :: inner) key none ∅ = insert (rawKey (m :: inner) key) ∅ from rfl,
        hkeys]
      simp

/-- The entries after an entry with a block. -/
lemma asScanned_block_iff {keys blockKeys : Finset String} {dashes : List ℕ}
    {seen seen' : Finset String} {key : String} (hempty : dashes ≠ [] → seen = ∅ ∧ seen' = ∅) :
    ((key ∈ seen ↔ key ∈ seen') ∧ ∀ later ∈ keys,
        later ∈ asScanned dashes key (some blockKeys) seen ↔ later ∈ insert key seen') ↔
      (∀ later ∈ insert key keys, later ∈ seen ↔ later ∈ seen') ∧
        (dashes ≠ [] → ∀ later ∈ keys, later = key ↔ later ∈ blockKeys) := by
  cases dashes with
  | nil =>
    rw [show asScanned [] key (some blockKeys) seen = insert key seen from rfl,
      forall_mem_insert_iff]
    simp
  | cons n inner =>
    obtain ⟨rfl, rfl⟩ := hempty (cons_ne_nil _ _)
    simp [asScanned, iff_comm]

/-- The scan marks the right lines of a block if what follows a dash is compared with the right
keys. -/
def MarkedRight (b : Block k) : Prop :=
  ∀ (dashes : List ℕ) (seen seen' : Finset String), (∀ n ∈ dashes, 0 < n) →
    (dashes ≠ [] → seen = ∅ ∧ seen' = ∅) →
      (b.marks asScanned dashes seen = b.marks allBefore dashes seen' ↔
        (∀ key ∈ b.keys, key ∈ seen ↔ key ∈ seen') ∧ b.Separated dashes)

lemma MarkedRight.rest (h : MarkedRight b) (seen seen' : Finset String) :
    b.marks asScanned [] seen = b.marks allBefore [] seen' ↔
      (∀ key ∈ b.keys, key ∈ seen ↔ key ∈ seen') ∧ b.Separated [] :=
  h [] seen seen' (by simp) (by simp)

lemma MarkedRight.inner (h : MarkedRight b) (hspaced : ∀ n ∈ dashes, 0 < n) :
    b.marks asScanned dashes ∅ = b.marks allBefore dashes ∅ ↔ b.Separated dashes := by
  rw [h dashes ∅ ∅ hspaced (by simp)]
  simp

lemma MarkedRight.items {b : Block .sequence} (h : MarkedRight b) (seen seen' : Finset String) :
    b.marks asScanned [] seen = b.marks allBefore [] seen' ↔ b.Separated [] := by
  rw [h.rest, keys_sequence]
  simp

lemma append_eq_iff {α : Type*} {l l' r r' : List α} (h : l.length = l'.length) :
    l ++ r = l' ++ r' ↔ l = l' ∧ r = r' :=
  ⟨fun heq => List.append_inj heq h, fun ⟨hl, hr⟩ => by rw [hl, hr]⟩

lemma Block.WellFormed.markedRight (h : b.WellFormed) : MarkedRight b := by
  induction b with
  | nil => simp [MarkedRight, marks, keys, Block.Separated]
  | scalarEntry gap key text rest ih =>
    obtain ⟨-, -, -, hrest⟩ := h
    intro dashes seen seen' hspaced hempty
    have hkeys := @asScanned_scalar_iff rest hrest dashes hspaced seen seen' key hempty
    rw [marks, marks, append_cancel_left_eq, List.cons.injEq, mark_eq_iff,
      (ih hrest).rest, Block.Separated, keys, ← and_assoc, ← and_assoc, ← hkeys]
    rfl
  | blockEntry gap key shift block rest ihBlock ihRest =>
    obtain ⟨-, -, -, -, hblock, hrest⟩ := h
    intro dashes seen seen' hspaced hempty
    have hkeys := @asScanned_block_iff rest.keys block.keys dashes seen seen' key hempty
    rw [marks, marks, append_cancel_left_eq, List.cons.injEq, mark_eq_iff,
      append_eq_iff (length_marks _ _ _ _ _), (ihBlock hblock).inner (by simp), (ihRest hrest).rest,
      Block.Separated, keys, ← and_assoc (a := ∀ later ∈ _, _), ← hkeys]
    rw [show allBefore dashes key (some block.keys) seen' = insert key seen' from rfl]
    tauto
  | scalarItem gap text rest ih =>
    obtain ⟨-, -, hrest⟩ := h
    intro dashes seen seen' hspaced hempty
    rw [marks, marks, append_cancel_left_eq, List.cons.injEq, (ih hrest).items,
      Block.Separated]
    simp [keys]
  | belowItem gap shift block rest ihBlock ihRest =>
    obtain ⟨-, -, -, hblock, hrest⟩ := h
    intro dashes seen seen' hspaced hempty
    rw [marks, marks, append_cancel_left_eq, List.cons.injEq,
      append_eq_iff (length_marks _ _ _ _ _), (ihBlock hblock).inner (by simp),
      (ihRest hrest).items, Block.Separated]
    simp [keys]
  | inlineItem shift block rest ihBlock ihRest =>
    obtain ⟨hshift, -, hblock, hrest⟩ := h
    intro dashes seen seen' hspaced hempty
    have hinner : ∀ n ∈ dashes ++ [shift - 1], 0 < n := by
      rw [forall_mem_append, forall_mem_singleton]
      exact ⟨hspaced, by omega⟩
    rw [marks, marks, append_eq_iff (length_marks _ _ _ _ _),
      (ihBlock hblock).inner hinner, (ihRest hrest).items, Block.Separated]
    simp [keys]

end Marks

/-! ### Documents -/

/-- The scan of a document. -/
lemma duplicateKeys_document {k : Kind} {b : Block k} (h : b.WellFormed) (column : ℕ)
    {trailer : List Noise} (htrailer : ∀ noise ∈ trailer, Commented noise.comment) :
    (duplicateKeys (b.document column trailer)).map (fun d => (d.line, d.key)) =
      number 1 (b.marks asScanned [] ∅ ++ List.replicate trailer.length none) := by
  have hinline : ∀ text ∈ b.texts column ++ trailer.map Noise.text, Inline text := by
    rw [forall_mem_append]
    refine ⟨h.inline column [] column, fun text htext => ?_⟩
    obtain ⟨noise, hnoise, rfl⟩ := List.mem_map.mp htext
    exact Noise.inline (htrailer noise hnoise)
  have hroot : pop column [rootFrame] = [rootFrame] := by
    rw [pop_cons, if_neg (by simp only [rootFrame]; omega)]
  obtain ⟨-, hreports⟩ := h.scans.at column [rootFrame] (by simp [hroot])
  rw [duplicateKeys, document, String.toList_ofList, lines_flatMap hinline, scan_eq,
    reports_append, hreports, (scanned_noise _ trailer).2, hroot]
  rfl

lemma number_append_none (start : ℕ) (marks : List (Option String)) (n : ℕ) :
    number start (marks ++ List.replicate n none) = number start marks := by
  induction marks generalizing start with
  | nil =>
    induction n generalizing start with
    | zero => rfl
    | succ n ih => exact ih (start + 1)
  | cons found marks ih =>
    cases found with
    | none => exact ih (start + 1)
    | some key => exact congrArg (List.cons (start, key)) (ih (start + 1))

/-- The reports on a document are the keys that a mapping has twice if and only if the entries that
follow the first entry after a dash are compared with the right keys. -/
theorem duplicateKeys_exact_iff {k : Kind} {b : Block k} (h : b.WellFormed) (column : ℕ)
    {trailer : List Noise} (htrailer : ∀ noise ∈ trailer, Commented noise.comment) :
    (duplicateKeys (b.document column trailer)).map (fun d => (d.line, d.key)) = b.repeatedKeys ↔
      b.Separated [] := by
  rw [duplicateKeys_document h column htrailer, number_append_none, repeatedKeys,
    ← h.markedRight.inner (by simp)]
  exact ⟨number_inj (length_marks _ _ _ _ _), congrArg _⟩

def tight : Gap := ⟨[], 0, 0, 0, none⟩

/-- An item whose first key has a block, and a further entry. -/
def nestedFirst (later : String) : Block .sequence :=
  .inlineItem 2
    (.blockEntry tight "a" 2 (.scalarEntry tight "x" "1" .nil) (.scalarEntry tight later "2" .nil))
    .nil

lemma tight_wellFormed : tight.WellFormed :=
  ⟨by simp [tight], by simp [tight, Commented]⟩

/-- A key that is in the block of the first key is reported, and the first key is not. -/
theorem duplicateKeys_nestedFirst :
    (nestedFirst "x").WellFormed ∧ (nestedFirst "a").WellFormed ∧
      (nestedFirst "x").document 0 [] = "- a:\n    x: 1\n  x: 2\n" ∧
      (nestedFirst "a").document 0 [] = "- a:\n    x: 1\n  a: 2\n" ∧
      (duplicateKeys ((nestedFirst "x").document 0 [])).map (fun d => (d.line, d.key)) =
        [(3, "x")] ∧ (nestedFirst "x").repeatedKeys = [] ∧
      (duplicateKeys ((nestedFirst "a").document 0 [])).map (fun d => (d.line, d.key)) = [] ∧
        (nestedFirst "a").repeatedKeys = [(3, "a")] := by
  have hgap := tight_wellFormed
  refine ⟨?_, ?_, by decide +kernel, by decide +kernel, by decide +kernel, by decide +kernel,
    by decide +kernel, by decide +kernel⟩
  · simp [nestedFirst, Block.WellFormed, Block.IsNil, hgap, show Plain "a" by decide +kernel,
      show Plain "x" by decide +kernel, show Plain "1" by decide +kernel,
      show Plain "2" by decide +kernel]
  · simp [nestedFirst, Block.WellFormed, Block.IsNil, hgap, show Plain "a" by decide +kernel,
      show Plain "x" by decide +kernel, show Plain "1" by decide +kernel,
      show Plain "2" by decide +kernel]

/-- Two items with two entries each, and a comment at the end. -/
def plainItems : Block .mapping :=
  .blockEntry tight "allow" 0
    (.inlineItem 2
      (.scalarEntry tight "base" "one" (.scalarEntry tight "scope" "safe" .nil))
      (.inlineItem 2
        (.scalarEntry tight "base" "two" (.scalarEntry tight "base" "safe" .nil)) .nil))
    .nil

theorem duplicateKeys_exact_plainItems :
    (duplicateKeys (plainItems.document 0 [⟨2, some " end"⟩])).map (fun d => (d.line, d.key)) =
      [(5, "base")] := by
  have hgap := tight_wellFormed
  have hitems : plainItems.WellFormed := by
    simp [plainItems, Block.WellFormed, Block.IsNil, hgap, show Plain "allow" by decide +kernel,
      show Plain "base" by decide +kernel, show Plain "scope" by decide +kernel,
      show Plain "one" by decide +kernel, show Plain "two" by decide +kernel,
      show Plain "safe" by decide +kernel]
  have hcomment : ∀ noise ∈ [(⟨2, some " end"⟩ : Noise)], Commented noise.comment := by
    simp [Commented]
  have hseparated : plainItems.Separated [] := by
    simp [plainItems, Block.Separated]
  rw [(duplicateKeys_exact_iff hitems 0 hcomment).mpr hseparated]
  decide +kernel

end Omnigraph.Yaml
