import Mathlib.Data.List.Nodup
import Omnigraph.Lib.Join

/-!
# Row signatures

A merge compares rows by one text: the displayed cells of the row, joined by U+001F. The text
identifies the row only for some schemas. A null cell displays as nothing, as an empty text does; a
text may hold the separator itself; a list displays its elements without quoting them; and a Blob
displays its descriptor, not its bytes.
`rowSignature_identifies_iff` gives the exact condition on the schema.
-/

namespace Omnigraph

open List
open Function (Injective)

/-! ### Arrow columns -/

/-- The column types whose cells display as one number, flag or date. -/
inductive PlainType
  | boolean
  | int32
  | int64
  | uint32
  | uint64
  | float32
  | float64
  | date32
  | date64
deriving DecidableEq, Repr

inductive ScalarDataType
  | utf8
  | plain (t : PlainType)
  | blob
deriving DecidableEq, Repr

/-- A scan shows a Blob cell as this struct: where the bytes lie in the files of the row's fragment,
or the URI of an external Blob. -/
structure BlobDescription where
  kind : UInt8
  position : UInt64
  size : UInt64
  blobId : UInt32
  blobUri : String

/-- A Blob value: its description, and the bytes found there. -/
structure StoredBlob where
  description : BlobDescription
  bytes : List UInt8

/-- The column types a catalog gives to properties. The elements of a `fixedSizeList` are nullable
`float32` values. -/
inductive PropertyDataType
  | scalar (t : ScalarDataType)
  | list (item : ScalarDataType) (itemNullable : Bool)
  | fixedSizeList (dim : ℕ)
deriving DecidableEq

structure ArrowField where
  name : String
  dataType : PropertyDataType
  nullable : Bool

/-- U+001F, the unit separator. -/
def unitSeparator : Char := '\x1f'

/-- Arrow's display of the plain types: the values and the text of each. Values that arrow does not
distinguish on display, the NaNs, count as one. -/
structure ArrowDisplay where
  Value : PlainType → Type
  sample : ∀ t, Value t
  text : ∀ t, Value t → String
  text_injective : ∀ t, Injective (text t)
  text_ne_empty : ∀ t v, text t v ≠ ""
  unitSeparator_notMem : ∀ t v, unitSeparator ∉ (text t v).toList
  comma_notMem : ∀ t v, ',' ∉ (text t v).toList

/-- A value or null; null only where the field allows it. -/
abbrev Nullable (nullable : Bool) (α : Type) := { o : Option α // nullable = false → o ≠ none }

variable (D : ArrowDisplay)

abbrev ScalarDataType.Val : ScalarDataType → Type
  | utf8 => String
  | plain t => D.Value t
  | blob => StoredBlob

abbrev PropertyDataType.Val : PropertyDataType → Type
  | scalar t => t.Val D
  | list item itemNullable => List (Nullable itemNullable (item.Val D))
  | fixedSizeList dim => { l : List (Option (D.Value .float32)) // l.length = dim }

abbrev ArrowField.Cell (f : ArrowField) : Type := Nullable f.nullable (f.dataType.Val D)

/-- A row of a batch with the given schema. -/
inductive Row : List ArrowField → Type
  | nil : Row []
  | cons (f : ArrowField) {fs : List ArrowField} (cell : f.Cell D) (row : Row fs) : Row (f :: fs)

/-! ### The signature -/

/-- Null displays as the empty text. -/
def nullOr {α : Type} (text : α → String) (o : Option α) : String := (o.map text).getD ""

/-- Arrow shows the names of a struct's children and quotes none of their texts. -/
def BlobDescription.text (d : BlobDescription) : String :=
  s!"\x7bkind: {d.kind}, position: {d.position}, size: {d.size}, blob_id: {d.blobId}, " ++
    s!"blob_uri: {d.blobUri}\x7d"

def listText (items : List String) : String := "[" ++ ", ".intercalate items ++ "]"

def ScalarDataType.text : (t : ScalarDataType) → t.Val D → String
  | utf8 => id
  | plain t => D.text t
  | blob => fun b => b.description.text

def PropertyDataType.text : (t : PropertyDataType) → t.Val D → String
  | scalar t => t.text D
  | list item _ => fun l => listText (l.map fun o => nullOr (item.text D) o.1)
  | fixedSizeList _ => fun l => listText (l.1.map (nullOr (D.text .float32)))

def arrayValueToString (f : ArrowField) (cell : f.Cell D) : String :=
  nullOr (f.dataType.text D) cell.1

/-- Physical columns, which a signature leaves out. -/
def ArrowField.isPhysical (f : ArrowField) : Bool := "_row".toList.isPrefixOf f.name.toList

variable {D}

def signatureValues {fs : List ArrowField} : Row D fs → List String
  | .nil => []
  | .cons f cell row =>
    if f.isPhysical then signatureValues row
    else arrayValueToString D f cell :: signatureValues row

def rowSignature {fs : List ArrowField} (row : Row D fs) : String :=
  (String.singleton unitSeparator).intercalate (signatureValues row)

/-- The rows hold the same cell in every column that is not physical. -/
def Row.Agrees {fs : List ArrowField} : Row D fs → Row D fs → Prop
  | .nil, .nil => True
  | .cons f cell row, .cons _ cell' row' =>
    (f.isPhysical = false → cell = cell') ∧ row.Agrees row'

/-! ### The schemas a signature is faithful for -/

def ArrowField.isUtf8 (f : ArrowField) : Bool := f.dataType = .scalar .utf8

/-- The display of the field's cells tells them apart: a text column has no nulls, a list column has
non-null elements of a plain type, and no column holds Blobs. -/
def ArrowField.Distinguishes (f : ArrowField) : Prop :=
  match f.dataType with
  | .scalar .utf8 => f.nullable = false
  | .scalar (.plain _) => True
  | .scalar .blob => False
  | .list (.plain _) itemNullable => itemNullable = false
  | .list _ _ => False
  | .fixedSizeList _ => True

/-- Every column that is not physical tells its cells apart, and at most one of them is text. -/
def SignatureFaithful (schema : List ArrowField) : Prop :=
  (∀ f ∈ schema, f.isPhysical = false → f.Distinguishes) ∧
    (schema.filter fun f => !f.isPhysical && f.isUtf8).length ≤ 1

/-! ### Displays that tell values apart -/

lemma nullOr_injOn {α : Type} {text : α → String} (htext : Injective text)
    {nullable : Bool} (hne : nullable = true → ∀ v, text v ≠ "") :
    Injective fun o : Nullable nullable α => nullOr text o.1 := by
  rintro ⟨o, ho⟩ ⟨o', ho'⟩ h
  simp only [Subtype.mk.injEq]
  cases nullable with
  | false =>
    obtain ⟨v, rfl⟩ := Option.ne_none_iff_exists'.mp (ho rfl)
    obtain ⟨v', rfl⟩ := Option.ne_none_iff_exists'.mp (ho' rfl)
    exact congrArg some (htext h)
  | true =>
    cases o with
    | none =>
      cases o' with
      | none => rfl
      | some v' => exact absurd h.symm (hne rfl v')
    | some v =>
      cases o' with
      | none => exact absurd h (hne rfl v)
      | some v' => exact congrArg some (htext h)

lemma toList_listText (items : List String) :
    (listText items).toList =
      '[' :: ([',', ' '].intercalate (items.map String.toList) ++ [']']) := by
  simp [listText, String.toList_intercalate]

lemma listText_ne_empty (items : List String) : listText items ≠ "" := by
  intro h
  have := congrArg String.toList h
  simp [toList_listText] at this

variable {items : List String} {α : Type} {text : α → String} {f : ArrowField}
  {fs : List ArrowField}

lemma intercalate_eq_of_listText_eq {items' : List String} (h : listText items = listText items') :
    [',', ' '].intercalate (items.map String.toList) =
      [',', ' '].intercalate (items'.map String.toList) := by
  have hl := congrArg String.toList h
  rw [toList_listText, toList_listText] at hl
  exact append_cancel_right (List.cons.inj hl).2

/-- Lists of non-empty elements without a comma display differently. -/
lemma listText_injective (htext : Injective text)
    (hpiece : ∀ v, text v ≠ "" ∧ ',' ∉ (text v).toList) :
    Injective fun l : List α => listText (l.map text) := by
  intro l l' h
  have hi := intercalate_eq_of_listText_eq h
  have hpieces : ∀ l : List α, ∀ x ∈ (l.map text).map String.toList, x ≠ [] ∧ ',' ∉ x := by
    intro l x hx
    simp only [List.map_map, List.mem_map, Function.comp_apply] at hx
    obtain ⟨v, -, rfl⟩ := hx
    exact ⟨by simpa using (hpiece v).1, (hpiece v).2⟩
  have := Join.intercalate_inj_of_ne_nil (hpieces l) (hpieces l') hi
  exact (map_injective_iff.mpr htext)
    ((map_injective_iff.mpr fun _ _ => String.toList_inj.mp) this)

/-- Lists of one length display differently when no element displays a comma. -/
lemma listText_injective_of_length (htext : Injective text)
    (hpiece : ∀ v, ',' ∉ (text v).toList) {l l' : List α} (hlen : l.length = l'.length)
    (h : listText (l.map text) = listText (l'.map text)) : l = l' := by
  have hi := intercalate_eq_of_listText_eq h
  have hpieces : ∀ l : List α, ∀ x ∈ (l.map text).map String.toList, ',' ∉ x := by
    intro l x hx
    simp only [List.map_map, List.mem_map, Function.comp_apply] at hx
    obtain ⟨v, -, rfl⟩ := hx
    exact hpiece v
  have := Join.intercalate_inj_of_length (by simpa using hlen) (hpieces l) (hpieces l') hi
  exact (map_injective_iff.mpr htext)
    ((map_injective_iff.mpr fun _ _ => String.toList_inj.mp) this)

section Displays

variable {D : ArrowDisplay}

/-- A null displays as nothing and so without any given character. -/
lemma notMem_nullOr {c : Char} (h : ∀ v, c ∉ (text v).toList) (o : Option α) :
    c ∉ (nullOr text o).toList := by
  cases o with
  | none => simp [nullOr]
  | some v => exact h v

lemma nullOr_ne_empty (h : ∀ v, text v ≠ "") (o : Nullable false α) : nullOr text o.1 ≠ "" := by
  obtain ⟨o, ho⟩ := o
  obtain ⟨v, rfl⟩ := Option.ne_none_iff_exists'.mp (ho rfl)
  exact h v

lemma plainList_injective (t : PlainType) :
    Injective ((PropertyDataType.list (.plain t) false).text D) := by
  refine listText_injective (nullOr_injOn (D.text_injective t) (by simp)) fun o => ⟨?_, ?_⟩
  · exact nullOr_ne_empty (D.text_ne_empty t) o
  · exact notMem_nullOr (D.comma_notMem t) o.1

lemma fixedSizeList_injective (dim : ℕ) :
    Injective ((PropertyDataType.fixedSizeList dim).text D) := by
  rintro ⟨l, hl⟩ ⟨l', hl'⟩ h
  have hitem : Injective (nullOr (D.text .float32)) := by
    intro o o' ho
    have := @nullOr_injOn _ _ (D.text_injective .float32) true
      (fun _ => D.text_ne_empty .float32) ⟨o, by simp⟩ ⟨o', by simp⟩ ho
    simpa using this
  have := listText_injective_of_length hitem (fun o => notMem_nullOr (D.comma_notMem _) o)
    (hl.trans hl'.symm) h
  exact Subtype.ext this

/-- A field that distinguishes its cells displays them differently. -/
lemma arrayValueToString_injective (h : f.Distinguishes) :
    Injective (arrayValueToString D f) := by
  obtain ⟨name, dataType, nullable⟩ := f
  cases dataType with
  | scalar t =>
    cases t with
    | utf8 =>
      obtain rfl : nullable = false := h
      exact nullOr_injOn Function.injective_id (by simp)
    | plain t => exact nullOr_injOn (D.text_injective t) fun _ => D.text_ne_empty t
    | blob => exact absurd h id
  | list item itemNullable =>
    cases item with
    | utf8 => exact absurd h id
    | plain t =>
      obtain rfl : itemNullable = false := h
      exact nullOr_injOn (plainList_injective t) fun _ v => listText_ne_empty _
    | blob => exact absurd h id
  | fixedSizeList dim =>
    exact nullOr_injOn (fixedSizeList_injective dim) fun _ v => listText_ne_empty _

lemma unitSeparator_notMem_listText (h : ∀ x ∈ items, unitSeparator ∉ x.toList) :
    unitSeparator ∉ (listText items).toList := by
  have hjoin : unitSeparator ∉ [',', ' '].intercalate (items.map String.toList) := by
    apply Join.notMem_intercalate (by decide)
    intro x hx
    obtain ⟨y, hy, rfl⟩ := List.mem_map.mp hx
    exact h y hy
  rw [toList_listText]
  simp only [mem_cons, mem_append, not_mem_nil, or_false, not_or]
  exact ⟨by decide, hjoin, by decide⟩

/-- Only a text column, or a list of texts, can display the separator. -/
lemma unitSeparator_notMem_of_not_utf8 (h : f.Distinguishes) (hf : f.isUtf8 = false)
    (cell : f.Cell D) : unitSeparator ∉ (arrayValueToString D f cell).toList := by
  obtain ⟨name, dataType, nullable⟩ := f
  apply notMem_nullOr
  intro v
  cases dataType with
  | scalar t =>
    cases t with
    | utf8 => simp [ArrowField.isUtf8] at hf
    | plain t => exact D.unitSeparator_notMem t v
    | blob => exact absurd h id
  | list item itemNullable =>
    cases item with
    | utf8 => exact absurd h id
    | plain t =>
      apply unitSeparator_notMem_listText
      intro x hx
      obtain ⟨o, -, rfl⟩ := List.mem_map.mp hx
      exact notMem_nullOr (D.unitSeparator_notMem t) o.1
    | blob => exact absurd h id
  | fixedSizeList dim =>
    apply unitSeparator_notMem_listText
    intro x hx
    obtain ⟨o, -, rfl⟩ := List.mem_map.mp hx
    exact notMem_nullOr (D.unitSeparator_notMem .float32) o

end Displays

/-! ### Faithful schemas -/

section Faithful

variable {D : ArrowDisplay}

/-- Which of the signature's places may hold the separator. -/
def textPlaces (schema : List ArrowField) : List Bool :=
  (schema.filter fun f => !f.isPhysical).map ArrowField.isUtf8

lemma SignatureFaithful.tail {f : ArrowField} {fs : List ArrowField}
    (h : SignatureFaithful (f :: fs)) : SignatureFaithful fs := by
  refine ⟨fun g hg => h.1 g (mem_cons_of_mem _ hg), ?_⟩
  exact Nat.le_trans (((sublist_cons_self f fs).filter _).length_le) h.2

lemma signatureValues_held (h : SignatureFaithful fs) (row : Row D fs) :
    List.Forall₂ (fun b x => b = false → unitSeparator ∉ x) (textPlaces fs)
      ((signatureValues row).map String.toList) := by
  induction row with
  | nil => exact .nil
  | cons f cell row ih =>
    by_cases hf : f.isPhysical = true
    · simpa [textPlaces, signatureValues, hf] using ih h.tail
    · rw [Bool.not_eq_true] at hf
      simp only [textPlaces, signatureValues, hf, Bool.not_false, filter_cons_of_pos,
        map_cons, Bool.false_eq_true, if_false]
      refine .cons (fun hutf8 => ?_) (ih h.tail)
      exact unitSeparator_notMem_of_not_utf8 (h.1 f mem_cons_self hf) hutf8 cell

lemma signatureValues_oneFree (h : SignatureFaithful fs) (row : Row D fs) :
    Join.OneFree unitSeparator (textPlaces fs) ((signatureValues row).map String.toList) := by
  refine ⟨signatureValues_held h row, ?_⟩
  have hcount : (textPlaces fs).count true =
      (fs.filter fun f => !f.isPhysical && f.isUtf8).length := by
    rw [textPlaces, count_eq_countP, countP_map, countP_eq_length_filter,
      List.filter_filter]
    congr 2
    funext f
    simp [Bool.and_comm]
  rw [hcount]
  exact h.2

variable {row row' : Row D fs}

lemma agrees_of_signatureValues_eq (h : ∀ f ∈ fs, f.isPhysical = false → f.Distinguishes)
    (heq : signatureValues row = signatureValues row') : row.Agrees row' := by
  induction row with
  | nil => cases row'; exact trivial
  | cons f cell row ih =>
    obtain ⟨_, cell', row'⟩ := row'
    have htail := fun g hg => h g (mem_cons_of_mem _ hg)
    by_cases hf : f.isPhysical = true
    · simp only [signatureValues, hf, if_true] at heq
      exact ⟨by simp [hf], ih htail heq⟩
    · rw [Bool.not_eq_true] at hf
      simp only [signatureValues, hf, Bool.false_eq_true, if_false, List.cons.injEq] at heq
      exact ⟨fun _ => arrayValueToString_injective (h f mem_cons_self hf) heq.1,
        ih htail heq.2⟩

lemma toList_rowSignature (row : Row D fs) :
    (rowSignature row).toList =
      [unitSeparator].intercalate ((signatureValues row).map String.toList) := by
  simp [rowSignature, String.toList_intercalate]

lemma agrees_of_rowSignature_eq (h : SignatureFaithful fs)
    (heq : rowSignature row = rowSignature row') : row.Agrees row' := by
  have hl := congrArg String.toList heq
  rw [toList_rowSignature, toList_rowSignature] at hl
  have := Join.intercalate_inj_of_oneFree (signatureValues_oneFree h row)
    (signatureValues_oneFree h row') hl
  exact agrees_of_signatureValues_eq h.1
    ((map_injective_iff.mpr fun _ _ => String.toList_inj.mp) this)

end Faithful

/-! ### Collisions -/

section Collisions

variable {D : ArrowDisplay}

/-- A Blob at the head of its fragment's file. -/
def inlineBlob (bytes : List UInt8) : StoredBlob where
  description := ⟨0, 0, .ofNat bytes.length, 0, ""⟩
  bytes := bytes

/-- Two Blobs of one length at the heads of their files: one description, different bytes. -/
lemma exists_same_description :
    ∃ b b' : StoredBlob, b ≠ b' ∧ b.description = b'.description :=
  ⟨inlineBlob [0], inlineBlob [1], by simp [inlineBlob], rfl⟩

def PropertyDataType.sample : (t : PropertyDataType) → t.Val D
  | scalar .utf8 => ""
  | scalar (.plain t) => D.sample t
  | scalar .blob => inlineBlob []
  | list _ _ => []
  | fixedSizeList dim => ⟨List.replicate dim none, List.length_replicate⟩

def Row.sample : (fs : List ArrowField) → Row D fs
  | [] => .nil
  | f :: fs => .cons f ⟨some f.dataType.sample, by simp⟩ (Row.sample fs)

def Row.append {fs gs : List ArrowField} : Row D fs → Row D gs → Row D (fs ++ gs)
  | .nil, row' => row'
  | .cons f cell row, row' => .cons f cell (row.append row')

variable {gs : List ArrowField}

lemma signatureValues_append (row : Row D fs) (row' : Row D gs) :
    signatureValues (row.append row') = signatureValues row ++ signatureValues row' := by
  induction row with
  | nil => rfl
  | cons f cell row ih =>
    simp only [Row.append, signatureValues, ih]
    split_ifs <;> rfl

lemma Row.Agrees.of_append {r s : Row D fs} {r' s' : Row D gs}
    (h : (r.append r').Agrees (s.append s')) : r'.Agrees s' := by
  induction r with
  | nil => cases s; exact h
  | cons f cell row ih =>
    obtain ⟨_, cell', row'⟩ := s
    exact ih h.2

/-- A field that does not distinguish its cells displays two of them alike. -/
lemma exists_same_display (h : ¬ f.Distinguishes) :
    ∃ cell cell' : f.Cell D, cell ≠ cell' ∧
      arrayValueToString D f cell = arrayValueToString D f cell' := by
  obtain ⟨name, dataType, nullable⟩ := f
  cases dataType with
  | scalar t =>
    cases t with
    | utf8 =>
      obtain rfl : nullable = true := by simpa [ArrowField.Distinguishes] using h
      exact ⟨⟨none, by simp⟩, ⟨some "", by simp⟩, by simp, rfl⟩
    | plain t => exact absurd trivial h
    | blob =>
      obtain ⟨b, b', hne, hdescription⟩ := exists_same_description
      exact ⟨⟨some b, by simp⟩, ⟨some b', by simp⟩, by simpa using hne,
        congrArg BlobDescription.text hdescription⟩
  | list item itemNullable =>
    cases item with
    | utf8 =>
      refine ⟨⟨some [], by simp⟩, ⟨some [⟨some "", by simp⟩], by simp⟩, by simp, rfl⟩
    | plain t =>
      obtain rfl : itemNullable = true := by simpa [ArrowField.Distinguishes] using h
      exact ⟨⟨some [], by simp⟩, ⟨some [⟨none, by simp⟩], by simp⟩, by simp, rfl⟩
    | blob =>
      obtain ⟨b, b', hne, hdescription⟩ := exists_same_description
      refine ⟨⟨some [⟨some b, by simp⟩], by simp⟩, ⟨some [⟨some b', by simp⟩], by simp⟩,
        by simpa using hne, ?_⟩
      simp [arrayValueToString, nullOr, PropertyDataType.text, ScalarDataType.text, hdescription]
  | fixedSizeList dim => exact absurd trivial h

/-- Rows that differ in one cell only, where the two cells display alike. -/
lemma exists_collision_of_not_distinguishes (hf : f ∈ fs) (hphys : f.isPhysical = false)
    (h : ¬ f.Distinguishes) :
    ∃ row row' : Row D fs, rowSignature row = rowSignature row' ∧ ¬ row.Agrees row' := by
  obtain ⟨pre, post, rfl⟩ := append_of_mem hf
  obtain ⟨cell, cell', hne, htext⟩ := exists_same_display (D := D) h
  refine ⟨(Row.sample pre).append (.cons f cell (Row.sample post)),
    (Row.sample pre).append (.cons f cell' (Row.sample post)), ?_, fun hagree => ?_⟩
  · simp only [rowSignature, signatureValues_append, signatureValues, htext]
  · exact hne (hagree.of_append.1 hphys)

/-- The cell of a text column that holds `x`. -/
def textCell {f : ArrowField} (hf : f.isUtf8 = true) (x : String) : f.Cell D :=
  ⟨some (cast (by rw [of_decide_eq_true hf]) x), by simp⟩

lemma arrayValueToString_textCell (hf : f.isUtf8 = true) (x : String) :
    arrayValueToString D f (textCell hf x) = x := by
  obtain ⟨name, dataType, nullable⟩ := f
  obtain rfl : dataType = .scalar .utf8 := of_decide_eq_true hf
  rfl

/-- With two text columns, the text between them moves from one to the other. -/
lemma exists_collision_of_two_texts
    (h : 2 ≤ (fs.filter fun f => !f.isPhysical && f.isUtf8).length) :
    ∃ row row' : Row D fs, rowSignature row = rowSignature row' ∧ ¬ row.Agrees row' := by
  match hfilter : fs.filter fun f => !f.isPhysical && f.isUtf8 with
  | [] => simp [hfilter] at h
  | [_] => simp [hfilter] at h
  | f :: g :: rest =>
    obtain ⟨pre, tail, rfl, -, hf, htail⟩ := filter_eq_cons_iff.mp hfilter
    obtain ⟨mid, post, rfl, -, hg, -⟩ := filter_eq_cons_iff.mp htail
    simp only [Bool.and_eq_true, Bool.not_eq_true'] at hf hg
    obtain ⟨j, hj, hswap⟩ := Join.exists_swap (cons_ne_nil unitSeparator [])
      ((signatureValues (Row.sample (D := D) pre)).map String.toList)
      ((signatureValues (Row.sample (D := D) mid)).map String.toList)
      ((signatureValues (Row.sample (D := D) post)).map String.toList)
    let row (x y : String) : Row D (pre ++ f :: (mid ++ g :: post)) :=
      (Row.sample pre).append (.cons f (textCell hf.2 x)
        ((Row.sample mid).append (.cons g (textCell hg.2 y) (Row.sample post))))
    refine ⟨row "" (String.ofList j), row (String.ofList j) "", ?_, fun hagree => ?_⟩
    · apply String.toList_inj.mp
      simp only [row, toList_rowSignature, signatureValues_append, signatureValues, hf.1, hg.1,
        Bool.false_eq_true, if_false, arrayValueToString_textCell, map_append,
        map_cons, String.toList_ofList]
      exact hswap
    · have hcell := hagree.of_append.1 hf.1
      have := congrArg (arrayValueToString D f) hcell
      rw [arrayValueToString_textCell, arrayValueToString_textCell] at this
      exact hj (by simpa using congrArg String.toList this.symm)

end Collisions

/-- The signature identifies the rows of a schema exactly when the schema is faithful. -/
theorem rowSignature_identifies_iff (D : ArrowDisplay) (schema : List ArrowField) :
    (∀ row row' : Row D schema, rowSignature row = rowSignature row' → row.Agrees row') ↔
      SignatureFaithful schema := by
  constructor
  · intro h
    by_contra hfaithful
    rw [SignatureFaithful, not_and_or] at hfaithful
    have hcollision : ∃ row row' : Row D schema,
        rowSignature row = rowSignature row' ∧ ¬ row.Agrees row' := by
      rcases hfaithful with hfield | htexts
      · push Not at hfield
        obtain ⟨f, hf, hphys, hdist⟩ := hfield
        exact exists_collision_of_not_distinguishes hf hphys hdist
      · exact exists_collision_of_two_texts (by omega)
    obtain ⟨row, row', heq, hagree⟩ := hcollision
    exact hagree (h row row' heq)
  · intro h row row' heq
    exact agrees_of_rowSignature_eq h heq

/-- Some values of each plain type, as arrow displays them. -/
def sampleTexts : PlainType → List String
  | .boolean => ["false", "true"]
  | .int32 | .int64 | .uint32 | .uint64 => ["0", "1"]
  | .float32 | .float64 => ["0.0", "1.0"]
  | .date32 => ["1970-01-01"]
  | .date64 => ["1970-01-01T00:00:00"]

/-- Arrow's display on the sample values. -/
def sampleDisplay : ArrowDisplay where
  Value t := Fin (sampleTexts t).length
  sample t := ⟨0, by cases t <;> decide⟩
  text t := (sampleTexts t).get
  text_injective t := List.nodup_iff_injective_get.mp (by cases t <;> decide)
  text_ne_empty t := by cases t <;> decide
  unitSeparator_notMem t := by cases t <;> decide
  comma_notMem t := by cases t <;> decide

/-- A node type with an optional text property. -/
def nicknameSchema : List ArrowField :=
  [⟨"id", .scalar .utf8, false⟩, ⟨"nickname", .scalar .utf8, true⟩]

def nicknameRow (nickname : Option String) : Row sampleDisplay nicknameSchema :=
  .cons _ ⟨some "p1", by simp⟩ (.cons _ ⟨nickname, by simp⟩ .nil)

/-- A nickname set to the empty text looks like no nickname. -/
theorem rowSignature_confuses_null_and_empty :
    rowSignature (nicknameRow none) = rowSignature (nicknameRow (some "")) ∧
      ¬ (nicknameRow none).Agrees (nicknameRow (some "")) := by
  refine ⟨rfl, fun h => ?_⟩
  have hcell := h.2.1 (by decide)
  simp at hcell

end Omnigraph
