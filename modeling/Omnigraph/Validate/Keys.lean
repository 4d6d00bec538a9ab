import Mathlib
import Omnigraph.Validate.Evaluate

/-!
# Keys of rows

The text a literal has in a key tuple, and the rows of a table by id and key. Within one Arrow type
the text determines the literal, up to the sign of zero.
-/

namespace Omnigraph

open List

/-! ### Literals and their texts -/

/-- The Arrow type of a column. -/
inductive ColumnType
  | string (encoding : StringEncoding)
  | int (type : IntType)
  | float (type : FloatType)
  | boolean
  | other (name : String)
deriving DecidableEq

def Column.dataType : Column → ColumnType
  | string encoding _ => .string encoding
  | int type _ => .int type
  | float type _ => .float type
  | boolean _ => .boolean
  | other name _ => .other name

namespace ScalarValue

def dataType : ScalarValue → ColumnType
  | string encoding _ => .string encoding
  | int type _ => .int type
  | float type _ => .float type
  | boolean _ => .boolean

/-- The text of a literal in a key. A number that is not finite has none. -/
def text : ScalarValue → Option String
  | string _ value => some value
  | int _ value => some (toString value)
  | float _ (.nonFinite _) => none
  | float _ (.zero _) => some "0"
  | float _ (.finite text _) => some text
  | boolean value => some (toString value)

def NegativeZero (value : ScalarValue) : Prop := ∃ type, value = float type (.zero true)

/-- Values of one type with one text are equal, but for zeros of different signs. -/
lemma text_inj {u v : ScalarValue} {t : String} (htype : u.dataType = v.dataType)
    (hu : u.text = some t) (hv : v.text = some t) (hzu : ¬ u.NegativeZero)
    (hzv : ¬ v.NegativeZero) : u = v := by
  cases u <;> cases v <;> simp only [dataType, ColumnType.string.injEq, ColumnType.int.injEq,
    ColumnType.float.injEq, reduceCtorEq] at htype
  case string.string => simp_all [text]
  case int.int m n =>
    subst htype
    simp only [text, Option.some.injEq] at hu hv
    rw [Int.repr_injective (hu.trans hv.symm)]
  case float.float type x _ y =>
    subst htype
    cases x with
    | nonFinite => simp [text] at hu
    | zero negative =>
      cases y with
      | nonFinite => simp [text] at hv
      | zero negative' =>
        have hsign : ∀ b, ¬ (float type (.zero b)).NegativeZero → b = false := fun b hb =>
          Bool.eq_false_iff.mpr fun h => hb ⟨type, by rw [h]⟩
        rw [hsign _ hzu, hsign _ hzv]
      | finite text hne =>
        simp only [ScalarValue.text, Option.some.injEq] at hu hv
        exact absurd (hv.trans hu.symm) hne
    | finite text hne =>
      cases y with
      | nonFinite => simp [ScalarValue.text] at hv
      | zero =>
        simp only [ScalarValue.text, Option.some.injEq] at hu hv
        exact absurd (hu.trans hv.symm) hne
      | finite text' hne' => simp_all [ScalarValue.text]
  case boolean.boolean a b =>
    simp only [text, Option.some.injEq] at hu hv
    have : ∀ a b : Bool, toString a = toString b → a = b := by decide
    rw [this a b (hu.trans hv.symm)]

end ScalarValue

namespace Column

variable {column : Column} {row : ℕ} {value : ScalarValue} {t : String}

lemma dataType_of_scalarAt (h : column.scalarAt row = some value) :
    value.dataType = column.dataType := by
  cases column with
  | other => cases h
  | _ =>
    simp only [scalarAt, Option.map_eq_some_iff] at h
    obtain ⟨cell, -, rfl⟩ := h
    rfl

/-- The text of a cell is the text of its literal. -/
lemma canonicalScalarKey_iff :
    canonicalScalarKey column row = .ok (some t) ↔
      ∃ value, column.scalarAt row = some value ∧ value.text = some t := by
  cases column with
  | other name nulls =>
    simp only [canonicalScalarKey, scalarAt, reduceCtorEq, false_and, exists_false, iff_false]
    split_ifs <;> simp
  | float type cells =>
    simp only [canonicalScalarKey, scalarAt]
    cases cellAt cells row with
    | none => simp
    | some cell => cases cell <;> simp [ScalarValue.text]
  | _ =>
    simp only [canonicalScalarKey, scalarAt]
    cases cellAt _ row <;> simp [ScalarValue.text]

end Column

variable {key : List String}

/-- A key tuple has the texts of the cells of its row. -/
lemma compositeUniqueKey_iff {group : List Column} {row : ℕ} :
    compositeUniqueKey group row = .ok (some key) ↔
      List.Forall₂ (fun column t =>
        ∃ value, column.scalarAt row = some value ∧ ScalarValue.text value = some t) group key := by
  simp only [← Column.canonicalScalarKey_iff]
  induction group generalizing key with
  | nil => simp [compositeUniqueKey, eq_comm]
  | cons column group ih =>
    rw [compositeUniqueKey]
    cases hcell : canonicalScalarKey column row with
    | error e => cases key <;> simp [hcell]
    | ok cell =>
      cases cell with
      | none => cases key <;> simp [hcell]
      | some t =>
        cases key with
        | nil => cases hrest : compositeUniqueKey group row <;> simp [Except.map]
        | cons t' key =>
          rw [List.forall₂_cons, ← ih, hcell]
          cases hrest : compositeUniqueKey group row <;> simp [Except.map, and_comm]

/-! ### Rows by id and key -/

def RecordBatch.rowId (batch : RecordBatch) (row : ℕ) : String :=
  ((stringValues batch "id").toOption.getD []).getD row ""

/-- The key of a row, where it has one. -/
def RecordBatch.rowKey (columns : List String) (batch : RecordBatch) (row : ℕ) :
    Option (List String) :=
  (columns.mapM batch.columnByName).bind fun group => (compositeUniqueKey group row).toOption.join

structure KeyedRow where
  id : String
  key : Option (List String)

def RecordBatch.keyedRow (columns : List String) (batch : RecordBatch) (row : ℕ) : KeyedRow :=
  ⟨batch.rowId row, batch.rowKey columns row⟩

def RecordBatch.keyedRows (columns : List String) (batch : RecordBatch) : List KeyedRow :=
  (List.range batch.numRows).map (batch.keyedRow columns)

/-- The columns of a group, of the given types and without a negative zero. -/
structure IsGroup (columns : List String) (types : List ColumnType) (batch : RecordBatch)
    (group : List Column) : Prop where
  named : List.Forall₂ (fun name column => batch.columnByName name = some column) columns group
  typed : group.map Column.dataType = types
  zeros : ∀ column ∈ group, ∀ row value, column.scalarAt row = some value → ¬ value.NegativeZero

/-- The batch has ids, none of them null, and the columns of the group. -/
structure Conforms (columns : List String) (types : List ColumnType) (batch : RecordBatch) :
    Prop where
  ids : ∃ ids : List String, stringCol batch "id" = .ok (ids.map some)
  group : ∃ group, IsGroup columns types batch group

section Rows

variable {columns : List String} {types : List ColumnType} {batch : RecordBatch}
  {group : List Column} {ids : List String}

variable (hids : stringCol batch "id" = .ok (ids.map some))

include hids in
lemma rowId_eq (row : ℕ) : batch.rowId row = ids.getD row "" := by
  rw [RecordBatch.rowId, stringValues_of_cells hids]
  rfl

include hids in
lemma cellAt_ids {row : ℕ} (hrow : row < batch.numRows) :
    cellAt (ids.map some) row = some (batch.rowId row) := by
  have hlength := length_of_stringCol hids
  rw [length_map] at hlength
  rw [rowId_eq hids, cellAt, List.getElem?_map, getD_eq_getElem?_getD,
    List.getElem?_eq_getElem (hlength ▸ hrow)]
  rfl

include hids in
lemma map_id_keyedRows : (batch.keyedRows columns).map KeyedRow.id = ids := by
  have hlength := length_of_stringCol hids
  rw [length_map] at hlength
  rw [RecordBatch.keyedRows, List.map_map]
  apply ext_getElem
  · rw [length_map, length_range, hlength]
  · intro i _ hi
    rw [getElem_map, getElem_range]
    show batch.rowId i = _
    rw [rowId_eq hids, getD_eq_getElem?_getD, List.getElem?_eq_getElem hi]
    rfl

variable (h : IsGroup columns types batch group)

include h in
lemma IsGroup.groupColumns (tableKey : String) :
    groupColumns tableKey columns batch = .ok group := by
  rw [Omnigraph.groupColumns, Except.mapM_eq_ok_iff]
  exact h.named.imp fun name column hcolumn => by rw [hcolumn]

include h in
lemma IsGroup.mapM_columnByName : columns.mapM batch.columnByName = some group := by
  have hnamed := h.named
  clear h
  induction hnamed with
  | nil => rfl
  | cons hcolumn _ ih => simp [mapM_cons, hcolumn, ih]

include h in
lemma IsGroup.rowKey (row : ℕ) :
    batch.rowKey columns row = (compositeUniqueKey group row).toOption.join := by
  rw [RecordBatch.rowKey, h.mapM_columnByName]
  rfl

include h in
lemma IsGroup.rowKey_eq_some_iff {row : ℕ} :
    batch.rowKey columns row = some key ↔ compositeUniqueKey group row = .ok (some key) := by
  rw [h.rowKey]
  cases compositeUniqueKey group row <;> simp [Except.toOption]

end Rows

end Omnigraph
