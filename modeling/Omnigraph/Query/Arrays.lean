import Omnigraph.Compiler.Syntax
import Omnigraph.Error
import Omnigraph.Lib.Result

/-!
# Arrays and batches

A query runs over a wide batch: one column for every property of every bound variable, one row for
every match. Columns hold the cells of one type. The rows of a batch are taken by their numbers, and
an expression that is evaluated over a batch reads every row by itself, so evaluating commutes with
taking rows.
-/

namespace Omnigraph.Query

open Except Compiler

/-! ### Values -/

/-- The type of an array. -/
inductive DataType
  | utf8
  | boolean
  | int32
  | int64
  | uint32
  | uint64
  | float32
  | float64
  | date32
  | date64
  | list (item : DataType)
  | fixedSizeList (item : DataType) (dim : ℕ)
deriving DecidableEq

/-- A scalar. Integers and dates are numbers; a float is the bit pattern of its double, also in an
array of single floats. Queries do not read binary values. -/
inductive Scalar
  | utf8 (s : String)
  | boolean (b : Bool)
  | int (i : ℤ)
  | float (bits : UInt64)
deriving DecidableEq

/-- What a cell holds when it is not null. -/
inductive Value
  | scalar (s : Scalar)
  | list (items : List (Option Scalar))
deriving DecidableEq

/-- A cell of an array. -/
abbrev Cell := Option Value

namespace DataType

/-- The scalars of a type. -/
def HoldsScalar : DataType → Scalar → Prop
  | utf8, .utf8 _ => True
  | boolean, .boolean _ => True
  | int32, .int _ | int64, .int _ | uint32, .int _ | uint64, .int _ => True
  | date32, .int _ | date64, .int _ => True
  | float32, .float _ | float64, .float _ => True
  | _, _ => False

/-- The values of a type. -/
def Holds : DataType → Value → Prop
  | list item, .list items => ∀ s, some s ∈ items → item.HoldsScalar s
  | fixedSizeList item dim, .list items =>
      items.length = dim ∧ ∀ s, some s ∈ items → item.HoldsScalar s
  | t, .scalar s => t.HoldsScalar s
  | _, _ => False

section Injective

variable {γ : Type} {t : DataType}

/-- Scalars of one type are of one kind. -/
lemma scalar_inj {f : Scalar → γ} (hutf8 : ∀ a b, f (.utf8 a) = f (.utf8 b) → a = b)
    (hboolean : ∀ a b, f (.boolean a) = f (.boolean b) → a = b)
    (hint : ∀ a b, f (.int a) = f (.int b) → a = b)
    (hfloat : ∀ a b, f (.float a) = f (.float b) → a = b) {s s' : Scalar}
    (hs : t.HoldsScalar s) (hs' : t.HoldsScalar s') (h : f s = f s') : s = s' := by
  cases s <;> cases s' <;>
    first
    | exact congrArg _ (hutf8 _ _ h)
    | exact congrArg _ (hboolean _ _ h)
    | exact congrArg _ (hint _ _ h)
    | exact congrArg _ (hfloat _ _ h)
    | cases t <;> simp [HoldsScalar] at hs hs'

lemma items_inj {f : Option Scalar → γ} (hnone : ∀ s, f none ≠ f (some s))
    (hsome : ∀ s s', t.HoldsScalar s → t.HoldsScalar s' → f (some s) = f (some s') → s = s')
    {items items' : List (Option Scalar)} (hs : ∀ s, some s ∈ items → t.HoldsScalar s)
    (hs' : ∀ s, some s ∈ items' → t.HoldsScalar s) (h : items.map f = items'.map f) :
    items = items' := by
  induction items generalizing items' with
  | nil => exact (List.map_eq_nil_iff.mp h.symm).symm
  | cons o items ih =>
    cases items' with
    | nil => cases h
    | cons o' items' =>
      obtain ⟨hhead, htail⟩ := List.cons.inj h
      rw [ih (fun s hmem => hs s (List.mem_cons_of_mem _ hmem))
        (fun s hmem => hs' s (List.mem_cons_of_mem _ hmem)) htail]
      cases o with
      | none =>
        cases o' with
        | none => rfl
        | some s' => exact absurd hhead (hnone s')
      | some s =>
        cases o' with
        | none => exact absurd hhead.symm (hnone s)
        | some s' => rw [hsome s s' (hs s (by simp)) (hs' s' (by simp)) hhead]

/-- Values of one type are both scalars or both lists. -/
lemma value_inj {f : Value → γ}
    (hscalar : ∀ s s', t.HoldsScalar s → t.HoldsScalar s' → f (.scalar s) = f (.scalar s') → s = s')
    (hlist : ∀ (item : DataType) (items items' : List (Option Scalar)),
      (∀ s, some s ∈ items → item.HoldsScalar s) → (∀ s, some s ∈ items' → item.HoldsScalar s) →
        f (.list items) = f (.list items') → items = items')
    {v w : Value} (hv : t.Holds v) (hw : t.Holds w) (h : f v = f w) : v = w := by
  have hheld : ∀ s, t.Holds (.scalar s) → t.HoldsScalar s := by
    intro s hs
    cases t <;> exact hs
  cases v with
  | scalar s =>
    cases w with
    | scalar s' => rw [hscalar s s' (hheld s hv) (hheld s' hw) h]
    | list items => revert hv hw; cases t <;> simp [Holds, HoldsScalar]
  | list items =>
    cases w with
    | scalar s => revert hv hw; cases t <;> simp [Holds, HoldsScalar]
    | list items' =>
      cases t with
      | list item => rw [hlist item items items' hv hw h]
      | fixedSizeList item dim => rw [hlist item items items' hv.2 hw.2 h]
      | _ => cases hv

end Injective

end DataType

/-! ### Columns and batches -/

/-- An array. -/
structure Column where
  dataType : DataType
  cells : List Cell
  holds : ∀ value, some value ∈ cells → dataType.Holds value

variable {c : Column}

namespace Column

/-- The cell of a row. -/
def cell (c : Column) (row : ℕ) : Cell := c.cells[row]?.join

variable {row : ℕ}

lemma cell_holds (c : Column) {value : Value} (h : c.cell row = some value) :
    c.dataType.Holds value := by
  apply c.holds
  exact List.mem_of_getElem? (Option.join_eq_some_iff.mp h)

lemma cell_of_lt (c : Column) (h : row < c.cells.length) : c.cell row = c.cells[row] := by
  simp [cell, List.getElem?_eq_getElem h]

/-- The rows of the given numbers, in their order. -/
def take (c : Column) (indices : List ℕ) : Column where
  dataType := c.dataType
  cells := indices.map c.cell
  holds value h := by
    obtain ⟨row, -, hrow⟩ := List.mem_map.mp h
    exact c.cell_holds hrow

@[simp] lemma dataType_take (c : Column) (indices : List ℕ) :
    (c.take indices).dataType = c.dataType := rfl

@[simp] lemma cells_take (c : Column) (indices : List ℕ) :
    (c.take indices).cells = indices.map c.cell := rfl

lemma cell_take (c : Column) (indices : List ℕ) (h : row < indices.length) :
    (c.take indices).cell row = c.cell indices[row] := by
  simp [cell, List.getElem?_eq_getElem h]

lemma eq_of_cells {d : Column} (htype : c.dataType = d.dataType) (hcells : c.cells = d.cells) :
    c = d := by
  cases c
  cases d
  simp_all

end Column

/-- A batch: columns of one length under their names. A name may occur twice. -/
structure RecordBatch where
  fields : List (String × Column)
  numRows : ℕ
  lengths : ∀ field ∈ fields, field.2.cells.length = numRows

namespace RecordBatch

variable {b : RecordBatch}

lemma eq_of_fields {b' : RecordBatch} (hfields : b.fields = b'.fields)
    (hrows : b.numRows = b'.numRows) : b = b' := by
  cases b
  cases b'
  simp_all

def columnByName (b : RecordBatch) (name : String) : Option Column :=
  (b.fields.find? fun field => field.1 = name).map Prod.snd

/-- The names and the types of the columns. -/
def schema (b : RecordBatch) : List (String × DataType) :=
  b.fields.map fun field => (field.1, field.2.dataType)

/-- The cells of a row. -/
def row (b : RecordBatch) (i : ℕ) : List Cell := b.fields.map fun field => field.2.cell i

/-- The rows of a batch. -/
def rows (b : RecordBatch) : List (List Cell) := (List.range b.numRows).map b.row

lemma length_of_columnByName {name : String} (h : b.columnByName name = some c) :
    c.cells.length = b.numRows := by
  obtain ⟨field, hfind, rfl⟩ := Option.map_eq_some_iff.mp h
  exact b.lengths field (List.mem_of_find?_eq_some hfind)

/-- The rows of the given numbers. -/
def take (b : RecordBatch) (indices : List ℕ) : RecordBatch where
  fields := b.fields.map fun field => (field.1, field.2.take indices)
  numRows := indices.length
  lengths field h := by
    obtain ⟨field, -, rfl⟩ := List.mem_map.mp h
    simp

@[simp] lemma numRows_take (b : RecordBatch) (indices : List ℕ) :
    (b.take indices).numRows = indices.length := rfl

@[simp] lemma schema_take (b : RecordBatch) (indices : List ℕ) :
    (b.take indices).schema = b.schema := by
  simp [schema, take]

lemma row_take (b : RecordBatch) (indices : List ℕ) {i : ℕ} (h : i < indices.length) :
    (b.take indices).row i = b.row indices[i] := by
  simp [row, take, Column.cell_take _ _ h]

lemma rows_take (b : RecordBatch) (indices : List ℕ) :
    (b.take indices).rows = indices.map b.row := by
  apply List.ext_getElem
  · simp [rows]
  · intro i h h'
    simp [rows, row_take _ _ (by simpa using h')]

lemma columnByName_take (b : RecordBatch) (indices : List ℕ) (name : String) :
    (b.take indices).columnByName name = (b.columnByName name).map fun c => c.take indices := by
  simp only [columnByName, take, List.find?_map, Option.map_map]
  rfl

/-- A batch of the given columns, which must have one length. -/
def tryNew (fields : List (String × Column)) : Except OmniError RecordBatch :=
  match fields with
  | [] => .error (.lance "must either specify a row count or at least one column")
  | first :: rest =>
    if h : ∀ field ∈ first :: rest, field.2.cells.length = first.2.cells.length then
      .ok ⟨first :: rest, first.2.cells.length, h⟩
    else .error (.lance "all columns in a record batch must have the same length")

variable {fields : List (String × Column)}

lemma tryNew_of_lengths {n : ℕ} (hne : fields ≠ [])
    (h : ∀ field ∈ fields, field.2.cells.length = n) :
    tryNew fields = .ok ⟨fields, n, h⟩ := by
  cases fields with
  | nil => exact absurd rfl hne
  | cons first rest =>
    have hfirst := h first (by simp)
    subst hfirst
    simp only [tryNew]
    rw [dif_pos h]

lemma fields_of_tryNew (h : tryNew fields = .ok b) : b.fields = fields := by
  cases fields with
  | nil => simp [tryNew] at h
  | cons first rest =>
    simp only [tryNew] at h
    split at h
    · cases h
      rfl
    · cases h

/-- The first rows. -/
def slice (b : RecordBatch) (len : ℕ) : RecordBatch := b.take (List.range len)

end RecordBatch

/-! ### The array library -/

/-- What the array library and the processor do: the text a value is shown in, the parsers of dates,
and the arithmetic of doubles. -/
structure Arrow where
  display : DataType → Value → String
  parseDate32 : String → Except OmniError ℤ
  parseDate64 : String → Except OmniError ℤ
  ofInt : ℤ → UInt64
  add : UInt64 → UInt64 → UInt64
  div : UInt64 → UInt64 → UInt64

/-- The values of the query's parameters. -/
abbrev ParamMap := HashMap String Literal

/-- A cell with its type. -/
structure TypedCell where
  dataType : DataType
  cell : Cell
  holds : ∀ value, cell = some value → dataType.Holds value

/-- A null is a cell of every type. -/
lemma DataType.holds_null (t : DataType) : ∀ value, (none : Cell) = some value → t.Holds value :=
  fun _ h => by cases h

/-- The same cell in every row. -/
def TypedCell.column (t : TypedCell) (numRows : ℕ) : Column where
  dataType := t.dataType
  cells := List.replicate numRows t.cell
  holds value h := t.holds value (List.eq_of_mem_replicate h).symm

variable {indices : List ℕ} {numRows : ℕ}

lemma TypedCell.column_take (t : TypedCell) (h : ∀ i ∈ indices, i < numRows) :
    (t.column numRows).take indices = t.column indices.length := by
  refine Column.eq_of_cells rfl ?_
  have hcell : ∀ i ∈ indices, (t.column numRows).cell i = t.cell := by
    intro i hi
    simp [Column.cell, TypedCell.column, h i hi]
  rw [Column.cells_take, List.map_congr_left hcell, List.map_const']
  rfl

section Literals

variable (arrow : Arrow)

def literalScalarType : Literal → Except OmniError ScalarType
  | .null => .ok .string
  | .string _ => .ok .string
  | .integer _ => .ok .i64
  | .float _ => .ok .f64
  | .bool _ => .ok .bool
  | .date _ => .ok .date
  | .dateTime _ => .ok .dateTime
  | .list _ => .error (.manifest "nested list literals are not supported")

def listScalarType : List Literal → Except OmniError ScalarType
  | [] => .error (.manifest "empty list literal")
  | first :: rest => do
    let expected ← literalScalarType first
    rest.forM fun item => do
      let itemType ← literalScalarType item
      if itemType ≠ expected then
        .error (.manifest "list literal elements must share a compatible scalar type")
      else .ok ()
    .ok expected

/-- A list of one type, whose members are those of the literal that have the type. -/
def listOf (item : DataType) (items : List { s : Option Scalar // ∀ x, s = some x →
    item.HoldsScalar x }) : TypedCell where
  dataType := .list item
  cell := some (.list (items.map Subtype.val))
  holds value h := by
    cases h
    intro s hs
    obtain ⟨x, -, hx⟩ := List.mem_map.mp hs
    exact x.2 s hx

def literalListToArray (items : List Literal) : Except OmniError TypedCell :=
  if items = [] then .ok (listOf .utf8 [])
  else do
    match ← listScalarType items with
    | .string => .ok (listOf .utf8 (items.map fun item => match item with
        | .string s => ⟨some (.utf8 s), by simp [DataType.HoldsScalar]⟩
        | _ => ⟨none, by simp⟩))
    | .bool => .ok (listOf .boolean (items.map fun item => match item with
        | .bool b => ⟨some (.boolean b), by simp [DataType.HoldsScalar]⟩
        | _ => ⟨none, by simp⟩))
    | .i32 => .ok (listOf .int32 (items.map fun item => match item with
        | .integer i => ⟨some (.int i), by simp [DataType.HoldsScalar]⟩
        | _ => ⟨none, by simp⟩))
    | .i64 | .u32 | .u64 => .ok (listOf .int64 (items.map fun item => match item with
        | .integer i => ⟨some (.int i), by simp [DataType.HoldsScalar]⟩
        | _ => ⟨none, by simp⟩))
    | .f32 | .f64 => .ok (listOf .float64 (items.map fun item => match item with
        | .integer i => ⟨some (.float (arrow.ofInt i)), by simp [DataType.HoldsScalar]⟩
        | .float bits => ⟨some (.float bits), by simp [DataType.HoldsScalar]⟩
        | _ => ⟨none, by simp⟩))
    | .date => do
      let days ← items.mapM fun item => match item with
        | .date s => (arrow.parseDate32 s).map some
        | _ => .ok none
      .ok (listOf .date32 (days.map fun day =>
        ⟨day.map .int, by simp [DataType.HoldsScalar, Option.map_eq_some_iff]⟩))
    | .dateTime => do
      let times ← items.mapM fun item => match item with
        | .dateTime s => (arrow.parseDate64 s).map some
        | _ => .ok none
      .ok (listOf .date64 (times.map fun time =>
        ⟨time.map .int, by simp [DataType.HoldsScalar, Option.map_eq_some_iff]⟩))
    | .vector _ | .blob => .error (.manifest "unsupported list literal element type")

/-- The cell a literal has in every row. -/
def literalCell : Literal → Except OmniError TypedCell
  | .null => .ok ⟨.utf8, none, by simp⟩
  | .string s => .ok ⟨.utf8, some (.scalar (.utf8 s)), by simp [DataType.Holds,
      DataType.HoldsScalar]⟩
  | .integer i => .ok ⟨.int64, some (.scalar (.int i)), by simp [DataType.Holds,
      DataType.HoldsScalar]⟩
  | .float bits => .ok ⟨.float64, some (.scalar (.float bits)), by simp [DataType.Holds,
      DataType.HoldsScalar]⟩
  | .bool b => .ok ⟨.boolean, some (.scalar (.boolean b)), by simp [DataType.Holds,
      DataType.HoldsScalar]⟩
  | .date s => do
    let days ← arrow.parseDate32 s
    .ok ⟨.date32, some (.scalar (.int days)), by simp [DataType.Holds, DataType.HoldsScalar]⟩
  | .dateTime s => do
    let ms ← arrow.parseDate64 s
    .ok ⟨.date64, some (.scalar (.int ms)), by simp [DataType.Holds, DataType.HoldsScalar]⟩
  | .list items => literalListToArray arrow items

def literalToArray (lit : Literal) (numRows : ℕ) : Except OmniError Column :=
  (literalCell arrow lit).map fun t => t.column numRows

lemma literalToArray_take (lit : Literal) (h : ∀ i ∈ indices, i < numRows) :
    literalToArray arrow lit indices.length =
      (literalToArray arrow lit numRows).map fun c => c.take indices := by
  unfold literalToArray
  cases literalCell arrow lit with
  | error e => rfl
  | ok t => simp only [Except.map, t.column_take h]

lemma length_of_literalToArray {lit : Literal} (h : literalToArray arrow lit numRows = .ok c) :
    c.cells.length = numRows := by
  obtain ⟨t, -, rfl⟩ := map_eq_ok h
  simp [TypedCell.column]

end Literals

/-! ### Projections -/

section Projections

variable (arrow : Arrow)

/-- The column of a name, as an expression reads it. -/
def wideColumn (wide : RecordBatch) (colName : String) : Except OmniError Column :=
  match wide.columnByName colName with
  | some col => .ok col
  | none => .error (.manifest s!"column '{colName}' not found in wide batch")

lemma wideColumn_take (wide : RecordBatch) (indices : List ℕ) (colName : String) :
    wideColumn (wide.take indices) colName =
      (wideColumn wide colName).map fun c => c.take indices := by
  unfold wideColumn
  rw [RecordBatch.columnByName_take]
  cases wide.columnByName colName with
  | none => rfl
  | some c => rfl

variable {wide : RecordBatch}

lemma length_of_wideColumn {colName : String} (h : wideColumn wide colName = .ok c) :
    c.cells.length = wide.numRows := by
  unfold wideColumn at h
  split at h
  next hc =>
    cases h
    exact RecordBatch.length_of_columnByName hc
  next => cases h

/-- The name and the cells of an expression. -/
def evaluateProjection (wide : RecordBatch) (expr : IRExpr) (params : ParamMap) :
    Except OmniError (String × Column) :=
  match expr with
  | .propAccess variable_ property =>
    let colName := variable_ ++ "." ++ property
    (wideColumn wide colName).map fun col => (colName, col)
  | .literal lit => (literalToArray arrow lit wide.numRows).map fun col => ("literal", col)
  | .param name =>
    match params.lookup name with
    | some lit => (literalToArray arrow lit wide.numRows).map fun col => (name, col)
    | none => .error (.manifest s!"parameter '{name}' not provided")
  | .var name => (wideColumn wide (name ++ ".id")).map fun col => (name, col)
  | _ => .error (.manifest "unsupported projection expression")

/-- The rows of a projection are the projections of the rows. -/
lemma evaluateProjection_take (h : ∀ i ∈ indices, i < wide.numRows) (expr : IRExpr)
    (params : ParamMap) :
    evaluateProjection arrow (wide.take indices) expr params =
      (evaluateProjection arrow wide expr params).map fun p => (p.1, p.2.take indices) := by
  have hcolumn : ∀ colName name : String,
      ((wideColumn (wide.take indices) colName).map fun col => (name, col)) =
        ((wideColumn wide colName).map fun col => (name, col)).map
          fun p => (p.1, p.2.take indices) := by
    intro colName name
    rw [wideColumn_take]
    cases wideColumn wide colName with
    | error e => rfl
    | ok c => rfl
  have hliteral : ∀ (lit : Literal) (name : String),
      ((literalToArray arrow lit (wide.take indices).numRows).map fun col => (name, col)) =
        ((literalToArray arrow lit wide.numRows).map fun col => (name, col)).map
          fun p => (p.1, p.2.take indices) := by
    intro lit name
    rw [RecordBatch.numRows_take, literalToArray_take arrow lit h]
    cases literalToArray arrow lit wide.numRows with
    | error e => rfl
    | ok c => rfl
  cases expr with
  | propAccess variable_ property => exact hcolumn _ _
  | var name => exact hcolumn _ _
  | literal lit => exact hliteral _ _
  | param name =>
    simp only [evaluateProjection]
    cases params.lookup name with
    | none => rfl
    | some lit => exact hliteral _ _
  | _ => rfl

lemma length_of_evaluateProjection {expr : IRExpr} {params : ParamMap} {p : String × Column}
    (h : evaluateProjection arrow wide expr params = .ok p) : p.2.cells.length = wide.numRows := by
  cases expr with
  | propAccess variable_ property =>
    obtain ⟨c, hc, rfl⟩ := map_eq_ok h
    exact length_of_wideColumn hc
  | var name =>
    obtain ⟨c, hc, rfl⟩ := map_eq_ok h
    exact length_of_wideColumn hc
  | literal lit =>
    obtain ⟨c, hc, rfl⟩ := map_eq_ok h
    exact length_of_literalToArray arrow hc
  | param name =>
    simp only [evaluateProjection] at h
    split at h
    · obtain ⟨c, hc, rfl⟩ := map_eq_ok h
      exact length_of_literalToArray arrow hc
    · cases h
  | _ => cases h

end Projections

end Omnigraph.Query
