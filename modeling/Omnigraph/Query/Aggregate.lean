import Omnigraph.Lib.Framed
import Omnigraph.Lib.Grouped
import Omnigraph.Query.Arrays

/-!
# Aggregation

The rows of a wide batch are grouped by the text of their key cells, and each aggregate is computed
over the cells of a group. A batch without rows and without keys gives one row, which a function of
its own builds.
-/

namespace Omnigraph.Query

open Compiler

/-! ### Numbers -/

/-- Whether the bit pattern is not a number. -/
def f64IsNan (bits : UInt64) : Bool := bits.toNat % 2 ^ 63 > 0x7FF0000000000000

/-- The place of a number among the doubles: both zeros have one place. -/
def f64Place (bits : UInt64) : ℤ :=
  if bits.toNat < 2 ^ 63 then (bits.toNat : ℤ) else -((bits.toNat - 2 ^ 63 : ℕ) : ℤ)

/-- The comparison of doubles: what is not a number is below nothing and above nothing. -/
def f64Lt (a b : UInt64) : Bool := !f64IsNan a && !f64IsNan b && decide (f64Place a < f64Place b)

/-- The comparison of the native values of one array. -/
def Value.lt : Value → Value → Bool
  | .scalar (.int i), .scalar (.int j) => decide (i < j)
  | .scalar (.float a), .scalar (.float b) => f64Lt a b
  | .scalar (.utf8 s), .scalar (.utf8 t) => decide (s < t)
  | _, _ => false

/-- The name a type has in error messages. -/
def DataType.debug : DataType → String
  | utf8 => "Utf8"
  | boolean => "Boolean"
  | int32 => "Int32"
  | int64 => "Int64"
  | uint32 => "UInt32"
  | uint64 => "UInt64"
  | float32 => "Float32"
  | float64 => "Float64"
  | date32 => "Date32"
  | date64 => "Date64"
  | list item => "List(" ++ item.debug ++ ")"
  | fixedSizeList item dim => "FixedSizeList(" ++ item.debug ++ ", " ++ toString dim ++ ")"

def DataType.isNumeric : DataType → Bool
  | int32 | int64 | uint32 | uint64 | float32 | float64 => true
  | _ => false

def DataType.isFloat : DataType → Bool
  | float32 | float64 => true
  | _ => false

section Aggregates

variable (arrow : Arrow)

/-! ### Aggregates of a group -/

/-- A number as a double. -/
def Value.toF64 : Value → UInt64
  | .scalar (.int i) => arrow.ofInt i
  | .scalar (.float bits) => bits
  | _ => 0

def countCells (cells : List Cell) : ℕ := (cells.filter Option.isSome).length

/-- The sum of the cells that are not null, from zero on. -/
def sumStep (sum : Option UInt64) (cell : Cell) : Option UInt64 :=
  match cell with
  | none => sum
  | some v => some (arrow.add (sum.getD 0) (v.toF64 arrow))

def sumCells (cells : List Cell) : Option UInt64 := cells.foldl (sumStep arrow) none

def avgCells (cells : List Cell) : Option UInt64 :=
  let sum := (sumCells arrow cells).getD 0
  let count := countCells cells
  if count > 0 then some (arrow.div sum (arrow.ofInt count)) else none

/-- The value kept so far, and the next cell. -/
def minMaxStep (isMin : Bool) (result : Cell) (cell : Cell) : Cell :=
  match cell with
  | none => result
  | some v =>
    match result with
    | none => some v
    | some cur =>
      some (if isMin then (if v.lt cur then v else cur) else (if cur.lt v then v else cur))

def minMaxCells (isMin : Bool) (cells : List Cell) : Cell := cells.foldl (minMaxStep isMin) none

/-- A value that is kept is one of the cells. -/
lemma mem_of_minMaxCells {isMin : Bool} {cells : List Cell} {v : Value}
    (h : minMaxCells isMin cells = some v) : some v ∈ cells := by
  unfold minMaxCells at h
  induction cells using List.reverseRecOn generalizing v with
  | nil => cases h
  | append_singleton cells cell ih =>
    rw [List.foldl_append, List.foldl_cons, List.foldl_nil] at h
    cases cell with
    | none => exact List.mem_append_left _ (ih h)
    | some w =>
      cases hcur : cells.foldl (minMaxStep isMin) none with
      | none =>
        rw [hcur] at h
        cases h
        simp
      | some cur =>
        rw [hcur] at h
        have hcase : v = w ∨ v = cur := by
          have hv := Option.some.inj h
          split_ifs at hv
          · exact .inl hv.symm
          · exact .inr hv.symm
          · exact .inl hv.symm
          · exact .inr hv.symm
        rcases hcase with rfl | rfl
        · simp
        · exact List.mem_append_left _ (ih hcur)

/-! ### Aggregates of a column -/

/-- One double, or null, for every group. -/
def floatColumn (values : List (Option UInt64)) : Column where
  dataType := .float64
  cells := values.map fun value => value.map fun bits => .scalar (.float bits)
  holds value h := by
    obtain ⟨o, -, ho⟩ := List.mem_map.mp h
    obtain ⟨bits, -, rfl⟩ := Option.map_eq_some_iff.mp ho
    trivial

def computeCount (arg : Column) (groupIndices : List (List ℕ)) : Column where
  dataType := .int64
  cells := groupIndices.map fun group => some (.scalar (.int (countCells (group.map arg.cell))))
  holds value h := by
    obtain ⟨group, -, hgroup⟩ := List.mem_map.mp h
    cases hgroup
    trivial

def computeSum (arg : Column) (groupIndices : List (List ℕ)) : Except OmniError Column :=
  if arg.dataType.isNumeric then
    .ok (floatColumn (groupIndices.map fun group => sumCells arrow (group.map arg.cell)))
  else .error (.manifest s!"sum: unsupported type {arg.dataType.debug}")

def computeAvg (arg : Column) (groupIndices : List (List ℕ)) : Except OmniError Column :=
  if arg.dataType.isNumeric then
    .ok (floatColumn (groupIndices.map fun group => avgCells arrow (group.map arg.cell)))
  else .error (.manifest s!"avg: unsupported type {arg.dataType.debug}")

/-- The least or greatest cell of every group. -/
def extremes (arg : Column) (groupIndices : List (List ℕ)) (isMin : Bool) : Column where
  dataType := arg.dataType
  cells := groupIndices.map fun group => minMaxCells isMin (group.map arg.cell)
  holds value h := by
    obtain ⟨group, -, hgroup⟩ := List.mem_map.mp h
    obtain ⟨row, -, hrow⟩ := List.mem_map.mp (mem_of_minMaxCells hgroup)
    exact arg.cell_holds hrow

def computeMinMax (arg : Column) (groupIndices : List (List ℕ)) (isMin : Bool) :
    Except OmniError Column :=
  if arg.dataType.isNumeric ∨ arg.dataType = .utf8 then .ok (extremes arg groupIndices isMin)
  else .error (.manifest s!"min/max: unsupported type {arg.dataType.debug}")

def computeAggregate (func : AggFunc) (arg : Column) (groupIndices : List (List ℕ)) :
    Except OmniError Column :=
  match func with
  | .count => .ok (computeCount arg groupIndices)
  | .sum => computeSum arrow arg groupIndices
  | .avg => computeAvg arrow arg groupIndices
  | .min => computeMinMax arg groupIndices true
  | .max => computeMinMax arg groupIndices false

/-! ### Groups -/

/-- The text of a cell with its length before it. -/
def pushCell (key : String) (val : Option String) : String :=
  match val with
  | none => key.push 'N'
  | some val => key.push 'L' ++ toString val.utf8ByteSize ++ ":" ++ val

/-- The key cells of a row as one text. -/
def buildGroupKey (groupColumns : List Column) (row : ℕ) : String :=
  groupColumns.foldl
    (fun key col => pushCell key ((col.cell row).map (arrow.display col.dataType))) ""

/-- A projection with its cells: a group key, or the argument of an aggregate. -/
structure Resolved where
  name : String
  func : Option AggFunc
  column : Column

/-- Evaluate a projection; an alias replaces its name. -/
def resolve (wide : RecordBatch) (params : ParamMap) (proj : IRProjection) :
    Except OmniError Resolved :=
  match proj.expr with
  | .aggregate func arg =>
    (evaluateProjection arrow wide arg params).map fun p => ⟨proj.asName.getD p.1, some func, p.2⟩
  | expr =>
    (evaluateProjection arrow wide expr params).map fun p => ⟨proj.asName.getD p.1, none, p.2⟩

def groupColumns (resolved : List Resolved) : List Column :=
  (resolved.filter fun r => r.func = none).map Resolved.column

/-- The rows of each group. -/
def groupIndices (groupCols : List Column) (numRows : ℕ) : List (List ℕ) :=
  if groupCols = [] then [List.range numRows]
  else Grouped.groups (buildGroupKey arrow groupCols) (List.range numRows)

/-- The cell of a projection in the result without input. -/
def emptyCell : IRExpr → TypedCell
  | .aggregate .count _ => ⟨.int64, some (.scalar (.int 0)), by rintro value ⟨⟩; trivial⟩
  | .aggregate _ _ => ⟨.float64, none, DataType.holds_null _⟩
  | _ => ⟨.utf8, none, DataType.holds_null _⟩

/-- The one row of an aggregate query without input and without keys. -/
def buildEmptyAggregateResult (projections : List IRProjection) : Except OmniError RecordBatch :=
  RecordBatch.tryNew (projections.map fun proj =>
    (proj.asName.getD "?", (emptyCell proj.expr).column 1))

/-- The cells a projection has in the result: those of the first row of every group, or an
aggregate of its cells. -/
def resultColumn (groups : List (List ℕ)) (r : Resolved) : Except OmniError (String × Column) :=
  match r.func with
  | none => .ok (r.name, r.column.take (groups.map fun rows => rows.headD 0))
  | some func => (computeAggregate arrow func r.column groups).map fun col => (r.name, col)

/-- Project return expressions that contain aggregates. The columns stand in the order of the
projections. -/
def aggregateReturn (wide : RecordBatch) (projections : List IRProjection) (params : ParamMap) :
    Except OmniError RecordBatch := do
  let resolved ← projections.mapM (resolve arrow wide params)
  let groupCols := groupColumns resolved
  if wide.numRows = 0 ∧ groupCols = [] then buildEmptyAggregateResult projections
  else
    let groups := groupIndices arrow groupCols wide.numRows
    let columns ← resolved.mapM (resultColumn arrow groups)
    RecordBatch.tryNew columns

end Aggregates

end Omnigraph.Query
