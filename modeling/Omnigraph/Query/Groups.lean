import Omnigraph.Query.Extremes

/-!
# The rows of an aggregate query

The text of a row's key cells tells the cells, so the groups are the rows that agree on the key
columns. The result has one row for each group; its cells are those of the group's first row, or
aggregates of the group's cells.
-/

namespace Omnigraph.Query

open List Compiler

variable (arrow : Arrow)

/-! ### Group keys -/

/-- Values of one type are shown in different texts. -/
def Arrow.Renders : Prop :=
  ∀ t v w, DataType.Holds t v → t.Holds w → arrow.display t v = arrow.display t w → v = w

lemma toList_pushCell (key : String) (val : Option String) :
    (pushCell key val).toList = key.toList ++ Framed.frame val := by
  cases val with
  | none => simp [pushCell, Framed.frame]
  | some val => simp [pushCell, Framed.frame]

lemma toList_buildGroupKey (cols : List Column) (row : ℕ) :
    (buildGroupKey arrow cols row).toList = cols.flatMap fun col =>
      Framed.frame ((col.cell row).map (arrow.display col.dataType)) := by
  have hfold : ∀ key : String, (cols.foldl (fun key col =>
      pushCell key ((col.cell row).map (arrow.display col.dataType))) key).toList =
      key.toList ++ cols.flatMap fun col =>
        Framed.frame ((col.cell row).map (arrow.display col.dataType)) := by
    induction cols with
    | nil => simp
    | cons col cols ih =>
      intro key
      rw [foldl_cons, ih, flatMap_cons, toList_pushCell, append_assoc]
  rw [buildGroupKey, hfold]
  rfl

variable {arrow}

/-- Rows have one key if and only if they agree on the key columns. -/
lemma buildGroupKey_eq_iff (hrender : arrow.Renders) {cols : List Column} {i j : ℕ} :
    buildGroupKey arrow cols i = buildGroupKey arrow cols j ↔
      ∀ col ∈ cols, col.cell i = col.cell j := by
  constructor
  · intro h col hcol
    have hlists := congrArg String.toList h
    rw [toList_buildGroupKey, toList_buildGroupKey] at hlists
    have htexts : cols.map (fun col => (col.cell i).map (arrow.display col.dataType)) =
        cols.map fun col => (col.cell j).map (arrow.display col.dataType) := by
      apply Framed.flatMap_frame_inj
      rw [flatMap_map, flatMap_map]
      exact hlists
    have htext := map_inj_left.mp htexts col hcol
    cases hi : col.cell i with
    | none =>
      cases hj : col.cell j with
      | none => rfl
      | some w =>
        rw [hi, hj] at htext
        cases htext
    | some v =>
      cases hj : col.cell j with
      | none =>
        rw [hi, hj] at htext
        cases htext
      | some w =>
        rw [hi, hj] at htext
        rw [hrender _ v w (col.cell_holds hi) (col.cell_holds hj) (Option.some.inj htext)]
  · intro h
    apply String.toList_inj.mp
    rw [toList_buildGroupKey, toList_buildGroupKey]
    apply flatMap_congr
    intro col hcol
    rw [h col hcol]

lemma buildGroupKey_take (cols : List Column) (indices : List ℕ) {row : ℕ}
    (h : row < indices.length) :
    buildGroupKey arrow (cols.map fun col => col.take indices) row =
      buildGroupKey arrow cols indices[row] := by
  apply String.toList_inj.mp
  rw [toList_buildGroupKey, toList_buildGroupKey, flatMap_map]
  apply flatMap_congr
  intro col _
  rw [Column.cell_take _ _ h]
  rfl

/-! ### The cells of a result row -/

variable (arrow)

/-- An aggregate of the cells of a group. -/
def aggregateCell (func : AggFunc) (cells : List Cell) : Cell :=
  match func with
  | .count => some (.scalar (.int (countCells cells)))
  | .sum => (sumCells arrow cells).map fun bits => .scalar (.float bits)
  | .avg => (avgCells arrow cells).map fun bits => .scalar (.float bits)
  | .min => minMaxCells true cells
  | .max => minMaxCells false cells

/-- The function of a minimum or a maximum. -/
def extremeFunc (isMin : Bool) : AggFunc := if isMin then .min else .max

/-- The cell a projection has in the row of a group. -/
def groupCell (group : List ℕ) (r : Resolved) : Cell :=
  match r.func with
  | none => r.column.cell (group.headD 0)
  | some func => aggregateCell arrow func (group.map r.column.cell)

/-- Whether the function of an aggregate takes the type of its column. -/
def Resolved.Supported (r : Resolved) : Prop :=
  match r.func with
  | none | some .count => True
  | some .sum | some .avg => r.column.dataType.isNumeric = true
  | some .min | some .max => r.column.dataType.isNumeric = true ∨ r.column.dataType = .utf8

/-- The type a projection has in the result. -/
def Resolved.resultType (r : Resolved) : DataType :=
  match r.func with
  | none | some .min | some .max => r.column.dataType
  | some .count => .int64
  | some .sum | some .avg => .float64

/-- A result column holds the cells of its projection, one for each group. -/
structure Resolved.Gives (groups : List (List ℕ)) (r : Resolved) (field : String × Column) :
    Prop where
  name : field.1 = r.name
  dataType : field.2.dataType = r.resultType
  cells : field.2.cells = groups.map fun group => groupCell arrow group r

variable {arrow}

lemma gives_of_resultColumn {groups : List (List ℕ)} {r : Resolved} {field : String × Column}
    (h : resultColumn arrow groups r = .ok field) : r.Supported ∧ r.Gives arrow groups field := by
  unfold resultColumn at h
  cases hfunc : r.func with
  | none =>
    rw [hfunc] at h
    cases h
    refine ⟨by simp [Resolved.Supported, hfunc], rfl, by simp [Resolved.resultType, hfunc], ?_⟩
    rw [Column.cells_take, List.map_map]
    apply map_congr_left
    intro group _
    simp [groupCell, hfunc]
  | some func =>
    rw [hfunc] at h
    obtain ⟨col, hcol, rfl⟩ := Except.map_eq_ok h
    cases func with
    | count =>
      cases hcol
      exact ⟨by simp [Resolved.Supported, hfunc], rfl, by simp [Resolved.resultType, hfunc,
        computeCount], by simp [groupCell, hfunc, aggregateCell, computeCount]⟩
    | sum =>
      simp only [computeAggregate, computeSum] at hcol
      split_ifs at hcol with hnumeric
      cases hcol
      exact ⟨by simp [Resolved.Supported, hfunc, hnumeric], rfl, by simp [Resolved.resultType,
        hfunc, floatColumn], by simp [groupCell, hfunc, aggregateCell, floatColumn]⟩
    | avg =>
      simp only [computeAggregate, computeAvg] at hcol
      split_ifs at hcol with hnumeric
      cases hcol
      exact ⟨by simp [Resolved.Supported, hfunc, hnumeric], rfl, by simp [Resolved.resultType,
        hfunc, floatColumn], by simp [groupCell, hfunc, aggregateCell, floatColumn]⟩
    | min =>
      simp only [computeAggregate, computeMinMax] at hcol
      split_ifs at hcol with htype
      cases hcol
      exact ⟨by simp [Resolved.Supported, hfunc, htype], rfl, by simp [Resolved.resultType,
        hfunc, extremes], by simp [groupCell, hfunc, aggregateCell, extremes]⟩
    | max =>
      simp only [computeAggregate, computeMinMax] at hcol
      split_ifs at hcol with htype
      cases hcol
      exact ⟨by simp [Resolved.Supported, hfunc, htype], rfl, by simp [Resolved.resultType,
        hfunc, extremes], by simp [groupCell, hfunc, aggregateCell, extremes]⟩

lemma exists_resultColumn {r : Resolved} (h : r.Supported) (groups : List (List ℕ)) :
    ∃ field, resultColumn arrow groups r = .ok field := by
  unfold Resolved.Supported at h
  unfold resultColumn
  cases hfunc : r.func with
  | none => exact ⟨_, rfl⟩
  | some func =>
    rw [hfunc] at h
    cases func with
    | count => exact ⟨_, rfl⟩
    | sum | avg | min | max =>
      simp only [computeAggregate, computeSum, computeAvg, computeMinMax] at *
      rw [if_pos h]
      exact ⟨_, rfl⟩

end Omnigraph.Query
