import Omnigraph.Query.Ordering
import Omnigraph.Query.Partition

/-!
# When ordered results are deterministic

The rows of the wide batch come in any order, and the sort may return any sorted order. A result
with a row for every match does not depend on either: the ids decide between rows that tie. The rows
of an aggregate query have no ids, so what ties must be beyond the limit.
-/

namespace Omnigraph.Query

open List Except Compiler Ranked RecordBatch

variable {arrow : Arrow} {wide result out : RecordBatch} {ir : QueryIR} {params : ParamMap}
  {lexsort : Lexsort} {cols : List SortColumn}

/-! ### The end of a query -/

/-- The columns the rows of a result are sorted by: none without an order clause. -/
def orderColumns (result wide : RecordBatch) (ir : QueryIR) : Except OmniError (List SortColumn) :=
  if ir.orderBy.isEmpty then .ok []
  else
    let source := if ir.returnExprs.any isAggregate then result else wide
    (ir.orderBy.mapM (orderingColumn result source)).map fun cols => cols ++ tiebreakColumns source

lemma rows_applyLimit (limit : Option ℕ) (b : RecordBatch) :
    (applyLimit limit b).rows = limited limit b.rows := by
  cases limit with
  | none => rfl
  | some limit =>
    rw [applyLimit, slice, rows_take, limited, rows,
      ← map_take, List.take_range, min_comm]

lemma schema_applyLimit (limit : Option ℕ) (b : RecordBatch) :
    (applyLimit limit b).schema = b.schema := by
  cases limit with
  | none => rfl
  | some limit => exact b.schema_take _

/-- The order of the rows of a result. -/
def orderIndices (lexsort : Lexsort) (ir : QueryIR) (cols : List SortColumn) (numRows : ℕ) :
    List ℕ :=
  if ir.orderBy.isEmpty then List.range numRows else lexsort.run cols numRows

/-- A query is a projection, an order and a limit. -/
lemma finishQuery_eq_ok_iff : finishQuery arrow lexsort wide ir params = .ok out ↔
    ∃ result cols, projectReturn arrow wide ir.returnExprs params = .ok result ∧
      orderColumns result wide ir = .ok cols ∧
        out = applyLimit ir.limit (if ir.orderBy.isEmpty then result
          else result.take (orderIndices lexsort ir cols result.numRows)) := by
  unfold finishQuery orderResult orderColumns orderIndices applyOrdering
  constructor
  · intro h
    obtain ⟨result, hresult, h⟩ := bind_eq_ok_iff.mp h
    obtain ⟨ordered, hordered, h⟩ := bind_eq_ok_iff.mp h
    refine ⟨result, ?_⟩
    cases h
    split_ifs at hordered ⊢ with hempty hagg
    · cases hordered
      exact ⟨[], hresult, rfl, rfl⟩
    · obtain ⟨cols, hcols, hordered⟩ := bind_eq_ok_iff.mp hordered
      cases hordered
      exact ⟨cols ++ tiebreakColumns result, hresult, by dsimp only; rw [hcols]; rfl, rfl⟩
    · obtain ⟨cols, hcols, hordered⟩ := bind_eq_ok_iff.mp hordered
      cases hordered
      exact ⟨cols ++ tiebreakColumns wide, hresult, by dsimp only; rw [hcols]; rfl, rfl⟩
  · rintro ⟨result, cols, hresult, hcols, rfl⟩
    rw [hresult, ok_bind]
    split_ifs at hcols ⊢ with hempty hagg
    · rfl
    · obtain ⟨sorted, hsorted, rfl⟩ := map_eq_ok hcols
      rw [hsorted]
      rfl
    · obtain ⟨sorted, hsorted, rfl⟩ := map_eq_ok hcols
      rw [hsorted]
      rfl

lemma orderColumns_eq (hempty : ¬ ir.orderBy.isEmpty = true) : orderColumns result wide ir =
    (ir.orderBy.mapM (orderingColumn result
      (if ir.returnExprs.any isAggregate then result else wide))).map fun cols =>
        cols ++ tiebreakColumns (if ir.returnExprs.any isAggregate then result else wide) := by
  rw [orderColumns, if_neg hempty]

lemma orderColumns_nil (hcols : orderColumns result wide ir = .ok cols)
    (h : ir.orderBy.isEmpty = true) : cols = [] := by
  rw [orderColumns, if_pos h] at hcols
  exact (Except.ok.inj hcols).symm

/-- A query ends with the rows of its result in a sorted order, up to the limit. -/
structure Finishes (result : RecordBatch) (cols : List SortColumn) (indices : List ℕ)
    (limit : Option ℕ) (out : RecordBatch) : Prop where
  sorts : Sorts (lexLe (cols.map SortColumn.key)) (List.range result.numRows) indices
  schema : out.schema = result.schema
  rows : out.rows = limited limit (indices.map result.row)

lemma finishes (lexsort : Lexsort) (hcols : orderColumns result wide ir = .ok cols) :
    Finishes result cols (orderIndices lexsort ir cols result.numRows) ir.limit
      (applyLimit ir.limit (if ir.orderBy.isEmpty then result
        else result.take (orderIndices lexsort ir cols result.numRows))) := by
  by_cases hempty : ir.orderBy.isEmpty = true
  · have hnil := orderColumns_nil hcols hempty
    subst hnil
    rw [if_pos hempty, orderIndices, if_pos hempty]
    exact ⟨⟨List.Perm.refl _, pairwise_of_forall fun _ _ => trivial⟩, schema_applyLimit _ _,
      rows_applyLimit _ _⟩
  · rw [if_neg hempty, orderIndices, if_neg hempty]
    refine ⟨lexsort.sorts cols _, ?_, ?_⟩
    · rw [schema_applyLimit, schema_take]
    · rw [rows_applyLimit, rows_take]

/-- Rows that come sorted stay where they are under a stable sort. -/
lemma orderIndices_stable {numRows : ℕ}
    (h : (List.range numRows).Pairwise (lexLe (cols.map SortColumn.key))) :
    orderIndices stableLexsort ir cols numRows = List.range numRows := by
  rw [orderIndices]
  split_ifs
  · rfl
  · exact h.insertionSort_eq

/-! ### One run for every order -/

/-- A query gives the same schema and the same rows whatever the order of the wide batch and the
sort. -/
def Deterministic (arrow : Arrow) (ir : QueryIR) (params : ParamMap) (wide : RecordBatch) : Prop :=
  ∀ indices : List ℕ, indices.Perm (List.range wide.numRows) → ∀ lexsort lexsort' out,
    finishQuery arrow lexsort wide ir params = .ok out →
      ∃ out', finishQuery arrow lexsort' (wide.take indices) ir params = .ok out' ∧
        out'.schema = out.schema ∧ out'.rows = out.rows

/-! ### A row for every match -/

section Plain

variable (hplain : ir.returnExprs.any isAggregate = false) {indices : List ℕ}

def SortColumn.take (c : SortColumn) (indices : List ℕ) : SortColumn :=
  { c with values := c.values.take indices }

lemma orderingColumn_take (batch source : RecordBatch) (indices : List ℕ) (o : IROrdering) :
    orderingColumn (batch.take indices) (source.take indices) o =
      (orderingColumn batch source o).map fun c => c.take indices := by
  unfold orderingColumn
  cases o.expr with
  | propAccess variable_ property =>
    simp only [columnByName_take]
    cases source.columnByName (variable_ ++ "." ++ property) <;> rfl
  | aliasRef alias_ =>
    simp only [columnByName_take]
    cases batch.columnByName alias_ <;> rfl
  | _ => rfl

lemma tiebreakNames_take (source : RecordBatch) (indices : List ℕ) :
    tiebreakNames (source.take indices) = tiebreakNames source := by
  simp [tiebreakNames, RecordBatch.take, Function.comp_def]

lemma tiebreakColumns_take (source : RecordBatch) (indices : List ℕ) :
    tiebreakColumns (source.take indices) =
      (tiebreakColumns source).map fun c => c.take indices := by
  rw [tiebreakColumns, tiebreakColumns, tiebreakNames_take, map_filterMap]
  apply filterMap_congr
  intro name _
  rw [columnByName_take]
  cases source.columnByName name <;> rfl

include hplain in
lemma orderColumns_take (hcols : orderColumns result wide ir = .ok cols) (indices : List ℕ) :
    orderColumns (result.take indices) (wide.take indices) ir =
      .ok (cols.map fun c => c.take indices) := by
  by_cases hempty : ir.orderBy.isEmpty = true
  · rw [orderColumns_nil hcols hempty, orderColumns, if_pos hempty]
    rfl
  · simp only [orderColumns_eq hempty, hplain, Bool.false_eq_true, if_false] at hcols ⊢
    obtain ⟨sorted, hsorted, rfl⟩ := map_eq_ok hcols
    have hmap : ir.orderBy.mapM (orderingColumn (result.take indices) (wide.take indices)) =
        .ok (sorted.map fun c => c.take indices) := by
      rw [mapM_eq_ok_iff] at hsorted ⊢
      rw [List.forall₂_map_right_iff]
      refine hsorted.imp fun o c hc => ?_
      rw [orderingColumn_take, hc]
      rfl
    rw [hmap, tiebreakColumns_take]
    simp [Except.map]

include hplain in
lemma projectReturn_plain (hne : ir.returnExprs ≠ []) :
    projectReturn arrow wide ir.returnExprs params =
      ir.returnExprs.mapM (projectColumn arrow wide params) >>= tryNew := by
  rw [projectReturn, if_neg hne, if_neg (by simp [hplain])]

variable (hresult : projectReturn arrow wide ir.returnExprs params = .ok result)

include hresult in
lemma returnExprs_ne : ir.returnExprs ≠ [] := by
  intro hnil
  rw [hnil] at hresult
  cases hresult

include hplain in
/-- The rows of a result are the projections of the rows. -/
lemma projectReturn_take (h : ∀ i ∈ indices, i < wide.numRows) :
    projectReturn arrow (wide.take indices) ir.returnExprs params =
      (projectReturn arrow wide ir.returnExprs params).map fun b => b.take indices := by
  by_cases hne : ir.returnExprs = []
  · simp only [projectReturn, if_pos hne]
    rfl
  rw [projectReturn_plain hplain hne, projectReturn_plain hplain hne,
    @Except.mapM_map_of_forall _ _ _ (projectColumn arrow wide params) _
      (fun c => (c.1, c.2.take indices))]
  · cases hcolumns : ir.returnExprs.mapM (projectColumn arrow wide params) with
    | error e => rfl
    | ok columns =>
      have hlengths : ∀ c ∈ columns, c.2.cells.length = wide.numRows := by
        intro c hc
        obtain ⟨proj, -, hproj⟩ := (mem_mapM hcolumns).mp hc
        obtain ⟨p, hp, rfl⟩ := map_eq_ok hproj
        have := length_of_evaluateProjection arrow hp
        exact this
      have hcells : ∀ c ∈ columns.map (fun c => (c.1, c.2.take indices)),
          c.2.cells.length = indices.length := by
        intro c hc
        obtain ⟨c, -, rfl⟩ := List.mem_map.mp hc
        simp
      have hcolumnsNe : columns ≠ [] := by
        rintro rfl
        have hall := mapM_eq_ok_iff.mp hcolumns
        rw [List.forall₂_nil_right_iff] at hall
        exact hne hall
      have hmapNe : columns.map (fun c => (c.1, c.2.take indices)) ≠ [] := by
        simpa using hcolumnsNe
      change tryNew (columns.map fun c => (c.1, c.2.take indices)) =
        (tryNew columns).map fun b => b.take indices
      rw [tryNew_of_lengths hmapNe hcells,
        tryNew_of_lengths hcolumnsNe hlengths]
      rfl
  · intro proj _
    simp only [projectColumn, evaluateProjection_take arrow h]
    cases evaluateProjection arrow wide proj.expr params with
    | error e => rfl
    | ok p => rfl

include hresult hplain in
lemma numRows_of_projectReturn : result.numRows = wide.numRows := by
  rw [projectReturn_plain hplain (returnExprs_ne hresult)] at hresult
  obtain ⟨columns, hcolumns, hnew⟩ := bind_eq_ok_iff.mp hresult
  have hfields := fields_of_tryNew hnew
  obtain ⟨c, rest, rfl⟩ : ∃ c rest, columns = c :: rest := by
    cases columns with
    | nil => cases hnew
    | cons c rest => exact ⟨c, rest, rfl⟩
  have hc : c ∈ result.fields := by rw [hfields]; simp
  obtain ⟨proj, -, hproj⟩ := (mem_mapM hcolumns).mp (mem_cons_self (a := c))
  obtain ⟨p, hp, rfl⟩ := map_eq_ok hproj
  rw [← result.lengths _ hc, ← length_of_evaluateProjection arrow hp]

variable {out' : RecordBatch}

/-- The rows a query shows, as rows of the result over the wide batch in its own order. -/
lemma exists_sorts_of_take (hperm : indices.Perm (List.range result.numRows)) {τ : List ℕ}
    (hout : Finishes (result.take indices) (cols.map fun c => c.take indices) τ ir.limit out') :
    Sorts (lexLe (cols.map SortColumn.key)) (List.range result.numRows)
        (τ.map (indices.getD · 0)) ∧
      out'.rows = limited ir.limit ((τ.map (indices.getD · 0)).map result.row) := by
  have hlen : indices.length = result.numRows := by rw [hperm.length_eq, length_range]
  have hlt : ∀ i ∈ τ, i < indices.length := by
    intro i hi
    exact mem_range.mp (hout.sorts.perm.mem_iff.mp hi)
  refine ⟨⟨?_, ?_⟩, ?_⟩
  · refine (hout.sorts.perm.map _).trans ?_
    rw [numRows_take, map_getD_range]
    exact hperm
  · rw [pairwise_map]
    refine hout.sorts.sorted.imp_of_mem fun {i j} hi hj hij => ?_
    refine (lexLe_congr ?_).mp hij
    rw [List.map_map, List.forall₂_map_left_iff, List.forall₂_map_right_iff, List.forall₂_same]
    intro c _
    refine ⟨rfl, ?_, ?_⟩
    · exact congrArg cellKey (cell_take_getD c.values (hlt i hi))
    · exact congrArg cellKey (cell_take_getD c.values (hlt j hj))
  · rw [hout.rows, List.map_map]
    congr 1
    apply map_congr_left
    intro i hi
    rw [row_take _ _ (hlt i hi), Function.comp_apply, getD_of_lt (hlt i hi)]

include hresult hplain in
/-- The run over reordered rows. -/
lemma exists_finishQuery_take (hcols : orderColumns result wide ir = .ok cols)
    (hperm : indices.Perm (List.range wide.numRows)) (lexsort : Lexsort) :
    ∃ out', finishQuery arrow lexsort (wide.take indices) ir params = .ok out' ∧
      Finishes (result.take indices) (cols.map fun c => c.take indices)
        (orderIndices lexsort ir (cols.map fun c => c.take indices) indices.length) ir.limit
        out' := by
  have hcols' := orderColumns_take hplain hcols indices
  have hlt : ∀ i ∈ indices, i < wide.numRows := fun i hi => mem_range.mp (hperm.mem_iff.mp hi)
  have hresult' := @projectReturn_take arrow wide ir params hplain indices hlt
  rw [hresult] at hresult'
  exact ⟨_, finishQuery_eq_ok_iff.mpr ⟨_, _, hresult', hcols', rfl⟩, finishes lexsort hcols'⟩

/-- Rows that come sorted are shown as they come. -/
lemma rows_of_sorts
    (h : Sorts (lexLe (cols.map SortColumn.key)) (List.range result.numRows) indices)
    (hout : Finishes (result.take indices) (cols.map fun c => c.take indices)
      (orderIndices stableLexsort ir (cols.map fun c => c.take indices) indices.length) ir.limit
      out') : out'.rows = limited ir.limit (indices.map result.row) := by
  have hsorted : (List.range indices.length).Pairwise
      (lexLe ((cols.map fun c => c.take indices).map SortColumn.key)) := by
    rw [pairwise_iff_getElem]
    intro i j hi hj hij
    rw [length_range] at hi hj
    rw [getElem_range, getElem_range]
    refine (lexLe_congr ?_).mpr (pairwise_iff_getElem.mp h.sorted i j hi hj hij)
    rw [List.map_map, List.forall₂_map_left_iff, List.forall₂_map_right_iff, List.forall₂_same]
    intro c _
    exact ⟨rfl, congrArg cellKey (Column.cell_take _ _ hi),
      congrArg cellKey (Column.cell_take _ _ hj)⟩
  have hrange : (List.range indices.length).map (result.take indices).row =
      (result.take indices).rows := rfl
  rw [hout.rows, orderIndices_stable hsorted, hrange, rows_take]

include hresult hplain in
/-- A result with a row for every match is deterministic if and only if the rows that tie and
differ are beyond the limit. -/
theorem deterministic_plain_iff (hcols : orderColumns result wide ir = .ok cols) :
    Deterministic arrow ir params wide ↔
      TiesBeyond (lexLe (cols.map SortColumn.key)) result.row ir.limit
        (List.range result.numRows) := by
  have hrows := numRows_of_projectReturn hplain hresult
  constructor
  · intro h
    obtain ⟨out, hout⟩ : ∃ out, finishQuery arrow stableLexsort wide ir params = .ok out :=
      ⟨_, finishQuery_eq_ok_iff.mpr ⟨_, _, hresult, hcols, rfl⟩⟩
    have hshown : ∀ τ, Sorts (lexLe (cols.map SortColumn.key)) (List.range result.numRows) τ →
        limited ir.limit (τ.map result.row) = out.rows := by
      intro τ hτ
      have hperm := hτ.perm
      rw [hrows] at hperm
      obtain ⟨out', hout', -, hsame⟩ := h τ hperm stableLexsort stableLexsort _ hout
      obtain ⟨out'', hout'', hfinishes⟩ :=
        exists_finishQuery_take hplain hresult hcols hperm stableLexsort
      cases hout'.symm.trans hout''
      rw [← rows_of_sorts hτ hfinishes, hsame]
    exact tiesBeyond_of_forall (lexLe_trans _) (lexLe_total _) fun τ τ' hτ hτ' =>
      (hshown τ hτ).trans (hshown τ' hτ').symm
  · intro hties indices hperm lexsort lexsort' out hout
    obtain ⟨result', cols', hresult', hcols', rfl⟩ := finishQuery_eq_ok_iff.mp hout
    cases hresult.symm.trans hresult'
    cases hcols.symm.trans hcols'
    have hfinishes := finishes lexsort hcols
    obtain ⟨out', hout', hfinishes'⟩ := exists_finishQuery_take hplain hresult hcols hperm lexsort'
    obtain ⟨hsorts, hshown⟩ := exists_sorts_of_take (hrows ▸ hperm) hfinishes'
    refine ⟨out', hout', ?_, ?_⟩
    · rw [hfinishes'.schema, hfinishes.schema, schema_take]
    · rw [hshown, hfinishes.rows]
      exact limited_map_eq (lexLe_refl _) (lexLe_trans _) hties hsorts hfinishes.sorts

/-- The ids of the bound variables tell the rows of a wide batch apart. -/
def IdsIdentify (wide : RecordBatch) : Prop :=
  ∀ i < wide.numRows, ∀ j < wide.numRows,
    (∀ name c, isIdColumn name = true → wide.columnByName name = some c →
      c.cell i = c.cell j) → wide.row i = wide.row j

/-- Equal rows have equal projections. -/
lemma cell_eq_of_row {i j : ℕ} (hi : i < wide.numRows) (hj : j < wide.numRows)
    (hrow : wide.row i = wide.row j) {expr : IRExpr} {p : String × Column}
    (hp : evaluateProjection arrow wide expr params = .ok p) : p.2.cell i = p.2.cell j := by
  have hcolumn : ∀ {name c}, wideColumn wide name = .ok c → c.cell i = c.cell j := by
    intro name c hc
    unfold wideColumn at hc
    split at hc
    next hfound =>
      cases hc
      obtain ⟨field, hfind, rfl⟩ := Option.map_eq_some_iff.mp hfound
      exact map_inj_left.mp hrow field (mem_of_find?_eq_some hfind)
    next => cases hc
  have hliteral : ∀ {lit c}, literalToArray arrow lit wide.numRows = .ok c →
      c.cell i = c.cell j := by
    intro lit c hc
    obtain ⟨t, -, rfl⟩ := map_eq_ok hc
    simp [Column.cell, TypedCell.column, hi, hj]
  cases expr with
  | propAccess variable_ property =>
    obtain ⟨c, hc, rfl⟩ := map_eq_ok hp
    exact hcolumn hc
  | var name =>
    obtain ⟨c, hc, rfl⟩ := map_eq_ok hp
    exact hcolumn hc
  | literal lit =>
    obtain ⟨c, hc, rfl⟩ := map_eq_ok hp
    exact hliteral hc
  | param name =>
    simp only [evaluateProjection] at hp
    split at hp
    · obtain ⟨c, hc, rfl⟩ := map_eq_ok hp
      exact hliteral hc
    · cases hp
  | _ => cases hp

include hplain in
/-- The ids decide between rows that tie. -/
lemma tiesBeyond_of_ids (hids : IdsIdentify wide)
    (hresult : projectReturn arrow wide ir.returnExprs params = .ok result)
    (hcols : orderColumns result wide ir = .ok cols) (horder : ¬ ir.orderBy.isEmpty = true) :
    TiesBeyond (lexLe (cols.map SortColumn.key)) result.row ir.limit
      (List.range result.numRows) := by
  intro i hi j hj hij hji hne
  refine absurd ?_ hne
  rw [mem_range, numRows_of_projectReturn hplain hresult] at hi hj
  have hkeys := eq_of_lexLe hij hji
  simp only [orderColumns_eq horder, hplain, Bool.false_eq_true, if_false] at hcols
  obtain ⟨sorted, -, rfl⟩ := map_eq_ok hcols
  have hrow : wide.row i = wide.row j := by
    apply hids i hi j hj
    intro name c hname hc
    apply c.cell_eq_of_key
    have hmem : (⟨c, false⟩ : SortColumn) ∈ tiebreakColumns wide := by
      obtain ⟨field, hfind, rfl⟩ := Option.map_eq_some_iff.mp hc
      have hfield := mem_of_find?_eq_some hfind
      have hfieldName : field.1 = name := by simpa using List.find?_some hfind
      refine mem_filterMap.mpr ⟨name, ?_, by rw [hc]; rfl⟩
      rw [tiebreakNames, (perm_insertionSort _ _).mem_iff, mem_filter]
      exact ⟨List.mem_map.mpr ⟨field, hfield, hfieldName⟩, hname⟩
    exact hkeys _ (List.mem_map_of_mem (mem_append_right _ hmem))
  rw [projectReturn_plain hplain (returnExprs_ne hresult)] at hresult
  obtain ⟨columns, hcolumns, hnew⟩ := bind_eq_ok_iff.mp hresult
  apply map_congr_left
  intro field hfield
  rw [fields_of_tryNew hnew] at hfield
  obtain ⟨proj, -, hproj⟩ := (mem_mapM hcolumns).mp hfield
  obtain ⟨p, hp, rfl⟩ := map_eq_ok hproj
  have := cell_eq_of_row hi hj hrow hp
  exact this

end Plain

end Omnigraph.Query
