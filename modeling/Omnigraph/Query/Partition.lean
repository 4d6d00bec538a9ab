import Omnigraph.Query.Groups

/-!
# Aggregation is exact

Every row is in one group, with the rows that agree with it on the key columns, so the result does
not depend on the order of the rows, unless doubles that compare as equal differ. An input without
rows and without keys gives the columns that an input with rows gives if every column is named and
no minimum or maximum has another type than a double.
-/

namespace Omnigraph.Query

open List Except Compiler Grouped RecordBatch

variable {arrow : Arrow} {wide : RecordBatch} {projections : List IRProjection} {params : ParamMap}
  {resolved : List Resolved}

/-! ### The result -/

variable {b out : RecordBatch}

lemma rows_of_gives {groups : List (List ℕ)} (hne : resolved ≠ [])
    (h : List.Forall₂ (fun r field => r.Gives arrow groups field) resolved b.fields) :
    b.schema = resolved.map (fun r => (r.name, r.resultType)) ∧
      b.rows = groups.map fun group => resolved.map (groupCell arrow group) := by
  refine ⟨(h.map_eq fun r field hgives => by rw [hgives.name, hgives.dataType]).symm, ?_⟩
  obtain ⟨r, hr⟩ := exists_mem_of_ne_nil resolved hne
  obtain ⟨field, hfield, hgives⟩ := h.exists_right hr
  have hlen : b.numRows = groups.length := by
    rw [← b.lengths field hfield, hgives.cells, length_map]
  rw [rows, hlen]
  apply ext_getElem
  · simp
  · intro i hi hi'
    have hi : i < groups.length := by simpa using hi
    rw [getElem_map, getElem_map, getElem_range, row]
    refine (h.map_eq fun r field hgives => ?_).symm
    simp [Column.cell, hgives.cells, List.getElem?_eq_getElem hi]

variable (hresolved : projections.mapM (resolve arrow wide params) = .ok resolved)

include hresolved in
/-- The columns and the rows of a result: one row for each group. -/
lemma aggregateReturn_spec (hrows : ¬ (wide.numRows = 0 ∧ groupColumns resolved = []))
    (h : aggregateReturn arrow wide projections params = .ok out) :
    (∀ r ∈ resolved, r.Supported) ∧
      out.schema = resolved.map (fun r => (r.name, r.resultType)) ∧
      out.rows = (groupIndices arrow (groupColumns resolved) wide.numRows).map fun group =>
        resolved.map (groupCell arrow group) := by
  simp only [aggregateReturn, hresolved, ok_bind] at h
  rw [if_neg hrows] at h
  obtain ⟨columns, hcolumns, hout⟩ := bind_eq_ok_iff.mp h
  have hall := (mapM_eq_ok_iff.mp hcolumns).imp fun _ _ => gives_of_resultColumn
  have hfields := fields_of_tryNew hout
  refine ⟨fun r hr => ?_, rows_of_gives ?_ ?_⟩
  · obtain ⟨field, -, hsupported, -⟩ := hall.exists_right hr
    exact hsupported
  · rintro rfl
    cases hall
    cases hout
  · rw [hfields]
    exact hall.imp fun _ _ hgives => hgives.2

include hresolved in
/-- An aggregate query gives a result if the functions take the types of their columns. -/
lemma exists_aggregateReturn (hne : resolved ≠ []) (hsupported : ∀ r ∈ resolved, r.Supported)
    (hrows : ¬ (wide.numRows = 0 ∧ groupColumns resolved = [])) :
    ∃ out, aggregateReturn arrow wide projections params = .ok out := by
  simp only [aggregateReturn, hresolved, ok_bind]
  rw [if_neg hrows]
  obtain ⟨columns, hcolumns⟩ := exists_mapM_eq_ok_iff.mpr fun r hr =>
    @exists_resultColumn arrow _ (hsupported r hr)
      (groupIndices arrow (groupColumns resolved) wide.numRows)
  have hall := (mapM_eq_ok_iff.mp hcolumns).imp fun _ _ => gives_of_resultColumn
  have hcells : ∀ field ∈ columns, field.2.cells.length =
      (groupIndices arrow (groupColumns resolved) wide.numRows).length := by
    intro field hfield
    obtain ⟨r, -, -, hgives⟩ := hall.exists_left hfield
    rw [hgives.cells, length_map]
  have hcolumnsNe : columns ≠ [] := by
    rintro rfl
    cases hall
    exact hne rfl
  rw [hcolumns, ok_bind, tryNew_of_lengths hcolumnsNe hcells]
  exact ⟨_, rfl⟩

/-! ### Rows in another order -/

def Resolved.take (r : Resolved) (indices : List ℕ) : Resolved :=
  { r with column := r.column.take indices }

lemma resolve_take {indices : List ℕ} (h : ∀ i ∈ indices, i < wide.numRows)
    (proj : IRProjection) : resolve arrow (wide.take indices) params proj =
      (resolve arrow wide params proj).map fun r => r.take indices := by
  have hproj : ∀ (expr : IRExpr) (func : Option AggFunc),
      ((evaluateProjection arrow (wide.take indices) expr params).map fun p =>
        (⟨proj.asName.getD p.1, func, p.2⟩ : Resolved)) =
      ((evaluateProjection arrow wide expr params).map fun p =>
        (⟨proj.asName.getD p.1, func, p.2⟩ : Resolved)).map fun r => r.take indices := by
    intro expr func
    rw [evaluateProjection_take arrow h]
    cases evaluateProjection arrow wide expr params with
    | error e => rfl
    | ok p => rfl
  cases hexpr : proj.expr with
  | aggregate func arg =>
    simp only [resolve, hexpr]
    exact hproj _ _
  | _ =>
    simp only [resolve, hexpr]
    exact hproj _ _

lemma mapM_resolve_take {indices : List ℕ} (h : ∀ i ∈ indices, i < wide.numRows)
    (hresolved : projections.mapM (resolve arrow wide params) = .ok resolved) :
    projections.mapM (resolve arrow (wide.take indices) params) =
      .ok (resolved.map fun r => r.take indices) := by
  rw [mapM_eq_ok_iff] at hresolved ⊢
  rw [List.forall₂_map_right_iff]
  refine hresolved.imp fun proj r hr => ?_
  rw [resolve_take h, hr]
  rfl

lemma groupColumns_take (resolved : List Resolved) (indices : List ℕ) :
    groupColumns (resolved.map fun r => r.take indices) =
      (groupColumns resolved).map fun col => col.take indices := by
  simp [groupColumns, List.filter_map, Function.comp_def, Resolved.take]

/-- The groups of some rows. -/
def rowGroups (arrow : Arrow) (cols : List Column) (rows : List ℕ) : List (List ℕ) :=
  if cols = [] then [rows] else groups (buildGroupKey arrow cols) rows

variable {cols : List Column} {rows group : List ℕ} {i : ℕ}

lemma rowGroups_eq (h : ¬ (rows = [] ∧ cols = [])) :
    rowGroups arrow cols rows = groups (buildGroupKey arrow cols) rows := by
  rw [rowGroups]
  split_ifs with hcols
  · have hrows : rows ≠ [] := fun hrows => h ⟨hrows, hcols⟩
    subst hcols
    have hkeys : seen (rows.map (buildGroupKey arrow [])) = [""] := by
      obtain ⟨row, rest, rfl⟩ := exists_cons_of_ne_nil hrows
      have hone : ∀ n, seen (List.replicate (n + 1) "") = [""] := by
        intro n
        induction n with
        | zero => rfl
        | succ n ih =>
          rw [replicate_succ', seen_append_singleton, if_pos (by simp), ih]
      have hmap : (row :: rest).map (buildGroupKey arrow []) =
          List.replicate (rest.length + 1) "" := by
        rw [eq_replicate_iff]
        exact ⟨by simp, fun s hs => by
          obtain ⟨_, -, rfl⟩ := List.mem_map.mp hs
          rfl⟩
      rw [hmap, hone]
    rw [groups_eq, hkeys, map_cons, map_nil]
    have hall : rows.filter (fun row => buildGroupKey arrow [] row = "") = rows := by
      rw [filter_eq_self]
      intro row _
      rfl
    rw [hall]
  · rfl

lemma getD_of_lt {indices : List ℕ} (h : i < indices.length) : indices.getD i 0 = indices[i] := by
  simp [h]

lemma map_getD_range (indices : List ℕ) :
    (List.range indices.length).map (indices.getD · 0) = indices := by
  apply ext_getElem
  · simp
  · intro i h h'
    simp [h']

/-- The groups of a reordered batch are the groups of the reordered rows. -/
lemma groupIndices_take (cols : List Column) (indices : List ℕ) :
    (groupIndices arrow (cols.map fun col => col.take indices) indices.length).map
        (List.map (indices.getD · 0)) = rowGroups arrow cols indices := by
  rw [groupIndices, rowGroups]
  by_cases hcols : cols = []
  · rw [if_pos hcols, if_pos (by simp [hcols]), map_cons, map_nil, map_getD_range]
  · rw [if_neg hcols, if_neg (by simpa using hcols)]
    rw [@groups_congr _ _ _ (buildGroupKey arrow (cols.map fun col => col.take indices))
      (fun i => buildGroupKey arrow cols (indices.getD i 0)) _ ?_, groups_map,
      map_getD_range]
    intro i hi
    have hi := mem_range.mp hi
    rw [buildGroupKey_take _ _ hi, getD_of_lt hi]

lemma cell_take_getD (col : Column) {indices : List ℕ} (h : i < indices.length) :
    (col.take indices).cell i = col.cell (indices.getD i 0) := by
  rw [Column.cell_take _ _ h, getD_of_lt h]

lemma groupCell_take (r : Resolved) {indices : List ℕ} (hne : group ≠ [])
    (h : ∀ i ∈ group, i < indices.length) :
    groupCell arrow group (r.take indices) =
      groupCell arrow (group.map (indices.getD · 0)) r := by
  unfold groupCell Resolved.take
  cases r.func with
  | none =>
    obtain ⟨i, rest, rfl⟩ := exists_cons_of_ne_nil hne
    exact cell_take_getD _ (h i (by simp))
  | some func =>
    dsimp only
    rw [List.map_map]
    congr 1
    apply map_congr_left
    intro i hi
    exact cell_take_getD _ (h i hi)

lemma mem_groupIndices {numRows : ℕ} (h : ¬ (numRows = 0 ∧ cols = []))
    (hgroup : group ∈ groupIndices arrow cols numRows) : group ≠ [] ∧ ∀ i ∈ group, i < numRows := by
  have hrange : ¬ (List.range numRows = [] ∧ cols = []) := by simpa using h
  have hmem : group ∈ rowGroups arrow cols (List.range numRows) := hgroup
  rw [rowGroups_eq hrange] at hmem
  refine ⟨ne_nil_of_mem_groups hmem, fun i hi => ?_⟩
  have := (flatten_groups_perm _).mem_iff.mp (mem_flatten.mpr ⟨group, hmem, hi⟩)
  exact mem_range.mp this

/-- The result over reordered rows. -/
lemma aggregateReturn_take {indices : List ℕ} (h : ∀ i ∈ indices, i < wide.numRows)
    (hresolved : projections.mapM (resolve arrow wide params) = .ok resolved)
    (hrows : ¬ (indices = [] ∧ groupColumns resolved = []))
    (hout : aggregateReturn arrow (wide.take indices) projections params = .ok out) :
    out.rows = (rowGroups arrow (groupColumns resolved) indices).map fun group =>
      resolved.map (groupCell arrow group) := by
  have hne : ¬ ((wide.take indices).numRows = 0 ∧
      groupColumns (resolved.map fun r => r.take indices) = []) := by
    rw [numRows_take, groupColumns_take]
    simpa using hrows
  obtain ⟨-, -, hspec⟩ := aggregateReturn_spec (mapM_resolve_take h hresolved) hne hout
  rw [hspec, numRows_take, groupColumns_take, ← groupIndices_take, List.map_map]
  apply map_congr_left
  intro group hgroup
  rw [groupColumns_take] at hne
  obtain ⟨hgroupNe, hlt⟩ := mem_groupIndices hne hgroup
  rw [List.map_map]
  apply map_congr_left
  intro r _
  exact groupCell_take r hgroupNe hlt

/-! ### What does not depend on the order -/

def Resolved.isStable (r : Resolved) : Bool := r.func ≠ some .sum && r.func ≠ some .avg

/-- Sums and averages of doubles depend on the order of the summands. -/
def isStable (proj : IRProjection) : Bool :=
  match proj.expr with
  | .aggregate .sum _ | .aggregate .avg _ => false
  | _ => true

/-- The keys, counts, minima and maxima of a result row. -/
def stableCells (projections : List IRProjection) (row : List Cell) : List Cell :=
  ((projections.zip row).filter fun p => isStable p.1).map Prod.snd

variable {proj : IRProjection} {r : Resolved}

lemma isStable_of_resolve (h : resolve arrow wide params proj = .ok r) :
    isStable proj = r.isStable := by
  cases hexpr : proj.expr with
  | aggregate func arg =>
    simp only [resolve, hexpr] at h
    obtain ⟨p, -, rfl⟩ := map_eq_ok h
    cases func <;> simp [isStable, hexpr, Resolved.isStable]
  | _ =>
    simp only [resolve, hexpr] at h
    obtain ⟨p, -, rfl⟩ := map_eq_ok h
    simp [isStable, hexpr, Resolved.isStable]

include hresolved in
lemma stableCells_map (f : Resolved → Cell) :
    stableCells projections (resolved.map f) = (resolved.filter Resolved.isStable).map f := by
  have hall := mapM_eq_ok_iff.mp hresolved
  clear hresolved
  induction hall with
  | nil => rfl
  | cons h _ ih =>
    have hstable := isStable_of_resolve h
    simp only [stableCells] at ih
    simp only [stableCells, map_cons, zip_cons_cons, filter_cons, hstable]
    split_ifs
    · rw [map_cons, map_cons, ih]
    · exact ih

lemma countCells_perm {cells cells' : List Cell} (h : cells'.Perm cells) :
    countCells cells' = countCells cells := (h.filter _).length_eq

lemma key_headD {key : ℕ → String} {k : String} (h : rows.filter (key · = k) ≠ []) :
    key ((rows.filter (key · = k)).headD 0) = k := by
  obtain ⟨row, rest, hcons⟩ := exists_cons_of_ne_nil h
  have hmem : row ∈ rows.filter (key · = k) := by rw [hcons]; simp
  rw [hcons]
  exact of_decide_eq_true (mem_filter.mp hmem).2

/-- The rows that agree with a row on the key columns. -/
def rowsLike (resolved : List Resolved) (numRows row : ℕ) : List ℕ :=
  (List.range numRows).filter fun other =>
    ∀ col ∈ groupColumns resolved, col.cell other = col.cell row

/-- The minima and maxima are taken over settled cells. -/
def SettledGroups (resolved : List Resolved) (numRows : ℕ) : Prop :=
  ∀ r ∈ resolved, r.column.dataType.isFloat = true → ∀ isMin,
    r.func = some (extremeFunc isMin) → ∀ row < numRows,
      Settled isMin ((rowsLike resolved numRows row).map r.column.cell)

section Order

variable {numRows : ℕ} {indices : List ℕ} {k : String}

/-- The rows of a key. -/
def rowsOf (arrow : Arrow) (resolved : List Resolved) (k : String) (rows : List ℕ) : List ℕ :=
  rows.filter (buildGroupKey arrow (groupColumns resolved) · = k)

lemma rowsOf_eq_rowsLike (hrender : arrow.Renders) (row : ℕ) :
    rowsOf arrow resolved (buildGroupKey arrow (groupColumns resolved) row) (List.range numRows) =
      rowsLike resolved numRows row := by
  simp only [rowsOf, rowsLike, buildGroupKey_eq_iff hrender]

/-- A stable cell of a group is the same for its rows in another order. -/
lemma groupCell_rowsOf (hrender : arrow.Renders) (hsupported : ∀ r ∈ resolved, r.Supported)
    (hsettled : SettledGroups resolved numRows)
    (hperm : indices.Perm (List.range numRows))
    (hk : k ∈ (List.range numRows).map (buildGroupKey arrow (groupColumns resolved)))
    (hr : r ∈ resolved) (hstable : r.isStable = true) :
    groupCell arrow (rowsOf arrow resolved k indices) r =
      groupCell arrow (rowsOf arrow resolved k (List.range numRows)) r := by
  have hsame : (rowsOf arrow resolved k indices).Perm
      (rowsOf arrow resolved k (List.range numRows)) := hperm.filter _
  have hcells := hsame.map r.column.cell
  obtain ⟨row, hrow, hkey⟩ := List.mem_map.mp hk
  have hne : rowsOf arrow resolved k (List.range numRows) ≠ [] :=
    ne_nil_of_mem (mem_filter.mpr ⟨hrow, by simpa using hkey⟩)
  have hne' : rowsOf arrow resolved k indices ≠ [] := by
    intro h
    rw [h] at hsame
    exact hne hsame.nil_eq.symm
  unfold groupCell
  cases hfunc : r.func with
  | none =>
    dsimp only
    have hheads : buildGroupKey arrow (groupColumns resolved)
        ((rowsOf arrow resolved k indices).headD 0) =
        buildGroupKey arrow (groupColumns resolved)
          ((rowsOf arrow resolved k (List.range numRows)).headD 0) :=
      (key_headD hne').trans (key_headD hne).symm
    apply (buildGroupKey_eq_iff hrender).mp hheads
    exact List.mem_map_of_mem (mem_filter.mpr ⟨hr, by simp [hfunc]⟩)
  | some func =>
    dsimp only
    have hextreme : ∀ isMin, r.func = some (extremeFunc isMin) →
        minMaxCells isMin ((rowsOf arrow resolved k indices).map r.column.cell) =
          minMaxCells isMin ((rowsOf arrow resolved k (List.range numRows)).map
            r.column.cell) := by
      intro isMin hmin
      refine Settled.minMaxCells_perm ?_ hcells
      by_cases hfloat : r.column.dataType.isFloat = true
      · rw [← hkey, rowsOf_eq_rowsLike hrender]
        exact hsettled r hr hfloat isMin hmin row (mem_range.mp hrow)
      · have htype := hsupported r hr
        rw [Resolved.Supported, hmin] at htype
        refine r.column.settled (by simpa using hfloat) ?_ isMin _
        cases isMin <;> exact htype
    cases func with
    | count => rw [aggregateCell, aggregateCell, countCells_perm hcells]
    | min => exact hextreme true hfunc
    | max => exact hextreme false hfunc
    | sum | avg => simp [Resolved.isStable, hfunc] at hstable

lemma rows_aggregateReturn (hrows : ¬ (indices = [] ∧ groupColumns resolved = []))
    (hout : out.rows = (rowGroups arrow (groupColumns resolved) indices).map
      fun group => resolved.map (groupCell arrow group)) :
    out.rows = (seen (indices.map (buildGroupKey arrow (groupColumns resolved)))).map
      fun k => resolved.map (groupCell arrow (rowsOf arrow resolved k indices)) := by
  rw [hout, rowGroups_eq hrows, groups_eq, List.map_map]
  rfl

include hresolved in
lemma stableRows_aggregateReturn (hrows : ¬ (indices = [] ∧ groupColumns resolved = []))
    (hout : out.rows = (rowGroups arrow (groupColumns resolved) indices).map
      fun group => resolved.map (groupCell arrow group)) :
    out.rows.map (stableCells projections) =
      (seen (indices.map (buildGroupKey arrow (groupColumns resolved)))).map fun k =>
        (resolved.filter Resolved.isStable).map
          (groupCell arrow (rowsOf arrow resolved k indices)) := by
  rw [rows_aggregateReturn hrows hout, List.map_map]
  apply map_congr_left
  intro k _
  exact stableCells_map hresolved _

lemma perm_seen {l l' : List String} (h : l.Perm l') :
    (seen l).Perm (seen l') := by
  rw [perm_ext_iff_of_nodup (nodup_seen _) (nodup_seen _)]
  intro k
  rw [mem_seen, mem_seen, h.mem_iff]

/-- A row number list that lists the rows of one group first, in a given order. -/
lemma exists_perm_rowsOf (h : group.Perm (rowsOf arrow resolved k (List.range numRows))) :
    ∃ indices : List ℕ, indices.Perm (List.range numRows) ∧
      rowsOf arrow resolved k indices = group := by
  refine ⟨group ++ (List.range numRows).filter
    (fun i => !decide (buildGroupKey arrow (groupColumns resolved) i = k)), ?_, ?_⟩
  · exact (h.append_right _).trans (filter_append_perm _ _)
  · have hall : ∀ i ∈ group, buildGroupKey arrow (groupColumns resolved) i = k := by
      intro i hi
      exact of_decide_eq_true (mem_filter.mp (h.mem_iff.mp hi)).2
    rw [rowsOf, filter_append, filter_eq_self.mpr (by simpa using hall),
      List.filter_filter]
    simp

end Order

/-! ### One schema -/

variable {b' : RecordBatch} {c : Column}

variable (h : b.schema = b'.schema)

include h in
lemma dataType_columnByName (name : String) :
    (b.columnByName name).map Column.dataType = (b'.columnByName name).map Column.dataType := by
  have hfind : ∀ b : RecordBatch, (b.columnByName name).map Column.dataType =
      (b.schema.find? fun field => field.1 = name).map Prod.snd := by
    intro b
    simp only [columnByName, schema, List.find?_map, Option.map_map]
    rfl
  rw [hfind, hfind, h]

include h in
lemma wideColumn_schema {name : String} (hc : wideColumn b name = .ok c) :
    ∃ c', wideColumn b' name = .ok c' ∧ c'.dataType = c.dataType := by
  have htype := dataType_columnByName h name
  unfold wideColumn at hc ⊢
  cases hb : b.columnByName name with
  | none =>
    rw [hb] at hc
    cases hc
  | some d =>
    rw [hb] at hc htype
    cases hc
    obtain ⟨c', hc', hd⟩ := Option.map_eq_some_iff.mp htype.symm
    rw [hc']
    exact ⟨c', rfl, hd⟩

lemma literalToArray_numRows {lit : Literal} {n : ℕ} (h : literalToArray arrow lit n = .ok c)
    (n' : ℕ) : ∃ c', literalToArray arrow lit n' = .ok c' ∧ c'.dataType = c.dataType := by
  obtain ⟨t, ht, rfl⟩ := map_eq_ok h
  exact ⟨t.column n', by rw [literalToArray, ht]; rfl, rfl⟩

include h in
/-- The name and the type of an expression depend on the schema only. -/
lemma evaluateProjection_schema {expr : IRExpr} {p : String × Column}
    (hp : evaluateProjection arrow b expr params = .ok p) :
    ∃ p', evaluateProjection arrow b' expr params = .ok p' ∧ p'.1 = p.1 ∧
      p'.2.dataType = p.2.dataType := by
  cases expr with
  | propAccess variable_ property =>
    obtain ⟨c, hc, rfl⟩ := map_eq_ok hp
    obtain ⟨c', hc', htype⟩ := wideColumn_schema h hc
    exact ⟨(_, c'), by simp only [evaluateProjection, hc']; rfl, rfl, htype⟩
  | var name =>
    obtain ⟨c, hc, rfl⟩ := map_eq_ok hp
    obtain ⟨c', hc', htype⟩ := wideColumn_schema h hc
    exact ⟨(_, c'), by simp only [evaluateProjection, hc']; rfl, rfl, htype⟩
  | literal lit =>
    obtain ⟨c, hc, rfl⟩ := map_eq_ok hp
    obtain ⟨c', hc', htype⟩ := literalToArray_numRows hc b'.numRows
    exact ⟨(_, c'), by simp only [evaluateProjection, hc']; rfl, rfl, htype⟩
  | param name =>
    simp only [evaluateProjection] at hp ⊢
    split at hp
    · obtain ⟨c, hc, rfl⟩ := map_eq_ok hp
      obtain ⟨c', hc', htype⟩ := literalToArray_numRows hc b'.numRows
      exact ⟨(_, c'), by simp only [hc']; rfl, rfl, htype⟩
    · cases hp
  | _ => cases hp

/-- A projection resolved over two batches of one schema. -/
structure Resolved.Alike (r r' : Resolved) : Prop where
  name : r'.name = r.name
  func : r'.func = r.func
  dataType : r'.column.dataType = r.column.dataType

variable {r' : Resolved}

lemma Resolved.Alike.supported (h : r.Alike r') (hr : r.Supported) : r'.Supported := by
  simp only [Resolved.Supported, h.func, h.dataType] at *
  exact hr

lemma Resolved.Alike.resultType (h : r.Alike r') : r'.resultType = r.resultType := by
  simp only [Resolved.resultType, h.func, h.dataType]

include h in
lemma resolve_schema (hr : resolve arrow b params proj = .ok r) :
    ∃ r', resolve arrow b' params proj = .ok r' ∧ r.Alike r' := by
  cases hexpr : proj.expr with
  | aggregate func arg =>
    simp only [resolve, hexpr] at hr ⊢
    obtain ⟨p, hp, rfl⟩ := map_eq_ok hr
    obtain ⟨p', hp', hname, htype⟩ := evaluateProjection_schema h hp
    exact ⟨⟨proj.asName.getD p'.1, some func, p'.2⟩, by rw [hp']; rfl, by rw [hname], rfl, htype⟩
  | _ =>
    simp only [resolve, hexpr] at hr ⊢
    obtain ⟨p, hp, rfl⟩ := map_eq_ok hr
    obtain ⟨p', hp', hname, htype⟩ := evaluateProjection_schema h hp
    exact ⟨⟨proj.asName.getD p'.1, none, p'.2⟩, by rw [hp']; rfl, by rw [hname], rfl, htype⟩

include h in
lemma mapM_resolve_schema (hresolved : projections.mapM (resolve arrow b params) = .ok resolved) :
    ∃ resolved', projections.mapM (resolve arrow b' params) = .ok resolved' ∧
      List.Forall₂ Resolved.Alike resolved resolved' := by
  rw [mapM_eq_ok_iff] at hresolved
  simp only [mapM_eq_ok_iff]
  induction hresolved with
  | nil => exact ⟨[], .nil, .nil⟩
  | cons hr _ ih =>
    obtain ⟨resolved', hall, halike⟩ := ih
    obtain ⟨r', hr', hlike⟩ := resolve_schema h hr
    exact ⟨r' :: resolved', .cons hr' hall, .cons hlike halike⟩

/-- A batch of the same schema with one row of nulls. -/
def RecordBatch.nullRow (b : RecordBatch) : RecordBatch where
  fields := b.fields.map fun field =>
    (field.1, (⟨field.2.dataType, none, by simp⟩ : TypedCell).column 1)
  numRows := 1
  lengths field h := by
    obtain ⟨field, -, rfl⟩ := List.mem_map.mp h
    rfl

lemma RecordBatch.schema_nullRow (b : RecordBatch) : b.nullRow.schema = b.schema := by
  simp [nullRow, schema, TypedCell.column]

end Omnigraph.Query
