import Omnigraph.Lib.LastWins
import Omnigraph.Validate.Edges
import Omnigraph.Validate.Keys

/-!
# Merge batches by id

Before a merge is committed its batches become one: of the rows of an id the last one stays. The
evaluator reads the batches as they are, and keeps for each id what the last row has. Both see the
same rows.
-/

namespace Omnigraph.Dedupe

open List Except LastWins

/-! ### Columns and batches -/

/-- The cells at some rows. -/
def takeColumn (indices : List ℕ) : Column → Column
  | .string encoding cells => .string encoding (indices.map (cellAt cells))
  | .int type cells => .int type (indices.map (cellAt cells))
  | .float type cells => .float type (indices.map (cellAt cells))
  | .boolean cells => .boolean (indices.map (cellAt cells))
  | .other dataType nulls => .other dataType (indices.map fun row => nulls.getD row true)

def emptyColumn : ColumnType → Column
  | .string encoding => .string encoding []
  | .int type => .int type []
  | .float type => .float type []
  | .boolean => .boolean []
  | .other name => .other name []

/-- Two columns of one type, one after the other. -/
def appendColumn : Column → Column → Except OmniError Column
  | .string encoding cells, .string encoding' cells' =>
    if encoding = encoding' then .ok (.string encoding (cells ++ cells')) else mismatch
  | .int type cells, .int type' cells' =>
    if type = type' then .ok (.int type (cells ++ cells')) else mismatch
  | .float type cells, .float type' cells' =>
    if type = type' then .ok (.float type (cells ++ cells')) else mismatch
  | .boolean cells, .boolean cells' => .ok (.boolean (cells ++ cells'))
  | .other dataType nulls, .other dataType' nulls' =>
    if dataType = dataType' then .ok (.other dataType (nulls ++ nulls')) else mismatch
  | _, _ => mismatch
where
  mismatch : Except OmniError Column :=
    .error (.lance "It is not possible to concatenate arrays of different data types")

/-- The columns at the same positions. The names are those of the first batch. -/
def appendColumns : List (String × Column) → List (String × Column) →
    Except OmniError (List (String × Column))
  | [], [] => .ok []
  | (name, left) :: lefts, (_, right) :: rights => do
    let column ← appendColumn left right
    let columns ← appendColumns lefts rights
    return (name, column) :: columns
  | _, _ => .error (.lance "batches have different numbers of columns")

@[simp] lemma length_takeColumn (indices : List ℕ) (column : Column) :
    (takeColumn indices column).length = indices.length := by
  cases column <;> simp [takeColumn, Column.length]

variable {column left right : Column} {n : ℕ}

lemma length_appendColumn (h : appendColumn left right = .ok column) :
    column.length = left.length + right.length := by
  unfold appendColumn appendColumn.mismatch at h
  split at h <;> try split_ifs at h
  all_goals cases h
  all_goals exact length_append

lemma length_appendColumns {m : ℕ} : ∀ {lefts rights columns : List (String × Column)},
    (∀ entry ∈ lefts, entry.2.length = n) → (∀ entry ∈ rights, entry.2.length = m) →
      appendColumns lefts rights = .ok columns → ∀ entry ∈ columns, entry.2.length = n + m
  | [], [], columns, _, _, h => by
    cases h
    intro entry hentry
    cases hentry
  | (name, left) :: lefts, (name', right) :: rights, columns, hl, hr, h => by
    rw [appendColumns, bind_eq_ok_iff] at h
    obtain ⟨column, hcolumn, h⟩ := h
    rw [bind_eq_ok_iff] at h
    obtain ⟨rest, hrest, h⟩ := h
    cases h
    rw [forall_mem_cons] at hl hr ⊢
    refine ⟨?_, length_appendColumns hl.2 hr.2 hrest⟩
    rw [length_appendColumn hcolumn, hl.1, hr.1]
  | [], _ :: _, _, _, _, h => by cases h
  | _ :: _, [], _, _, _, h => by cases h

def takeBatch (batch : RecordBatch) (indices : List ℕ) : RecordBatch where
  columns := batch.columns.map fun entry => (entry.1, takeColumn indices entry.2)
  numRows := indices.length
  length_eq := by
    intro entry hentry
    obtain ⟨entry, -, rfl⟩ := List.mem_map.mp hentry
    exact length_takeColumn _ _

def appendBatch (left right : RecordBatch) : Except OmniError RecordBatch :=
  match h : appendColumns left.columns right.columns with
  | .error e => .error e
  | .ok columns =>
    .ok ⟨columns, left.numRows + right.numRows,
      length_appendColumns left.length_eq right.length_eq h⟩

/-- The names and types of the columns. -/
abbrev Schema := List (String × ColumnType)

def emptyBatch (schema : Schema) : RecordBatch where
  columns := schema.map fun field => (field.1, emptyColumn field.2)
  numRows := 0
  length_eq := by
    intro entry hentry
    obtain ⟨field, -, rfl⟩ := List.mem_map.mp hentry
    obtain ⟨name, type⟩ := field
    cases type <;> rfl

/-- Batches of a schema, one after the other. -/
def concatBatches (schema : Schema) (batches : List RecordBatch) : Except OmniError RecordBatch :=
  batches.foldlM appendBatch (emptyBatch schema)

/-! ### Dedupe -/

/-- The ids seen, the rows to keep of each batch, and whether a row was not kept. -/
structure Walk where
  seen : Finset String
  keep : List (List ℕ)
  anyDuplicates : Bool

def idColumn (batch : RecordBatch) : Except OmniError (List (Option String)) :=
  match batch.columnByName "id" with
  | none => .error (.manifestInternal "dedupe_merge_batches_by_id: batch has no 'id' column")
  | some (.string .utf8 cells) => .ok cells
  | some _ => .error (.manifestInternal "dedupe_merge_batches_by_id: 'id' column is not Utf8")

/-- A row is kept if its id was not seen, or is null; its number is kept in 32 bits. -/
def walkRow (ids : List (Option String)) (row : ℕ) (state : Finset String × List ℕ × Bool) :
    Finset String × List ℕ × Bool :=
  match cellAt ids row with
  | none => (state.1, row % 2 ^ 32 :: state.2.1, state.2.2)
  | some id =>
    if id ∈ state.1 then (state.1, state.2.1, true)
    else (insert id state.1, row % 2 ^ 32 :: state.2.1, state.2.2)

/-- The batches are walked from the last to the first, and so are the rows of each. -/
def walkBatches : List RecordBatch → Except OmniError Walk
  | [] => .ok ⟨∅, [], false⟩
  | batch :: batches => do
    let walk ← walkBatches batches
    let ids ← idColumn batch
    let (seen, kept, anyDuplicates) :=
      (List.range batch.numRows).foldr (walkRow ids) (walk.seen, [], walk.anyDuplicates)
    return ⟨seen, kept :: walk.keep, anyDuplicates⟩

/-- The rows that are kept of a batch, if there are any. -/
def slice (kept : RecordBatch × List ℕ) : Option RecordBatch :=
  if kept.2 = [] then none else some (takeBatch kept.1 kept.2)

def concatSliced (schema : Schema) : List RecordBatch → Except OmniError RecordBatch
  | [] => .error (.manifestInternal
      "dedupe_merge_batches_by_id: all rows were dropped (unexpected)")
  | [batch] => .ok batch
  | batches => concatBatches schema batches

def dedupeMergeBatchesById (schema : Schema) (batches : List RecordBatch) :
    Except OmniError RecordBatch :=
  if batches = [] then
    .error (.manifestInternal "dedupe_merge_batches_by_id: batches is empty")
  else do
    let walk ← walkBatches batches
    if ¬ walk.anyDuplicates then
      match batches with
      | [batch] => .ok batch
      | batches => concatBatches schema batches
    else concatSliced schema ((batches.zip walk.keep).filterMap slice)

/-! ### The rows of a batch -/

/-- A row, as the cells of its columns. -/
abbrev Fields := List (String × Column)

def rowFields (batch : RecordBatch) (row : ℕ) : Fields :=
  batch.columns.map fun entry => (entry.1, takeColumn [row] entry.2)

def batchRows (batch : RecordBatch) : List Fields :=
  (List.range batch.numRows).map (rowFields batch)

def schemaOf (batch : RecordBatch) : Schema :=
  batch.columns.map fun entry => (entry.1, entry.2.dataType)

variable {α : Type} {cells : List (Option α)} {i : ℕ} {indices : List ℕ}
  {batches : List RecordBatch} {schema : Schema}

lemma cellAt_map_cellAt (h : i < indices.length) :
    cellAt (indices.map (cellAt cells)) i = cellAt cells indices[i] := by
  conv_lhs => rw [cellAt, List.getElem?_map, List.getElem?_eq_getElem h]
  rfl

lemma cellAt_append {cells' : List (Option α)} {row : ℕ} :
    cellAt (cells ++ cells') row =
      if row < cells.length then cellAt cells row else cellAt cells' (row - cells.length) := by
  unfold cellAt
  split_ifs with h
  · rw [List.getElem?_append_left h]
  · rw [List.getElem?_append_right (not_lt.mp h)]

lemma takeColumn_takeColumn (h : i < indices.length) :
    takeColumn [i] (takeColumn indices column) = takeColumn [indices[i]] column := by
  cases column with
  | other dataType nulls => simp [takeColumn, getD_eq_getElem?_getD, h]
  | _ => simp [takeColumn, cellAt_map_cellAt h]

lemma batchRows_takeBatch (batch : RecordBatch) (indices : List ℕ) :
    batchRows (takeBatch batch indices) = indices.map (rowFields batch) := by
  apply ext_getElem
  · simp [batchRows, takeBatch]
  · intro i _ hi
    rw [length_map] at hi
    simp only [batchRows, getElem_map, getElem_range, rowFields, takeBatch, List.map_map]
    refine map_congr_left fun entry _ => ?_
    exact congrArg (Prod.mk entry.1) (takeColumn_takeColumn hi)

@[simp] lemma dataType_takeColumn (indices : List ℕ) (column : Column) :
    (takeColumn indices column).dataType = column.dataType := by
  cases column <;> rfl

@[simp] lemma schemaOf_takeBatch (batch : RecordBatch) (indices : List ℕ) :
    schemaOf (takeBatch batch indices) = schemaOf batch := by
  simp [schemaOf, takeBatch]

@[simp] lemma schemaOf_emptyBatch (schema : Schema) : schemaOf (emptyBatch schema) = schema := by
  rw [schemaOf, emptyBatch, List.map_map]
  refine map_id'' (fun field => ?_) schema
  obtain ⟨name, type⟩ := field
  cases type <;> rfl

/-- Columns of one type are put together; a cell comes from the column it is in. -/
lemma appendColumn_of_dataType (h : left.dataType = right.dataType) :
    ∃ column, appendColumn left right = .ok column ∧ column.dataType = left.dataType ∧
      ∀ row, takeColumn [row] column =
        if row < left.length then takeColumn [row] left
        else takeColumn [row - left.length] right := by
  cases left <;> cases right <;>
    simp only [Column.dataType, ColumnType.string.injEq, ColumnType.int.injEq,
      ColumnType.float.injEq, ColumnType.other.injEq, reduceCtorEq] at h
  case other.other name nulls name' nulls' =>
    subst h
    refine ⟨_, if_pos rfl, rfl, fun row => ?_⟩
    simp only [takeColumn, Column.length, map_cons, map_nil,
      getD_eq_getElem?_getD]
    split_ifs with hrow
    · rw [List.getElem?_append_left hrow]
    · rw [List.getElem?_append_right (not_lt.mp hrow)]
  case boolean.boolean cells cells' =>
    refine ⟨_, rfl, rfl, fun row => ?_⟩
    simp only [takeColumn, Column.length, map_cons, map_nil, cellAt_append]
    split_ifs <;> rfl
  all_goals
    subst h
    refine ⟨_, if_pos rfl, rfl, fun row => ?_⟩
    simp only [takeColumn, Column.length, map_cons, map_nil, cellAt_append]
    split_ifs <;> rfl

/-- Columns of one schema are put together, row by row. -/
lemma appendColumns_of_schema : ∀ {lefts rights : List (String × Column)},
    (∀ entry ∈ lefts, entry.2.length = n) →
    (lefts.map fun entry => (entry.1, entry.2.dataType)) =
      (rights.map fun entry => (entry.1, entry.2.dataType)) →
    ∃ columns, appendColumns lefts rights = .ok columns ∧
      (columns.map fun entry => (entry.1, entry.2.dataType)) =
        (lefts.map fun entry => (entry.1, entry.2.dataType)) ∧
      ∀ row, (columns.map fun entry => (entry.1, takeColumn [row] entry.2)) =
        if row < n then lefts.map fun entry => (entry.1, takeColumn [row] entry.2)
        else rights.map fun entry => (entry.1, takeColumn [row - n] entry.2)
  | [], [], _, _ => ⟨[], rfl, rfl, fun row => by split_ifs <;> rfl⟩
  | (name, left) :: lefts, (name', right) :: rights, hlength, hschema => by
    rw [map_cons, map_cons, List.cons.injEq, Prod.mk.injEq] at hschema
    obtain ⟨⟨rfl, htype⟩, hschema⟩ := hschema
    rw [forall_mem_cons] at hlength
    obtain ⟨column, hcolumn, hcolumnType, hrow⟩ := appendColumn_of_dataType htype
    obtain ⟨columns, hcolumns, htypes, hrows⟩ := appendColumns_of_schema hlength.2 hschema
    refine ⟨(name, column) :: columns, ?_, ?_, fun row => ?_⟩
    · rw [appendColumns, hcolumn, ok_bind, hcolumns]
      rfl
    · rw [map_cons, map_cons, htypes, hcolumnType]
    · rw [map_cons, map_cons, map_cons, hrow, hrows, hlength.1]
      split_ifs <;> rfl
  | [], _ :: _, _, hschema => by cases hschema
  | _ :: _, [], _, hschema => by cases hschema

lemma appendBatch_of_schema {left right : RecordBatch} (h : schemaOf left = schemaOf right) :
    ∃ batch, appendBatch left right = .ok batch ∧ schemaOf batch = schemaOf left ∧
      batchRows batch = batchRows left ++ batchRows right := by
  obtain ⟨columns, hcolumns, htypes, hrows⟩ := appendColumns_of_schema left.length_eq h
  have happend : ∃ hlength, appendBatch left right =
      .ok ⟨columns, left.numRows + right.numRows, hlength⟩ := by
    unfold appendBatch
    split
    next e he => cases he.symm.trans hcolumns
    next columns' hcolumns' =>
      obtain rfl := Except.ok.inj (hcolumns'.symm.trans hcolumns)
      exact ⟨length_appendColumns left.length_eq right.length_eq hcolumns, rfl⟩
  obtain ⟨hlength, happend⟩ := happend
  refine ⟨_, happend, htypes, ?_⟩
  show (List.range (left.numRows + right.numRows)).map _ = _
  rw [range_add, map_append, List.map_map]
  refine congrArg₂ _ (map_congr_left fun row hrow => ?_) (map_congr_left fun row _ => ?_)
  · exact (hrows row).trans (if_pos (mem_range.mp hrow))
  · refine (hrows _).trans ((if_neg (Nat.not_lt.mpr (Nat.le_add_right _ _))).trans ?_)
    rw [Nat.add_sub_cancel_left]
    rfl

/-- Batches of a schema become one batch of their rows. -/
lemma concatBatches_of_schema (h : ∀ batch ∈ batches, schemaOf batch = schema) :
    ∃ merged, concatBatches schema batches = .ok merged ∧ schemaOf merged = schema ∧
      batchRows merged = batches.flatMap batchRows := by
  have hrun : ∀ start : RecordBatch, schemaOf start = schema →
      ∃ merged, batches.foldlM appendBatch start = .ok merged ∧ schemaOf merged = schema ∧
        batchRows merged = batchRows start ++ batches.flatMap batchRows := by
    induction batches with
    | nil => exact fun start hstart => ⟨start, rfl, hstart, by simp⟩
    | cons batch batches ih =>
      intro start hstart
      rw [forall_mem_cons] at h
      obtain ⟨next, hnext, hschema, hrows⟩ := appendBatch_of_schema (hstart.trans h.1.symm)
      obtain ⟨merged, hmerged, hmergedSchema, hmergedRows⟩ :=
        ih h.2 next (hschema.trans hstart)
      refine ⟨merged, ?_, hmergedSchema, ?_⟩
      · rw [foldlM_cons, hnext, ok_bind, hmerged]
      · rw [hmergedRows, hrows, flatMap_cons, append_assoc]
  exact hrun (emptyBatch schema) (schemaOf_emptyBatch schema)

/-! ### The rows that are kept -/

/-- The id of a row, if it is not null. -/
def fieldId (fields : Fields) : Option String :=
  match fields.lookup "id" with
  | some (.string _ cells) => cellAt cells 0
  | _ => none

lemma lookup_map_snd {β γ : Type} (f : β → γ) (name : String) (l : List (String × β)) :
    (l.map fun entry => (entry.1, f entry.2)).lookup name = (l.lookup name).map f := by
  induction l with
  | nil => rfl
  | cons entry l ih =>
    rw [map_cons, lookup_cons, lookup_cons, ih]
    cases name == entry.1 <;> rfl

lemma idColumn_of_schema {batch : RecordBatch}
    (h : (schemaOf batch).lookup "id" = some (.string .utf8)) :
    ∃ ids, batch.columnByName "id" = some (.string .utf8 ids) ∧ idColumn batch = .ok ids ∧
      ∀ row, fieldId (rowFields batch row) = cellAt ids row := by
  rw [schemaOf, lookup_map_snd, Option.map_eq_some_iff] at h
  obtain ⟨column, hcolumn, htype⟩ := h
  cases column with
  | string encoding ids =>
    cases htype
    refine ⟨ids, hcolumn, ?_, fun row => ?_⟩
    · rw [idColumn, RecordBatch.columnByName, hcolumn]
    · rw [fieldId, rowFields, lookup_map_snd, hcolumn]
      rfl
  | _ => cases htype

lemma walkRow_eq (ids : List (Option String)) :
    walkRow ids = step (cellAt ids) (fun row => row % 2 ^ 32) := by
  funext row state
  unfold walkRow step
  cases cellAt ids row <;> rfl

/-- Row numbers below the limit are kept as they are. -/
lemma map_mod_keepBefore {ids : List (Option String)} {later : Finset String} (h : n ≤ 2 ^ 32) :
    (keepBefore (cellAt ids) later (List.range n)).map (fun row => row % 2 ^ 32) =
      keepBefore (cellAt ids) later (List.range n) := by
  refine (map_congr_left fun row hrow => ?_).trans (List.map_id _)
  have hmem := (keepBefore_sublist later (List.range n)).subset hrow
  exact Nat.mod_eq_of_lt ((mem_range.mp hmem).trans_le h)

/-- The batches of a schema with ids, each with rows that can be numbered in 32 bits. -/
structure Mergeable (schema : Schema) (batches : List RecordBatch) : Prop where
  schema_eq : ∀ batch ∈ batches, schemaOf batch = schema
  ids : schema.lookup "id" = some (.string .utf8)
  numRows : ∀ batch ∈ batches, batch.numRows ≤ 2 ^ 32

/-- The walk keeps the last row of each id and the rows without one. -/
lemma walkBatches_spec (h : Mergeable schema batches) :
    ∃ walk, walkBatches batches = .ok walk ∧
      walk.seen = LastWins.keys fieldId (batches.flatMap batchRows) ∧
      (batches.zip walk.keep).flatMap (fun kept => kept.2.map (rowFields kept.1)) =
        keep fieldId (batches.flatMap batchRows) ∧
      (walk.anyDuplicates = true ↔ (keep fieldId (batches.flatMap batchRows)).length <
        (batches.flatMap batchRows).length) := by
  obtain ⟨hschema, hid, hrows⟩ := h
  induction batches with
  | nil => exact ⟨_, rfl, rfl, rfl, by simp⟩
  | cons batch batches ih =>
    rw [forall_mem_cons] at hschema hrows
    obtain ⟨walk, hwalk, hseen, hkeep, hdup⟩ := ih hschema.2 hrows.2
    obtain ⟨ids, -, hids, hcells⟩ := idColumn_of_schema (by rw [hschema.1]; exact hid)
    have hkey : (fun row => fieldId (rowFields batch row)) = cellAt ids := funext hcells
    have hbatch : ∀ later, keepBefore fieldId later (batchRows batch) =
        (keepBefore (cellAt ids) later (List.range batch.numRows)).map
          (rowFields batch) := by
      intro later
      rw [batchRows, keepBefore_map, hkey]
    have hkeys : LastWins.keys fieldId (batchRows batch) =
        LastWins.keys (cellAt ids) (List.range batch.numRows) := by
      rw [batchRows, keys_map, hkey]
    have hall : keep fieldId ((batch :: batches).flatMap batchRows) =
        (keepBefore (cellAt ids) walk.seen (List.range batch.numRows)).map
          (rowFields batch) ++ keep fieldId (batches.flatMap batchRows) := by
      rw [flatMap_cons, keep, keepBefore_append, Finset.union_empty,
        ← hseen, hbatch]
      rfl
    refine ⟨_, by rw [walkBatches, hwalk, ok_bind, hids, ok_bind]; rfl, ?_, ?_, ?_⟩
    · rw [walkRow_eq, foldr_step]
      show _ ∪ walk.seen = _
      rw [flatMap_cons, LastWins.keys_append, hkeys, hseen]
    · rw [walkRow_eq, foldr_step, hall, zip_cons_cons, flatMap_cons, hkeep]
      dsimp only
      rw [map_mod_keepBefore hrows.1]
    · have hfirst : (keepBefore (cellAt ids) walk.seen
          (List.range batch.numRows)).length ≤ _ :=
        (keepBefore_sublist walk.seen (List.range batch.numRows)).length_le
      have hrest : (keep fieldId (batches.flatMap batchRows)).length ≤ _ :=
        (keepBefore_sublist ∅ (batches.flatMap batchRows)).length_le
      rw [walkRow_eq, foldr_step, hall, flatMap_cons, length_append,
        length_append, length_map]
      have hlength : (batchRows batch).length = (List.range batch.numRows).length := by
        rw [batchRows, length_map]
      dsimp only
      rw [Bool.or_eq_true, hdup, decide_eq_true_iff, hlength]
      omega

lemma slice_rows (batches : List (RecordBatch × List ℕ)) :
    (batches.filterMap slice).flatMap batchRows =
      batches.flatMap fun kept => kept.2.map (rowFields kept.1) := by
  induction batches with
  | nil => rfl
  | cons kept batches ih =>
    rw [flatMap_cons, ← ih, filterMap_cons, slice]
    split_ifs with hnil
    · rw [hnil]
      rfl
    · rw [flatMap_cons, batchRows_takeBatch]

lemma slice_schema {schema : Schema} {batches : List RecordBatch} {keep : List (List ℕ)}
    (h : ∀ batch ∈ batches, schemaOf batch = schema) :
    ∀ batch ∈ (batches.zip keep).filterMap slice, schemaOf batch = schema := by
  intro batch hbatch
  obtain ⟨kept, hkept, hslice⟩ := mem_filterMap.mp hbatch
  unfold slice at hslice
  split_ifs at hslice
  cases hslice
  rw [schemaOf_takeBatch]
  exact h kept.1 (of_mem_zip hkept).1

/-- The batches become one batch of the rows that are kept. -/
lemma dedupe_rows (hne : batches ≠ []) (h : Mergeable schema batches) :
    ∃ merged, dedupeMergeBatchesById schema batches = .ok merged ∧ schemaOf merged = schema ∧
      batchRows merged = keep fieldId (batches.flatMap batchRows) := by
  obtain ⟨walk, hwalk, -, hkeep, hdup⟩ := walkBatches_spec h
  unfold dedupeMergeBatchesById
  rw [if_neg hne, hwalk, ok_bind]
  by_cases hany : walk.anyDuplicates = true
  · rw [if_neg (not_not.mpr hany)]
    have hslices := slice_rows (batches.zip walk.keep)
    rw [hkeep] at hslices
    have hschema := @slice_schema schema batches walk.keep h.schema_eq
    generalize (batches.zip walk.keep).filterMap slice = sliced at hslices hschema
    match sliced, hslices, hschema with
    | [], hslices, _ =>
      have hrows : batches.flatMap batchRows ≠ [] := by
        rw [← length_pos_iff]
        exact Nat.zero_lt_of_lt (hdup.mp hany)
      exact absurd hslices.symm (keep_ne_nil hrows)
    | [batch], hslices, hschema =>
      refine ⟨batch, rfl, hschema batch mem_cons_self, ?_⟩
      rw [← hslices]
      simp
    | first :: second :: rest, hslices, hschema =>
      obtain ⟨merged, hmerged, hmergedSchema, hrows⟩ := concatBatches_of_schema hschema
      exact ⟨merged, hmerged, hmergedSchema, hrows.trans hslices⟩
  · rw [if_pos hany]
    have hsub : (keep fieldId (batches.flatMap batchRows)).Sublist _ :=
      keepBefore_sublist ∅ (batches.flatMap batchRows)
    have hall : keep fieldId (batches.flatMap batchRows) = batches.flatMap batchRows :=
      hsub.eq_of_length_le (not_lt.mp (mt hdup.mpr hany))
    rw [hall]
    obtain ⟨first, rest, rfl⟩ := exists_cons_of_ne_nil hne
    cases rest with
    | nil => exact ⟨first, rfl, h.schema_eq first mem_cons_self, by simp⟩
    | cons second rest => exact concatBatches_of_schema h.schema_eq

end Omnigraph.Dedupe
