import Omnigraph.Mutation.Pending

/-!
# Statements in sequence

What the statements of a mutation mean: each is applied to a plain map from id to row that the one
before left. The pending rows laid over the committed table are this map as long as no update
matches a pending row that a later one of the same id has superseded. An update that does counts
the row twice and writes the superseded version back.
-/

namespace Omnigraph

open List Except

open Compiler (CompOp IRExpr Literal)
open Schema (Field)
open Keyed (overlay lasts SelectsLasts upsert)

/-! ### The plain map -/

section Plain

variable (env : NodeWriteEnv)

def selects (filter : Sql) (row : TableRow) : Bool := filter.eval env.compare row = some true

/-- A statement on the rows of a map from id to row, with the number of rows it writes. -/
def applyStatement (s : Statement env.table) (rows : List TableRow) :
    Except OmniError (ℕ × List TableRow) :=
  match s with
  | .insert s => do
    let row ← insertedRow env s
    .ok (1, upsert TableRow.id rows row)
  | .update s => do
    let _ ← s.checkKeys
    let predSql ← predicateToSql s.predicate env.params false
    let matched := rows.filter (selects env predSql)
    if matched = [] then .ok (0, rows)
    else do
      let resolved ← resolveAssignments env s.assignments
      let rows ← rows.mapM fun row =>
        if selects env predSql row then assignRow env resolved row else .ok row
      .ok (matched.length, rows)

def applyStatements : List (Statement env.table) → List TableRow →
    Except OmniError (List ℕ × List TableRow)
  | [], rows => .ok ([], rows)
  | s :: rest, rows => do
    let (count, rows) ← applyStatement env s rows
    let (counts, rows) ← applyStatements rest rows
    .ok (count :: counts, rows)

/-! ### Reading the latest rows -/

/-- An update matches no pending row that a later pending row of its id supersedes. -/
def Statement.ReadsLatest (pending : Option PendingTable) : Statement env.table → Prop
  | .insert _ => True
  | .update s => ∀ predSql, predicateToSql s.predicate env.params false = .ok predSql →
      SelectsLasts TableRow.id (selects env predSql) (pendingRows pending)

/-- Every statement of a run reads the latest rows only. -/
def ReadsLatest : Option PendingTable → List (Statement env.table) → Prop
  | _, [] => True
  | pending, s :: rest => s.ReadsLatest env pending ∧
      ∀ count next, executeStatement env s pending = .ok (count, next) → ReadsLatest next rest

end Plain

/-! ### Rows and their ids -/

section Rows

variable {env : NodeWriteEnv} {resolved : HashMap String Literal}

variable {row : TableRow} {α : Type}

lemma rowOfColumns_id {f : Field} {id : String} {columns : List (Field × Option Literal)}
    (hname : f.name = "id") (h : rowOfColumns ((f, some (.string id)) :: columns) = .ok row) :
    row.id = id := by
  unfold rowOfColumns at h
  split at h
  case h_1 => cases h
  case h_2 =>
    rw [List.find?_cons_of_pos (by simpa using hname)] at h
    cases h
    rfl

/-- An update does not assign `id`. -/
lemma UpdateStatement.lookup_id {s : UpdateStatement env.table}
    (h : resolveAssignments env s.assignments = .ok resolved) : resolved.lookup "id" = none := by
  simp only [resolveAssignments, bind_eq_ok_iff, mapM_eq_ok_iff] at h
  obtain ⟨pairs, hpairs, hret⟩ := h
  cases hret
  rw [HashMap.lookup_insertAll_of_forall_ne]
  · rfl
  · intro pair hpair hid
    obtain ⟨a, ha, value, -, hpair'⟩ := hpairs.exists_left hpair
    cases hpair'
    apply env.table.id_notMem
    rw [← hid]
    exact s.assigned a ha

lemma assignRow_id {row' : TableRow} (hid : resolved.lookup "id" = none)
    (h : assignRow env resolved row = .ok row') : row'.id = row.id := by
  simp only [assignRow, env.table.schema_eq, mapM_cons, bind_eq_ok_iff] at h
  obtain ⟨columns, ⟨column, ⟨cell, hcell, hcolumn⟩, rest, -, hret⟩, hrow⟩ := h
  cases hcolumn
  cases hret
  have hblob : "id" ∉ env.table.nodeType.blobProperties := fun hmem =>
    env.table.id_notMem (env.table.blob_mem _ hmem)
  have hcell' : cell = some (.string row.id) := by
    have hname : (Schema.systemField "id").name = "id" := rfl
    rw [assignedCell, hname, if_neg hblob, hid] at hcell
    cases hcell
    rfl
  rw [hcell'] at hrow
  exact rowOfColumns_id rfl hrow

lemma map_id_mapM_assignRow {rows updated : List TableRow} (hid : resolved.lookup "id" = none)
    (h : rows.mapM (assignRow env resolved) = .ok updated) :
    updated.map TableRow.id = rows.map TableRow.id := by
  rw [mapM_eq_ok_iff] at h
  exact (h.map_eq fun _ _ hrow => (assignRow_id hid hrow).symm).symm

/-- Updating the selected rows in place is to leave the others and to add what they become. -/
lemma mapM_ite_perm {sel : α → Bool} {f : α → Except OmniError α} {rows updated : List α}
    (h : (rows.filter sel).mapM f = .ok updated) :
    ∃ rows', (rows.mapM fun row => if sel row then f row else .ok row) = .ok rows' ∧
      rows'.Perm (rows.filter (fun row => !sel row) ++ updated) := by
  induction rows generalizing updated with
  | nil => exact ⟨[], rfl, by cases h; exact List.Perm.refl _⟩
  | cons row rows ih =>
    cases hsel : sel row with
    | true =>
      rw [filter_cons_of_pos hsel, mapM_cons] at h
      simp only [bind_eq_ok_iff] at h
      obtain ⟨next, hnext, rest, hrest, hret⟩ := h
      cases hret
      obtain ⟨rows', hrows', hperm⟩ := ih hrest
      refine ⟨next :: rows', ?_, ?_⟩
      · rw [mapM_cons, if_pos hsel, hnext, hrows']
        rfl
      · rw [filter_cons_of_neg (by simp [hsel])]
        exact (hperm.cons next).trans perm_middle.symm
    | false =>
      rw [filter_cons_of_neg (by simp [hsel])] at h
      obtain ⟨rows', hrows', hperm⟩ := ih h
      refine ⟨row :: rows', ?_, ?_⟩
      · rw [mapM_cons, if_neg (by simp [hsel]), hrows']
        rfl
      · rw [filter_cons_of_pos (by simp [hsel])]
        exact hperm.cons row

lemma mapM_perm {β : Type} {f : α → Except OmniError β} {l l' : List α} {r : List β}
    (hperm : l'.Perm l) (h : l.mapM f = .ok r) : ∃ r', l'.mapM f = .ok r' ∧ r'.Perm r := by
  rw [mapM_eq_ok_iff] at h
  obtain ⟨r', hr', hperm'⟩ := perm_comp_forall₂ hperm h
  exact ⟨r', mapM_eq_ok_iff.mpr hr', hperm'⟩

end Rows

/-! ### One statement -/

section Step

variable {env : NodeWriteEnv} {pending next : Option PendingTable} {rows : List TableRow}

/-- The map that the pending rows and the committed table stand for. -/
def visibleRows (env : NodeWriteEnv) (pending : Option PendingTable) : List TableRow :=
  overlay TableRow.id env.committed.rows (pendingRows pending)

variable {batch matched : List TableRow} {mode : PendingMode} {filter : Sql} {count : ℕ}
  {s : Statement env.table}

lemma pendingRows_appendBatch (h : appendBatch env pending mode batch = .ok next) :
    pendingRows next = pendingRows pending ++ batch := by
  unfold appendBatch at h
  split at h
  case isTrue hbatch =>
    cases h
    rw [hbatch, append_nil]
  case isFalse =>
    rw [bind_eq_ok_iff] at h
    obtain ⟨_, -, hret⟩ := h
    cases hret
    cases pending <;> simp [pendingRows, pendingBatches, PendingTable.rows]

lemma visibleRows_appendBatch (h : appendBatch env pending mode batch = .ok next)
    (hnodup : (batch.map TableRow.id).Nodup) :
    visibleRows env next = (visibleRows env pending).filter
      (fun row => row.id ∉ batch.map TableRow.id) ++ batch := by
  rw [visibleRows, pendingRows_appendBatch h]
  exact Keyed.overlay_append hnodup

variable (h : scanWithPending env pending filter = .ok matched)

include h in
/-- A scan gives the committed rows that are not shadowed and all pending rows. -/
lemma scanWithPending_perm :
    matched.Perm ((env.committed.rows.filter fun row =>
        row.id ∉ (pendingRows pending).map TableRow.id).filter (selects env filter) ++
      (pendingRows pending).filter (selects env filter)) := by
  simp only [scanWithPending, bind_eq_ok_iff] at h
  obtain ⟨_, -, _, -, _, -, hret⟩ := h
  cases hret
  apply List.Perm.append
  · rw [filter_comm]
    exact env.scanOrder.perm _
  · exact env.scanOrder.perm _

/-- The visible rows a scan ought to give. -/
lemma filter_visibleRows (filter : Sql) :
    (visibleRows env pending).filter (selects env filter) =
      (env.committed.rows.filter fun row =>
        row.id ∉ (pendingRows pending).map TableRow.id).filter (selects env filter) ++
      (lasts TableRow.id (pendingRows pending)).filter (selects env filter) := by
  rw [visibleRows, overlay, filter_append]

include h in
/-- A scan gives the visible rows exactly when it passes over the superseded ones. -/
lemma length_scanWithPending_iff :
    ((visibleRows env pending).filter (selects env filter)).length = matched.length ↔
      SelectsLasts TableRow.id (selects env filter) (pendingRows pending) := by
  rw [(scanWithPending_perm h).length_eq, filter_visibleRows, length_append,
    length_append, Nat.add_left_cancel_iff, Keyed.length_filter_lasts_eq_iff]

/-- Of rows with distinct ids, those whose id is not that of a selected row are not selected. -/
lemma filter_id_notMem {sel : TableRow → Bool} {l : List TableRow}
    (hnodup : (l.map TableRow.id).Nodup) :
    l.filter (fun row => row.id ∉ (l.filter sel).map TableRow.id) =
      l.filter (fun row => !sel row) := by
  apply filter_congr
  intro row hrow
  have hmem : row.id ∈ (l.filter sel).map TableRow.id ↔ sel row = true := by
    rw [List.mem_map]
    constructor
    · rintro ⟨q, hq, hid⟩
      rw [mem_filter] at hq
      rw [← Keyed.functional_of_nodup hnodup q hq.1 row hrow hid]
      exact hq.2
    · exact fun hsel => ⟨row, mem_filter.mpr ⟨hrow, hsel⟩, rfl⟩
  cases hsel : sel row <;> simp [hmem, hsel]

variable (hrows : rows.Perm (visibleRows env pending))

include hrows in
lemma executeInsert_spec {s : InsertStatement}
    (h : executeInsert env s pending = .ok (count, next)) :
    ∃ rows', applyStatement env (.insert s) rows = .ok (count, rows') ∧
      rows'.Perm (visibleRows env next) := by
  simp only [executeInsert, bind_eq_ok_iff] at h
  obtain ⟨row, hrow, pending', happend, hret⟩ := h
  cases hret
  refine ⟨upsert TableRow.id rows row, bind_ok hrow rfl, ?_⟩
  rw [visibleRows_appendBatch happend (nodup_singleton _), upsert]
  simp only [map_singleton, mem_singleton]
  exact (hrows.filter _).append_right _

/-- What an update that succeeds has done. -/
lemma executeUpdate_cases {s : UpdateStatement env.table}
    (h : executeUpdate env s pending = .ok (count, next)) :
    ∃ predSql matched, s.checkKeys = .ok () ∧
      predicateToSql s.predicate env.params false = .ok predSql ∧
      scanWithPending env pending predSql = .ok matched ∧ count = matched.length ∧
      ((matched = [] ∧ next = pending) ∨
        (matched ≠ [] ∧ ∃ resolved updated, resolveAssignments env s.assignments = .ok resolved ∧
          applyAssignments env resolved matched = .ok updated ∧
          appendBatch env pending .upsert updated = .ok next)) := by
  simp only [executeUpdate, bind_eq_ok_iff] at h
  obtain ⟨_, hkeys, predSql, hsql, matched, hscan, hrest⟩ := h
  refine ⟨predSql, matched, hkeys, hsql, hscan, ?_⟩
  split at hrest
  case isTrue hempty =>
    cases hrest
    exact ⟨by rw [hempty]; rfl, .inl ⟨hempty, rfl⟩⟩
  case isFalse hne =>
    simp only [bind_eq_ok_iff] at hrest
    obtain ⟨resolved, hresolved, updated, hupdated, next', happend, hret⟩ := hrest
    cases hret
    exact ⟨rfl, .inr ⟨hne, resolved, updated, hresolved, hupdated, happend⟩⟩

/-- The rows after an update of rows that were matched once each. -/
lemma visibleRows_updated {resolved : HashMap String Literal} {updated : List TableRow}
    (hid : resolved.lookup "id" = none)
    (hmatched : matched.Perm ((visibleRows env pending).filter (selects env filter)))
    (hupdated : applyAssignments env resolved matched = .ok updated)
    (happend : appendBatch env pending .upsert updated = .ok next) :
    visibleRows env next =
      (visibleRows env pending).filter (fun row => !selects env filter row) ++ updated := by
  have hids := map_id_mapM_assignRow hid hupdated
  have hperm := hmatched.map TableRow.id
  have hnodup : ((visibleRows env pending).map TableRow.id).Nodup :=
    Keyed.nodup_map_overlay env.committed.nodup _
  rw [visibleRows_appendBatch happend, ← filter_id_notMem hnodup]
  · simp only [hids, hperm.mem_iff]
  · rw [hids, hperm.nodup_iff]
    exact hnodup.sublist (filter_sublist.map _)

include hrows in
lemma executeUpdate_spec {s : UpdateStatement env.table} {count : ℕ}
    (hlatest : (Statement.update s).ReadsLatest env pending)
    (h : executeUpdate env s pending = .ok (count, next)) :
    ∃ rows', applyStatement env (.update s) rows = .ok (count, rows') ∧
      rows'.Perm (visibleRows env next) := by
  obtain ⟨predSql, matched, hkeys, hsql, hscan, rfl, hcase⟩ := executeUpdate_cases h
  have hmatched := scanWithPending_perm hscan
  rw [← Keyed.filter_lasts_eq (hlatest predSql hsql), ← filter_visibleRows] at hmatched
  have hhits : (rows.filter (selects env predSql)).Perm matched :=
    (hrows.filter _).trans hmatched.symm
  rcases hcase with ⟨rfl, rfl⟩ | ⟨hne, resolved, updated, hresolved, hupdated, happend⟩
  · refine ⟨rows, Except.bind_ok hkeys (Except.bind_ok hsql ?_), hrows⟩
    rw [if_pos hhits.eq_nil]
    rfl
  · obtain ⟨updated', hupdated', hperm⟩ := mapM_perm hhits hupdated
    obtain ⟨rows', hrows', hperm'⟩ := mapM_ite_perm hupdated'
    refine ⟨rows', Except.bind_ok hkeys (Except.bind_ok hsql ?_), ?_⟩
    · rw [if_neg fun hnil => hne (hhits.symm.trans (by rw [hnil])).eq_nil]
      refine Except.bind_ok hresolved (Except.bind_ok hrows' ?_)
      rw [hhits.length_eq]
    · rw [visibleRows_updated (UpdateStatement.lookup_id hresolved) hmatched hupdated happend]
      exact hperm'.trans ((hrows.filter _).append hperm)

include hrows in
/-- An update that matches a superseded row counts more rows than the map has. -/
lemma executeUpdate_count_ne {s : UpdateStatement env.table} {count : ℕ} {rows' : List TableRow}
    (hlatest : ¬ (Statement.update s).ReadsLatest env pending)
    (h : executeUpdate env s pending = .ok (count, next)) :
    applyStatement env (.update s) rows ≠ .ok (count, rows') := by
  intro happly
  obtain ⟨predSql, matched, -, hsql, hscan, rfl, -⟩ := executeUpdate_cases h
  apply hlatest
  intro predSql' hsql'
  cases hsql.symm.trans hsql'
  rw [← length_scanWithPending_iff hscan, ← (hrows.filter _).length_eq]
  simp only [applyStatement, Except.bind_eq_ok_iff] at happly
  obtain ⟨_, -, predSql', hsql', hrest⟩ := happly
  cases hsql.symm.trans hsql'
  split at hrest
  case isTrue hnil =>
    simp only [Except.ok.injEq, Prod.mk.injEq] at hrest
    rw [hnil, ← hrest.1]
    rfl
  case isFalse =>
    simp only [Except.bind_eq_ok_iff, Except.ok.injEq, Prod.mk.injEq] at hrest
    obtain ⟨_, -, _, -, hcount, -⟩ := hrest
    exact hcount

include hrows in
lemma executeStatement_spec (hlatest : s.ReadsLatest env pending)
    (h : executeStatement env s pending = .ok (count, next)) :
    ∃ rows', applyStatement env s rows = .ok (count, rows') ∧
      rows'.Perm (visibleRows env next) := by
  cases s with
  | insert s => exact executeInsert_spec hrows h
  | update s => exact executeUpdate_spec hrows hlatest h

include hrows in
lemma executeStatement_count_ne {rows' : List TableRow} (hlatest : ¬ s.ReadsLatest env pending)
    (h : executeStatement env s pending = .ok (count, next)) :
    applyStatement env s rows ≠ .ok (count, rows') := by
  cases s with
  | insert s => exact absurd trivial hlatest
  | update s => exact executeUpdate_count_ne hrows hlatest h

end Step

/-! ### Whole runs -/

variable {counts : List ℕ}

section Run

variable {env : NodeWriteEnv}

/-- Statements do the same one by one if and only if each reads the latest rows. -/
lemma applyStatements_iff {ops : List (Statement env.table)} {pending last : Option PendingTable}
    {rows : List TableRow} (hrows : rows.Perm (visibleRows env pending))
    (h : executeStatements env ops pending = .ok (counts, last)) :
    (∃ rows', applyStatements env ops rows = .ok (counts, rows') ∧
      rows'.Perm (visibleRows env last)) ↔ ReadsLatest env pending ops := by
  induction ops generalizing pending counts rows with
  | nil =>
    cases h
    exact iff_of_true ⟨rows, rfl, hrows⟩ trivial
  | cons s rest ih =>
    simp only [executeStatements, bind_eq_ok_iff] at h
    obtain ⟨⟨count, next⟩, hstep, ⟨counts', last'⟩, hrest, hret⟩ := h
    cases hret
    constructor
    · rintro ⟨rows', happly, hperm⟩
      simp only [applyStatements, bind_eq_ok_iff] at happly
      obtain ⟨⟨count', rows₁⟩, happly₁, ⟨counts'', rows₂⟩, happly₂, hret⟩ := happly
      cases hret
      have hlatest : s.ReadsLatest env pending := by
        by_contra hstale
        exact executeStatement_count_ne hrows hstale hstep happly₁
      obtain ⟨rows₁', happly₁', hrows₁⟩ := executeStatement_spec hrows hlatest hstep
      cases happly₁.symm.trans happly₁'
      refine ⟨hlatest, fun count' next' hstep' => ?_⟩
      cases hstep.symm.trans hstep'
      exact (ih hrows₁ hrest).mp ⟨rows₂, happly₂, hperm⟩
    · rintro ⟨hlatest, hnext⟩
      obtain ⟨rows₁, happly₁, hrows₁⟩ := executeStatement_spec hrows hlatest hstep
      obtain ⟨rows', happly, hperm⟩ := (ih hrows₁ hrest).mpr (hnext count next hstep)
      exact ⟨rows', bind_ok happly₁ (bind_ok happly rfl), hperm⟩

/-- Walking backwards over the rows keeps the last one of each id. -/
lemma foldr_keepUnseen (rows : List TableRow) :
    (rows.foldr keepUnseen ([], [])).2 = lasts TableRow.id rows ∧
      ∀ id, id ∈ (rows.foldr keepUnseen ([], [])).1 ↔ id ∈ rows.map TableRow.id := by
  induction rows with
  | nil => exact ⟨rfl, fun _ => Iff.rfl⟩
  | cons row rest ih =>
    obtain ⟨hkept, hseen⟩ := ih
    rw [foldr_cons, keepUnseen, lasts]
    by_cases hrow : row.id ∈ rest.map TableRow.id
    · rw [if_pos ((hseen row.id).mpr hrow), if_pos hrow]
      refine ⟨hkept, fun id => ?_⟩
      rw [hseen, map_cons, mem_cons]
      refine ⟨.inr, ?_⟩
      rintro (rfl | hid)
      · exact hrow
      · exact hid
    · rw [if_neg fun h => hrow ((hseen row.id).mp h), if_neg hrow, hkept]
      refine ⟨rfl, fun id => ?_⟩
      rw [mem_cons, hseen, map_cons, mem_cons]

lemma checkStrictInsert_eq_ok {rows : List TableRow} {u : Unit}
    (h : checkStrictInsert env rows = .ok u) :
    (rows.map TableRow.id).Nodup ∧
      ∀ row ∈ env.committed.rows, row.id ∉ rows.map TableRow.id := by
  unfold checkStrictInsert at h
  split at h
  case h_1 => cases h
  case h_2 hdistinct =>
    split at h
    case h_1 => cases h
    case h_2 habsent =>
      rw [List.find?_eq_none] at hdistinct habsent
      refine ⟨nodup_iff_count_le_one.mpr fun id => ?_, fun row hrow => ?_⟩
      · by_cases hid : id ∈ rows.map TableRow.id
        · obtain ⟨row, hrow, rfl⟩ := List.mem_map.mp hid
          exact Nat.le_of_not_lt (by simpa using hdistinct row hrow)
        · rw [count_eq_zero_of_not_mem hid]
          exact Nat.zero_le 1
      · simpa using habsent row hrow

/-- The commit leaves the rows that were visible at the end. -/
lemma commitPending_eq {pending : Option PendingTable} {rows : List TableRow}
    (h : commitPending env pending = .ok rows) : rows = visibleRows env pending := by
  rcases pending with _ | ⟨_ | _, batches⟩
  · cases h
    simp [visibleRows, overlay, lasts, pendingRows]
  · simp only [commitPending, bind_eq_ok_iff] at h
    obtain ⟨_, hcheck, hret⟩ := h
    cases hret
    obtain ⟨hnodup, habsent⟩ := checkStrictInsert_eq_ok hcheck
    show _ = overlay TableRow.id env.committed.rows batches.flatten
    rw [overlay, Keyed.lasts_eq_self hnodup,
      filter_eq_self.mpr fun row hrow => decide_eq_true (habsent row hrow)]
  · cases h
    show _ = overlay TableRow.id env.committed.rows batches.flatten
    rw [mergeInsert, dedupeMergeBatchesById, (foldr_keepUnseen batches.flatten).1, overlay]
    simp only [Keyed.mem_map_lasts]

/-- The statements of a mutation that commits act one after the other on a plain map from id to
row, with its counts, exactly when no update matches a superseded pending row. -/
theorem executeStatements_sequential_iff (ops : List (Statement env.table))
    {pending : Option PendingTable} {counts : List ℕ} {rows : List TableRow}
    (hrun : executeStatements env ops none = .ok (counts, pending))
    (hcommit : commitPending env pending = .ok rows) :
    (∃ rows', applyStatements env ops env.committed.rows = .ok (counts, rows') ∧
      rows.Perm rows') ↔ ReadsLatest env none ops := by
  have hstart : env.committed.rows.Perm (visibleRows env none) := by
    simp [visibleRows, overlay, lasts, pendingRows]
  rw [← applyStatements_iff hstart hrun, commitPending_eq hcommit]
  simp only [perm_comm]

end Run

/-! ### A superseded row -/

section Sample

/-- `node Person { name: String @key  age: I32? }` -/
def personTable : NodeTable where
  nodeType :=
    { name := "Person", implements := [], properties := ∅, key := some ["name"]
      uniqueConstraints := [], indices := [["name"]], rangeConstraints := []
      checkConstraints := [], embedSources := ∅, blobProperties := []
      arrowSchema := [⟨"id", .utf8, false⟩, ⟨"name", .utf8, false⟩, ⟨"age", .int32, true⟩] }
  fields := [⟨"name", .utf8, false⟩, ⟨"age", .int32, true⟩]
  schema_eq := rfl
  id_notMem := by decide
  blob_mem := by simp

def annRow (age : ℤ) : TableRow :=
  ⟨"ann", HashMap.insertAll (·.1) (·.2) ∅ [("name", .string "ann"), ("age", .integer age)]⟩

/-- Equality of integers and strings. -/
def equalCells : CompOp → Option Literal → Literal → Truth
  | .eq, some (.integer a), .integer b => some (a = b)
  | .eq, some (.string a), .string b => some (a = b)
  | _, _, _ => none

/-- One committed row, `ann` of age 10. -/
def annEnv : NodeWriteEnv where
  table := personTable
  committed := ⟨[annRow 10], by simp⟩
  params := ∅
  compare := equalCells
  codec :=
    { ofInt := fun _ => 0, checkedF32 := fun f _ => .ok f, checkedF64 := fun f _ => .ok f
      parseDate32 := fun s => .ok (.date s), parseDate64 := fun s => .ok (.dateTime s)
      blobValue := fun s => .ok (.string s)
      canonicalScalarKey := fun _ cell => match cell with
        | .string s => .ok s
        | _ => .error (.manifest "scalar key: unsupported column type")
      keyTuple := fun parts => ",".intercalate parts }
  scanOrder := IterOrder.stored TableRow
  batchBytes := fun rows => 100 * rows.length

/-- `update Person set age = <age> where <property> = <value>` -/
def setAge (age : ℤ) (property : String) (value : Literal) : Statement annEnv.table :=
  .update
    { assignments := [⟨"age", .literal (.integer age)⟩]
      predicate := ⟨property, .eq, .literal value⟩
      assigned := by simp [annEnv, personTable] }

/-- Two updates of one row; the second selects what the first wrote. -/
def chained : List (Statement annEnv.table) :=
  [setAge 20 "name" (.string "ann"), setAge 30 "age" (.integer 20)]

/-- A third update, for an age that `ann` no longer has. -/
def overtaken : List (Statement annEnv.table) := chained ++ [setAge 40 "age" (.integer 20)]

/-- The counts of a run and the ages it leaves. -/
def outcome (result : Except OmniError (List ℕ × List TableRow)) :
    Option (List ℕ × List (Option ℤ)) :=
  match result with
  | .error _ => none
  | .ok (counts, rows) => some (counts, rows.map fun row =>
      match row.cell "age" with
      | some (.integer age) => some age
      | _ => none)

def executed (ops : List (Statement annEnv.table)) : Except OmniError (List ℕ × List TableRow) := do
  let (counts, pending) ← executeStatements annEnv ops none
  let rows ← commitPending annEnv pending
  .ok (counts, rows)

lemma exists_run {ops : List (Statement annEnv.table)} {ages : List (Option ℤ)}
    (h : outcome (executed ops) = some (counts, ages)) :
    ∃ pending rows, executeStatements annEnv ops none = .ok (counts, pending) ∧
      commitPending annEnv pending = .ok rows := by
  cases hrun : executed ops with
  | error e =>
    rw [hrun] at h
    cases h
  | ok result =>
    rw [hrun] at h
    simp only [executed, bind_eq_ok_iff] at hrun
    obtain ⟨⟨counts', pending⟩, hstatements, rows, hcommit, hret⟩ := hrun
    cases hret
    cases h
    exact ⟨pending, rows, hstatements, hcommit⟩

theorem chained_sequential : ∃ counts pending rows,
    executeStatements annEnv chained none = .ok (counts, pending) ∧
      commitPending annEnv pending = .ok rows ∧
      ((∃ rows', applyStatements annEnv chained annEnv.committed.rows = .ok (counts, rows') ∧
        rows.Perm rows') ↔ ReadsLatest annEnv none chained) := by
  obtain ⟨pending, rows, hrun, hcommit⟩ :=
    exists_run (show outcome (executed chained) = some ([1, 1], [some 30]) by decide +kernel)
  exact ⟨[1, 1], pending, rows, hrun, hcommit,
    executeStatements_sequential_iff chained hrun hcommit⟩

/-- The third update matches the version of `ann` that the second one superseded. -/
theorem overtaken_not_sequential : ∃ counts pending rows,
    executeStatements annEnv overtaken none = .ok (counts, pending) ∧
      commitPending annEnv pending = .ok rows ∧
      ¬ ∃ rows', applyStatements annEnv overtaken annEnv.committed.rows = .ok (counts, rows') ∧
        rows.Perm rows' := by
  obtain ⟨pending, rows, hrun, hcommit⟩ :=
    exists_run (show outcome (executed overtaken) = some ([1, 1, 1], [some 40]) by decide +kernel)
  refine ⟨[1, 1, 1], pending, rows, hrun, hcommit, ?_⟩
  rintro ⟨rows', happly, -⟩
  have hplain : outcome (applyStatements annEnv overtaken annEnv.committed.rows) =
      some ([1, 1, 0], [some 30]) := by decide +kernel
  rw [happly] at hplain
  cases hplain

end Sample

end Omnigraph
