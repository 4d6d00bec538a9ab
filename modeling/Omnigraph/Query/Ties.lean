import Omnigraph.Query.Deterministic
import Omnigraph.Query.Exact

/-!
# Aggregate queries with ties

The groups of an aggregate query come in the order of their first rows and have no ids that could
decide between groups that tie. What an ordered aggregate query shows is the same for every order of
the rows if and only if groups that tie are beyond the limit and the groups within it have one row
whatever the order of their members.
-/

namespace Omnigraph.Query

open List Except Compiler Ranked RecordBatch

variable {arrow : Arrow} {wide : RecordBatch} {ir : QueryIR} {params : ParamMap}
  {resolved : List Resolved} {indices indices' : List ℕ} {k : String}

/-! ### The rows of the groups -/

/-- The keys of some rows, in the order they first occur. -/
def groupKeys (arrow : Arrow) (resolved : List Resolved) (indices : List ℕ) : List String :=
  Grouped.seen (indices.map (buildGroupKey arrow (groupColumns resolved)))

/-- The result row of a key. -/
def groupRow (arrow : Arrow) (resolved : List Resolved) (indices : List ℕ) (k : String) :
    List Cell :=
  resolved.map (groupCell arrow (rowsOf arrow resolved k indices))

/-- The result rows of some rows. -/
def groupRows (arrow : Arrow) (resolved : List Resolved) (indices : List ℕ) : List (List Cell) :=
  (groupKeys arrow resolved indices).map (groupRow arrow resolved indices)

lemma mem_groupKeys :
    k ∈ groupKeys arrow resolved indices ↔
      k ∈ indices.map (buildGroupKey arrow (groupColumns resolved)) := Grouped.mem_seen

lemma rowsOf_ne_nil (h : k ∈ groupKeys arrow resolved indices) :
    rowsOf arrow resolved k indices ≠ [] := by
  obtain ⟨row, hrow, hkey⟩ := List.mem_map.mp (mem_groupKeys.mp h)
  exact ne_nil_of_mem (mem_filter.mpr ⟨hrow, by simpa using hkey⟩)

/-- The row of a group tells its key. -/
lemma key_of_groupRow {k' : String} (hk : k ∈ groupKeys arrow resolved indices)
    (hk' : k' ∈ groupKeys arrow resolved indices')
    (h : groupRow arrow resolved indices k = groupRow arrow resolved indices' k') : k = k' := by
  rw [← key_headD (rowsOf_ne_nil hk), ← key_headD (rowsOf_ne_nil hk')]
  apply String.toList_inj.mp
  rw [toList_buildGroupKey, toList_buildGroupKey]
  apply flatMap_congr
  intro col hcol
  obtain ⟨r, hr, rfl⟩ := List.mem_map.mp hcol
  obtain ⟨hr, hnone⟩ := mem_filter.mp hr
  have hnone : r.func = none := of_decide_eq_true hnone
  have hcell := map_inj_left.mp h r hr
  simp only [groupCell, hnone, rowsOf] at hcell
  rw [hcell]

lemma nodup_groupRows (arrow : Arrow) (resolved : List Resolved) (indices : List ℕ) :
    (groupRows arrow resolved indices).Nodup :=
  (Grouped.nodup_seen _).map_on fun _ hk _ hk' h => key_of_groupRow hk hk' h

lemma mem_groupRows {row : List Cell} : row ∈ groupRows arrow resolved indices ↔
    ∃ k ∈ groupKeys arrow resolved indices, groupRow arrow resolved indices k = row :=
  List.mem_map

/-- Some order of the rows gives the groups in a given order. -/
lemma exists_groupRows {τ : List (List Cell)} (h : τ.Perm (groupRows arrow resolved indices)) :
    ∃ indices' : List ℕ, indices'.Perm indices ∧ groupRows arrow resolved indices' = τ := by
  obtain ⟨ks, hks, rfl⟩ := exists_perm_map h
  have hnodup : ks.Nodup := hks.nodup_iff.mpr (Grouped.nodup_seen _)
  refine ⟨ks.flatMap fun k => rowsOf arrow resolved k indices, ?_, ?_⟩
  · have hall : indices.filter (buildGroupKey arrow (groupColumns resolved) · ∈ ks) = indices := by
      rw [filter_eq_self]
      intro i hi
      exact decide_eq_true (hks.mem_iff.mpr (mem_groupKeys.mpr (List.mem_map_of_mem hi)))
    have hperm := @Grouped.flatMap_filter_perm _ _ _ (buildGroupKey arrow (groupColumns resolved))
      _ hnodup indices
    rw [hall] at hperm
    exact hperm
  · have hkeys : groupKeys arrow resolved (ks.flatMap fun k => rowsOf arrow resolved k indices) =
        ks := Grouped.seen_flatMap_filter hnodup fun k hk => mem_groupKeys.mp (hks.mem_iff.mp hk)
    rw [groupRows, hkeys]
    apply map_congr_left
    intro k hk
    rw [groupRow, groupRow]
    congr 2
    exact Grouped.filter_flatMap_filter hnodup indices hk

/-! ### Sort keys of a result row -/

/-- The key that reads the column of a name. -/
def placeKey (names : List String) (descending : Bool) (name : String) :
    Option (Bool × (List Cell → SortKey)) :=
  if name ∈ names then
    some (descending, fun row => cellKey (row.getD (names.idxOf name) none))
  else none

def orderKey (names : List String) (o : IROrdering) : Option (Bool × (List Cell → SortKey)) :=
  match o.expr with
  | .propAccess variable_ property => placeKey names o.descending (variable_ ++ "." ++ property)
  | .aliasRef alias_ => placeKey names o.descending alias_
  | _ => none

def tiebreakKeys (names : List String) : List (Bool × (List Cell → SortKey)) :=
  ((names.filter isIdColumn).insertionSort (· ≤ ·)).filterMap (placeKey names false)

/-- The keys the rows of an aggregate query are sorted by, if its columns have the names. -/
def rowKeys (names : List String) (orderBy : List IROrdering) :
    Option (List (Bool × (List Cell → SortKey))) :=
  if orderBy.isEmpty then some []
  else (orderBy.mapM (orderKey names)).map fun keys => keys ++ tiebreakKeys names

/-- A key reads a sort column off the rows of its batch. -/
def Reads (b : RecordBatch) (c : SortColumn) (key : Bool × (List Cell → SortKey)) : Prop :=
  c.descending = key.1 ∧ ∀ i, cellKey (c.values.cell i) = key.2 (b.row i)

variable {name : String} {b : RecordBatch}

lemma getD_idxOf_of_find? {fields : List (String × Column)} {field : String × Column}
    (h : fields.find? (fun field => decide (field.1 = name)) = some field) :
    name ∈ fields.map Prod.fst ∧ ∀ i, (fields.map fun field => field.2.cell i).getD
      ((fields.map Prod.fst).idxOf name) none = field.2.cell i := by
  induction fields with
  | nil => cases h
  | cons first fields ih =>
    by_cases hname : first.1 = name
    · simp only [List.find?_cons, hname, decide_true] at h
      cases h
      subst hname
      simp
    · simp only [List.find?_cons, hname, decide_false] at h
      obtain ⟨hmem, hcell⟩ := ih h
      refine ⟨mem_cons_of_mem _ hmem, fun i => ?_⟩
      rw [map_cons, map_cons, idxOf_cons_ne _ hname, getD_cons_succ]
      exact hcell i

lemma reads_of_columnByName {c : Column} (descending : Bool) (h : b.columnByName name = some c) :
    ∃ key,
      placeKey (b.schema.map Prod.fst) descending name = some key ∧
        Reads b ⟨c, descending⟩ key := by
  obtain ⟨field, hfind, rfl⟩ := Option.map_eq_some_iff.mp h
  obtain ⟨hmem, hcell⟩ := getD_idxOf_of_find? hfind
  have hnames : b.schema.map Prod.fst = b.fields.map Prod.fst := by
    rw [schema, List.map_map]
    rfl
  rw [hnames, placeKey, if_pos hmem]
  exact ⟨_, rfl, rfl, fun i => congrArg cellKey (hcell i).symm⟩

lemma placeKey_eq_none (descending : Bool) (h : b.columnByName name = none) :
    placeKey (b.schema.map Prod.fst) descending name = none := by
  rw [placeKey, if_neg]
  intro hmem
  simp only [columnByName, Option.map_eq_none_iff, List.find?_eq_none] at h
  obtain ⟨p, hp, hname⟩ := List.mem_map.mp hmem
  obtain ⟨field, hfield, rfl⟩ := List.mem_map.mp hp
  exact h field hfield (by simpa using hname)

/-- An ordering has a column if and only if it has a key. -/
lemma orderingColumn_reads (b : RecordBatch) (o : IROrdering) :
    (∃ c key, orderingColumn b b o = .ok c ∧ orderKey (b.schema.map Prod.fst) o = some key ∧
      Reads b c key) ∨
    ((∃ e, orderingColumn b b o = .error e) ∧ orderKey (b.schema.map Prod.fst) o = none) := by
  unfold orderingColumn orderKey
  cases o.expr with
  | propAccess variable_ property =>
    dsimp only
    cases hc : b.columnByName (variable_ ++ "." ++ property) with
    | none => exact .inr ⟨⟨_, rfl⟩, placeKey_eq_none _ hc⟩
    | some c =>
      obtain ⟨key, hkey, hreads⟩ := reads_of_columnByName o.descending hc
      exact .inl ⟨_, key, rfl, hkey, hreads⟩
  | aliasRef alias_ =>
    dsimp only
    cases hc : b.columnByName alias_ with
    | none => exact .inr ⟨⟨_, rfl⟩, placeKey_eq_none _ hc⟩
    | some c =>
      obtain ⟨key, hkey, hreads⟩ := reads_of_columnByName o.descending hc
      exact .inl ⟨_, key, rfl, hkey, hreads⟩
  | _ => exact .inr ⟨⟨_, rfl⟩, rfl⟩

lemma mapM_orderingColumn_reads (b : RecordBatch) (os : List IROrdering) :
    (∃ cols keys, os.mapM (orderingColumn b b) = .ok cols ∧
      os.mapM (orderKey (b.schema.map Prod.fst)) = some keys ∧
        List.Forall₂ (Reads b) cols keys) ∨
    ((∃ e, os.mapM (orderingColumn b b) = .error e) ∧
      os.mapM (orderKey (b.schema.map Prod.fst)) = none) := by
  induction os with
  | nil => exact .inl ⟨[], [], rfl, rfl, .nil⟩
  | cons o os ih =>
    simp only [mapM_cons]
    rcases orderingColumn_reads b o with ⟨c, key, hc, hkey, hreads⟩ | ⟨⟨e, he⟩, hnone⟩
    · rw [hc, hkey]
      rcases ih with ⟨cols, keys, hcols, hkeys, hall⟩ | ⟨⟨e, he⟩, hnone⟩
      · rw [hcols, hkeys]
        exact .inl ⟨c :: cols, key :: keys, rfl, rfl, .cons hreads hall⟩
      · rw [he, hnone]
        exact .inr ⟨⟨e, rfl⟩, rfl⟩
    · rw [he, hnone]
      exact .inr ⟨⟨e, rfl⟩, rfl⟩

lemma tiebreakColumns_reads (b : RecordBatch) :
    List.Forall₂ (Reads b) (tiebreakColumns b) (tiebreakKeys (b.schema.map Prod.fst)) := by
  have hnames : tiebreakNames b =
      ((b.schema.map Prod.fst).filter isIdColumn).insertionSort (· ≤ ·) := by
    rw [tiebreakNames, schema, List.map_map]
    rfl
  rw [tiebreakColumns, tiebreakKeys, hnames]
  induction ((b.schema.map Prod.fst).filter isIdColumn).insertionSort (· ≤ ·) with
  | nil => exact .nil
  | cons name names ih =>
    cases hc : b.columnByName name with
    | none =>
      rw [filterMap_cons_none (by rw [hc]; rfl),
        filterMap_cons_none (placeKey_eq_none _ hc)]
      exact ih
    | some c =>
      obtain ⟨key, hkey, hreads⟩ := reads_of_columnByName false hc
      rw [filterMap_cons_some (by rw [hc]; rfl), filterMap_cons_some hkey]
      exact .cons hreads ih

/-- The rows of a result that is its own source are sorted by keys of the rows. -/
lemma orderColumns_reads (hagg : ir.returnExprs.any isAggregate = true) (b wide : RecordBatch) :
    (∃ cols keys, orderColumns b wide ir = .ok cols ∧
      rowKeys (b.schema.map Prod.fst) ir.orderBy = some keys ∧ List.Forall₂ (Reads b) cols keys) ∨
    ((∃ e, orderColumns b wide ir = .error e) ∧
      rowKeys (b.schema.map Prod.fst) ir.orderBy = none) := by
  rw [rowKeys]
  by_cases hempty : ir.orderBy.isEmpty = true
  · rw [orderColumns, if_pos hempty, if_pos hempty]
    exact .inl ⟨[], [], rfl, rfl, .nil⟩
  · rw [orderColumns_eq hempty, if_neg hempty, if_pos hagg]
    rcases mapM_orderingColumn_reads b ir.orderBy with
      ⟨cols, keys, hcols, hkeys, hall⟩ | ⟨⟨e, he⟩, hnone⟩
    · rw [hcols, hkeys]
      exact .inl ⟨_, _, rfl, rfl, rel_append hall (tiebreakColumns_reads b)⟩
    · rw [he, hnone]
      exact .inr ⟨⟨e, rfl⟩, rfl⟩

lemma lexLe_of_reads {cols : List SortColumn} {keys : List (Bool × (List Cell → SortKey))}
    (h : List.Forall₂ (Reads b) cols keys) (i j : ℕ) :
    lexLe (cols.map SortColumn.key) i j ↔ lexLe keys (b.row i) (b.row j) := by
  apply lexLe_congr
  rw [List.forall₂_map_left_iff]
  exact h.imp fun c key hreads => ⟨hreads.1, hreads.2 i, hreads.2 j⟩

/-! ### Runs -/

lemma RecordBatch.take_range (b : RecordBatch) : b.take (List.range b.numRows) = b := by
  refine eq_of_fields ?_ (length_range)
  have hfield : ∀ field ∈ b.fields, (field.1, field.2.take (List.range b.numRows)) = field := by
    intro field hfield
    refine Prod.ext rfl (Column.eq_of_cells rfl ?_)
    rw [Column.cells_take, ← b.lengths field hfield]
    apply ext_getElem
    · simp
    · intro i hi hi'
      simp [Column.cell_of_lt _ hi']
  exact (map_congr_left hfield).trans (List.map_id _)

section Runs

variable (hagg : ir.returnExprs.any isAggregate = true)
  (hresolved : ir.returnExprs.mapM (resolve arrow wide params) = .ok resolved)
  (hsupported : ∀ r ∈ resolved, r.Supported)
  (hrows : ¬ (wide.numRows = 0 ∧ groupColumns resolved = []))
  {keys : List (Bool × (List Cell → SortKey))}
  (hkeys : rowKeys (resolved.map Resolved.name) ir.orderBy = some keys)

def resultSchema (resolved : List Resolved) : List (String × DataType) :=
  resolved.map fun r => (r.name, r.resultType)

include hagg in
lemma projectReturn_aggregate (wide : RecordBatch) :
    projectReturn arrow wide ir.returnExprs params =
      aggregateReturn arrow wide ir.returnExprs params := by
  have hne : ir.returnExprs ≠ [] := by
    intro hnil
    rw [hnil] at hagg
    cases hagg
  rw [projectReturn, if_neg hne, if_pos hagg]

variable (hperm : indices.Perm (List.range wide.numRows))

include hperm hagg hresolved hsupported hrows in
/-- The result over reordered rows, before it is ordered. -/
lemma exists_result :
    ∃ b, projectReturn arrow (wide.take indices) ir.returnExprs params = .ok b ∧
      b.schema = resultSchema resolved ∧ b.rows = groupRows arrow resolved indices := by
  have hlt := lt_of_perm_range hperm
  have htake := mapM_resolve_take hlt hresolved
  have hne : ¬ (indices = [] ∧ groupColumns resolved = []) := by
    rintro ⟨rfl, hcols⟩
    exact hrows ⟨by simpa using (length_of_perm_range hperm).symm, hcols⟩
  have hne' : ¬ ((wide.take indices).numRows = 0 ∧
      groupColumns (resolved.map fun r => r.take indices) = []) := by
    rw [numRows_take, groupColumns_take]
    simpa using hne
  have hresolvedNe : resolved.map (fun r => r.take indices) ≠ [] := by
    intro hnil
    rw [map_eq_nil_iff] at hnil
    subst hnil
    have hall := mapM_eq_ok_iff.mp hresolved
    rw [List.forall₂_nil_right_iff] at hall
    rw [hall] at hagg
    cases hagg
  obtain ⟨b, hb⟩ := exists_aggregateReturn htake hresolvedNe (fun r hr => by
    obtain ⟨s, hs, rfl⟩ := List.mem_map.mp hr
    exact hsupported s hs) hne'
  refine ⟨b, by rw [projectReturn_aggregate hagg, hb], ?_, ?_⟩
  · rw [(aggregateReturn_spec htake hne' hb).2.1, List.map_map]
    rfl
  · exact rows_aggregateReturn hne (aggregateReturn_take hlt hresolved hne hb)

include hperm hagg hresolved hsupported hrows hkeys in
/-- The result over reordered rows, with the columns that order it. -/
lemma exists_ordered : ∃ b cols, projectReturn arrow (wide.take indices) ir.returnExprs params =
      .ok b ∧ orderColumns b (wide.take indices) ir = .ok cols ∧
    b.schema = resultSchema resolved ∧ b.rows = groupRows arrow resolved indices ∧
    List.Forall₂ (Reads b) cols keys := by
  obtain ⟨b, hb, hschema, hgroups⟩ := exists_result hagg hresolved hsupported hrows hperm
  have hnames : b.schema.map Prod.fst = resolved.map Resolved.name := by
    rw [hschema, resultSchema, List.map_map]
    rfl
  rcases orderColumns_reads hagg b (wide.take indices) with
    ⟨cols, keys', hcols, hkeys', hreads⟩ | ⟨-, hnone⟩
  · rw [hnames, hkeys] at hkeys'
    cases hkeys'
    exact ⟨b, cols, hb, hcols, hschema, hgroups, hreads⟩
  · rw [hnames, hkeys] at hnone
    cases hnone

include hperm hagg hresolved hsupported hrows hkeys in
/-- A run over reordered rows shows its groups in a sorted order. -/
lemma exists_run (lexsort : Lexsort) :
    ∃ out τ, finishQuery arrow lexsort (wide.take indices) ir params = .ok out ∧
      out.schema = resultSchema resolved ∧
      Sorts (lexLe keys) (groupRows arrow resolved indices) τ ∧
      out.rows = limited ir.limit τ := by
  obtain ⟨b, cols, hb, hcols, hschema, hgroups, hreads⟩ :=
    exists_ordered hagg hresolved hsupported hrows hkeys hperm
  have hfinishes := finishes lexsort hcols
  refine ⟨_, _, finishQuery_eq_ok_iff.mpr ⟨b, cols, hb, hcols, rfl⟩, ?_, ⟨?_, ?_⟩,
    hfinishes.rows⟩
  · rw [hfinishes.schema, hschema]
  · rw [← hgroups]
    exact hfinishes.sorts.perm.map _
  · rw [pairwise_map]
    exact hfinishes.sorts.sorted.imp fun h => (lexLe_of_reads hreads _ _).mp h

include hperm hagg hresolved hsupported hrows hkeys in
/-- Groups that come sorted are shown as they come. -/
lemma exists_run_of_sorted (hsorted : (groupRows arrow resolved indices).Pairwise (lexLe keys)) :
    ∃ out, finishQuery arrow stableLexsort (wide.take indices) ir params = .ok out ∧
      out.rows = limited ir.limit (groupRows arrow resolved indices) := by
  obtain ⟨b, cols, hb, hcols, -, hgroups, hreads⟩ :=
    exists_ordered hagg hresolved hsupported hrows hkeys hperm
  refine ⟨_, finishQuery_eq_ok_iff.mpr ⟨b, cols, hb, hcols, rfl⟩, ?_⟩
  have hplaces : (List.range b.numRows).Pairwise (lexLe (cols.map SortColumn.key)) := by
    rw [← hgroups, rows, pairwise_map] at hsorted
    exact hsorted.imp fun h => (lexLe_of_reads hreads _ _).mpr h
  rw [(finishes stableLexsort hcols).rows, orderIndices_stable hplaces, ← hgroups]
  rfl

/-- What an aggregate query shows does not depend on the order of its rows. -/
structure GroupsSettle (arrow : Arrow) (resolved : List Resolved)
    (keys : List (Bool × (List Cell → SortKey))) (limit : Option ℕ) (numRows : ℕ) : Prop where
  /-- Groups that tie are beyond the limit. -/
  untied : ∀ indices : List ℕ, indices.Perm (List.range numRows) →
    TiesBeyond (lexLe keys) id limit (groupRows arrow resolved indices)
  /-- A group within the limit has one row for every order of its members. -/
  steady : ∀ indices indices' : List ℕ, indices.Perm (List.range numRows) →
    indices'.Perm (List.range numRows) → ∀ k ∈ groupKeys arrow resolved indices,
      Within limit (rank (lexLe keys) (groupRows arrow resolved indices)
        (groupRow arrow resolved indices k)) →
      groupRow arrow resolved indices' k = groupRow arrow resolved indices k

/-- Every order of the rows gives the same as the order they have. -/
lemma Deterministic.rows_eq (h : Deterministic arrow ir params wide)
    (hperm : indices.Perm (List.range wide.numRows))
    (hperm' : indices'.Perm (List.range wide.numRows)) {lexsort lexsort' : Lexsort}
    {out out' : RecordBatch}
    (hout : finishQuery arrow lexsort (wide.take indices) ir params = .ok out)
    (hout' : finishQuery arrow lexsort' (wide.take indices') ir params = .ok out')
    {first : RecordBatch} (hfirst : finishQuery arrow stableLexsort wide ir params = .ok first) :
    out.rows = out'.rows := by
  obtain ⟨o, ho, -, hrows⟩ := h indices hperm stableLexsort lexsort first hfirst
  obtain ⟨o', ho', -, hrows'⟩ := h indices' hperm' stableLexsort lexsort' first hfirst
  cases ho.symm.trans hout
  cases ho'.symm.trans hout'
  rw [hrows, hrows']

include hagg hresolved hsupported hrows hkeys in
/-- If no order of the rows matters, the groups settle. -/
lemma settle_of_deterministic (h : Deterministic arrow ir params wide) :
    GroupsSettle arrow resolved keys ir.limit wide.numRows := by
  obtain ⟨first, -, hfirst, -⟩ := exists_run hagg hresolved hsupported hrows hkeys
    (List.Perm.refl (List.range wide.numRows)) stableLexsort
  rw [RecordBatch.take_range] at hfirst
  have hrun : ∀ {indices : List ℕ} {τ}, indices.Perm (List.range wide.numRows) →
      Sorts (lexLe keys) (groupRows arrow resolved indices) τ →
        ∃ indices' out, indices'.Perm (List.range wide.numRows) ∧
          finishQuery arrow stableLexsort (wide.take indices') ir params = .ok out ∧
            out.rows = limited ir.limit τ := by
    intro indices τ hperm hτ
    obtain ⟨indices', hperm', hgroups⟩ := exists_groupRows hτ.perm
    have hsorted := hτ.sorted
    rw [← hgroups] at hsorted
    obtain ⟨out, hout, hshown⟩ := exists_run_of_sorted hagg hresolved hsupported hrows hkeys
      (hperm'.trans hperm) hsorted
    exact ⟨indices', out, hperm'.trans hperm, hout, by rw [hshown, hgroups]⟩
  refine ⟨fun indices hperm => ?_, fun indices indices' hperm hperm' k hk hwithin => ?_⟩
  · apply tiesBeyond_of_forall (lexLe_trans _) (lexLe_total _)
    intro τ τ' hτ hτ'
    obtain ⟨places, out, hplaces, hout, hshown⟩ := hrun hperm hτ
    obtain ⟨places', out', hplaces', hout', hshown'⟩ := hrun hperm hτ'
    rw [List.map_id, List.map_id, ← hshown, ← hshown']
    exact h.rows_eq hplaces hplaces' hout hout' hfirst
  · have hrow := mem_groupRows.mpr ⟨k, hk, rfl⟩
    obtain ⟨τ, hτ, hget⟩ := exists_sorts_getElem (lexLe_trans keys) (lexLe_total keys) hrow
    obtain ⟨places, out, hplaces, hout, hshown⟩ := hrun hperm hτ
    obtain ⟨out', τ', hout', -, hτ', hshown'⟩ :=
      exists_run hagg hresolved hsupported hrows hkeys hperm' stableLexsort
    -- the row shown for one order is shown for the other one
    have hsame : limited ir.limit τ = limited ir.limit τ' := by
      rw [← hshown, ← hshown']
      exact h.rows_eq hplaces hperm' hout hout' hfirst
    have hmem : groupRow arrow resolved indices k ∈ limited ir.limit τ := by
      rw [← getElem?_limited hwithin] at hget
      exact mem_of_getElem? hget
    rw [hsame] at hmem
    obtain ⟨k', hk', hsameRow⟩ :=
      mem_groupRows.mp (hτ'.perm.mem_iff.mp (mem_of_mem_limited hmem))
    have hkey := key_of_groupRow hk hk' hsameRow.symm
    subst hkey
    exact hsameRow

include hagg hresolved hsupported hrows hkeys in
/-- If the groups settle, no order of the rows matters. -/
lemma deterministic_of_settle (h : GroupsSettle arrow resolved keys ir.limit wide.numRows) :
    Deterministic arrow ir params wide := by
  intro indices hperm lexsort lexsort' out hout
  have hrefl := List.Perm.refl (List.range wide.numRows)
  obtain ⟨first, τ, hfirst, hschema, hτ, hshown⟩ :=
    exists_run hagg hresolved hsupported hrows hkeys hrefl lexsort
  rw [RecordBatch.take_range] at hfirst
  cases hout.symm.trans hfirst
  obtain ⟨out', τ', hout', hschema', hτ', hshown'⟩ :=
    exists_run hagg hresolved hsupported hrows hkeys hperm lexsort'
  refine ⟨out', hout', hschema'.trans hschema.symm, ?_⟩
  rw [hshown, hshown']
  have hmem : ∀ {indices indices' : List ℕ}, indices.Perm (List.range wide.numRows) →
      indices'.Perm (List.range wide.numRows) → ∀ row ∈ groupRows arrow resolved indices,
        Within ir.limit (rank (lexLe keys) (groupRows arrow resolved indices) row) →
          row ∈ groupRows arrow resolved indices' := by
    intro indices indices' hperm hperm' row hrow hwithin
    obtain ⟨k, hk, rfl⟩ := mem_groupRows.mp hrow
    have hk' := mem_groupKeys.mpr (((hperm'.trans hperm.symm).map _).mem_iff.mpr
      (mem_groupKeys.mp hk))
    exact mem_groupRows.mpr ⟨k, hk', h.steady indices indices' hperm hperm' k hk hwithin⟩
  exact limited_eq_of_shown (lexLe_refl _) (lexLe_trans _) (nodup_groupRows _ _ _)
    (nodup_groupRows _ _ _) (h.untied indices hperm) (hmem hperm hrefl) (hmem hrefl hperm) hτ' hτ

include hagg hresolved in
/-- There is one order of no rows, and one row in the result without keys. -/
lemma deterministic_of_empty (hzero : wide.numRows = 0) (hcols : groupColumns resolved = []) :
    Deterministic arrow ir params wide := by
  intro indices hperm lexsort lexsort' out hout
  rw [hzero, range_zero, perm_nil] at hperm
  have hsame : wide.take indices = wide := by
    rw [hperm, ← range_zero, ← hzero, RecordBatch.take_range]
  rw [hsame]
  obtain ⟨b, cols, hb, hordered, rfl⟩ := finishQuery_eq_ok_iff.mp hout
  have hempty := hb
  rw [projectReturn_aggregate hagg, aggregateReturn_zero hresolved hzero hcols] at hempty
  have hone : b.numRows = 1 := by
    obtain ⟨field, hfield⟩ : ∃ field, field ∈ b.fields := by
      obtain ⟨proj, hproj, -⟩ := List.any_eq_true.mp hagg
      rw [fields_of_tryNew hempty]
      exact ⟨_, List.mem_map_of_mem hproj⟩
    rw [← b.lengths field hfield]
    rw [fields_of_tryNew hempty] at hfield
    obtain ⟨proj, -, rfl⟩ := List.mem_map.mp hfield
    rfl
  have hindices : ∀ lexsort, orderIndices lexsort ir cols b.numRows = [0] := by
    intro lexsort
    have hsorts := (finishes lexsort hordered).sorts.perm
    rw [hone] at hsorts ⊢
    exact perm_singleton.mp hsorts
  refine ⟨_, finishQuery_eq_ok_iff.mpr ⟨b, cols, hb, hordered, rfl⟩, ?_, ?_⟩
  · rw [(finishes lexsort' hordered).schema, (finishes lexsort hordered).schema]
  · rw [(finishes lexsort' hordered).rows, (finishes lexsort hordered).rows, hindices, hindices]

end Runs

/-! ### The condition -/

/-- The condition under which a query gives one result for every order of its rows. A query with a
row for every match needs it only without an order clause. -/
def OrderSettles (arrow : Arrow) (ir : QueryIR) (params : ParamMap) (wide : RecordBatch) : Prop :=
  if ir.returnExprs.any isAggregate then
    ∀ resolved, ir.returnExprs.mapM (resolve arrow wide params) = .ok resolved →
      (∀ r ∈ resolved, r.Supported) → ∀ keys,
        rowKeys (resolved.map Resolved.name) ir.orderBy = some keys →
          GroupsSettle arrow resolved keys ir.limit wide.numRows
  else
    ir.orderBy.isEmpty = true → ir.limit ≠ some 0 → ∀ columns,
      ir.returnExprs.mapM (projectColumn arrow wide params) = .ok columns →
        ∀ i < wide.numRows, ∀ j < wide.numRows, ∀ c ∈ columns, c.2.cell i = c.2.cell j

/-- A query of aggregates is deterministic if and only if its groups settle. -/
lemma deterministic_aggregate_iff (hagg : ir.returnExprs.any isAggregate = true) :
    Deterministic arrow ir params wide ↔
      ∀ resolved, ir.returnExprs.mapM (resolve arrow wide params) = .ok resolved →
        (∀ r ∈ resolved, r.Supported) → ∀ keys,
          rowKeys (resolved.map Resolved.name) ir.orderBy = some keys →
            GroupsSettle arrow resolved keys ir.limit wide.numRows := by
  constructor
  · intro h resolved hresolved hsupported keys hkeys
    by_cases hrows : wide.numRows = 0 ∧ groupColumns resolved = []
    · have hnone : ∀ indices : List ℕ, indices.Perm (List.range wide.numRows) →
          groupRows arrow resolved indices = [] := by
        intro indices hperm
        rw [hrows.1, range_zero, perm_nil] at hperm
        rw [hperm]
        rfl
      refine ⟨fun indices hperm row hrow => ?_, fun indices _ hperm _ k hk => ?_⟩
      · rw [hnone indices hperm] at hrow
        cases hrow
      · have := List.mem_map_of_mem (f := groupRow arrow resolved indices) hk
        rw [← groupRows, hnone indices hperm] at this
        cases this
    · exact settle_of_deterministic hagg hresolved hsupported hrows hkeys h
  · intro h indices hperm lexsort lexsort' out hout
    obtain ⟨b, cols, hb, hcols, -⟩ := finishQuery_eq_ok_iff.mp hout
    have hreturn := hb
    rw [projectReturn_aggregate hagg] at hreturn
    obtain ⟨resolved, hresolved, -⟩ := bind_eq_ok_iff.mp hreturn
    by_cases hrows : wide.numRows = 0 ∧ groupColumns resolved = []
    · exact deterministic_of_empty hagg hresolved hrows.1 hrows.2 indices hperm lexsort lexsort'
        out hout
    · obtain ⟨hsupported, hschema, -⟩ := aggregateReturn_spec hresolved hrows hreturn
      have hnames : b.schema.map Prod.fst = resolved.map Resolved.name := by
        rw [hschema, List.map_map]
        rfl
      rcases orderColumns_reads hagg b wide with ⟨_, keys, -, hkeys, -⟩ | ⟨⟨e, he⟩, -⟩
      · rw [hnames] at hkeys
        exact deterministic_of_settle hagg hresolved hsupported hrows hkeys
          (h resolved hresolved hsupported keys hkeys) indices hperm lexsort lexsort' out hout
      · cases he.symm.trans hcols

/-- Without an order clause only rows that are all alike have one order. -/
lemma tiesBeyond_nil_iff {result : RecordBatch} {limit : Option ℕ} :
    TiesBeyond (lexLe (([] : List SortColumn).map SortColumn.key)) result.row limit
        (List.range result.numRows) ↔
      (limit ≠ some 0 → ∀ i < result.numRows, ∀ j < result.numRows,
        result.row i = result.row j) := by
  have hrank : ∀ i, rank (lexLe (([] : List SortColumn).map SortColumn.key))
      (List.range result.numRows) i = 0 := by
    intro i
    rw [rank, countP_eq_zero]
    intro j _
    simp [lexLe]
  have hwithin : Within limit 0 ↔ limit ≠ some 0 := by
    cases limit with
    | none => simp [Within]
    | some n => simp [Within, Nat.pos_iff_ne_zero]
  constructor
  · intro h hlimit i hi j hj
    by_contra hne
    refine h i (mem_range.mpr hi) j (mem_range.mpr hj) trivial trivial hne ?_
    rw [hrank]
    exact hwithin.mpr hlimit
  · intro h i hi j hj _ _ hne hshown
    rw [hrank] at hshown
    exact hne (h (hwithin.mp hshown) i (mem_range.mp hi) j (mem_range.mp hj))

/-- Without an order, a query of rows is deterministic if and only if its rows show the same. -/
lemma deterministic_row_iff (hids : IdsIdentify wide)
    (hplain : ir.returnExprs.any isAggregate = false) : Deterministic arrow ir params wide ↔
      (ir.orderBy.isEmpty = true → ir.limit ≠ some 0 → ∀ columns,
        ir.returnExprs.mapM (projectColumn arrow wide params) = .ok columns →
          ∀ i < wide.numRows, ∀ j < wide.numRows, ∀ c ∈ columns, c.2.cell i = c.2.cell j) := by
  have hcells : ∀ {result : RecordBatch} {columns : List (String × Column)},
      projectReturn arrow wide ir.returnExprs params = .ok result →
      ir.returnExprs.mapM (projectColumn arrow wide params) = .ok columns → ∀ i j,
        result.row i = result.row j ↔ ∀ c ∈ columns, c.2.cell i = c.2.cell j := by
    intro result columns hresult hcolumns i j
    rw [projectReturn_plain hplain (returnExprs_ne hresult), hcolumns, ok_bind] at hresult
    rw [row, row, fields_of_tryNew hresult,
      map_inj_left]
  constructor
  · intro h hempty hlimit columns hcolumns
    by_cases hne : ir.returnExprs = []
    · rw [hne] at hcolumns
      cases hcolumns
      simp
    have hlengths : ∀ c ∈ columns, c.2.cells.length = wide.numRows := by
      intro c hc
      obtain ⟨proj, -, hproj⟩ := (mem_mapM hcolumns).mp hc
      obtain ⟨p, hp, rfl⟩ := map_eq_ok hproj
      have := length_of_evaluateProjection arrow hp
      exact this
    have hcolumnsNe : columns ≠ [] := by
      rintro rfl
      have hall := mapM_eq_ok_iff.mp hcolumns
      rw [List.forall₂_nil_right_iff] at hall
      exact hne hall
    obtain ⟨result, hresult⟩ :
        ∃ result, projectReturn arrow wide ir.returnExprs params = .ok result := by
      rw [projectReturn_plain hplain hne, hcolumns, ok_bind,
        tryNew_of_lengths hcolumnsNe hlengths]
      exact ⟨_, rfl⟩
    have hcols : orderColumns result wide ir = .ok [] := if_pos hempty
    have hties := (deterministic_plain_iff hplain hresult hcols).mp h
    intro i hi j hj
    rw [← numRows_of_projectReturn hplain hresult] at hi hj
    exact (hcells hresult hcolumns i j).mp (tiesBeyond_nil_iff.mp hties hlimit i hi j hj)
  · intro h indices hperm lexsort lexsort' out hout
    obtain ⟨result, cols, hresult, hcols, -⟩ := finishQuery_eq_ok_iff.mp hout
    refine (deterministic_plain_iff hplain hresult hcols).mpr ?_ indices hperm lexsort lexsort'
      out hout
    by_cases hempty : ir.orderBy.isEmpty = true
    · have hnil := orderColumns_nil hcols hempty
      subst hnil
      rw [tiesBeyond_nil_iff]
      intro hlimit i hi j hj
      have hresult' := hresult
      rw [projectReturn_plain hplain (returnExprs_ne hresult)] at hresult'
      obtain ⟨columns, hcolumns, -⟩ := bind_eq_ok_iff.mp hresult'
      rw [numRows_of_projectReturn hplain hresult] at hi hj
      exact (hcells hresult hcolumns i j).mpr (h hempty hlimit columns hcolumns i hi j hj)
    · exact tiesBeyond_of_ids hplain hids hresult hcols hempty

/-- A query gives one result for every order of its rows if and only if the groups that an aggregate
query shows are settled; a query with a row for every match needs an order clause. -/
theorem deterministic_iff (hids : IdsIdentify wide) (arrow : Arrow) (ir : QueryIR)
    (params : ParamMap) :
    Deterministic arrow ir params wide ↔ OrderSettles arrow ir params wide := by
  rw [OrderSettles]
  split_ifs with hagg
  · exact deterministic_aggregate_iff hagg
  · exact deterministic_row_iff hids (by simpa using hagg)

/-! ### Queries -/

section Queries

/-- Two people of one age. -/
def twins : RecordBatch where
  fields := [
    ("p.id", ⟨.utf8, ["p1", "p2"].map fun s => some (.scalar (.utf8 s)), by
      simp [DataType.Holds, DataType.HoldsScalar]⟩),
    ("p.name", ⟨.utf8, ["a", "b"].map fun s => some (.scalar (.utf8 s)), by
      simp [DataType.Holds, DataType.HoldsScalar]⟩),
    ("p.age", ⟨.int32, [3, 3].map fun i => some (.scalar (.int i)), by
      simp [DataType.Holds, DataType.HoldsScalar]⟩)]
  numRows := 2
  lengths := by simp

lemma idsIdentify_twins : IdsIdentify twins := by
  intro i hi j hj h
  have hid := h "p.id" _ (by decide) rfl
  have hlt : twins.numRows = 2 := rfl
  rw [hlt] at hi hj
  interval_cases i <;> interval_cases j <;> first | rfl | exact absurd hid (by decide)

/-- `return { $p.name } order { $p.age asc } limit 1` -/
def youngest : QueryIR where
  name := "youngest"
  params := []
  pipeline := []
  returnExprs := [⟨.propAccess "p" "name", none⟩]
  orderBy := [⟨.propAccess "p" "age", false⟩]
  limit := some 1

/-- `return { $p.name, count($p.id) as n } order { n asc } limit 1` -/
def rarest : QueryIR where
  name := "rarest"
  params := []
  pipeline := []
  returnExprs := [⟨.propAccess "p" "name", none⟩,
    ⟨.aggregate .count (.propAccess "p" "id"), some "n"⟩]
  orderBy := [⟨.aliasRef "n", false⟩]
  limit := some 1

/-- The ids decide between people of one age. -/
theorem deterministic_youngest : Deterministic plainArrow youngest ∅ twins :=
  (deterministic_iff idsIdentify_twins plainArrow youngest ∅).mpr nofun

/-- Two names that occur once: either one is shown. -/
theorem not_deterministic_rarest : ¬ Deterministic plainArrow rarest ∅ twins := by
  intro h
  obtain ⟨out, hout, -, hrows⟩ := h [1, 0] (by decide) stableLexsort stableLexsort _ rfl
  cases hout
  revert hrows
  decide +kernel

end Queries

end Omnigraph.Query
