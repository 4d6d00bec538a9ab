import Omnigraph.Validate.Keys

/-!
# The holders of probed keys

A probe asks for many keys at once, in chunks. The filter of a chunk lets through every row that
has one of its keys, and rows that have its values in other combinations; the key of each row
decides. A key that is in several chunks is answered once for each of them.
-/

namespace Omnigraph

open List

/-- How the storage engine compares literals: one that can be part of a key equals itself, and
equals no number that is not finite. -/
structure Compares (sameValue : ScalarValue → ScalarValue → Bool) : Prop where
  refl : ∀ value, value.text ≠ none → sameValue value value = true
  finite : ∀ cell value, value.text ≠ none → sameValue cell value = true → cell.text ≠ none

/-- The literals of a probe have the types of the group, and its key is made of their texts. -/
structure Renders (types : List ColumnType) (probe : ProbeKey) : Prop where
  length_eq : probe.1.length = types.length
  literal : ∀ i type, types[i]? = some type → ∃ value : ScalarValue,
    probe.2.getD i none = some value ∧ value.dataType = type ∧ ¬ value.NegativeZero ∧
      value.text = some (probe.1.getD i "")

/-! ### The filter of a chunk -/

variable {key : List String}

section Filter

variable {columns : List String} {types : List ColumnType} {table : RecordBatch}
  {group : List Column} {chunk : List ProbeKey} {sameValue : ScalarValue → ScalarValue → Bool}

variable {i row : ℕ} {type : ColumnType}

lemma IsGroup.type_of_column (h : IsGroup columns types table group) {column : Column}
    (hcolumn : group[i]? = some column) : types[i]? = some column.dataType := by
  rw [← h.typed, List.getElem?_map, hcolumn]
  rfl

/-- The literals of a chunk are pushed down, those with the same text once. -/
lemma exists_pushed (hrenders : ∀ probe ∈ chunk, Renders types probe) {probe : ProbeKey}
    (hprobe : probe ∈ chunk) (htype : types[i]? = some type) :
    ∃ value : ScalarValue, some value ∈ pushedValues chunk i ∧ value.dataType = type ∧
      ¬ value.NegativeZero ∧ value.text = some (probe.1.getD i "") := by
  obtain ⟨kept, hsub, hpushed, -, hall⟩ := @Keyed.exists_kept _ _ _ _
    (fun key : ProbeKey => key.1.getD i "") (fun key => key.2.getD i none) chunk
  obtain ⟨first, hfirst, hsame⟩ := hall probe hprobe
  obtain ⟨value, hvalue, hdata, hzero, htext⟩ :=
    (hrenders first (hsub.subset hfirst)).literal i type htype
  refine ⟨value, ?_, hdata, hzero, htext.trans (congrArg some hsame)⟩
  rw [pushedValues, hpushed]
  exact List.mem_map.mpr ⟨first, hfirst, hvalue⟩

lemma text_of_pushed (hrenders : ∀ probe ∈ chunk, Renders types probe)
    (htype : types[i]? = some type) {value : ScalarValue}
    (hvalue : some value ∈ pushedValues chunk i) : value.text ≠ none := by
  obtain ⟨kept, hsub, hpushed, -, -⟩ := @Keyed.exists_kept _ _ _ _
    (fun key : ProbeKey => key.1.getD i "") (fun key => key.2.getD i none) chunk
  rw [pushedValues, hpushed] at hvalue
  obtain ⟨probe, hprobe, heq⟩ := List.mem_map.mp hvalue
  obtain ⟨literal, hliteral, -, -, htext⟩ :=
    (hrenders probe (hsub.subset hprobe)).literal i type htype
  cases hliteral.symm.trans heq
  simp [htext]

lemma chunkFilter_of_key (hsame : Compares sameValue) (hgroup : IsGroup columns types table group)
    (hrenders : ∀ probe ∈ chunk, Renders types probe)
    (hkey : compositeUniqueKey group row = .ok (some key)) (hmem : key ∈ chunk.map Prod.fst) :
    chunkFilter sameValue group chunk row = true := by
  rw [chunkFilter, List.all_eq_true]
  rintro ⟨column, i⟩ hentry
  have hcolumn : group[i]? = some column := mem_zipIdx_iff_getElem?.mp hentry
  obtain ⟨hi, rfl⟩ := List.getElem?_eq_some_iff.mp hcolumn
  have htexts := compositeUniqueKey_iff.mp hkey
  have hi' : i < key.length := htexts.length_eq ▸ hi
  obtain ⟨cell, hcell, htext⟩ := htexts.get hi hi'
  obtain ⟨probe, hprobe, rfl⟩ := List.mem_map.mp hmem
  obtain ⟨value, hpushed, hdata, hzero, hvtext⟩ :=
    exists_pushed hrenders hprobe (hgroup.type_of_column hcolumn)
  -- the pushed literal with the text of the cell is the literal of the cell
  have heq : cell = value := by
    apply ScalarValue.text_inj ((Column.dataType_of_scalarAt hcell).trans hdata.symm) htext
    · rw [hvtext, getD_eq_getElem?_getD, List.getElem?_eq_getElem hi']
      rfl
    · exact hgroup.zeros _ (List.get_mem group ⟨i, hi⟩) row cell hcell
    · exact hzero
  subst heq
  have hcell : group[i].scalarAt row = some cell := hcell
  simp only [hcell, List.any_eq_true]
  exact ⟨some cell, hpushed, hsame.refl cell (by simp [htext])⟩

/-- The key of a row that the filter lets through can be computed. -/
lemma key_of_chunkFilter (hsame : Compares sameValue) (hgroup : IsGroup columns types table group)
    (hrenders : ∀ probe ∈ chunk, Renders types probe)
    (hfilter : chunkFilter sameValue group chunk row = true) :
    ∃ key, compositeUniqueKey group row = .ok (some key) := by
  have hcells : ∀ column ∈ group, ∃ t, ∃ value, column.scalarAt row = some value ∧
      ScalarValue.text value = some t := by
    intro column hmem
    obtain ⟨i, hcolumn⟩ := List.getElem?_of_mem hmem
    rw [chunkFilter, List.all_eq_true] at hfilter
    have hentry := hfilter (column, i) (mem_zipIdx_iff_getElem?.mpr hcolumn)
    cases hcell : column.scalarAt row with
    | none => simp [hcell] at hentry
    | some cell =>
      simp only [hcell, List.any_eq_true] at hentry
      obtain ⟨literal, hpushed, heq⟩ := hentry
      cases literal with
      | none => cases heq
      | some value =>
        have htext := hsame.finite cell value
          (text_of_pushed hrenders (hgroup.type_of_column hcolumn) hpushed) heq
        obtain ⟨t, ht⟩ := Option.ne_none_iff_exists'.mp htext
        exact ⟨t, cell, rfl, ht⟩
  simp only [compositeUniqueKey_iff]
  clear hfilter hgroup
  induction group with
  | nil => exact ⟨[], .nil⟩
  | cons column group ih =>
    obtain ⟨key, hkey⟩ := ih fun c hc => hcells c (mem_cons_of_mem _ hc)
    obtain ⟨t, ht⟩ := hcells column mem_cons_self
    exact ⟨t :: key, .cons ht hkey⟩

end Filter

/-! ### Collecting the holders -/

/-- The ids of the rows that have the key, in the order of the table. -/
def holdersOf (rows : List KeyedRow) (key : List String) : List String :=
  (rows.filter fun row => row.key = some key).map KeyedRow.id

/-- The holders found for a key. -/
def found (holders : HashMap (List String) (List String)) (key : List String) : List String :=
  (holders.lookup key).getD []

lemma found_insert {holders : HashMap (List String) (List String)} {id : String} (k : List String) :
    found (holders.insert key (found holders key ++ [id])) k =
      found holders k ++ if k = key then [id] else [] := by
  unfold found
  rw [HashMap.lookup_insert_ite]
  split_ifs with hk
  · rw [hk]
    rfl
  · exact (append_nil _).symm

section Collect

variable {columns : List String} {types : List ColumnType} {table : RecordBatch}
  {group : List Column} {ids : List String} {wanted : List (List String)}
  {holders : HashMap (List String) (List String)}

/-- A row adds its id to the holders of its key, where the key is asked for. -/
lemma addHolder_eq (hgroup : IsGroup columns types table group)
    (hids : stringCol table "id" = .ok (ids.map some)) {row : ℕ} (hrow : row < table.numRows)
    (hkey : ∃ key, compositeUniqueKey group row = .ok (some key)) :
    ∃ next, addHolder wanted group (ids.map some) holders row = .ok next ∧
      ∀ k, found next k = found holders k ++
        if k ∈ wanted then holdersOf [table.keyedRow columns row] k else [] := by
  obtain ⟨key, hkey⟩ := hkey
  have hrowKey := hgroup.rowKey_eq_some_iff.mpr hkey
  have hholders : ∀ k, holdersOf [table.keyedRow columns row] k =
      if k = key then [table.rowId row] else [] := by
    intro k
    by_cases hk : k = key
    · simp [holdersOf, RecordBatch.keyedRow, hrowKey, hk]
    · simp [holdersOf, RecordBatch.keyedRow, hrowKey, hk, Ne.symm hk]
  unfold addHolder
  rw [cellAt_ids hids hrow, hkey]
  by_cases hwanted : key ∈ wanted
  · refine ⟨holders.insert key (found holders key ++ [table.rowId row]), if_pos hwanted, ?_⟩
    intro k
    rw [found_insert, hholders]
    by_cases hk : k = key
    · simp [hk, hwanted]
    · simp [hk]
  · refine ⟨holders, if_neg hwanted, fun k => ?_⟩
    rw [hholders]
    by_cases hk : k = key
    · simp [hk, hwanted]
    · simp [hk]

lemma foldlM_addHolder (hgroup : IsGroup columns types table group)
    (hids : stringCol table "id" = .ok (ids.map some)) {rows : List ℕ}
    (hrows : ∀ row ∈ rows, row < table.numRows)
    (hkeys : ∀ row ∈ rows, ∃ key, compositeUniqueKey group row = .ok (some key)) :
    ∃ next, rows.foldlM (addHolder wanted group (ids.map some)) holders = .ok next ∧
      ∀ k, found next k = found holders k ++
        if k ∈ wanted then holdersOf (rows.map (table.keyedRow columns)) k else [] := by
  induction rows generalizing holders with
  | nil => exact ⟨holders, rfl, by simp [holdersOf]⟩
  | cons row rows ih =>
    rw [forall_mem_cons] at hrows hkeys
    obtain ⟨first, hfirst, hfound⟩ := @addHolder_eq _ _ _ _ _ wanted holders hgroup hids _ hrows.1
      hkeys.1
    obtain ⟨next, hnext, hfound'⟩ := @ih first hrows.2 hkeys.2
    refine ⟨next, ?_, fun k => ?_⟩
    · rw [foldlM_cons, hfirst]
      exact hnext
    · rw [hfound' k, hfound k, append_assoc]
      split_ifs
      · simp only [holdersOf, ← map_append, ← filter_append]
        rfl
      · rfl

end Collect

/-! ### Chunk by chunk -/

section Chunks

variable {columns : List String} {types : List ColumnType} {table : RecordBatch}
  {holders : HashMap (List String) (List String)} {chunk : List ProbeKey}
  {sameValue : ScalarValue → ScalarValue → Bool} {tableKey : String}

/-- The filter drops no row whose key is asked for. -/
lemma holdersOf_filtered {group : List Column} (hsame : Compares sameValue)
    (hgroup : IsGroup columns types table group) (hrenders : ∀ probe ∈ chunk, Renders types probe)
    (hkey : key ∈ chunk.map Prod.fst) :
    holdersOf (((List.range table.numRows).filter (chunkFilter sameValue group chunk)).map
      (table.keyedRow columns)) key = holdersOf (table.keyedRows columns) key := by
  unfold holdersOf RecordBatch.keyedRows
  rw [List.filter_map, List.filter_map, List.filter_filter]
  congr 2
  apply filter_congr
  intro row _
  show (decide (table.rowKey columns row = some key) && _) =
    decide (table.rowKey columns row = some key)
  by_cases h : table.rowKey columns row = some key
  · rw [decide_eq_true h, Bool.true_and]
    exact chunkFilter_of_key hsame hgroup hrenders (hgroup.rowKey_eq_some_iff.mp h) hkey
  · rw [decide_eq_false h, Bool.false_and]

lemma holdersOfChunk_eq (hsame : Compares sameValue) (htable : Conforms columns types table)
    (hrenders : ∀ probe ∈ chunk, Renders types probe) :
    ∃ next, holdersOfChunk sameValue tableKey columns table holders chunk = .ok next ∧
      ∀ k, found next k = found holders k ++
        if k ∈ chunk.map Prod.fst then holdersOf (table.keyedRows columns) k else [] := by
  obtain ⟨ids, hids⟩ := htable.ids
  obtain ⟨group, hgroup⟩ := htable.group
  obtain ⟨next, hnext, hfound⟩ := @foldlM_addHolder _ _ _ _ _ (chunk.map Prod.fst) holders hgroup
    hids ((List.range table.numRows).filter (chunkFilter sameValue group chunk))
    (fun row hrow => mem_range.mp (mem_filter.mp hrow).1)
    (fun row hrow => key_of_chunkFilter hsame hgroup hrenders (mem_filter.mp hrow).2)
  refine ⟨next, ?_, fun k => ?_⟩
  · rw [holdersOfChunk, hgroup.groupColumns, hids]
    exact hnext
  · rw [hfound k]
    split_ifs with hk
    · rw [holdersOf_filtered hsame hgroup hrenders hk]
    · rfl

/-- Each chunk adds the holders of its keys. -/
lemma foldlM_holdersOfChunk (hsame : Compares sameValue) (htable : Conforms columns types table)
    {parts : List (List ProbeKey)}
    (hrenders : ∀ part ∈ parts, ∀ probe ∈ part, Renders types probe) :
    ∃ next, parts.foldlM (holdersOfChunk sameValue tableKey columns table) holders = .ok next ∧
      ∀ k, found next k = found holders k ++ parts.flatMap fun part =>
        if k ∈ part.map Prod.fst then holdersOf (table.keyedRows columns) k else [] := by
  induction parts generalizing holders with
  | nil => exact ⟨holders, rfl, by simp⟩
  | cons part parts ih =>
    rw [forall_mem_cons] at hrenders
    obtain ⟨first, hfirst, hfound⟩ := @holdersOfChunk_eq _ _ _ holders _ _ tableKey hsame htable
      hrenders.1
    obtain ⟨next, hnext, hfound'⟩ := @ih first hrenders.2
    refine ⟨next, ?_, fun k => ?_⟩
    · rw [foldlM_cons, hfirst]
      exact hnext
    · rw [hfound' k, hfound k, append_assoc, flatMap_cons]

/-- Where no key is asked for twice, its holders are found in one of the chunks. -/
lemma flatMap_of_nodup {parts : List (List ProbeKey)}
    (hnodup : (parts.flatten.map Prod.fst).Nodup) (key : List String) (l : List String) :
    (parts.flatMap fun part => if key ∈ part.map Prod.fst then l else []) =
      if key ∈ parts.flatten.map Prod.fst then l else [] := by
  induction parts with
  | nil => rfl
  | cons part parts ih =>
    rw [flatten_cons, map_append] at hnodup ⊢
    obtain ⟨-, hrest, hdisjoint⟩ := nodup_append.mp hnodup
    rw [flatMap_cons, ih hrest]
    by_cases hpart : key ∈ part.map Prod.fst
    · have hnot : key ∉ parts.flatten.map Prod.fst := fun h => hdisjoint key hpart key h rfl
      rw [if_pos hpart, if_neg hnot, if_pos (mem_append_left _ hpart), append_nil]
    · simp only [hpart, if_false, mem_append, false_or, nil_append]

lemma flatten_chunks {α : Type} {n : ℕ} (hn : 0 < n) (l : List α) :
    (chunks n l).flatten = l := by
  have hgo : ∀ (fuel : ℕ) (l : List α), l.length ≤ fuel → (chunks.go n fuel l).flatten = l := by
    intro fuel
    induction fuel with
    | zero =>
      intro l hl
      rw [length_eq_zero_iff.mp (Nat.le_zero.mp hl)]
      rfl
    | succ fuel ih =>
      intro l hl
      rw [chunks.go]
      split_ifs with hnil
      · exact hnil.symm
      · have hpos := length_pos_iff.mpr hnil
        rw [flatten_cons, ih, take_append_drop]
        rw [length_drop]
        omega
  exact hgo l.length l le_rfl

end Chunks

/-! ### The probe -/

section Probe

variable {columns : List String} {types : List ColumnType} {committed : CommittedState}
  {probes : List ProbeKey} {sameValue : ScalarValue → ScalarValue → Bool} {tableKey : String}

/-- The rows of a committed table, or none where there is no table. -/
def committedRows (columns : List String) : Option RecordBatch → List KeyedRow
  | none => []
  | some table => table.keyedRows columns

/-- A key is answered once for each chunk it is in. -/
theorem uniqueHolders_eq (hcolumns : columns ≠ []) (hsame : Compares sameValue)
    (htable : ∀ table ∈ committed.openTable tableKey, Conforms columns types table)
    (hrenders : ∀ probe ∈ probes, Renders types probe) :
    ∃ holders, committed.uniqueHolders sameValue tableKey columns probes = .ok holders ∧
      ∀ k, found holders k = (chunks uniqueProbeChunkKeys probes).flatMap fun part =>
        if k ∈ part.map Prod.fst then
          holdersOf (committedRows columns (committed.openTable tableKey)) k
        else [] := by
  unfold CommittedState.uniqueHolders
  by_cases hprobes : probes = []
  · refine ⟨∅, if_pos (.inl hprobes), fun k => ?_⟩
    rw [hprobes]
    rfl
  · rw [if_neg (by simp [hprobes, hcolumns])]
    cases hopen : committed.openTable tableKey with
    | none =>
      refine ⟨∅, rfl, fun k => ?_⟩
      simp [found, committedRows, holdersOf]
    | some table =>
      have hparts : ∀ part ∈ chunks uniqueProbeChunkKeys probes, ∀ probe ∈ part,
          Renders types probe := by
        intro part hpart probe hprobe
        apply hrenders
        rw [← flatten_chunks (by decide : 0 < uniqueProbeChunkKeys) probes]
        exact mem_flatten.mpr ⟨part, hpart, hprobe⟩
      obtain ⟨holders, hholders, hfound⟩ := @foldlM_holdersOfChunk _ _ _ ∅ _ tableKey hsame
        (htable table hopen) _ hparts
      exact ⟨holders, hholders, hfound⟩

/-- Without repeated keys the probe is exact. -/
theorem uniqueHolders_of_nodup (hcolumns : columns ≠ []) (hsame : Compares sameValue)
    (htable : ∀ table ∈ committed.openTable tableKey, Conforms columns types table)
    (hrenders : ∀ probe ∈ probes, Renders types probe) (hnodup : (probes.map Prod.fst).Nodup) :
    ∃ holders, committed.uniqueHolders sameValue tableKey columns probes = .ok holders ∧
      ∀ k, found holders k = if k ∈ probes.map Prod.fst then
        holdersOf (committedRows columns (committed.openTable tableKey)) k else [] := by
  obtain ⟨holders, hholders, hfound⟩ := uniqueHolders_eq hcolumns hsame htable hrenders
  have hflat := flatten_chunks (by decide : 0 < uniqueProbeChunkKeys) probes
  refine ⟨holders, hholders, fun k => ?_⟩
  rw [hfound k, flatMap_of_nodup (by rwa [hflat]), hflat]

end Probe

end Omnigraph
