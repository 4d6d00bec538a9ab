import Omnigraph.Validate.Dedupe
import Omnigraph.Validate.Unique

/-!
# What is validated is what is committed

The evaluator and the commit put the rows of an id together on their own. The entry that the
evaluator has of an id, for uniqueness and for cardinality, is the one of the row that is committed.
-/

namespace Omnigraph.Dedupe

open List Option Except Emission

/-! ### What the evaluator reads of a row -/

/-- The text of a cell; a null reads as the empty string. -/
def fieldText (name : String) (fields : Fields) : String :=
  match fields.lookup name with
  | some (.string _ cells) => (cellAt cells 0).getD ""
  | _ => ""

/-- The key and the literals of a row, if it has a key. -/
def fieldEntry (columns : List String) (fields : Fields) : Option ProbeKey :=
  (columns.mapM fun name => List.lookup name fields).bind fun group =>
    (compositeUniqueKey group 0).toOption.join.map fun key =>
      (key, group.map (Column.scalarAt 0))

/-- The id of a row, with the key and the literals. -/
def finalOf (columns : List String) (fields : Fields) : String × Option ProbeKey :=
  (fieldText "id" fields, fieldEntry columns fields)

/-- The id and the source of an edge. -/
def edgeOf (fields : Fields) : String × String := (fieldText "id" fields, fieldText "src" fields)

variable {fields : Fields}

section Reading

variable {batch : RecordBatch} {columns : List String} {group : List Column} {row : ℕ}

lemma fieldText_of_fieldId {id : String} (h : fieldId fields = some id) :
    fieldText "id" fields = id := by
  unfold fieldId at h
  split at h
  next cells hcells =>
    have htext : fieldText "id" fields = (cellAt cells 0).getD "" := by
      simp only [fieldText, hcells]
    rw [htext, h]
    rfl
  · cases h

variable {name : String}

lemma stringValues_of_schema (h : (schemaOf batch).lookup name = some (.string .utf8)) :
    stringValues batch name = .ok ((batchRows batch).map (fieldText name)) := by
  rw [schemaOf, lookup_map_snd, map_eq_some_iff] at h
  obtain ⟨column, hcolumn, htype⟩ := h
  cases column with
  | string encoding cells =>
    cases htype
    have hcol : stringCol batch name = .ok cells := by
      rw [stringCol, RecordBatch.columnByName, hcolumn]
    rw [stringValues, hcol]
    refine congrArg Except.ok (ext_getElem ?_ fun row hrow _ => ?_)
    · rw [length_map, length_of_stringCol hcol, batchRows, length_map, length_map,
        length_range]
    · rw [length_map] at hrow
      simp only [batchRows, getElem_map, getElem_range, fieldText, rowFields]
      rw [lookup_map_snd, hcolumn]
      simp [takeColumn, cellAt, hrow]
  | _ => cases htype

lemma schema_of_stringValues {values : List String} (h : stringValues batch name = .ok values) :
    (schemaOf batch).lookup name = some (.string .utf8) := by
  obtain ⟨cells, hcells, -⟩ := map_eq_ok h
  rw [schemaOf, lookup_map_snd]
  unfold stringCol RecordBatch.columnByName at hcells
  split at hcells
  · cases hcells
  next hlookup =>
    rw [hlookup]
    rfl
  · cases hcells

lemma canonicalScalarKey_takeColumn (column : Column) :
    canonicalScalarKey (takeColumn [row] column) 0 = canonicalScalarKey column row := by
  cases column <;> rfl

lemma compositeUniqueKey_takeColumn (group : List Column) :
    compositeUniqueKey (group.map (takeColumn [row])) 0 = compositeUniqueKey group row := by
  induction group with
  | nil => rfl
  | cons column group ih =>
    rw [map_cons, compositeUniqueKey, compositeUniqueKey, canonicalScalarKey_takeColumn, ih]

lemma scalarAt_takeColumn (column : Column) :
    (takeColumn [row] column).scalarAt 0 = column.scalarAt row := by
  cases column <;> rfl

lemma mapM_lookup_rowFields (h : columns.mapM batch.columnByName = some group) :
    (columns.mapM fun name => List.lookup name (rowFields batch row)) =
      some (group.map (takeColumn [row])) := by
  induction columns generalizing group with
  | nil =>
    cases h
    rfl
  | cons name columns ih =>
    rw [mapM_cons] at h ⊢
    obtain ⟨column, hcolumn, h⟩ := bind_eq_some_iff.mp h
    obtain ⟨rest, hrest, h⟩ := bind_eq_some_iff.mp h
    cases h
    have hlookup : (rowFields batch row).lookup name = some (takeColumn [row] column) := by
      rw [rowFields, lookup_map_snd, show batch.columns.lookup name = some column from hcolumn]
      rfl
    rw [hlookup, ih hrest]
    rfl

lemma fieldEntry_rowFields (h : columns.mapM batch.columnByName = some group) :
    fieldEntry columns (rowFields batch row) =
      (compositeUniqueKey group row).toOption.join.map fun key =>
        (key, group.map (Column.scalarAt row)) := by
  rw [fieldEntry, mapM_lookup_rowFields h, bind_some, compositeUniqueKey_takeColumn,
    List.map_map]
  refine congrArg (fun f => Option.map f _) (funext fun key => congrArg (Prod.mk key) ?_)
  exact map_congr_left fun column _ => scalarAt_takeColumn column

lemma mapM_of_groupColumns {tableKey : String}
    (h : groupColumns tableKey columns batch = .ok group) :
    columns.mapM batch.columnByName = some group := by
  rw [groupColumns, mapM_eq_ok_iff] at h
  induction h with
  | nil => rfl
  | @cons name column columns group hcolumn _ ih =>
    have hname : batch.columnByName name = some column := by
      cases hlookup : batch.columnByName name with
      | none =>
        rw [hlookup] at hcolumn
        cases hcolumn
      | some found =>
        rw [hlookup] at hcolumn
        cases hcolumn
        rfl
    rw [mapM_cons, hname, ih]
    rfl

end Reading

/-! ### The final entries -/

section Pass

variable {tableKey : String} {columns : List String} {pass next : UniquePass}

/-- A row sets or removes the entry of its id, whatever the keys seen before. -/
lemma uniqueRow_lookup {group : List Column} {ids : List String} {row : ℕ}
    (h : Quiet (fun _ => False) (uniqueRow tableKey columns group ids pass row) next)
    (id : String) :
    next.finalById.lookup id = if id = ids.getD row "" then
      (compositeUniqueKey group row).toOption.join.map fun key =>
        (key, group.map (Column.scalarAt row))
      else pass.finalById.lookup id := by
  unfold uniqueRow at h
  rw [quiet_bind_iff] at h
  obtain ⟨cell, hcell, h⟩ := h
  rw [quiet_lift_iff] at hcell
  rw [hcell]
  cases cell with
  | none =>
    rw [quiet_pure_iff] at h
    subst h
    dsimp only
    split_ifs with hid
    · rw [hid]
      exact AList.lookup_erase _ _
    · exact AList.lookup_erase_ne hid
  | some key =>
    rw [quiet_bind_iff] at h
    obtain ⟨hasViolation, -, h⟩ := h
    rw [quiet_pure_iff] at h
    subst h
    exact HashMap.lookup_insert_ite _ _ _ _

/-- The pass has the entries of the last rows. -/
def HasLast (rows : List (String × Option ProbeKey)) (pass : UniquePass) : Prop :=
  ∀ id entry, pass.finalById.lookup id = some entry ↔ Keyed.IsLast Prod.fst rows (id, some entry)

lemma HasLast.append {rows : List (String × Option ProbeKey)} (h : HasLast rows pass)
    {r : String × Option ProbeKey} (hlookup : ∀ id, next.finalById.lookup id =
      if id = r.1 then r.2 else pass.finalById.lookup id) : HasLast (rows ++ [r]) next := by
  intro id entry
  rw [hlookup, Keyed.isLast_append_singleton]
  split_ifs with hid
  · subst hid
    constructor
    · intro hentry
      exact .inl (Prod.ext rfl hentry.symm)
    · rintro (heq | ⟨-, hne⟩)
      · rw [← heq]
      · exact absurd rfl hne
  · rw [h id entry]
    constructor
    · exact fun hlast => .inr ⟨hlast, Ne.symm hid⟩
    · rintro (heq | ⟨hlast, -⟩)
      · exact absurd (congrArg Prod.fst heq) hid
      · exact hlast

/-- A batch without a violation leaves the last rows of the ids with their keys. -/
lemma HasLast.uniqueBatch {rows : List (String × Option ProbeKey)} (h : HasLast rows pass)
    {batch : RecordBatch}
    (hquiet : Quiet (fun _ => False) (uniqueBatch tableKey columns pass batch) next) :
    HasLast (rows ++ (batchRows batch).map (finalOf columns)) next := by
  unfold Omnigraph.uniqueBatch at hquiet
  rw [quiet_bind_iff] at hquiet
  obtain ⟨group, hgroup, hquiet⟩ := hquiet
  rw [quiet_bind_iff] at hquiet
  obtain ⟨ids, hids, hquiet⟩ := hquiet
  rw [quiet_lift_iff] at hgroup hids
  have hcolumns := mapM_of_groupColumns hgroup
  have hvalues := stringValues_of_schema (schema_of_stringValues hids)
  rw [hids, Except.ok.injEq] at hvalues
  have hrow : ∀ row < batch.numRows, finalOf columns (rowFields batch row) =
      (ids.getD row "", (compositeUniqueKey group row).toOption.join.map fun key =>
        (key, group.map (Column.scalarAt row))) := by
    intro row hlt
    rw [finalOf, fieldEntry_rowFields hcolumns, hvalues]
    have hlength : row < (batchRows batch).length := by
      rw [batchRows, length_map, length_range]
      exact hlt
    rw [getD_eq_getElem?_getD, List.getElem?_map, List.getElem?_eq_getElem hlength]
    simp [batchRows]
  have hrun := Quiet.foldlM (I := fun done pass => (∀ row ∈ done, row < batch.numRows) →
    HasLast (rows ++ done.map fun row => finalOf columns (rowFields batch row)) pass)
    (fun done row s s' hs hstep hdone => ?_) ?_ hquiet fun row hrow => mem_range.mp hrow
  · rw [batchRows, List.map_map]
    exact hrun
  · rw [forall_mem_append, forall_mem_singleton] at hdone
    rw [map_append, ← append_assoc]
    rw [map_singleton, hrow row hdone.2]
    exact (hs hdone.1).append (uniqueRow_lookup hstep)
  · intro _
    rw [map_nil, append_nil]
    exact h

/-- After the first pass the entries are those of the last rows of the change. -/
lemma firstPass_lookup {batches : List RecordBatch}
    (hresult : (batches.foldlM (Omnigraph.uniqueBatch tableKey columns) ⟨∅, ∅, false⟩).result =
      .ok pass) :
    HasLast ((batches.flatMap batchRows).map (finalOf columns)) pass := by
  have hquiet : Quiet (fun _ => False)
      (batches.foldlM (Omnigraph.uniqueBatch tableKey columns) ⟨∅, ∅, false⟩) pass :=
    ⟨hresult, fun _ _ h => h⟩
  have hrun := Quiet.foldlM (I := fun done pass =>
    HasLast ((done.flatMap batchRows).map (finalOf columns)) pass)
    (fun done batch s s' hs hstep => ?_) ?_ hquiet
  · exact hrun
  · rw [flatMap_append, flatMap_singleton, map_append]
    exact hs.uniqueBatch hstep
  · intro id entry
    simp [Keyed.isLast_nil]

end Pass

/-! ### The edges -/

lemma edgeSrcsOf_eq {batch : RecordBatch} {edges : List (String × String)}
    (h : edgeSrcsOf batch = .ok edges) : edges = (batchRows batch).map edgeOf := by
  rw [edgeSrcsOf, bind_eq_ok_iff] at h
  obtain ⟨ids, hids, h⟩ := h
  rw [bind_eq_ok_iff] at h
  obtain ⟨srcs, hsrcs, h⟩ := h
  cases h
  have hidValues := stringValues_of_schema (schema_of_stringValues hids)
  have hsrcValues := stringValues_of_schema (schema_of_stringValues hsrcs)
  rw [Except.ok.inj (hids.symm.trans hidValues), Except.ok.inj (hsrcs.symm.trans hsrcValues)]
  exact zip_map'

lemma deltaEdgeSrc_eq {change : TableChange} {delta : List (String × String)}
    (h : deltaEdgeSrc change = .ok delta) :
    delta = (change.valueBatches.flatMap batchRows).map edgeOf := by
  obtain ⟨parts, hparts, rfl⟩ := map_eq_ok h
  rw [mapM_eq_ok_iff] at hparts
  clear h
  generalize change.valueBatches = batches at hparts
  induction hparts with
  | nil => rfl
  | cons hpart _ ih =>
    rw [flatten_cons, flatMap_cons, map_append, ← ih, edgeSrcsOf_eq hpart]

/-! ### The rows that are committed -/

/-- The committed row of an id. -/
def committedRow (merged : RecordBatch) (id : String) : Option Fields :=
  (batchRows merged).find? fun fields => fieldId fields = some id

section Committed

variable {merged : RecordBatch} {rows : List Fields} {id : String}

lemma committedRow_eq_some_iff (hnodup : ((batchRows merged).map fieldId).Nodup) :
    committedRow merged id = some fields ↔
      fields ∈ batchRows merged ∧ fieldId fields = some id := by
  constructor
  · intro h
    exact ⟨mem_of_find?_eq_some h, by simpa using List.find?_some h⟩
  · rintro ⟨hmem, hid⟩
    cases hfound : committedRow merged id with
    | none => simpa [hid] using List.find?_eq_none.mp hfound fields hmem
    | some other =>
      have hother : fieldId other = some id := by simpa using List.find?_some hfound
      have hsame := inj_on_of_nodup_map hnodup (mem_of_find?_eq_some hfound) hmem
        (hother.trans hid.symm)
      rw [hsame]

/-- What is read of the last row of an id is what is read of its committed row. -/
lemma isLast_iff_committedRow (hrows : batchRows merged = LastWins.keep fieldId rows)
    (hids : ∀ fields ∈ rows, fieldId fields ≠ none) {β : Type} (read : Fields → β) {value : β} :
    Keyed.IsLast Prod.fst (rows.map fun fields => (fieldText "id" fields, read fields))
        (id, value) ↔
      ∃ fields, committedRow merged id = some fields ∧ read fields = value := by
  have htext : ∀ fields ∈ rows, fieldId fields = some (fieldText "id" fields) := by
    intro fields hfields
    obtain ⟨id, hid⟩ := ne_none_iff_exists'.mp (hids fields hfields)
    rw [hid, fieldText_of_fieldId hid]
  have hkeys : ∀ r ∈ rows, ∀ q ∈ rows,
      fieldText "id" r = fieldText "id" q ↔ fieldId r = fieldId q := by
    intro r hr q hq
    rw [htext r hr, htext q hq, Option.some.injEq]
  have hnodup : ((batchRows merged).map fieldId).Nodup := by
    rw [hrows]
    exact LastWins.nodup_keep hids
  rw [@LastWins.isLast_map String Fields fieldId _ String Prod.fst
    (fun fields => (fieldText "id" fields, read fields)) rows hkeys]
  constructor
  · rintro ⟨fields, hlast, heq⟩
    cases heq
    refine ⟨fields, (committedRow_eq_some_iff hnodup).mpr ⟨?_, htext fields hlast.mem⟩, rfl⟩
    rw [hrows]
    exact (LastWins.mem_keep_iff hids).mpr hlast
  · rintro ⟨fields, hfields, rfl⟩
    obtain ⟨hmem, hid⟩ := (committedRow_eq_some_iff hnodup).mp hfields
    rw [hrows] at hmem
    have hlast := (LastWins.mem_keep_iff hids).mp hmem
    exact ⟨fields, hlast, by rw [fieldText_of_fieldId hid]⟩

end Committed

/-- Of the rows of an id the last one is committed, and a row without an id is committed as well.
The entries that uniqueness and cardinality are checked with are those of the committed rows. -/
theorem dedupeMergeBatchesById_exact {schema : Schema} {batches : List RecordBatch}
    (hne : batches ≠ []) (h : Mergeable schema batches) :
    ∃ merged, dedupeMergeBatchesById schema batches = .ok merged ∧ schemaOf merged = schema ∧
      batchRows merged = ((batches.flatMap batchRows).zipIdx.filter
        (LastWins.lastAt fieldId (batches.flatMap batchRows).zipIdx)).map Prod.fst ∧
      ((∀ fields ∈ batches.flatMap batchRows, fieldId fields ≠ none) →
        ((batchRows merged).map fieldId).Nodup ∧
        ∀ change : TableChange, change.valueBatches = batches →
          (∀ tableKey columns pass,
            (change.valueBatches.foldlM (uniqueBatch tableKey columns) ⟨∅, ∅, false⟩).result =
                .ok pass →
              ∀ id, pass.finalById.lookup id =
                (committedRow merged id).bind (fieldEntry columns)) ∧
          ∀ delta, deltaEdgeSrc change = .ok delta → ∀ id,
            (HashMap.insertAll Prod.fst Prod.snd ∅ delta : HashMap String String).lookup id =
              (committedRow merged id).map (fieldText "src")) := by
  obtain ⟨merged, hmerged, hschema, hrows⟩ := dedupe_rows hne h
  refine ⟨merged, hmerged, hschema, hrows.trans (LastWins.keep_eq_filter _), fun hids => ⟨?_, ?_⟩⟩
  · rw [hrows]
    exact LastWins.nodup_keep hids
  · rintro change rfl
    refine ⟨fun tableKey columns pass hpass id => Option.ext fun entry => ?_,
      fun delta hdelta id => Option.ext fun src => ?_⟩
    · rw [firstPass_lookup hpass id entry, bind_eq_some_iff]
      exact isLast_iff_committedRow hrows hids (fieldEntry columns)
    · rw [HashMap.lookup_insertAll_iff, deltaEdgeSrc_eq hdelta, map_eq_some_iff,
        ← isLast_iff_committedRow hrows hids (fieldText "src")]
      constructor
      · rintro (⟨⟨id, src⟩, hlast, rfl, rfl⟩ | ⟨-, hempty⟩)
        · exact hlast
        · simp at hempty
      · exact fun hlast => .inl ⟨(id, src), hlast, rfl, rfl⟩

/-- An id is used again in its own batch and in the next one. -/
def reusedEdges : List RecordBatch :=
  [⟨[("id", .string .utf8 [some "e1", some "e2", some "e1"]),
      ("src", .string .utf8 [some "a", some "b", some "c"])], 3, by decide⟩,
    ⟨[("id", .string .utf8 [some "e2"]), ("src", .string .utf8 [some "d"])], 1, by decide⟩]

theorem dedupeMergeBatchesById_exact_reused :
    ∃ merged, dedupeMergeBatchesById [("id", .string .utf8), ("src", .string .utf8)] reusedEdges =
        .ok merged ∧
      (batchRows merged).map edgeOf = [("e1", "c"), ("e2", "d")] ∧
      (committedRow merged "e1").map (fieldText "src") = some "c" ∧
      ((committedRow merged "e2").bind (fieldEntry ["src"])).map Prod.fst = some ["d"] := by
  have hmergeable : Mergeable [("id", .string .utf8), ("src", .string .utf8)] reusedEdges :=
    ⟨by decide, by decide, by decide⟩
  obtain ⟨merged, hmerged, -, hrows, hcoalesced⟩ :=
    dedupeMergeBatchesById_exact (by decide) hmergeable
  obtain ⟨-, hchange⟩ := hcoalesced (by decide)
  obtain ⟨hunique, hcardinality⟩ := hchange ⟨reusedEdges, [], []⟩ rfl
  refine ⟨merged, hmerged, ?_, ?_, ?_⟩
  · rw [hrows]
    decide +kernel
  · rw [← hcardinality _ rfl "e1"]
    decide +kernel
  · rw [← hunique "edge:Knows" ["src"] _ rfl "e2"]
    decide +kernel

end Omnigraph.Dedupe
