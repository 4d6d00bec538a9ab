import Omnigraph.Validate.Holders

/-!
# Uniqueness

When the evaluator finds nothing, no two rows of the table that a change leaves share a key. The
evaluator reads the rows of the change in order and keeps the final key of each id. It compares
these keys with each other, and then with the committed rows that stay.
-/

namespace Omnigraph

open List Option Emission

/-- The rows of a change, batch after batch. -/
def TableChange.keyedRows (columns : List String) (change : TableChange) : List KeyedRow :=
  change.valueBatches.flatMap (RecordBatch.keyedRows columns)

/-- The rows a change leaves: those of an id that is neither deleted nor written, and the last
written row of each id. -/
def resultingRows (committed delta : List KeyedRow) (deletedIds : List String) : List KeyedRow :=
  Keyed.upsertAll KeyedRow.id (committed.filter fun row => row.id ∉ deletedIds) delta

/-- Rows of different ids have different keys, where they have one. -/
def KeysDistinct (rows : List KeyedRow) : Prop :=
  ∀ r ∈ rows, ∀ q ∈ rows, r.key ≠ none → r.key = q.key → r.id = q.id

instance (rows : List KeyedRow) : Decidable (KeysDistinct rows) :=
  inferInstanceAs (Decidable (∀ r ∈ rows, ∀ q ∈ rows, r.key ≠ none → r.key = q.key → r.id = q.id))

lemma mem_resultingRows {committed delta : List KeyedRow} {deletedIds : List String}
    {r : KeyedRow} :
    r ∈ resultingRows committed delta deletedIds ↔
      Keyed.IsLast KeyedRow.id delta r ∨
        (r ∈ committed ∧ r.id ∉ deletedIds ∧ ∀ q ∈ delta, q.id ≠ r.id) := by
  rw [resultingRows, Keyed.mem_upsertAll_iff]
  simp [and_assoc]

/-! ### The final keys -/

variable {id : String}

section Pass

variable {columns : List String} {types : List ColumnType} {tableKey : String} {batch : RecordBatch}
  {group : List Column} {ids : List String} {pre : List KeyedRow} {pass next : UniquePass}
  {row : ℕ}

/-- The pass has read the rows `pre` without a finding, and knows the final key of each id. -/
structure UniquePass.Knows (types : List ColumnType) (pre : List KeyedRow) (pass : UniquePass) :
    Prop where
  final : ∀ id key, (∃ literals, pass.finalById.lookup id = some (key, literals)) ↔
    ∃ r, Keyed.IsLast KeyedRow.id pre r ∧ r.id = id ∧ r.key = some key
  renders : ∀ id probe, pass.finalById.lookup id = some probe → Renders types probe
  hasViolation : pass.hasViolation = false

/-- Reading one more row. -/
lemma UniquePass.Knows.read (h : pass.Knows types pre) {r : KeyedRow}
    {literals : List (Option ScalarValue)}
    (hlookup : ∀ id, next.finalById.lookup id =
      if id = r.id then r.key.map fun key => (key, literals) else pass.finalById.lookup id)
    (hrenders : ∀ key, r.key = some key → Renders types (key, literals))
    (hnext : next.hasViolation = false) : next.Knows types (pre ++ [r]) := by
  refine ⟨fun id key => ?_, fun id probe hprobe => ?_, hnext⟩
  · rw [hlookup]
    simp only [Keyed.isLast_append_singleton]
    split_ifs with hid
    · subst hid
      constructor
      · rintro ⟨_, hfinal⟩
        obtain ⟨_, hkey, heq⟩ := map_eq_some_iff.mp hfinal
        cases heq
        exact ⟨r, .inl rfl, rfl, hkey⟩
      · rintro ⟨q, rfl | ⟨-, hne⟩, hid, hkey⟩
        · exact ⟨literals, by rw [hkey]; rfl⟩
        · exact absurd hid.symm hne
    · rw [h.final id key]
      constructor
      · rintro ⟨q, hlast, rfl, hkey⟩
        exact ⟨q, .inr ⟨hlast, Ne.symm hid⟩, rfl, hkey⟩
      · rintro ⟨q, rfl | ⟨hlast, -⟩, hq, hkey⟩
        · exact absurd hq.symm hid
        · exact ⟨q, hlast, hq, hkey⟩
  · rw [hlookup] at hprobe
    split_ifs at hprobe with hid
    · obtain ⟨key, hkey, rfl⟩ := map_eq_some_iff.mp hprobe
      exact hrenders key hkey
    · exact h.renders id probe hprobe

variable {key : List String}

/-- The literals of a row render its key. -/
lemma IsGroup.renders (hgroup : IsGroup columns types batch group)
    (hkey : compositeUniqueKey group row = .ok (some key)) :
    Renders types (key, group.map (Column.scalarAt row)) := by
  have htexts := compositeUniqueKey_iff.mp hkey
  refine ⟨?_, fun i type htype => ?_⟩
  · rw [← htexts.length_eq, ← hgroup.typed, length_map]
  · rw [← hgroup.typed, List.getElem?_map] at htype
    obtain ⟨column, hcolumn, rfl⟩ := map_eq_some_iff.mp htype
    obtain ⟨hi, rfl⟩ := List.getElem?_eq_some_iff.mp hcolumn
    have hi' : i < key.length := htexts.length_eq ▸ hi
    obtain ⟨value, hvalue, htext⟩ := htexts.get hi hi'
    have hvalue : group[i].scalarAt row = some value := hvalue
    refine ⟨value, ?_, Column.dataType_of_scalarAt hvalue,
      hgroup.zeros _ (getElem_mem hi) row value hvalue, ?_⟩
    · simp [getD_eq_getElem?_getD, hcolumn, hvalue]
    · rw [htext, getD_eq_getElem?_getD, List.getElem?_eq_getElem hi']
      rfl

lemma quiet_reportSeen {hasViolation : Bool}
    (h : Quiet (fun _ => True) (reportSeen tableKey columns key id pass) hasViolation) :
    hasViolation = pass.hasViolation := by
  unfold reportSeen at h
  cases hprior : pass.seenInBatch.lookup key with
  | none =>
    simp only [hprior, quiet_pure_iff] at h
    exact h.symm
  | some prior => simp [hprior, quiet_bind_iff] at h

/-- After a row without a violation its key is known. -/
lemma UniquePass.Knows.afterRow (h : pass.Knows types pre)
    (hgroup : IsGroup columns types batch group)
    (hids : stringCol batch "id" = .ok (ids.map some))
    (hquiet : Quiet (fun _ => True) (uniqueRow tableKey columns group ids pass row) next) :
    next.Knows types (pre ++ [batch.keyedRow columns row]) := by
  unfold uniqueRow at hquiet
  rw [quiet_bind_iff] at hquiet
  obtain ⟨cell, hcell, hquiet⟩ := hquiet
  rw [quiet_lift_iff] at hcell
  have hrowKey : batch.rowKey columns row = cell := by
    rw [hgroup.rowKey, hcell]
    rfl
  cases cell with
  | none =>
    rw [quiet_pure_iff] at hquiet
    subst hquiet
    refine @UniquePass.Knows.read _ _ _ _ h (batch.keyedRow columns row) [] (fun id => ?_) ?_
      h.hasViolation
    · show (pass.finalById.erase (ids.getD row "")).lookup id = _
      simp only [RecordBatch.keyedRow, hrowKey, rowId_eq hids]
      split_ifs with hid
      · rw [hid]
        exact AList.lookup_erase _ _
      · exact AList.lookup_erase_ne hid
    · intro key hkey
      cases hrowKey.symm.trans hkey
  | some key =>
    rw [quiet_bind_iff] at hquiet
    obtain ⟨hasViolation, hseen, hquiet⟩ := hquiet
    rw [quiet_pure_iff] at hquiet
    subst hquiet
    refine @UniquePass.Knows.read _ _ _ _ h (batch.keyedRow columns row)
      (group.map (Column.scalarAt row)) (fun id => ?_) ?_ ?_
    · show (pass.finalById.insert (ids.getD row "") _).lookup id = _
      simp only [RecordBatch.keyedRow, hrowKey, rowId_eq hids]
      exact HashMap.lookup_insert_ite _ _ _ _
    · intro key' hkey'
      cases hrowKey.symm.trans hkey'
      exact hgroup.renders hcell
    · exact (quiet_reportSeen hseen).trans h.hasViolation

lemma UniquePass.Knows.afterBatch (h : pass.Knows types pre) (hbatch : Conforms columns types batch)
    (hquiet : Quiet (fun _ => True) (uniqueBatch tableKey columns pass batch) next) :
    next.Knows types (pre ++ batch.keyedRows columns) := by
  obtain ⟨ids, hids⟩ := hbatch.ids
  obtain ⟨group, hgroup⟩ := hbatch.group
  unfold uniqueBatch at hquiet
  simp only [quiet_bind_iff, quiet_lift_iff, hgroup.groupColumns, stringValues_of_cells hids,
    Except.ok.injEq, exists_eq_left'] at hquiet
  have hrun := Quiet.foldlM
    (I := fun done pass => pass.Knows types (pre ++ done.map (batch.keyedRow columns)))
    (fun done row s s' hs hrow => ?_) ?_ hquiet
  · exact hrun
  · have := hs.afterRow hgroup hids hrow
    simpa using this
  · rw [map_nil, append_nil]
    exact ⟨h.final, h.renders, h.hasViolation⟩

/-- The final keys, once the whole change is read. -/
lemma knows_of_quiet {batches : List RecordBatch}
    (hbatches : ∀ batch ∈ batches, Conforms columns types batch)
    (hquiet : Quiet (fun _ => True) (batches.foldlM (uniqueBatch tableKey columns) ⟨∅, ∅, false⟩)
      pass) : pass.Knows types (batches.flatMap (RecordBatch.keyedRows columns)) := by
  refine Quiet.foldlM (I := fun done pass => (∀ batch ∈ done, Conforms columns types batch) →
    pass.Knows types (done.flatMap (RecordBatch.keyedRows columns))) ?_ ?_ hquiet hbatches
  · intro done batch s s' hs hstep hdone
    rw [forall_mem_append, forall_mem_singleton] at hdone
    rw [flatMap_append, flatMap_singleton]
    exact (hs hdone.1).afterBatch hdone.2 hstep
  · intro _
    exact ⟨by simp [Keyed.isLast_nil], by simp, rfl⟩

end Pass

/-! ### The final keys against each other -/

lemma mem_sortedEntries {finalById : HashMap String ProbeKey} {entry : String × ProbeKey} :
    entry ∈ sortedEntries finalById ↔ finalById.lookup entry.1 = some entry.2 := by
  obtain ⟨id, probe⟩ := entry
  rw [sortedEntries, mem_insertionSort, HashMap.lookup_eq_some_iff_mem]
  constructor
  · intro h
    obtain ⟨⟨_, _⟩, hmem, heq⟩ := List.mem_map.mp h
    cases heq
    exact hmem
  · exact fun h => List.mem_map.mpr ⟨_, h, rfl⟩

variable {deltaIds : List String}

section Entries

variable {columns : List String} {tableKey : String} {entries : List (String × ProbeKey)}
  {holderByKey next : HashMap (List String) String} {entry : String × ProbeKey}

lemma quiet_uniqueEntry
    (h : Quiet (fun _ => True) (uniqueEntry tableKey columns holderByKey entry) next) :
    (∀ other, holderByKey.lookup entry.2.1 = some other → other = entry.1) ∧
      next = holderByKey.insert entry.2.1 entry.1 := by
  unfold uniqueEntry reportHolder at h
  rw [quiet_bind_iff] at h
  obtain ⟨_, hreport, hnext⟩ := h
  rw [quiet_pure_iff] at hnext
  refine ⟨fun other hother => ?_, hnext.symm⟩
  simpa [hother] using hreport

/-- Entries with one key have one id. -/
lemma ids_of_quiet {last : HashMap (List String) String}
    (h : Quiet (fun _ => True) (entries.foldlM (uniqueEntry tableKey columns) ∅) last) :
    ∀ e ∈ entries, ∀ e' ∈ entries, e.2.1 = e'.2.1 → e.1 = e'.1 := by
  have hholders : ∀ e ∈ entries, last.lookup e.2.1 = some e.1 := by
    refine Quiet.foldlM (I := fun done holderByKey =>
      ∀ e ∈ done, holderByKey.lookup e.2.1 = some e.1) ?_ ?_ h
    · intro done entry holderByKey next hdone hstep e he
      obtain ⟨hsame, rfl⟩ := quiet_uniqueEntry hstep
      rw [HashMap.lookup_insert_ite]
      rcases mem_append.mp he with he | he
      · split_ifs with hkey
        · rw [hsame e.1 (hkey ▸ hdone e he)]
        · exact hdone e he
      · rw [mem_singleton.mp he, if_pos rfl]
    · simp
  intro e he e' he' hkey
  have := hholders e he
  rw [hkey, hholders e' he'] at this
  exact (Option.some.inj this).symm

/-- The keys of the entries are probed once each. -/
lemma probesOf_spec (entries : List (String × ProbeKey)) :
    ((probesOf entries).map Prod.fst).Nodup ∧
      (∀ probe ∈ probesOf entries, ∃ entry ∈ entries, entry.2 = probe) ∧
      ∀ entry ∈ entries, entry.2.1 ∈ (probesOf entries).map Prod.fst := by
  obtain ⟨kept, hsub, hprobes, hnodup, hall⟩ := @Keyed.exists_kept _ _ _ _
    (fun entry : String × ProbeKey => entry.2.1) Prod.snd entries
  have hmap : (probesOf entries).map Prod.fst = kept.map fun entry => entry.2.1 := by
    rw [probesOf, hprobes, List.map_map]
    rfl
  refine ⟨hmap ▸ hnodup, fun probe hprobe => ?_, fun entry hentry => ?_⟩
  · rw [probesOf, hprobes] at hprobe
    obtain ⟨entry, hentry, rfl⟩ := List.mem_map.mp hprobe
    exact ⟨entry, hsub.subset hentry, rfl⟩
  · obtain ⟨first, hfirst, hkey⟩ := hall entry hentry
    rw [hmap]
    exact List.mem_map.mpr ⟨first, hfirst, hkey⟩

lemma quiet_probeEntry {deleted : List String} {holdersByKey : HashMap (List String) (List String)}
    (h : Quiet (fun _ => True) (probeEntry tableKey columns deltaIds deleted holdersByKey entry)
    ()) :
    ∀ holder ∈ found holdersByKey entry.2.1, holder ∈ deltaIds ∨ holder ∈ deleted := by
  unfold probeEntry at h
  intro holder hholder
  cases hfind : (found holdersByKey entry.2.1).find? fun holder =>
      holder ∉ deltaIds ∧ holder ∉ deleted with
  | some holder =>
    unfold found at hfind
    rw [hfind] at h
    exact absurd trivial (quiet_emit_iff.mp h)
  | none =>
    have := List.find?_eq_none.mp hfind holder hholder
    simp only [decide_eq_true_eq, not_and_or, not_not] at this
    exact this

end Entries

/-! ### Soundness -/

section Sound

variable {columns : List String} {types : List ColumnType} {tableKey : String}
  {change : TableChange} {committed : CommittedState}
  {sameValue : ScalarValue → ScalarValue → Bool}

/-- The ids of a change are ids of its rows. -/
lemma exists_of_mem_deltaIdSet
    (hdelta : ∀ batch ∈ change.valueBatches, Conforms columns types batch)
    (h : deltaIdSet change = .ok deltaIds) (hid : id ∈ deltaIds) :
    ∃ d ∈ change.keyedRows columns, d.id = id := by
  have hread : change.valueBatches.mapM (fun batch => stringCol batch "id") =
      .ok (change.valueBatches.map fun batch =>
        ((batch.keyedRows columns).map KeyedRow.id).map some) := by
    rw [Except.mapM_eq_ok_iff, List.forall₂_map_right_iff, List.forall₂_same]
    intro batch hbatch
    obtain ⟨ids, hids⟩ := (hdelta batch hbatch).ids
    rw [hids, map_id_keyedRows hids]
  rw [deltaIdSet, hread] at h
  cases h
  rw [reduceOption_mem_iff, ← flatMap_def, ← map_flatMap, ← map_flatMap,
    List.mem_map_of_injective (some_injective _)] at hid
  exact List.mem_map.mp hid

/-- What a quiet evaluation has compared. -/
lemma quiet_evaluateUnique (hcolumns : columns ≠ []) (hsame : Compares sameValue)
    (hcommitted : ∀ table ∈ committed.openTable tableKey, Conforms columns types table)
    (hdelta : ∀ batch ∈ change.valueBatches, Conforms columns types batch)
    (hquiet : Quiet (fun _ => True)
      (evaluateUnique sameValue tableKey columns false change committed) ()) :
    (∀ r q, Keyed.IsLast KeyedRow.id (change.keyedRows columns) r →
      Keyed.IsLast KeyedRow.id (change.keyedRows columns) q →
      ∀ key, r.key = some key → q.key = some key → r.id = q.id) ∧
    ∀ r, Keyed.IsLast KeyedRow.id (change.keyedRows columns) r → ∀ key, r.key = some key →
      ∀ q ∈ committedRows columns (committed.openTable tableKey), q.key = some key →
        (∃ d ∈ change.keyedRows columns, d.id = q.id) ∨ q.id ∈ change.deletedIds := by
  unfold evaluateUnique at hquiet
  rw [quiet_bind_iff] at hquiet
  obtain ⟨deltaIds, hids, hquiet⟩ := hquiet
  rw [quiet_bind_iff] at hquiet
  obtain ⟨pass, hpass, hquiet⟩ := hquiet
  have hknows : pass.Knows types (change.keyedRows columns) := knows_of_quiet hdelta hpass
  rw [hknows.hasViolation] at hquiet
  simp only [Bool.false_eq_true, if_false, quiet_bind_iff, quiet_lift_iff] at hquiet hids
  obtain ⟨last, hentries, holdersByKey, hholders, hprobe⟩ := hquiet
  -- the entry of a row that is the last of its id
  have hentry : ∀ r, Keyed.IsLast KeyedRow.id (change.keyedRows columns) r → ∀ key,
      r.key = some key → ∃ literals, (r.id, key, literals) ∈ sortedEntries pass.finalById := by
    intro r hr key hkey
    obtain ⟨literals, hlookup⟩ := (hknows.final r.id key).mpr ⟨r, hr, rfl, hkey⟩
    exact ⟨literals, mem_sortedEntries.mpr hlookup⟩
  refine ⟨fun r q hr hq key hrk hqk => ?_, fun r hr key hrk q hq hqk => ?_⟩
  · obtain ⟨_, hre⟩ := hentry r hr key hrk
    obtain ⟨_, hqe⟩ := hentry q hq key hqk
    exact ids_of_quiet hentries _ hre _ hqe rfl
  · obtain ⟨_, hre⟩ := hentry r hr key hrk
    obtain ⟨hnodup, hfrom, hall⟩ := probesOf_spec (sortedEntries pass.finalById)
    have hrenders : ∀ probe ∈ probesOf (sortedEntries pass.finalById), Renders types probe := by
      intro probe hprobe
      obtain ⟨entry, hentry, rfl⟩ := hfrom probe hprobe
      exact hknows.renders entry.1 entry.2 (mem_sortedEntries.mp hentry)
    obtain ⟨holders, hexact, hfound⟩ :=
      uniqueHolders_of_nodup hcolumns hsame hcommitted hrenders hnodup
    cases hexact.symm.trans hholders
    rw [quiet_forM_iff] at hprobe
    have hq' : q.id ∈ found holdersByKey key := by
      rw [hfound key, if_pos (hall _ hre)]
      exact List.mem_map.mpr ⟨q, mem_filter.mpr ⟨hq, decide_eq_true hqk⟩, rfl⟩
    rcases quiet_probeEntry (hprobe _ hre) q.id hq' with hdelta' | hdeleted
    · exact .inl (exists_of_mem_deltaIdSet hdelta hids hdelta')
    · exact .inr hdeleted

/-- For every committed table of distinct keys and every change: a quiet evaluation leaves a table
of distinct keys. For every list of keys without repetition: the probe finds the committed rows
that have one of them, each row once. -/
theorem unique_sound (hcolumns : columns ≠ []) (hsame : Compares sameValue)
    (hcommitted : ∀ table ∈ committed.openTable tableKey, Conforms columns types table) :
    ((∀ batch ∈ change.valueBatches, Conforms columns types batch) →
      KeysDistinct (committedRows columns (committed.openTable tableKey)) →
      Quiet (fun _ => True) (evaluateUnique sameValue tableKey columns false change committed) () →
      KeysDistinct (resultingRows (committedRows columns (committed.openTable tableKey))
        (change.keyedRows columns) change.deletedIds)) ∧
    ∀ probes : List ProbeKey, (∀ probe ∈ probes, Renders types probe) →
      (probes.map Prod.fst).Nodup →
      ∃ holders, committed.uniqueHolders sameValue tableKey columns probes = .ok holders ∧
        ∀ key, (holders.lookup key).getD [] = if key ∈ probes.map Prod.fst then
          holdersOf (committedRows columns (committed.openTable tableKey)) key else [] := by
  refine ⟨fun hdelta hdistinct hquiet => ?_, fun probes hrenders hnodup =>
    uniqueHolders_of_nodup hcolumns hsame hcommitted hrenders hnodup⟩
  obtain ⟨hwritten, hkept⟩ := quiet_evaluateUnique hcolumns hsame hcommitted hdelta hquiet
  intro r hr q hq hne hsameKey
  obtain ⟨key, hrk⟩ := ne_none_iff_exists'.mp hne
  have hqk : q.key = some key := hsameKey ▸ hrk
  rcases mem_resultingRows.mp hr with hr | ⟨hr, hrd, hrn⟩ <;>
    rcases mem_resultingRows.mp hq with hq | ⟨hq, hqd, hqn⟩
  · exact hwritten r q hr hq key hrk hqk
  · rcases hkept r hr key hrk q hq hqk with ⟨d, hd, hid⟩ | hdeleted
    · exact absurd hid (hqn d hd)
    · exact absurd hdeleted hqd
  · rcases hkept q hq key hqk r hr hrk with ⟨d, hd, hid⟩ | hdeleted
    · exact absurd hid (hrn d hd)
    · exact absurd hdeleted hrd
  · exact hdistinct r hr q hq hne hsameKey

end Sound

/-! Persons with a unique email address, and literals compared for equality. -/

def exactly (a b : ScalarValue) : Bool := a = b

lemma compares_exactly : Compares exactly where
  refl _ _ := decide_eq_true rfl
  finite _ _ htext heq := of_decide_eq_true heq ▸ htext

def personBatch (rows : List (String × String)) : RecordBatch where
  columns := [("id", .string .utf8 (rows.map fun row => some row.1)),
    ("email", .string .utf8 (rows.map fun row => some row.2))]
  numRows := rows.length
  length_eq := by simp [Column.length]

lemma conforms_personBatch (rows : List (String × String)) :
    Conforms ["email"] [.string .utf8] (personBatch rows) where
  ids := ⟨rows.map Prod.fst, by rw [List.map_map]; rfl⟩
  group := by
    refine ⟨[.string .utf8 (rows.map fun row => some row.2)], .cons rfl .nil, rfl, ?_⟩
    rintro column hcolumn row value hvalue ⟨type, rfl⟩
    rw [mem_singleton.mp hcolumn] at hvalue
    cases Column.dataType_of_scalarAt hvalue

def persons : CommittedState :=
  .merge (AList.insert "node:Person" (personBatch [("p1", "ann@x")]) ∅)

def annProbe : ProbeKey := (["ann@x"], [some (.string .utf8 "ann@x")])

lemma renders_annProbe : Renders [.string .utf8] annProbe where
  length_eq := rfl
  literal i type htype := by
    cases i with
    | zero =>
      cases htype
      refine ⟨.string .utf8 "ann@x", rfl, rfl, ?_, rfl⟩
      rintro ⟨type, h⟩
      cases h
    | succ i => cases htype

lemma conforms_persons (table : RecordBatch) (h : table ∈ persons.openTable "node:Person") :
    Conforms ["email"] [.string .utf8] table := by
  cases h
  exact conforms_personBatch _

theorem unique_sound_persons :
    KeysDistinct (resultingRows (committedRows ["email"] (persons.openTable "node:Person"))
      (TableChange.keyedRows ["email"] ⟨[personBatch [("p2", "bob@x"), ("p3", "cy@x")]], [], []⟩)
        []) ∧
    ∃ holders, persons.uniqueHolders exactly "node:Person" ["email"] [annProbe] = .ok holders ∧
      ∀ key, (holders.lookup key).getD [] = if key ∈ [["ann@x"]] then
        holdersOf (committedRows ["email"] (persons.openTable "node:Person")) key else [] := by
  have hsound := @unique_sound ["email"] [.string .utf8] "node:Person"
    ⟨[personBatch [("p2", "bob@x"), ("p3", "cy@x")]], [], []⟩ persons exactly (by decide)
    compares_exactly conforms_persons
  refine ⟨hsound.1 ?_ (by decide +kernel) (by decide +kernel), hsound.2 [annProbe] ?_ (by decide)⟩
  · rintro batch hbatch
    rw [mem_singleton.mp hbatch]
    exact conforms_personBatch _
  · rintro probe hprobe
    rw [mem_singleton.mp hprobe]
    exact renders_annProbe

lemma chunks_replicate_succ {α : Type} (n : ℕ) (a : α) :
    chunks (n + 1) (List.replicate (n + 2) a) = [List.replicate (n + 1) a, [a]] := by
  have hnil : chunks.go (n + 1) n ([] : List α) = [] := by cases n <;> rfl
  rw [chunks, length_replicate, chunks.go, if_neg (by simp), take_replicate,
    drop_replicate, chunks.go, if_neg (by simp)]
  simp [hnil]

/-- A key that is asked for twice, in two chunks, has its row listed twice. -/
theorem probe_lists_holder_twice :
    ∃ holders, persons.uniqueHolders exactly "node:Person" ["email"]
        (List.replicate 8193 annProbe) = .ok holders ∧
      (holders.lookup ["ann@x"]).getD [] = ["p1", "p1"] ∧
      holdersOf (committedRows ["email"] (persons.openTable "node:Person")) ["ann@x"] =
        ["p1"] := by
  have hholders : holdersOf (committedRows ["email"] (persons.openTable "node:Person")) ["ann@x"] =
      ["p1"] := by decide +kernel
  obtain ⟨holders, heq, hfound⟩ := @uniqueHolders_eq ["email"] [.string .utf8] persons
    (List.replicate 8193 annProbe) exactly "node:Person" (by decide) compares_exactly
    conforms_persons fun probe hprobe => eq_of_mem_replicate hprobe ▸ renders_annProbe
  refine ⟨holders, heq, (hfound _).trans ?_, hholders⟩
  have hfirst : ["ann@x"] ∈ (List.replicate (8191 + 1) annProbe).map Prod.fst :=
    List.mem_map.mpr ⟨annProbe, mem_cons_self, rfl⟩
  have hsecond : ["ann@x"] ∈ [annProbe].map Prod.fst := by decide
  rw [show uniqueProbeChunkKeys = 8191 + 1 from rfl, chunks_replicate_succ, hholders,
    flatMap_cons, flatMap_singleton, if_pos hfirst, if_pos hsecond]
  rfl

end Omnigraph
