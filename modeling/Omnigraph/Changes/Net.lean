import Omnigraph.Changes.Diff
import Omnigraph.Lib.Sorted

/-!
# Net differences

What the changes between two versions should be: an id only at the destination is inserted, an id
only at the origin is deleted, and an id at both with different contents is updated. The versions
come from a history of commits of one lineage. The three diffs report the net difference exactly
when the window of versions holds just the rows that changed, and what the cells of two rows show
tells different contents apart.
-/

namespace Omnigraph

open List

open Diff (Edit)
open MergeJoin (Ascending)

/-! ### The net difference -/

section Net

variable (reader : RowReader) (src tgt : List VersionedRow)

/-- Whether an id is changed in a given way between two versions. -/
def NetChange : ChangeOp → String → Prop
  | .insert, id => (∃ r ∈ tgt, r.id = id) ∧ ∀ q ∈ src, q.id ≠ id
  | .update, id => ∃ q ∈ src, ∃ r ∈ tgt, q.id = id ∧ r.id = id ∧ q.image reader ≠ r.image reader
  | .delete, id => (∃ q ∈ src, q.id = id) ∧ ∀ r ∈ tgt, r.id ≠ id

/-- A list of changes reports an id. -/
def Reported (changes : List EntityChange) (op : ChangeOp) (id : String) : Prop :=
  ∃ c ∈ changes, c.op = op ∧ c.id = id

/-- The changes are the net difference. -/
def ReportsNet (changes : List EntityChange) : Prop :=
  ∀ op id, Reported changes op id ↔ NetChange reader src tgt op id

/-- Swapping the versions swaps inserts and deletes. -/
def ChangeOp.swap : ChangeOp → ChangeOp
  | .insert => .delete
  | .update => .update
  | .delete => .insert

/-- The content under an id. -/
def contentAt (rows : List VersionedRow) (id : String) : Option RowImage :=
  (rows.find? fun row => row.id = id).map (VersionedRow.image reader)

open Classical in
/-- The content under an id after the changes: what is deleted is gone, what is inserted or updated
has the content of the destination. -/
noncomputable def contentAfter (changes : List EntityChange) (id : String) : Option RowImage :=
  if Reported changes .delete id then none
  else if Reported changes .insert id ∨ Reported changes .update id then contentAt reader tgt id
  else contentAt reader src id

variable {reader src tgt}

lemma netChange_swap {op : ChangeOp} {id : String} :
    NetChange reader src tgt op id ↔ NetChange reader tgt src op.swap id := by
  cases op with
  | insert => exact Iff.rfl
  | delete => exact Iff.rfl
  | update =>
    constructor
    · rintro ⟨q, hq, r, hr, hqid, hrid, hne⟩
      exact ⟨r, hr, q, hq, hrid, hqid, Ne.symm hne⟩
    · rintro ⟨q, hq, r, hr, hqid, hrid, hne⟩
      exact ⟨r, hr, q, hq, hrid, hqid, Ne.symm hne⟩

lemma contentAt_eq_none {rows : List VersionedRow} {id : String} :
    contentAt reader rows id = none ↔ ∀ r ∈ rows, r.id ≠ id := by
  simp [contentAt]

/-- Applying the net difference to the origin gives the destination. -/
lemma contentAfter_eq {changes : List EntityChange} (h : ReportsNet reader src tgt changes)
    (id : String) : contentAfter reader src tgt changes id = contentAt reader tgt id := by
  unfold contentAfter
  split_ifs with hdelete hwritten
  · exact (contentAt_eq_none.mpr ((h _ _).mp hdelete).2).symm
  · rfl
  · rw [not_or, h, h] at hwritten
    rw [h] at hdelete
    simp only [NetChange, not_and, not_exists, not_forall, not_not] at hwritten hdelete
    cases hsrc : src.find? fun row => row.id = id with
    | none =>
      have habsent : ∀ q ∈ src, q.id ≠ id := by simpa using hsrc
      rw [contentAt_eq_none.mpr habsent]
      refine (contentAt_eq_none.mpr fun r hr hid => ?_).symm
      obtain ⟨q, hq, hqid⟩ := hwritten.1 ⟨r, hr, hid⟩
      exact habsent q hq hqid
    | some q =>
      have hq := mem_of_find?_eq_some hsrc
      have hqid : q.id = id := by simpa using List.find?_some hsrc
      obtain ⟨r₀, hr₀, hr₀id⟩ := hdelete ⟨q, hq, hqid⟩
      cases htgt : tgt.find? fun row => row.id = id with
      | none => exact absurd hr₀id (by simpa using List.find?_eq_none.mp htgt r₀ hr₀)
      | some r =>
        have hr := mem_of_find?_eq_some htgt
        have hrid : r.id = id := by simpa using List.find?_some htgt
        rw [contentAt, contentAt, hsrc, htgt]
        exact congrArg some (hwritten.2 q hq r hr hqid hrid)

end Net

/-! ### What each diff reports -/

section Reports

variable {reader : RowReader} {src tgt : TableRows}

/-- All operations are wanted. -/
def ChangeFilter.all : ChangeFilter := ⟨none, none, none⟩

lemma wantsOp_all (op : ChangeOp) : ChangeFilter.all.wantsOp op = true := rfl

lemma TableRows.eq_of_id (t : TableRows) {a b : VersionedRow} (ha : a ∈ t.rows) (hb : b ∈ t.rows)
    (h : a.id = b.id) : a = b := by
  have hsome := (MergeJoin.lookup_eq_some_iff t.ascending).mpr ⟨ha, h⟩
  have hsome' := (MergeJoin.lookup_eq_some_iff t.ascending).mpr ⟨hb, rfl⟩
  exact Option.some.inj (hsome.symm.trans hsome')

/-- What the edits of a walk report. -/
lemma exists_edit_iff (reader : RowReader) {same : VersionedRow → VersionedRow → Bool}
    (op : ChangeOp) (id : String) :
    (∃ e ∈ Diff.diff VersionedRow.id same src.rows tgt.rows, editOp e = op ∧ (editRow e).id = id) ↔
      match op with
      | .update => ∃ q ∈ src.rows, ∃ r ∈ tgt.rows, q.id = id ∧ r.id = id ∧ same q r = false
      | op => NetChange reader src.rows tgt.rows op id := by
  simp only [Diff.mem_diff src.ascending tgt.ascending]
  constructor
  · rintro ⟨e, he, rfl, rfl⟩
    cases e with
    | delete a => exact ⟨⟨a, he.1, rfl⟩, he.2⟩
    | insert b => exact ⟨⟨b, he.1, rfl⟩, he.2⟩
    | update a b => exact ⟨a, he.1, b, he.2.1, he.2.2.1, rfl, he.2.2.2⟩
  · intro h
    cases op with
    | insert =>
      obtain ⟨⟨r, hr, rfl⟩, habsent⟩ := h
      exact ⟨.insert r, ⟨hr, habsent⟩, rfl, rfl⟩
    | update =>
      obtain ⟨q, hq, r, hr, hqid, hrid, hsame⟩ := h
      exact ⟨.update q r, ⟨hq, hr, hqid.trans hrid.symm, hsame⟩, rfl, hrid⟩
    | delete =>
      obtain ⟨⟨q, hq, rfl⟩, habsent⟩ := h
      exact ⟨.delete q, ⟨hq, habsent⟩, rfl, rfl⟩

/-- The comparison of two rows of one id is that of their contents. -/
def ComparesContent (reader : RowReader) (same : VersionedRow → VersionedRow → Bool)
    (src tgt : List VersionedRow) : Prop :=
  ∀ q ∈ src, ∀ r ∈ tgt, q.id = r.id → (same q r = true ↔ q.image reader = r.image reader)

/-- The edits report the net difference exactly when the comparison is that of the contents. -/
lemma edits_net_iff {same : VersionedRow → VersionedRow → Bool} {changes : List EntityChange}
    (hchanges : ∀ op id, Reported changes op id ↔
      ∃ e ∈ Diff.diff VersionedRow.id same src.rows tgt.rows, editOp e = op ∧ (editRow e).id = id) :
    ReportsNet reader src.rows tgt.rows changes ↔
      ComparesContent reader same src.rows tgt.rows := by
  simp only [ReportsNet, hchanges, exists_edit_iff reader]
  constructor
  · intro h q hq r hr hid
    have hupdate := h .update r.id
    rw [← not_iff_not, Bool.not_eq_true]
    constructor
    · intro hsame
      obtain ⟨q', hq', r', hr', hqid, hrid, hne⟩ :=
        hupdate.mp ⟨q, hq, r, hr, hid, rfl, hsame⟩
      rwa [src.eq_of_id hq hq' (hid.trans hqid.symm), tgt.eq_of_id hr hr' hrid.symm]
    · intro hne
      obtain ⟨q', hq', r', hr', hqid, hrid, hsame⟩ :=
        hupdate.mpr ⟨q, hq, r, hr, hid, rfl, hne⟩
      rwa [src.eq_of_id hq hq' (hid.trans hqid.symm), tgt.eq_of_id hr hr' hrid.symm]
  · intro h op id
    cases op with
    | insert => exact Iff.rfl
    | delete => exact Iff.rfl
    | update =>
      refine exists_congr fun q => and_congr_right fun hq => exists_congr fun r =>
        and_congr_right fun hr => and_congr_right fun hqid => and_congr_right fun hrid => ?_
      rw [← Bool.not_eq_true, h q hq r hr (hqid.trans hrid.symm)]

variable {isEdge : Bool}

lemma crossBranch_net_iff :
    ReportsNet reader src.rows tgt.rows (diffTableCrossBranch reader src tgt isEdge .all) ↔
      ComparesContent reader (fun a b => a.signature reader = b.signature reader)
        src.rows tgt.rows := by
  apply edits_net_iff
  intro op id
  simp [Reported, diffTableCrossBranch, wantsOp_all, entityChangeFromRow]

/-- A table that is only at the destination. -/
lemma added_net : ReportsNet reader [] tgt.rows (diffTableAdded tgt isEdge .all) := by
  intro op id
  cases op <;> simp [Reported, diffTableAdded, wantsOp_all, entityChangeFromRow, NetChange]

/-- A table that is only at the origin. -/
lemma removed_net : ReportsNet reader src.rows [] (diffTableRemoved src isEdge .all) := by
  intro op id
  cases op <;> simp [Reported, diffTableRemoved, wantsOp_all, entityChangeFromRow, NetChange]

lemma walkChanges_net_iff {context : ChangeContext} :
    ReportsNet reader src.rows tgt.rows (walkChanges reader context src.rows tgt.rows) ↔
      ComparesContent reader (rowsEqual reader) src.rows tgt.rows := by
  apply edits_net_iff
  intro op id
  simp [Reported, walkChanges, ChangeContext.change]

/-- A row of the destination is new or has another content than at the origin. -/
def Differs (reader : RowReader) (src : List VersionedRow) (r : VersionedRow) : Prop :=
  ∀ q ∈ src, q.id = r.id → q.image reader ≠ r.image reader

lemma mem_writtenInWindow {vf vt : ℕ} {c : EntityChange} :
    c ∈ writtenInWindow vf vt src tgt isEdge .all ↔
      ∃ r ∈ tgt.rows, (vf < r.lastUpdated ∧ r.lastUpdated ≤ vt) ∧
        c = entityChangeFromRow r r.lastUpdated
          (if r.id ∈ src.rows.map VersionedRow.id then .update else .insert) isEdge := by
  simp only [writtenInWindow, wantsOp_all, if_true, mem_filterMap,
    mem_filter, decide_eq_true_eq, and_assoc]
  refine exists_congr fun r => and_congr_right fun _ => and_congr_right fun _ =>
    and_congr_right fun _ => ?_
  split <;> simp [eq_comm]

lemma reported_sameLineage_delete {vf vt : ℕ} {id : String} :
    Reported (diffTableSameLineage vf vt src tgt isEdge .all) .delete id ↔
      NetChange reader src.rows tgt.rows .delete id := by
  simp only [Reported, diffTableSameLineage, wantsOp_all, Bool.or_self,
    if_true, mem_append, mem_writtenInWindow, deletedIdsBySetDiff, List.mem_map,
    mem_filter, decide_eq_true_eq, not_exists, not_and, NetChange]
  constructor
  · rintro ⟨c, ⟨r, -, -, rfl⟩ | ⟨q, ⟨hq, habsent⟩, rfl⟩, hop, rfl⟩
    · simp only [entityChangeFromRow] at hop
      split at hop <;> cases hop
    · exact ⟨⟨q, hq, rfl⟩, habsent⟩
  · rintro ⟨⟨q, hq, rfl⟩, habsent⟩
    exact ⟨_, .inr ⟨q, ⟨hq, habsent⟩, rfl⟩, rfl, rfl⟩

/-- Inserts and updates are the rows in the window. -/
lemma reported_sameLineage_written {vf vt : ℕ} {op : ChangeOp} {id : String} (hop : op ≠ .delete) :
    Reported (diffTableSameLineage vf vt src tgt isEdge .all) op id ↔
      ∃ r ∈ tgt.rows, (vf < r.lastUpdated ∧ r.lastUpdated ≤ vt) ∧ r.id = id ∧
        (op = .update ↔ ∃ q ∈ src.rows, q.id = id) := by
  simp only [Reported, diffTableSameLineage, wantsOp_all, Bool.or_self,
    if_true, mem_append, mem_writtenInWindow, deletedIdsBySetDiff]
  constructor
  · rintro ⟨c, ⟨r, hr, hwindow, rfl⟩ | hc, rfl, rfl⟩
    · refine ⟨r, hr, hwindow, rfl, ?_⟩
      simp only [entityChangeFromRow, ← List.mem_map]
      split <;> simp_all
    · obtain ⟨q, -, rfl⟩ := List.mem_map.mp hc
      exact absurd rfl hop
  · rintro ⟨r, hr, hwindow, rfl, hupdate⟩
    refine ⟨_, .inl ⟨r, hr, hwindow, rfl⟩, ?_, rfl⟩
    simp only [entityChangeFromRow]
    rw [← List.mem_map] at hupdate
    cases op with
    | insert => exact if_neg fun h => ChangeOp.noConfusion (hupdate.mpr h)
    | update => exact if_pos (hupdate.mp rfl)
    | delete => exact absurd rfl hop

/-- The window tells the rows that differ from the others. -/
lemma sameLineage_net_iff {vf vt : ℕ} :
    ReportsNet reader src.rows tgt.rows (diffTableSameLineage vf vt src tgt isEdge .all) ↔
      ∀ r ∈ tgt.rows, (vf < r.lastUpdated ∧ r.lastUpdated ≤ vt) ↔ Differs reader src.rows r := by
  constructor
  · intro h r hr
    have hinsert := h .insert r.id
    have hupdate := h .update r.id
    rw [reported_sameLineage_written (by decide)] at hinsert hupdate
    constructor
    · intro hwindow q hq hid himage
      obtain ⟨q', hq', r', hr', hqid, hrid, hne⟩ :=
        hupdate.mp ⟨r, hr, hwindow, rfl, iff_of_true rfl ⟨q, hq, hid⟩⟩
      rw [src.eq_of_id hq hq' (hid.trans hqid.symm), tgt.eq_of_id hr hr' hrid.symm] at himage
      exact hne himage
    · intro hdiffers
      by_cases hsrc : ∃ q ∈ src.rows, q.id = r.id
      · obtain ⟨q, hq, hid⟩ := hsrc
        obtain ⟨r', hr', hwindow, hrid, -⟩ :=
          hupdate.mpr ⟨q, hq, r, hr, hid, rfl, hdiffers q hq hid⟩
        rwa [tgt.eq_of_id hr hr' hrid.symm]
      · obtain ⟨r', hr', hwindow, hrid, -⟩ :=
          hinsert.mpr ⟨⟨r, hr, rfl⟩, fun q hq hid => hsrc ⟨q, hq, hid⟩⟩
        rwa [tgt.eq_of_id hr hr' hrid.symm]
  · intro h op id
    cases op with
    | delete => exact reported_sameLineage_delete
    | insert =>
      rw [reported_sameLineage_written (by decide)]
      constructor
      · rintro ⟨r, hr, -, hid, habsent⟩
        exact ⟨⟨r, hr, hid⟩, fun q hq hqid => ChangeOp.noConfusion (habsent.mpr ⟨q, hq, hqid⟩)⟩
      · rintro ⟨⟨r, hr, rfl⟩, habsent⟩
        refine ⟨r, hr, (h r hr).mpr fun q hq hid => absurd hid (habsent q hq), rfl, ?_⟩
        exact iff_of_false ChangeOp.noConfusion fun ⟨q, hq, hid⟩ => habsent q hq hid
    | update =>
      rw [reported_sameLineage_written (by decide)]
      constructor
      · rintro ⟨r, hr, hwindow, rfl, hpresent⟩
        obtain ⟨q, hq, hid⟩ := hpresent.mp rfl
        exact ⟨q, hq, r, hr, hid, rfl, (h r hr).mp hwindow q hq hid⟩
      · rintro ⟨q, hq, r, hr, hqid, rfl, hne⟩
        refine ⟨r, hr, (h r hr).mpr fun q' hq' hid => ?_, rfl, iff_of_true rfl ⟨q, hq, hqid⟩⟩
        rwa [src.eq_of_id hq' hq (hid.trans hqid.symm)]

end Reports

/-! ### What the cells of a row show -/

section Shown

variable (reader : RowReader)

/-- What joined texts show: U+001F in a text looks like the end of the text. -/
def shownPieces (texts : List String) : List (List Char) :=
  texts.flatMap fun text => text.toList.splitOn '\x1f'

/-- The texts of a content's cells that are not blobs. -/
def scalarTexts (content : RowImage) : List String :=
  content.1 :: content.2.filterMap fun c =>
    if startsWith c.1 "_row" then none
    else match c.2 with
      | .scalar value => some (displayScalar reader value)
      | .blob _ => none

/-- The blobs of a content, by column. -/
def storedBlobs (content : RowImage) : List (String × Option String) :=
  content.2.filterMap fun c =>
    if startsWith c.1 "_row" then none
    else match c.2 with
      | .scalar _ => none
      | .blob value => some (c.1, value)

variable {reader} {q r : VersionedRow}

lemma joined_eq_iff {x y : String} {l m : List String} :
    signatureSeparator.intercalate (x :: l) = signatureSeparator.intercalate (y :: m) ↔
      shownPieces (x :: l) = shownPieces (y :: m) := by
  have hsep : signatureSeparator.toList = ['\x1f'] := rfl
  rw [← String.toList_inj, String.toList_intercalate, String.toList_intercalate, hsep]
  simpa [shownPieces, flatMap_map] using
    Join.intercalate_eq_iff (c := '\x1f') (x := x.toList) (y := y.toList)
      (l := l.map String.toList) (m := m.map String.toList)

lemma signature_eq_iff : q.signature reader = r.signature reader ↔
    shownPieces (q.displays reader) = shownPieces (r.displays reader) := joined_eq_iff

lemma scalarSignature_eq (row : VersionedRow) : row.scalarSignature reader =
    signatureSeparator.intercalate (scalarTexts reader (row.image reader)) := by
  rw [VersionedRow.scalarSignature, scalarTexts, VersionedRow.image, VersionedRow.comparedColumns,
    filterMap_map, filterMap_filter]
  congr 2
  apply filterMap_congr
  rintro ⟨name, value | identity⟩ - <;> cases h : startsWith name "_row" <;>
    simp [h, ChangeCell.logical]

lemma storedBlobs_eq (row : VersionedRow) : storedBlobs (row.image reader) =
    row.blobSignatures.map fun b => (b.1, reader.payload b.2) := by
  rw [VersionedRow.blobSignatures, storedBlobs, VersionedRow.image, VersionedRow.comparedColumns,
    filterMap_map, filterMap_filter, map_filterMap]
  apply filterMap_congr
  rintro ⟨name, value | identity⟩ - <;> cases h : startsWith name "_row" <;>
    simp [h, ChangeCell.logical]

/-- Comparing names and then payloads compares the stored blobs. -/
lemma stored_eq_iff {l m : List (String × String)} :
    (l.map fun b => (b.1, reader.payload b.2)) = (m.map fun b => (b.1, reader.payload b.2)) ↔
      l.map Prod.fst = m.map Prod.fst ∧ (l.zip m).all (fun pair =>
        pair.1.2 = pair.2.2 || reader.payload pair.1.2 = reader.payload pair.2.2) = true := by
  induction l generalizing m with
  | nil => cases m <;> simp
  | cons a l ih =>
    cases m with
    | nil => simp
    | cons b m =>
      have hpayload : a.2 = b.2 ∨ reader.payload a.2 = reader.payload b.2 ↔
          reader.payload a.2 = reader.payload b.2 := or_iff_right_of_imp (congrArg _)
      simp only [map_cons, List.cons.injEq, Prod.mk.injEq, zip_cons_cons, all_cons,
        Bool.and_eq_true, Bool.or_eq_true, decide_eq_true_eq, hpayload, ih]
      tauto

/-- The walk compares the texts of the values and the stored blobs. -/
lemma rowsEqual_iff : rowsEqual reader q r = true ↔
    shownPieces (scalarTexts reader (q.image reader)) =
        shownPieces (scalarTexts reader (r.image reader)) ∧
      storedBlobs (q.image reader) = storedBlobs (r.image reader) := by
  have hscalar : q.scalarSignature reader = r.scalarSignature reader ↔
      shownPieces (scalarTexts reader (q.image reader)) =
        shownPieces (scalarTexts reader (r.image reader)) := by
    rw [scalarSignature_eq, scalarSignature_eq]
    exact joined_eq_iff
  rw [← hscalar, storedBlobs_eq, storedBlobs_eq, rowsEqual]
  split_ifs with htexts hblobs hnames
  · simp [htexts]
  · simp [not_not.mp htexts, hblobs]
  · rw [stored_eq_iff]
    simp [hnames]
  · rw [stored_eq_iff, and_iff_right (not_not.mp htexts), and_iff_right (not_not.mp hnames)]

end Shown

/-! ### Histories of one lineage -/

/-- A commit of a table. A write deletes rows and writes others, whatever was there before. A
compaction may store a blob elsewhere. -/
inductive TableCommit (reader : RowReader)
  | write (deleted : List String) (written : List (String × List (String × ChangeCell)))
      (nodup : (written.map Prod.fst).Nodup)
  | compact (relocate : String → String)
      (payload_eq : ∀ identity, reader.payload (relocate identity) = reader.payload identity)

def ChangeCell.relocate (relocate : String → String) : ChangeCell → ChangeCell
  | .scalar value => .scalar value
  | .blob identity => .blob (relocate identity)

section History

variable {reader : RowReader}

/-- The rows after a commit; what it writes carries its version. -/
def rowsAfterCommit (version : ℕ) (rows : List VersionedRow) :
    TableCommit reader → List VersionedRow
  | .write deleted written _ =>
    rows.filter (fun row => row.id ∉ deleted ∧ row.id ∉ written.map Prod.fst) ++
      written.map fun w => ⟨w.1, w.2, version⟩
  | .compact relocate _ => rows.map fun row =>
      { row with columns := row.columns.map fun c => (c.1, c.2.relocate relocate) }

/-- The rows at a version of a lineage. -/
def rowsAt (history : List (TableCommit reader)) : ℕ → List VersionedRow
  | 0 => []
  | version + 1 =>
    match history[version]? with
    | some commit => rowsAfterCommit (version + 1) (rowsAt history version) commit
    | none => rowsAt history version

lemma nodup_rowsAfterCommit {version : ℕ} {rows : List VersionedRow} (commit : TableCommit reader)
    (h : (rows.map VersionedRow.id).Nodup) :
    ((rowsAfterCommit version rows commit).map VersionedRow.id).Nodup := by
  cases commit with
  | write deleted written nodup =>
    rw [rowsAfterCommit, map_append]
    apply List.Nodup.append
    · exact h.sublist (filter_sublist.map _)
    · rwa [List.map_map]
    · intro id hkept hwritten
      obtain ⟨row, hrow, rfl⟩ := List.mem_map.mp hkept
      have hne := (of_decide_eq_true (mem_filter.mp hrow).2).2
      rw [List.map_map] at hwritten
      exact hne hwritten
  | compact relocate payload_eq =>
    rw [rowsAfterCommit, List.map_map]
    exact h

lemma nodup_rowsAt (history : List (TableCommit reader)) (version : ℕ) :
    ((rowsAt history version).map VersionedRow.id).Nodup := by
  induction version with
  | zero => exact nodup_nil
  | succ version ih =>
    rw [rowsAt]
    split
    · exact nodup_rowsAfterCommit _ ih
    · exact ih

/-- A version as it is scanned. -/
def tableAt (history : List (TableCommit reader)) (version : ℕ) : TableRows where
  rows := Sorted.sortOn VersionedRow.id (rowsAt history version)
  ascending := Sorted.increasing_iff_pairwise.mp
    (Sorted.sortOn_increasing (nodup_rowsAt history version))

/-- A row after a commit was written by it, or was there before with the same content. -/
lemma mem_rowsAfterCommit {version : ℕ} {rows : List VersionedRow} {commit : TableCommit reader}
    {r : VersionedRow} (h : r ∈ rowsAfterCommit version rows commit) :
    r.lastUpdated = version ∨
      ∃ q ∈ rows, q.id = r.id ∧ q.image reader = r.image reader ∧
        q.lastUpdated = r.lastUpdated := by
  cases commit with
  | write deleted written nodup =>
    rcases mem_append.mp h with hkept | hwritten
    · exact .inr ⟨r, (mem_filter.mp hkept).1, rfl, rfl, rfl⟩
    · obtain ⟨w, -, rfl⟩ := List.mem_map.mp hwritten
      exact .inl rfl
  | compact relocate payload_eq =>
    obtain ⟨q, hq, rfl⟩ := List.mem_map.mp h
    refine .inr ⟨q, hq, rfl, ?_, rfl⟩
    rw [VersionedRow.image, VersionedRow.image, List.map_map]
    congr 1
    apply map_congr_left
    rintro ⟨name, value | identity⟩ -
    · rfl
    · simp [ChangeCell.relocate, ChangeCell.logical, payload_eq]

lemma lastUpdated_le {history : List (TableCommit reader)} {version : ℕ} {r : VersionedRow}
    (h : r ∈ rowsAt history version) : r.lastUpdated ≤ version := by
  induction version generalizing r with
  | zero => cases h
  | succ version ih =>
    rw [rowsAt] at h
    split at h
    · rcases mem_rowsAfterCommit h with heq | ⟨q, hq, -, -, hstamp⟩
      · exact heq.le
      · exact hstamp ▸ (ih hq).trans (Nat.le_succ version)
    · exact (ih h).trans (Nat.le_succ version)

/-- A row that was not written since a version was there then, with the same content. -/
lemma exists_of_lastUpdated_le {history : List (TableCommit reader)} {vf vt : ℕ} (hle : vf ≤ vt)
    {r : VersionedRow} (h : r ∈ rowsAt history vt) (hold : r.lastUpdated ≤ vf) :
    ∃ q ∈ rowsAt history vf, q.id = r.id ∧ q.image reader = r.image reader := by
  induction vt, hle using Nat.le_induction generalizing r with
  | base => exact ⟨r, h, rfl, rfl⟩
  | succ version hle ih =>
    rw [rowsAt] at h
    split at h
    · rcases mem_rowsAfterCommit h with heq | ⟨q, hq, hid, himage, hstamp⟩
      · omega
      · obtain ⟨q', hq', hid', himage'⟩ := ih hq (hstamp ▸ hold)
        exact ⟨q', hq', hid'.trans hid, himage'.trans himage⟩
    · exact ih h hold

/-- What the diffs promise about two versions of a lineage, and about a table that is at one of them
only. -/
structure DiffsAreNet (history : List (TableCommit reader)) (vf vt : ℕ) (isEdge : Bool)
    (context : ChangeContext) : Prop where
  sameLineage : ReportsNet reader (tableAt history vf).rows (tableAt history vt).rows
    (diffTableSameLineage vf vt (tableAt history vf) (tableAt history vt) isEdge .all)
  crossBranch : ReportsNet reader (tableAt history vf).rows (tableAt history vt).rows
    (diffTableCrossBranch reader (tableAt history vf) (tableAt history vt) isEdge .all)
  paged : ∃ changes, Walks reader context (tableAt history vf).rows (tableAt history vt).rows
    changes ∧ ReportsNet reader (tableAt history vf).rows (tableAt history vt).rows changes
  added : ReportsNet reader [] (tableAt history vt).rows
    (diffTableAdded (tableAt history vt) isEdge .all)
  removed : ReportsNet reader (tableAt history vf).rows []
    (diffTableRemoved (tableAt history vf) isEdge .all)
  applied : ∀ id, contentAfter reader (tableAt history vf).rows (tableAt history vt).rows
    (diffTableSameLineage vf vt (tableAt history vf) (tableAt history vt) isEdge .all) id =
      contentAt reader (tableAt history vt).rows id

/-- Forwards, a row written since the origin is new or has another content; backwards, nothing that
the destination holds was changed or deleted since. Of two rows of one id, the cells show the same
when the contents are the same, as they may not for a blob stored elsewhere. Where the contents
differ, the texts differ in some piece, and so do the texts of the values or the stored blobs: the
difference is not just a null against an empty text, a separator in a value, or in a column whose
name starts like that of a system column. -/
structure ChangesTold (history : List (TableCommit reader)) (vf vt : ℕ) : Prop where
  forwards : vf ≤ vt → ∀ r ∈ rowsAt history vt, vf < r.lastUpdated →
    Differs reader (rowsAt history vf) r
  backwards : vt < vf → ∀ r ∈ rowsAt history vt, ¬ Differs reader (rowsAt history vf) r
  kept : ∀ q ∈ rowsAt history vf, ∀ r ∈ rowsAt history vt, q.id = r.id →
    q.image reader = r.image reader →
      shownPieces (q.displays reader) = shownPieces (r.displays reader)
  shown : ∀ q ∈ rowsAt history vf, ∀ r ∈ rowsAt history vt, q.id = r.id →
    q.image reader ≠ r.image reader →
      shownPieces (q.displays reader) ≠ shownPieces (r.displays reader)
  stored : ∀ q ∈ rowsAt history vf, ∀ r ∈ rowsAt history vt, q.id = r.id →
    q.image reader ≠ r.image reader →
      shownPieces (scalarTexts reader (q.image reader)) ≠
          shownPieces (scalarTexts reader (r.image reader)) ∨
        storedBlobs (q.image reader) ≠ storedBlobs (r.image reader)

variable {history : List (TableCommit reader)} {vf vt : ℕ}

@[simp] lemma mem_tableAt {r : VersionedRow} :
    r ∈ (tableAt history vt).rows ↔ r ∈ rowsAt history vt := Sorted.mem_sortOn _

lemma window_iff : (∀ r ∈ (tableAt history vt).rows,
      (vf < r.lastUpdated ∧ r.lastUpdated ≤ vt) ↔ Differs reader (tableAt history vf).rows r) ↔
    (vf ≤ vt → ∀ r ∈ rowsAt history vt, vf < r.lastUpdated →
      Differs reader (rowsAt history vf) r) ∧
    (vt < vf → ∀ r ∈ rowsAt history vt, ¬ Differs reader (rowsAt history vf) r) := by
  simp only [mem_tableAt, Differs]
  rcases Nat.lt_or_ge vt vf with hlt | hle
  · -- the window is empty
    simp only [hlt, hlt.not_ge, false_imp_iff, true_and, true_imp_iff]
    refine forall_congr' fun r => forall_congr' fun hr => ?_
    have hwindow : ¬ (vf < r.lastUpdated ∧ r.lastUpdated ≤ vt) := by omega
    rw [iff_false_left hwindow]
  · simp only [hle, hle.not_gt, false_imp_iff, and_true, true_imp_iff]
    refine forall_congr' fun r => forall_congr' fun hr => ?_
    rw [and_iff_left (lastUpdated_le hr)]
    refine ⟨Iff.mp, fun h => ⟨h, fun hdiffers => ?_⟩⟩
    by_contra hold
    obtain ⟨q, hq, hid, himage⟩ := exists_of_lastUpdated_le hle hr (Nat.le_of_not_lt hold)
    exact hdiffers q hq hid himage

/-- The texts of all columns compare the contents exactly when the cells do so both ways. -/
lemma comparesContent_signature_iff {src tgt : List VersionedRow} :
    ComparesContent reader (fun a b => a.signature reader = b.signature reader) src tgt ↔
      (∀ q ∈ src, ∀ r ∈ tgt, q.id = r.id → q.image reader = r.image reader →
        shownPieces (q.displays reader) = shownPieces (r.displays reader)) ∧
      ∀ q ∈ src, ∀ r ∈ tgt, q.id = r.id → q.image reader ≠ r.image reader →
        shownPieces (q.displays reader) ≠ shownPieces (r.displays reader) := by
  simp only [ComparesContent, decide_eq_true_eq, signature_eq_iff]
  constructor
  · intro h
    exact ⟨fun q hq r hr hid => (h q hq r hr hid).mpr,
      fun q hq r hr hid => mt (h q hq r hr hid).mp⟩
  · rintro ⟨hkept, hshown⟩ q hq r hr hid
    exact ⟨fun heq => not_not.mp fun hne => hshown q hq r hr hid hne heq, hkept q hq r hr hid⟩

/-- The walk never reports rows of one content. -/
lemma comparesContent_rowsEqual_iff {src tgt : List VersionedRow} :
    ComparesContent reader (rowsEqual reader) src tgt ↔
      ∀ q ∈ src, ∀ r ∈ tgt, q.id = r.id → q.image reader ≠ r.image reader →
        shownPieces (scalarTexts reader (q.image reader)) ≠
            shownPieces (scalarTexts reader (r.image reader)) ∨
          storedBlobs (q.image reader) ≠ storedBlobs (r.image reader) := by
  simp only [ComparesContent, rowsEqual_iff, ← not_and_or]
  refine forall_congr' fun q => forall_congr' fun hq => forall_congr' fun r =>
    forall_congr' fun hr => forall_congr' fun hid => ?_
  constructor
  · exact fun h => mt h.mp
  · intro h
    exact ⟨fun heq => not_not.mp fun hne => h hne heq,
      fun himage => by rw [himage]; exact ⟨rfl, rfl⟩⟩

end History

/-! ### A row written back as it was -/

section Sample

/-- Values are displayed as they are written, and a blob's descriptor is its payload. -/
def plainReader : RowReader where
  display := fun
    | .string s => s
    | _ => ""
  displayDescriptor := id
  payload := some

/-- Two commits that write the same row. -/
def rewritten : List (TableCommit plainReader) :=
  [.write [] [("ann", [("city", .scalar (some (.string "Rome")))])] (by decide),
    .write [] [("ann", [("city", .scalar (some (.string "Rome")))])] (by decide)]

end Sample

end Omnigraph
