import Omnigraph.Merge.TableHistory

/-!
# A proven history only inserts

Each certificate speaks about the parent of its own version. Chained from the base version to the
source version, they say that the source has the rows of the base, unchanged, and new rows whose
ids are distinct and absent from the base.
-/

namespace Omnigraph.PureInsert

open List Except

variable {R : Type} {rowId : R → String}

/-! ### One link -/

variable {idFieldId : ℤ} {preorder : List ℕ} {rows start version : ℕ}

section Link

lemma rows_renumber (start : ℕ) (fragments : List (Fragment R)) :
    (renumber start fragments).flatMap Fragment.rows = fragments.flatMap Fragment.rows := by
  unfold renumber
  generalize hn : 0 = n
  clear hn
  induction fragments generalizing n with
  | nil => rfl
  | cons fragment fragments ih => simp only [zipIdx_cons, map_cons, flatMap_cons, ih]

lemma replaceFragments_nil (fragments : List (Fragment R)) :
    replaceFragments [] [] fragments = fragments := by
  simp [replaceFragments]

/-- What a certificate, once verified, says about its transaction. -/
structure InsertsOnly (transaction : Transaction R) (preorder : List ℕ) (rows : ℕ) : Prop where
  certificate : hasInsertAbsenceCertificate transaction = true
  update : ∃ operation, transaction.operation = .update operation ∧
    isInsertionOnly operation preorder = true ∧ physicalRows operation.newFragments = some rows

variable {transaction : Transaction R} {operation : UpdateOperation R} {context : String}

lemma certifiedInsertAbsenceRows_eq_some
    (h : certifiedInsertAbsenceRows transaction version idFieldId preorder = some rows) :
    InsertsOnly transaction preorder rows := by
  unfold certifiedInsertAbsenceRows at h
  split at h
  · cases h
  · next hguard =>
    simp only [Bool.or_eq_true, Bool.not_eq_true', not_or, Bool.not_eq_false] at hguard
    refine ⟨hguard.2, ?_⟩
    split at h
    · next operation hoperation =>
      split at h
      · cases h
      · next hshape =>
        simp only [Bool.or_eq_true, Bool.not_eq_true', not_or, Bool.not_eq_false] at hshape
        exact ⟨operation, hoperation, hshape.1, h⟩
    · cases h

lemma isInsertionOnly_empty (h : isInsertionOnly operation preorder = true) :
    operation.removedFragmentIds = [] ∧ operation.updatedFragments = [] := by
  simp only [isInsertionOnly, Bool.and_eq_true, List.isEmpty_iff] at h
  exact ⟨h.1.1.1.1.1.1.1, h.1.1.1.1.1.1.2⟩

lemma rows_eq_getLast (lineage : Lineage R) :
    (((lineage.getLast?).map Version.fragments).getD []).flatMap Fragment.rows = lineage.rows := by
  rw [Lineage.rows, Lineage.rowsAt, List.getLast?_eq_getElem?]
  cases lineage[lineage.length - 1]? with
  | none => rfl
  | some version => rfl

/-- An update that only adds rows keeps the rows that are there. -/
lemma rows_applyOperation {lineage : Lineage R} (h : isInsertionOnly operation preorder = true) :
    (applyOperation lineage (.update operation)).flatMap Fragment.rows =
      lineage.rows ++ operation.newFragments.flatMap Fragment.rows := by
  obtain ⟨hremoved, hupdated⟩ := isInsertionOnly_empty h
  simp only [applyOperation, hremoved, hupdated, replaceFragments_nil, flatMap_append,
    rows_renumber, rows_eq_getLast]

lemma physicalRows_of_certifyRows {fragments : List (Fragment R)}
    (h : fragments.foldlM (certifyRows context) start = .ok rows) :
    fragments.foldl addRows (some start) = some rows := by
  induction fragments generalizing start with
  | nil =>
    cases h
    rfl
  | cons fragment fragments ih =>
    rw [foldlM_cons] at h
    obtain ⟨next, hnext, hrest⟩ := bind_eq_ok_iff.mp h
    rw [foldl_cons]
    unfold certifyRows at hnext
    cases hphysical : fragment.physicalRows with
    | none =>
      rw [hphysical] at hnext
      cases hnext
    | some physicalRows =>
      simp only [hphysical] at hnext
      split at hnext
      · next hfits =>
        cases hnext
        have hadd : addRows (some start) fragment = some (start + physicalRows) := by
          simp only [addRows, hphysical, Option.bind_eq_bind, Option.bind_some, if_pos hfits]
        rw [hadd]
        exact ih hrest
      · cases hnext

/-- What the certification of a transaction checks. -/
lemma certifyInsertAbsence_eq_ok {certified : Transaction R} {sourceIds : List String}
    (h : certifyInsertAbsence transaction version idFieldId preorder sourceIds context =
      .ok certified) :
    ∃ operation, transaction.operation = .update operation ∧
      certified.operation = .update operation ∧
      operation.insertedRowsFilter = some (filterOf idFieldId sourceIds) ∧
      physicalRows operation.newFragments = some sourceIds.length := by
  unfold certifyInsertAbsence at h
  split at h
  · cases h
  · split at h
    · cases h
    · obtain ⟨⟨newFragments, filter⟩, hinsertion, h⟩ := bind_eq_ok_iff.mp h
      simp only at h
      split at h
      · cases h
      · next hfilter =>
        obtain ⟨rows, hrows, h⟩ := bind_eq_ok_iff.mp h
        split at h
        · cases h
        · next hcount =>
          split at h
          · cases h
          · cases h
            unfold insertionOf at hinsertion
            split at hinsertion
            · next operation hoperation =>
              split at hinsertion
              · split at hinsertion
                · next found hfound =>
                  cases hinsertion
                  simp only [Bool.or_eq_true, decide_eq_true_eq, not_or, not_not] at hfilter
                  refine ⟨operation, hoperation, hoperation, hfilter.2 ▸ hfound, ?_⟩
                  rw [← not_not.mp hcount]
                  exact physicalRows_of_certifyRows hrows
                · cases hinsertion
              · cases hinsertion
            · cases hinsertion

/-- A verified link adds rows with distinct ids that its parent lacks, as many as it says. -/
lemma Commits.link {lineage : Lineage R} (hcommits : Commits rowId lineage transaction)
    (h : InsertsOnly transaction preorder rows) :
    ∃ batch, (applyOperation lineage transaction.operation).flatMap Fragment.rows =
        lineage.rows ++ batch ∧ batch.length = rows ∧ (batch.map rowId).Nodup ∧
      ∀ row ∈ batch, rowId row ∉ lineage.rows.map rowId := by
  obtain ⟨staged, certified, batch, readVersion, hstaged, htransaction, hfence⟩ :=
    hcommits h.certificate
  obtain ⟨idFieldId, preorder', context, hcertify⟩ := hstaged.certify
  obtain ⟨operation, hoperation, hcertified, hfilter, hphysical⟩ :=
    certifyInsertAbsence_eq_ok hcertify
  have hsame : transaction.operation = .update operation := by rw [htransaction, hcertified]
  obtain ⟨operation', hoperation', honly, hrows⟩ := h.update
  rw [hsame] at hoperation'
  cases hoperation'
  have hwritten := hstaged.written operation hoperation
  rw [hphysical, length_map] at hrows
  refine ⟨batch, ?_, Option.some.inj hrows, hstaged.nodup, fun row hrow => ?_⟩
  · rw [hsame, rows_applyOperation honly, hwritten]
  · refine hfence operation _ hsame hfilter (rowId row) ?_ (hstaged.absent row hrow)
    exact List.mem_toFinset.mpr (List.mem_map_of_mem hrow)

end Link

/-! ### The chain -/

variable {inserted newer older : List R}

section Chain

variable {lineage : Lineage R}

lemma rows_take (hpos : 0 < version) (hle : version ≤ lineage.length) :
    Lineage.rows (lineage.take version) = lineage.rowsAt version := by
  have hlength : (lineage.take version).length = version := by
    rw [length_take, min_eq_left hle]
  rw [Lineage.rows, hlength, Lineage.rowsAt, Lineage.rowsAt, List.getElem?_take_of_lt (by omega)]

/-- What certified transactions add to a version. -/
structure Adds (rowId : R → String) (older newer inserted : List R) : Prop where
  rows : newer = older ++ inserted
  nodup : (inserted.map rowId).Nodup
  absent : ∀ row ∈ inserted, rowId row ∉ older.map rowId

lemma Adds.refl (rows : List R) : Adds rowId rows rows [] :=
  ⟨(append_nil rows).symm, nodup_nil, by simp⟩

lemma Adds.trans {oldest inserted' : List R} (h : Adds rowId oldest older inserted)
    (h' : Adds rowId older newer inserted') : Adds rowId oldest newer (inserted ++ inserted') := by
  have habsent : ∀ row ∈ inserted', rowId row ∉ oldest.map rowId ∧
      rowId row ∉ inserted.map rowId := by
    intro row hrow
    have hold := h'.absent row hrow
    rw [h.rows, map_append, mem_append, not_or] at hold
    exact hold
  refine ⟨by rw [h'.rows, h.rows, append_assoc], ?_, ?_⟩
  · rw [map_append]
    refine nodup_append.mpr ⟨h.nodup, h'.nodup, fun id hid id' hid' heq => ?_⟩
    obtain ⟨row, hrow, rfl⟩ := List.mem_map.mp hid'
    exact (habsent row hrow).2 (heq ▸ hid)
  · intro row hrow
    rcases mem_append.mp hrow with hrow | hrow
    · exact h.absent row hrow
    · exact (habsent row hrow).1

/-- Each link speaks about its own parent; from the base on, they speak about the base. -/
lemma provenRows_adds (hcommitted : lineage.Committed rowId) {count total : ℕ} (hpos : 0 < version)
    (hle : version + count ≤ lineage.length)
    (h : provenRows idFieldId preorder version start
      (((lineage.drop version).take count).map Version.transaction) = .ok (some total)) :
    ∃ inserted, Adds rowId (lineage.rowsAt version) (lineage.rowsAt (version + count)) inserted ∧
      start + inserted.length = total := by
  induction count generalizing version start with
  | zero =>
    rw [take_zero, map_nil, provenRows] at h
    cases h
    exact ⟨[], .refl _, rfl⟩
  | succ count ih =>
    have hlt : version < lineage.length := by omega
    rw [drop_eq_getElem_cons hlt, take_succ_cons, map_cons, provenRows] at h
    split at h
    · cases h
    · next rows hrows =>
      split at h
      · obtain ⟨hfragments, hcommits⟩ := hcommitted version lineage[version] hpos
          (List.getElem?_eq_getElem hlt)
        obtain ⟨batch, hbatch, hlength, hnodup, habsent⟩ :=
          hcommits.link (certifiedInsertAbsenceRows_eq_some hrows)
        rw [rows_take hpos hlt.le] at hbatch habsent
        have hnext : lineage.rowsAt (version + 1) = lineage.rowsAt version ++ batch := by
          rw [← hbatch, ← hfragments, Lineage.rowsAt, Nat.add_sub_cancel,
            List.getElem?_eq_getElem hlt]
          rfl
        obtain ⟨inserted, hadds, htotal⟩ := ih (Nat.succ_pos version) (by omega) h
        have hlink : Adds rowId (lineage.rowsAt version) (lineage.rowsAt (version + 1)) batch :=
          ⟨hnext, hnodup, habsent⟩
        refine ⟨batch ++ inserted, ?_, ?_⟩
        · have hall := hlink.trans hadds
          rwa [show version + 1 + count = version + (count + 1) by omega] at hall
        · rw [length_append, hlength]
          omega
      · cases h

end Chain

/-! ### Opened tables -/

section Opened

variable {reader : Reader R} {branches : Branches R}

/-- The rows of an opened table. -/
def Branches.rowsOf (branches : Branches R) (dataset : Dataset) : List R :=
  ((branches.lookup dataset.identifier).getD []).rowsAt dataset.version

/-- The reader opens versions that are there, and lists the transactions of the branch it has
opened, if they are still there. -/
structure Reader.Reads (reader : Reader R) (branches : Branches R) : Prop where
  opens : ∀ entry dataset, reader.openDataset entry = .ok dataset →
    ∃ lineage, branches.lookup dataset.identifier = some lineage ∧ 0 < dataset.version ∧
      dataset.version ≤ lineage.length
  lists : ∀ dataset lineage, branches.lookup dataset.identifier = some lineage →
    ∀ first last transactions, reader.listTransactions dataset first last = some transactions →
      transactions = ((lineage.drop first).take (last - first)).map Version.transaction

lemma findReferencedVersion_eq_some {self ancestor : BranchIdentifier}
    (h : findReferencedVersion self ancestor = some version) :
    ∃ uuid rest, self = ancestor ++ (version, uuid) :: rest := by
  unfold findReferencedVersion at h
  split at h
  · next hprefix =>
    obtain ⟨rest, rfl⟩ := isPrefixOf_iff_prefix.mp hprefix
    rw [List.getElem?_append_right le_rfl, Nat.sub_self] at h
    cases rest with
    | nil => cases h
    | cons entry rest =>
      cases h
      exact ⟨entry.2, rest, rfl⟩
  · cases h

variable {base source : Dataset} {baseEntry sourceEntry : SubTableEntry} {tableKey : String}

/-- At the base version, the source's branch has the rows of the base. -/
lemma checkDescends_rows (hsound : branches.Sound rowId) {older lineage : Lineage R}
    (h : checkDescends reader tableKey baseEntry sourceEntry base source = .ok true)
    (holder : branches.lookup base.identifier = some older)
    (hlineage : branches.lookup source.identifier = some lineage)
    (hpos : 0 < baseEntry.tableVersion) (hversion : base.version = baseEntry.tableVersion) :
    lineage.rowsAt baseEntry.tableVersion = branches.rowsOf base := by
  have hrows : branches.rowsOf base = older.rowsAt baseEntry.tableVersion := by
    rw [Branches.rowsOf, holder, hversion]
    rfl
  unfold checkDescends at h
  split at h
  · cases h
  · next hsame =>
    have hcases := of_decide_eq_true (Except.ok.inj h)
    rcases hcases with hbranch | hforked
    · have hidentifier : source.identifier = base.identifier := by
        by_contra hne
        exact hsame ⟨hbranch, hne⟩
      rw [hidentifier, holder] at hlineage
      cases hlineage
      exact hrows.symm
    · obtain ⟨uuid, rest, hidentifier⟩ := findReferencedVersion_eq_some hforked
      rw [hidentifier] at hlineage
      obtain ⟨-, -, hshared⟩ := hsound.shared _ _ _ _ _ _ hlineage holder
      have hat : lineage[baseEntry.tableVersion - 1]? = older[baseEntry.tableVersion - 1]? := by
        have hget : (lineage.take baseEntry.tableVersion)[baseEntry.tableVersion - 1]? =
            (older.take baseEntry.tableVersion)[baseEntry.tableVersion - 1]? := by rw [hshared]
        rwa [List.getElem?_take_of_lt (by omega), List.getElem?_take_of_lt (by omega)] at hget
      rw [hrows, Lineage.rowsAt, Lineage.rowsAt, hat]

/-- A proven interval is one of certified transactions between the opened versions. -/
lemma provenBetween_adds (hsound : branches.Sound rowId) (hreads : reader.Reads branches)
    (hbase : reader.openDataset baseEntry = .ok base)
    (hsource : reader.openDataset sourceEntry = .ok source)
    (hgrows : baseEntry.tableVersion < sourceEntry.tableVersion)
    (h : provenBetween reader tableKey baseEntry sourceEntry base source = .ok (some rows)) :
    ∃ inserted, Adds rowId (branches.rowsOf base) (branches.rowsOf source) inserted ∧
      inserted.length = rows := by
  obtain ⟨older, holder, hpos, -⟩ := hreads.opens baseEntry base hbase
  obtain ⟨lineage, hlineage, -, hle⟩ := hreads.opens sourceEntry source hsource
  unfold provenBetween at h
  split at h
  · cases h
  · next hguard =>
    simp only [Bool.or_eq_true, decide_eq_true_eq, not_or, not_not] at hguard
    obtain ⟨⟨⟨hsourceVersion, hbaseVersion⟩, -⟩, -⟩ := hguard
    obtain ⟨descends, hdescends, h⟩ := bind_eq_ok_iff.mp h
    split at h
    · cases h
    · next htrue =>
      obtain rfl : descends = true := by simpa using htrue
      split at h
      · next idFieldId preorder _ _ =>
        unfold provenInterval at h
        split at h
        · cases h
        · next transactions hlist =>
          split at h
          · cases h
          · rw [hbaseVersion] at hpos
            rw [hsourceVersion] at hle
            rw [hreads.lists source lineage hlineage _ _ _ hlist] at h
            obtain ⟨inserted, hadds, htotal⟩ :=
              provenRows_adds (hsound.committed _ _ hlineage).1 hpos (by omega) h
            rw [checkDescends_rows hsound hdescends holder hlineage hpos hbaseVersion,
              Nat.add_sub_cancel' hgrows.le] at hadds
            have hrows : branches.rowsOf source = lineage.rowsAt sourceEntry.tableVersion := by
              rw [Branches.rowsOf, hlineage, hsourceVersion]
              rfl
            exact ⟨inserted, hrows ▸ hadds, by omega⟩
      · cases h

end Opened

/-! ### Adopting the interval -/

section Adopt

variable {view : RowView R}

/-- Strict inserts of the new rows, and the delta of the ordered scans, both give the source. -/
structure AdoptsAs (view : RowView R) (store : RowStore R) (tableKey : String)
    (base source : Option (List (List R))) (inserted : List R) : Prop where
  strictInserts : ∀ staged : StagedTable R, Sized staged.chunks → staged.chunks.flatten = inserted →
    commitKeyedStreamChunks tableKey view.rowIdAt .strictInsert (some staged)
      (tableOf view (streamedRows base)) = .ok (tableOf view (streamedRows source))
  delta : ∀ delta, computeAdoptDelta view store base source = .ok delta →
    publishAdopted view tableKey delta (tableOf view (streamedRows base)) =
      .ok (tableOf view (streamedRows source))

lemma foldl_upsertRow_of_mem {rows : List R} {current : Table R} {row : R}
    (hnodup : (rows.map rowId).Nodup) (hrow : row ∈ rows) :
    rows.foldl (upsertRow rowId) current (rowId row) = some row := by
  induction rows generalizing current with
  | nil => cases hrow
  | cons other rows ih =>
    obtain ⟨hnew, hrest⟩ := nodup_cons.mp hnodup
    rcases mem_cons.mp hrow with rfl | hrow
    · rw [foldl_cons, foldl_upsertRow_of_ne]
      · exact Function.update_self _ _ _
      · exact fun other hother heq => hnew (heq ▸ List.mem_map_of_mem hother)
    · exact ih hrest hrow

lemma Adds.adoptsAs (h : Adds view.rowIdAt older newer inserted) (store : RowStore R)
    (tableKey : String) {base source : Option (List (List R))}
    (hbase : (streamedRows base).Perm older) (hsource : (streamedRows source).Perm newer)
    (hb : MergeJoin.Ascending view.rowIdAt (streamedRows base))
    (hs : MergeJoin.Ascending view.rowIdAt (streamedRows source)) :
    AdoptsAs view store tableKey base source inserted := by
  have hmem : ∀ row, row ∈ streamedRows source ↔ row ∈ streamedRows base ∨ row ∈ inserted := by
    intro row
    rw [hsource.mem_iff, h.rows, mem_append, hbase.mem_iff]
  have habsent : ∀ row ∈ inserted, tableOf view (streamedRows base) (view.rowIdAt row) = none := by
    intro row hrow
    rw [Option.eq_none_iff_forall_ne_some]
    intro other hother
    obtain ⟨hother, hid⟩ := (tableOf_eq_some hb).mp hother
    exact h.absent row hrow (hid ▸ List.mem_map_of_mem (hbase.mem_iff.mp hother))
  refine ⟨fun staged hsized hflatten => ?_, fun delta hdelta => ?_⟩
  · rw [commitKeyedStreamChunks, foldlM_stageKeyedWrite hsized (hflatten ▸ h.nodup)
      (hflatten ▸ habsent), hflatten]
    congr 1
    funext id
    by_cases hnew : ∃ row ∈ inserted, view.rowIdAt row = id
    · obtain ⟨row, hrow, rfl⟩ := hnew
      rw [foldl_upsertRow_of_mem h.nodup hrow]
      exact ((tableOf_eq_some hs).mpr ⟨(hmem row).mpr (.inr hrow), rfl⟩).symm
    · push Not at hnew
      rw [foldl_upsertRow_of_ne hnew]
      apply Option.ext
      intro row
      rw [tableOf_eq_some hb, tableOf_eq_some hs, hmem]
      constructor
      · exact fun hrow => ⟨.inl hrow.1, hrow.2⟩
      · rintro ⟨hrow | hrow, hid⟩
        · exact ⟨hrow, hid⟩
        · exact absurd hid (hnew row hrow)
  · have hstages := (computeAdoptDelta_ensures store hb hs).value hdelta
    rw [hstages.publish_eq hb hs tableKey]
    congr 1
    rw [adopted_eq_source_iff hb hs]
    intro b hbmem s hsmem hid _
    rcases (hmem s).mp hsmem with hsold | hsnew
    · have hsame := (tableOf_eq_some hb).mpr ⟨hsold, hid⟩
      have hself := (tableOf_eq_some hb).mpr ⟨hbmem, rfl⟩
      exact Option.some.inj (hsame.symm.trans hself)
    · have hnone := habsent s hsnew
      rw [hid, (tableOf_eq_some hb).mpr ⟨hbmem, rfl⟩] at hnone
      cases hnone

end Adopt

/-! ### Soundness -/

/-- A history that is proven to insert only does: the source has the rows of the base, and new rows
with distinct ids that the base lacks, as many as the proof says. Adopting them by strict inserts
gives the source, as the delta of the two tables does. -/
theorem tryProvenPureInsertHistory_sound {view : RowView R} {branches : Branches R}
    {reader : Reader R} (hbranches : Reachable view.rowIdAt branches)
    (hreads : reader.Reads branches) {tableKey : String}
    {baseEntry sourceEntry : Option SubTableEntry} {proven : ProvenInserts}
    (h : tryProvenPureInsertHistory reader tableKey baseEntry sourceEntry = .ok (some proven)) :
    ∃ entry entry' base source inserted, baseEntry = some entry ∧ sourceEntry = some entry' ∧
      reader.openDataset entry = .ok base ∧ reader.openDataset entry' = .ok source ∧
      branches.rowsOf source = branches.rowsOf base ++ inserted ∧
      inserted.length = proven.insertedRows ∧ (inserted.map view.rowIdAt).Nodup ∧
      (∀ row ∈ inserted, view.rowIdAt row ∉ (branches.rowsOf base).map view.rowIdAt) ∧
      ∀ (store : RowStore R) (baseScan sourceScan : Option (List (List R))),
        (streamedRows baseScan).Perm (branches.rowsOf base) →
        (streamedRows sourceScan).Perm (branches.rowsOf source) →
        MergeJoin.Ascending view.rowIdAt (streamedRows baseScan) →
        MergeJoin.Ascending view.rowIdAt (streamedRows sourceScan) →
          AdoptsAs view store tableKey baseScan sourceScan inserted := by
  cases baseEntry with
  | none => cases h
  | some entry =>
    cases sourceEntry with
    | none => cases h
    | some entry' =>
      unfold tryProvenPureInsertHistory at h
      simp only at h
      split at h
      · cases h
      · next hgrow =>
        simp only [entriesGrow, Bool.not_eq_true', Bool.not_eq_false, Bool.and_eq_true,
          decide_eq_true_eq] at hgrow
        obtain ⟨base, hbase, h⟩ := bind_eq_ok_iff.mp h
        obtain ⟨source, hsource, h⟩ := bind_eq_ok_iff.mp h
        obtain ⟨rows, hrows, h⟩ := bind_eq_ok_iff.mp h
        split at h
        · next hcount =>
          cases h
          rw [hcount] at hrows
          obtain ⟨inserted, hadds, hlength⟩ :=
            provenBetween_adds hbranches.sound hreads hbase hsource hgrow.1.1.2 hrows
          exact ⟨entry, entry', base, source, inserted, rfl, rfl, hbase, hsource, hadds.rows,
            hlength, hadds.nodup, hadds.absent, fun store baseScan sourceScan hb hs hba hsa =>
              hadds.adoptsAs store tableKey hb hs hba hsa⟩
        · cases h

/-! ### A history of three inserts -/

namespace ThreeInserts

/-- Rows that are their ids. -/
def view : RowView String := ⟨id, id⟩

def staged (readVersion : ℕ) (row : String) : Transaction String where
  readVersion := readVersion
  uuid := row
  operation := .update
    { removedFragmentIds := [], updatedFragments := [], newFragments := [⟨0, some 1, [row]⟩],
      fieldsModified := [], compactedSstables := [], fieldsForPreservingFragBitmap := [0],
      updateMode := some .rewriteRows, insertedRowsFilter := some (filterOf 0 [row]),
      updatedFragmentOffsets := none }
  transactionProperties := none

def created : Version String := ⟨[], ⟨0, "create", .overwrite [], none⟩⟩

/-- One more insert of a row, certified. -/
def grown (lineage : Lineage String) (row : String) : Lineage String :=
  lineage ++ [⟨applyOperation lineage (withCertificate (staged lineage.length row)).operation,
    withCertificate (staged lineage.length row)⟩]

def lineage : Lineage String := grown (grown (grown [created] "a") "b") "c"

def branches : Branches String :=
  ((((∅ : Branches String).insert [] [created]).insert [] (grown [created] "a")).insert []
    (grown (grown [created] "a") "b")).insert [] lineage

def reader : Reader String where
  openDataset entry :=
    if entry.tableVersion = 2 ∨ entry.tableVersion = 4 then
      .ok ⟨entry.tableVersion, [], true, [⟨0, "id", false, true⟩], [0]⟩
    else .error (.lance "version not found")
  listTransactions dataset first last :=
    if dataset.identifier = [] then
      some (((lineage.drop first).take (last - first)).map Version.transaction)
    else none
  debugIdentifier _ := ""

def entryAt (version rowCount : ℕ) : SubTableEntry where
  identity := ⟨1, 1⟩
  tableKey := "node:Person"
  tablePath := "nodes/person"
  tableVersion := version
  tableBranch := none
  rowCount := rowCount
  versionMetadata := ⟨"", none, none, none⟩

lemma reachable_grown {branches : Branches String} {lineage : Lineage String} {row : String}
    (h : Reachable view.rowIdAt branches) (hlookup : branches.lookup [] = some lineage)
    (hnew : row ∉ lineage.rowsAt lineage.length)
    (hcertify : certifyInsertAbsence (staged lineage.length row) lineage.length 0 [0] [row]
      "stage_keyed_write" = .ok (withCertificate (staged lineage.length row))) :
    Reachable view.rowIdAt (branches.insert [] (grown lineage row)) := by
  refine .commit _ h hlookup fun _ =>
    ⟨staged lineage.length row, _, [row], lineage.length, ⟨?_, by simp, ?_, 0, [0], _, hcertify⟩,
      rfl, ?_⟩
  · rintro operation ⟨⟩
    rfl
  · simpa [view, staged] using hnew
  · exact fun _ _ _ _ _ _ hkey => hkey

lemma reachable : Reachable view.rowIdAt branches :=
  have hfirst := reachable_grown (.create created) (AList.lookup_insert _) (by decide : "a" ∉ _) rfl
  have hsecond := reachable_grown hfirst (AList.lookup_insert _) (by decide : "b" ∉ _) rfl
  reachable_grown hsecond (AList.lookup_insert _) (by decide) rfl

lemma reads : reader.Reads branches where
  opens entry dataset hopen := by
    refine ⟨lineage, ?_, ?_⟩
    · simp only [reader] at hopen
      split at hopen
      · cases hopen
        exact AList.lookup_insert _
      · cases hopen
    · simp only [reader] at hopen
      split at hopen
      · next hversion =>
        cases hopen
        rcases hversion with hversion | hversion
        · rw [hversion]
          decide
        · rw [hversion]
          decide
      · cases hopen
  lists dataset other hlookup first last transactions hlist := by
    simp only [reader] at hlist
    split at hlist
    · next hidentifier =>
      cases hlist
      rw [hidentifier] at hlookup
      have hself : branches.lookup [] = some lineage := AList.lookup_insert _
      rw [hself] at hlookup
      cases hlookup
      rfl
    · cases hlist

end ThreeInserts

/-- Two links over a base of one row are proven, and the source adds their two rows. -/
theorem tryProvenPureInsertHistory_sound_twoLinks :
    ∃ base source inserted, ThreeInserts.reader.openDataset (ThreeInserts.entryAt 2 1) = .ok base ∧
      ThreeInserts.reader.openDataset (ThreeInserts.entryAt 4 3) = .ok source ∧
      ThreeInserts.branches.rowsOf source = ThreeInserts.branches.rowsOf base ++ inserted ∧
      inserted.length = 2 := by
  obtain ⟨entry, entry', base, source, inserted, hentry, hentry', hbase, hsource, hrows, hlength,
    -⟩ := tryProvenPureInsertHistory_sound ThreeInserts.reachable ThreeInserts.reads
      (show tryProvenPureInsertHistory ThreeInserts.reader "node:Person"
        (some (ThreeInserts.entryAt 2 1)) (some (ThreeInserts.entryAt 4 3)) =
          .ok (some (provenOf (ThreeInserts.entryAt 2 1) (ThreeInserts.entryAt 4 3)
            ⟨2, [], true, [⟨0, "id", false, true⟩], [0]⟩
            ⟨4, [], true, [⟨0, "id", false, true⟩], [0]⟩)) from rfl)
  cases hentry
  cases hentry'
  exact ⟨base, source, inserted, hbase, hsource, hrows, hlength⟩

end Omnigraph.PureInsert
