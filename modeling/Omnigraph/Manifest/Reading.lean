import Omnigraph.Manifest.State

/-!
# What reading the manifest computes

The scan and the visible state are described by what the row set holds, not by the order in which
the store hands the rows out.
-/

namespace Omnigraph

open List Except ManifestScan

variable {codecs : MetadataCodecs} {collectLineage : Bool}

/-! ### Rows by what they decode to -/

variable {tombstone : TableTombstone}

section Items

variable {row : ManifestRow}

lemma decodes_registration_iff {registration : TableRegistration} :
    Decodes codecs collectLineage row (.registration registration) ↔
      row.objectType = .table ∧ row.HasIdentity registration.identity ∧
        row.objectId = tableObjectId registration.identity ∧
        row.location = some registration.tablePath ∧ row.tableKey = registration.tableKey ∧
        tablePathForIdentity registration.tableKey registration.identity =
          .ok registration.tablePath := by
  unfold Decodes
  cases htype : row.objectType with
  | table =>
    rw [decodeRow_table htype]
    constructor
    · rintro ⟨identity, path, hid, hobj, hloc, hcanon, heq⟩
      cases heq
      exact ⟨rfl, hid, hobj, hloc, rfl, hcanon⟩
    · rintro ⟨-, hid, hobj, hloc, hkey, hcanon⟩
      refine ⟨_, _, hid, hobj, hloc, hkey ▸ hcanon, ?_⟩
      rw [hkey]
  | tableVersion => simp [decodeRow_version htype]
  | tableTombstone => simp [decodeRow_tombstone htype]
  | graphCommit => simp [decodeRow_commit htype]
  | graphHead => simp [decodeRow_head htype]
  | unknown name => simp [decodeRow_unknown htype]

lemma decodes_version_iff {entry : SubTableEntry} :
    Decodes codecs collectLineage row (.version entry) ↔
      row.objectType = .tableVersion ∧ row.HasIdentity entry.identity ∧
        row.tableVersion = some entry.tableVersion ∧
        row.objectId = versionObjectId entry.identity entry.tableVersion ∧
        row.rowCount = some entry.rowCount ∧ row.tableBranch = entry.tableBranch ∧
        row.tableKey = entry.tableKey ∧ entry.tablePath = "" ∧
        ∃ metadata, row.metadata = some metadata ∧
          codecs.version.fromJsonStr metadata = .ok entry.versionMetadata := by
  unfold Decodes
  cases htype : row.objectType with
  | tableVersion =>
    rw [decodeRow_version htype]
    constructor
    · rintro ⟨identity, version, count, text, payload, hid, hver, hobj, hcount, htext, hpay, heq⟩
      cases heq
      exact ⟨rfl, hid, hver, hobj, hcount, rfl, rfl, rfl, text, htext, hpay⟩
    · rintro ⟨-, hid, hver, hobj, hcount, hbranch, hkey, hpath, text, htext, hpay⟩
      refine ⟨_, _, _, text, _, hid, hver, hobj, hcount, htext, hpay, ?_⟩
      rw [hbranch, hkey, ← hpath]
  | table => simp [decodeRow_table htype]
  | tableTombstone => simp [decodeRow_tombstone htype]
  | graphCommit => simp [decodeRow_commit htype]
  | graphHead => simp [decodeRow_head htype]
  | unknown name => simp [decodeRow_unknown htype]

lemma decodes_tombstone_iff :
    Decodes codecs collectLineage row (.tombstone tombstone) ↔
      row.objectType = .tableTombstone ∧ row.HasIdentity tombstone.identity ∧
        row.tableVersion = some tombstone.tombstoneVersion ∧
        row.objectId = tombstoneObjectId tombstone.identity tombstone.tombstoneVersion ∧
        row.tableKey = tombstone.tableKey := by
  unfold Decodes
  cases htype : row.objectType with
  | tableTombstone =>
    rw [decodeRow_tombstone htype]
    constructor
    · rintro ⟨identity, version, hid, hver, hobj, heq⟩
      cases heq
      exact ⟨rfl, hid, hver, hobj, rfl⟩
    · rintro ⟨-, hid, hver, hobj, hkey⟩
      refine ⟨_, _, hid, hver, hobj, ?_⟩
      rw [hkey]
  | table => simp [decodeRow_table htype]
  | tableVersion => simp [decodeRow_version htype]
  | graphCommit => simp [decodeRow_commit htype]
  | graphHead => simp [decodeRow_head htype]
  | unknown name => simp [decodeRow_unknown htype]

lemma decodes_lineage_iff {commit : GraphLineageRow} :
    Decodes codecs collectLineage row (.lineage commit) ↔
      row.objectType = .graphCommit ∧ collectLineage = true ∧
        (row.stableTableId = none ∧ row.tableIncarnationId = none) ∧
        CommitRow codecs row commit := by
  unfold Decodes
  cases htype : row.objectType with
  | graphCommit =>
    rw [decodeRow_commit htype]
    constructor
    · rintro ⟨hnull, ⟨hcollect, _, hcommit, heq⟩ | ⟨-, heq⟩⟩
      · cases heq
        exact ⟨rfl, hcollect, hnull, hcommit⟩
      · cases heq
    · rintro ⟨-, hcollect, hnull, hcommit⟩
      exact ⟨hnull, .inl ⟨hcollect, _, hcommit, rfl⟩⟩
  | table => simp [decodeRow_table htype]
  | tableVersion => simp [decodeRow_version htype]
  | tableTombstone => simp [decodeRow_tombstone htype]
  | graphHead => simp [decodeRow_head htype]
  | unknown name => simp [decodeRow_unknown htype]

lemma stripPrefix_eq_some {pre s rest : String} (h : stripPrefix pre s = some rest) :
    s = pre ++ rest := by
  unfold stripPrefix hasPrefix at h
  split_ifs at h with hpre
  obtain ⟨t, ht⟩ := isPrefixOf_iff_prefix.mp hpre
  cases h
  apply String.toList_inj.mp
  rw [String.toList_append, String.toList_ofList, ← ht, drop_left]

lemma stripPrefix_append (pre rest : String) : stripPrefix pre (pre ++ rest) = some rest := by
  unfold stripPrefix hasPrefix
  rw [if_pos (List.isPrefixOf_iff_prefix.mpr (by simp))]
  simp

lemma decodes_head_iff {branchKey commitId : String} :
    Decodes codecs collectLineage row (.head branchKey commitId) ↔
      row.objectType = .graphHead ∧ (row.stableTableId = none ∧ row.tableIncarnationId = none) ∧
        row.objectId = "graph_head:" ++ branchKey ∧
        ∃ text payload, row.metadata = some text ∧ codecs.head.fromJsonStr text = .ok payload ∧
          payload.headCommitId = commitId := by
  unfold Decodes
  cases htype : row.objectType with
  | graphHead =>
    rw [decodeRow_head htype]
    constructor
    · rintro ⟨hnull, text, payload, key, htext, hpay, hkey, heq⟩
      cases heq
      exact ⟨rfl, hnull, stripPrefix_eq_some hkey, text, payload, htext, hpay, rfl⟩
    · rintro ⟨-, hnull, hobj, text, payload, htext, hpay, rfl⟩
      exact ⟨hnull, text, payload, branchKey, htext, hpay, hobj ▸ stripPrefix_append _ _, rfl⟩
  | table => simp [decodeRow_table htype]
  | tableVersion => simp [decodeRow_version htype]
  | tableTombstone => simp [decodeRow_tombstone htype]
  | graphCommit => simp [decodeRow_commit htype]
  | unknown name => simp [decodeRow_unknown htype]

end Items

/-- Some row decodes to the item. -/
def Holds (codecs : MetadataCodecs) (collectLineage : Bool) (rows : List ManifestRow)
    (item : ManifestItem) : Prop := ∃ row ∈ rows, Decodes codecs collectLineage row item

lemma holds_append_singleton {rows : List ManifestRow} {row : ManifestRow} {item : ManifestItem} :
    Holds codecs collectLineage (rows ++ [row]) item ↔
      Holds codecs collectLineage rows item ∨ Decodes codecs collectLineage row item := by
  simp only [Holds, mem_append, mem_singleton]
  constructor
  · rintro ⟨q, hq | rfl, hdec⟩
    · exact .inl ⟨q, hq, hdec⟩
    · exact .inr hdec
  · rintro (⟨q, hq, hdec⟩ | hdec)
    · exact ⟨q, .inl hq, hdec⟩
    · exact ⟨row, .inr rfl, hdec⟩

/-- The scan holds what the rows hold. -/
structure ScanHolds (codecs : MetadataCodecs) (collectLineage : Bool) (rows : List ManifestRow)
    (scan : ManifestScan) : Prop where
  registrations : ∀ identity registration,
    scan.tableRegistrations.lookup identity = some registration ↔
      registration.identity = identity ∧
        Holds codecs collectLineage rows (.registration registration)
  versions : ∀ entry, entry ∈ scan.versionEntries ↔
    Holds codecs collectLineage rows (.version entry)
  tombstones : ∀ tombstone, tombstone ∈ scan.tombstones ↔
    Holds codecs collectLineage rows (.tombstone tombstone)
  lineage : ∀ commit, commit ∈ scan.lineageRows ↔
    Holds codecs collectLineage rows (.lineage commit)
  heads : ∀ branchKey commitId, scan.graphHeads.lookup branchKey = some commitId ↔
    Holds codecs collectLineage rows (.head branchKey commitId)

section Scan

variable {rows : List ManifestRow} {scan : ManifestScan} {row : ManifestRow} {item : ManifestItem}

lemma ScanHolds.empty : ScanHolds codecs collectLineage [] ManifestScan.empty := by
  constructor <;> simp [ManifestScan.empty, Holds]

/-- Adding a row whose object id is new. -/
lemma ScanHolds.add (h : ScanHolds codecs collectLineage rows scan)
    (hnew : row.objectId ∉ rows.map ManifestRow.objectId)
    (hdec : Decodes codecs collectLineage row item) :
    Ensures (scan.add item) (ScanHolds codecs collectLineage (rows ++ [row]))
      (fun _ => False) := by
  have hother : ∀ item', Decodes codecs collectLineage row item' ↔ item = item' :=
    fun item' => ⟨fun h' => hdec.unique h', fun heq => heq ▸ hdec⟩
  have hold : ∀ q ∈ rows, q.objectId ≠ row.objectId := fun q hq heq =>
    hnew (heq ▸ List.mem_map_of_mem hq)
  cases item with
  | registration registration =>
    have hfresh : scan.tableRegistrations.lookup registration.identity = none := by
      rw [Option.eq_none_iff_forall_ne_some]
      intro existing hex
      obtain ⟨hid, q, hq, hqdec⟩ := (h.registrations _ _).mp hex
      apply hold q hq
      rw [(decodes_registration_iff.mp hqdec).2.2.1, (decodes_registration_iff.mp hdec).2.2.1, hid]
    simp only [add, hfresh, ne_eq, not_true_eq_false, false_and, if_false,
      Ensures.ok_iff]
    constructor
    · intro identity reg
      rw [HashMap.lookup_insert_ite, holds_append_singleton, hother,
        ManifestItem.registration.injEq]
      split_ifs with hid
      · subst hid
        constructor
        · intro heq
          cases heq
          exact ⟨rfl, .inr rfl⟩
        · rintro ⟨hid, hin | rfl⟩
          · have := (h.registrations _ _).mpr ⟨hid, hin⟩
            rw [hfresh] at this
            cases this
          · rfl
      · rw [h.registrations]
        constructor
        · exact fun hin => ⟨hin.1, .inl hin.2⟩
        · rintro ⟨hreg, hin | rfl⟩
          · exact ⟨hreg, hin⟩
          · exact absurd hreg.symm hid
    all_goals simp [holds_append_singleton, hother, h.versions, h.tombstones, h.lineage, h.heads]
  | version entry =>
    simp only [add, Ensures.ok_iff]
    constructor <;> simp [holds_append_singleton, hother, h.registrations, h.versions,
      h.tombstones, h.lineage, h.heads, eq_comm]
  | tombstone tombstone =>
    simp only [add, Ensures.ok_iff]
    constructor <;> simp [holds_append_singleton, hother, h.registrations, h.versions,
      h.tombstones, h.lineage, h.heads, eq_comm]
  | lineage commit =>
    simp only [add, Ensures.ok_iff]
    constructor <;> simp [holds_append_singleton, hother, h.registrations, h.versions,
      h.tombstones, h.lineage, h.heads, eq_comm]
  | head branchKey commitId =>
    have hfresh : ∀ c, ¬ Holds codecs collectLineage rows (.head branchKey c) := by
      rintro c ⟨q, hq, hqdec⟩
      apply hold q hq
      rw [(decodes_head_iff.mp hqdec).2.2.1, (decodes_head_iff.mp hdec).2.2.1]
    simp only [add, Ensures.ok_iff]
    constructor
    case heads =>
      intro key c
      rw [HashMap.lookup_insert_ite, holds_append_singleton, hother, ManifestItem.head.injEq]
      split_ifs with hkey
      · subst hkey
        simp [hfresh c]
      · rw [h.heads]
        constructor
        · exact .inl
        · rintro (hin | ⟨rfl, -⟩)
          · exact hin
          · exact absurd rfl hkey
    all_goals simp [holds_append_singleton, hother, h.registrations, h.versions, h.tombstones,
      h.lineage]
  | skipped =>
    simp only [add, Ensures.ok_iff]
    constructor <;> simp [holds_append_singleton, hother, h.registrations, h.versions,
      h.tombstones, h.lineage, h.heads]

/-- Every tombstone carries the alias its identity is registered under. -/
def TombstonesBound (codecs : MetadataCodecs) (collectLineage : Bool) (rows : List ManifestRow) :
    Prop :=
  ∀ tombstone, Holds codecs collectLineage rows (.tombstone tombstone) →
    ∃ registration, Holds codecs collectLineage rows (.registration registration) ∧
      registration.identity = tombstone.identity ∧ registration.tableKey = tombstone.tableKey

lemma checkTombstone_eq_ok_iff {registrations : HashMap TableIdentity TableRegistration}
    {u : Unit} :
    checkTombstone registrations tombstone = .ok u ↔
      ∃ registration, registrations.lookup tombstone.identity = some registration ∧
        registration.tableKey = tombstone.tableKey := by
  unfold checkTombstone
  cases registrations.lookup tombstone.identity with
  | none => simp
  | some registration =>
    simp only [Option.some.injEq, exists_eq_left']
    split_ifs with h
    · simpa using h
    · simpa using h

lemma zipIdx_flatMap_map_fst (batches : List (List ManifestRow)) :
    (batches.flatMap List.zipIdx).map Prod.fst = batches.flatten := by
  rw [map_flatMap, flatten_eq_flatMap]
  apply flatMap_congr
  intro batch _
  exact zipIdx_map_fst 0 batch

variable {indexed : List IndexedRow} {batches : List (List ManifestRow)}

/-- The loop of the scan over rows with distinct object ids. -/
lemma scanLoop_ensures (hnodup : ((indexed.map Prod.fst).map ManifestRow.objectId).Nodup)
    (hdec : ∀ row ∈ indexed, ∃ item, Decodes codecs collectLineage row.1 item) :
    Ensures (indexed.foldlM (fun scan row => do
        let item ← decodeRow codecs collectLineage row
        scan.add item) ManifestScan.empty)
      (ScanHolds codecs collectLineage (indexed.map Prod.fst)) (fun _ => False) := by
  refine Ensures.foldlM
    (fun pre => ScanHolds codecs collectLineage (pre.map Prod.fst)) ScanHolds.empty ?_
  intro pre row post scan hindexed hscan
  obtain ⟨item, hitem⟩ := hdec row (by simp [hindexed])
  rw [decodeRow_eq_ok_iff.mpr hitem, map_append, map_singleton]
  refine hscan.add ?_ hitem
  rw [hindexed] at hnodup
  simp only [map_append, map_cons, nodup_append] at hnodup
  exact fun hmem => hnodup.2.2 _ hmem _ mem_cons_self rfl

lemma decodes_of_scanLoop {start : ManifestScan}
    (h : indexed.foldlM (fun scan row => do
        let item ← decodeRow codecs collectLineage row
        scan.add item) start = .ok scan) :
    ∀ row ∈ indexed, ∃ item, Decodes codecs collectLineage row.1 item := by
  induction indexed generalizing start with
  | nil => simp
  | cons row indexed ih =>
    rw [foldlM_cons, bind_eq_ok_iff] at h
    obtain ⟨next, hnext, hrest⟩ := h
    obtain ⟨item, hitem, -⟩ := bind_eq_ok_iff.mp hnext
    intro q hq
    rcases mem_cons.mp hq with rfl | hq
    · exact ⟨item, decodeRow_eq_ok_iff.mp hitem⟩
    · exact ih hrest q hq

/-- A scan of rows with distinct object ids succeeds when every row decodes and every tombstone is
bound, and then it holds what the rows hold. -/
theorem readManifestScan_eq_ok_iff (hnodup : (batches.flatten.map ManifestRow.objectId).Nodup) :
    (∃ scan, readManifestScan codecs collectLineage batches = .ok scan) ↔
      (∀ row ∈ batches.flatten, ∃ item, Decodes codecs collectLineage row item) ∧
        TombstonesBound codecs collectLineage batches.flatten := by
  rw [← zipIdx_flatMap_map_fst] at hnodup ⊢
  have hmap : ∀ P : ManifestRow → Prop,
      (∀ row ∈ (batches.flatMap List.zipIdx).map Prod.fst, P row) ↔
        ∀ row ∈ batches.flatMap List.zipIdx, P row.1 := by
    intro P
    simp only [List.mem_map, forall_exists_index, and_imp, forall_apply_eq_imp_iff₂]
  have hbound : ∀ {scan : ManifestScan}, ScanHolds codecs collectLineage
      ((batches.flatMap List.zipIdx).map Prod.fst) scan →
      (scan.tombstones.forM (checkTombstone scan.tableRegistrations) = .ok () ↔
        TombstonesBound codecs collectLineage ((batches.flatMap List.zipIdx).map Prod.fst)) := by
    intro scan hscan
    simp only [forM_eq_ok_iff, checkTombstone_eq_ok_iff, hscan.tombstones,
      hscan.registrations, TombstonesBound]
    refine forall_congr' fun t => imp_congr_right fun _ => exists_congr fun reg => ?_
    tauto
  constructor
  · rintro ⟨scan, h⟩
    obtain ⟨raw, hraw, htail⟩ := bind_eq_ok_iff.mp h
    obtain ⟨⟨⟩, hcheck, -⟩ := bind_eq_ok_iff.mp htail
    have hdec := decodes_of_scanLoop hraw
    have hscan := (scanLoop_ensures hnodup hdec).value hraw
    exact ⟨(hmap _).mpr hdec, (hbound hscan).mp hcheck⟩
  · rintro ⟨hdec, htomb⟩
    have hloop := scanLoop_ensures hnodup ((hmap _).mp hdec)
    cases hraw : (batches.flatMap List.zipIdx).foldlM (fun scan row => do
        let item ← decodeRow codecs collectLineage row
        add scan item) ManifestScan.empty with
    | error e => rw [hraw] at hloop; exact hloop.elim
    | ok raw =>
      rw [hraw] at hloop
      exact ⟨_, bind_eq_ok_iff.mpr ⟨raw, hraw,
        bind_eq_ok_iff.mpr ⟨(), (hbound hloop).mpr htomb, rfl⟩⟩⟩

theorem readManifestScan_holds (hnodup : (batches.flatten.map ManifestRow.objectId).Nodup)
    (h : readManifestScan codecs collectLineage batches = .ok scan) :
    ScanHolds codecs collectLineage batches.flatten scan := by
  rw [← zipIdx_flatMap_map_fst] at hnodup ⊢
  obtain ⟨raw, hraw, htail⟩ := bind_eq_ok_iff.mp h
  obtain ⟨-, -, hres⟩ := bind_eq_ok_iff.mp htail
  have hscan := (scanLoop_ensures hnodup (decodes_of_scanLoop hraw)).value hraw
  cases hres
  exact ⟨hscan.registrations, fun entry => (mem_insertionSort _).trans (hscan.versions entry),
    hscan.tombstones, hscan.lineage, hscan.heads⟩

end Scan

end Omnigraph
