import Omnigraph.Merge.Replay

/-!
# What a merge stages is what it publishes

The writer of a merge cuts its chunks by rows and bytes; the reader cuts the rows it scans by the
sizes that the writer recorded. However the scan cuts its batches, the reader puts together the
chunks of the writer, so that the transactions planned for them are used up, one for each chunk.
-/

namespace Omnigraph.Replay

open List Word

/-! ### A stream of rows -/

section Stream

variable {R S σ : Type} {storage : ReplayStorage R S σ} {tableKey : String}
  {planned : List StagedTransactionIdentity} {stage : KeyedChunkStage}

/-- The rows of the chunks are committed chunk by chunk, and nothing is left over. -/
lemma commitKeyedStreamChunks_eq {chunks : List (List R)} {stream : List (ScanBatch R)}
    {plannedIndex : ℕ} (hchunks : ∀ chunk ∈ chunks, Replayable storage chunk)
    (hbounded : ∀ batch ∈ stream, batch.Bounded) (hrows : streamRows stream = chunks.flatten)
    (hlt : chunks.flatten.length < 2 ^ 64)
    (hplanned : plannedIndex + chunks.length ≤ planned.length) (store : σ) :
    commitKeyedStreamChunks storage tableKey planned stage stream (chunks.map List.length)
        chunks.flatten.length plannedIndex store =
      (applySteps storage (keyedSteps storage stage chunks 0) (planned.drop plannedIndex)
        store).andThen fun _ store => (.ok (plannedIndex + chunks.length), store) := by
  have hreader : (⟨stream, none⟩ : ChunkReader R).rows = chunks.flatten ++ [] := by
    rw [List.append_nil]
    exact hrows
  obtain ⟨reader', hrest, hloop⟩ := @commitKeyedChunks_eq R S σ storage tableKey planned stage
    chunks hchunks 0 0 plannedIndex ⟨stream, none⟩ [] hreader hbounded (by omega) hplanned
  have hextra : ¬ (reader'.hasExtraRows = true ∨
      0 + chunks.flatten.length ≠ chunks.flatten.length) := by
    rw [hasExtraRows_iff, hrest]
    simp
  rw [commitKeyedStreamChunks, hloop, Attempt.andThen_assoc]
  refine congrArg (Attempt.andThen _) (funext fun _ => funext fun store => ?_)
  rw [Attempt.andThen_ok]
  exact if_neg hextra

/-- Rows of another number end in an error, after some of the chunks that they fill. -/
lemma commitKeyedStreamChunks_rejects {chunkRows : List ℕ} {stream : List (ScanBatch R)}
    {expectedRowCount plannedIndex : ℕ} (hsum : (streamRows stream).length ≠ chunkRows.sum)
    (store : σ) :
    ∃ e, ∃ k ≤ (cuts chunkRows (streamRows stream)).length,
      commitKeyedStreamChunks storage tableKey planned stage stream chunkRows expectedRowCount
          plannedIndex store =
        (.error e, (applySteps storage
          (keyedSteps storage stage ((cuts chunkRows (streamRows stream)).take k) 0)
          (planned.drop plannedIndex) store).2) := by
  obtain ⟨⟨k, hk, hstore⟩, hok⟩ := @commitKeyedChunks_cuts R S σ storage tableKey planned stage
    chunkRows 0 0 plannedIndex ⟨stream, none⟩ store
  rw [show (⟨stream, none⟩ : ChunkReader R).rows = streamRows stream from rfl] at hk hstore hok
  unfold commitKeyedStreamChunks
  rcases hrun : commitKeyedChunks storage tableKey planned stage chunkRows 0 ⟨stream, none⟩ 0
    plannedIndex store with ⟨outcome, store'⟩
  rw [hrun] at hstore hok
  cases outcome with
  | error e => exact ⟨e, k, hk, by rw [Attempt.andThen_error, ← hstore]⟩
  | ok next =>
    obtain ⟨reader', observed', plannedIndex'⟩ := next
    obtain ⟨hle, hrest, -⟩ := hok reader' observed' plannedIndex' rfl
    have hextra : reader'.hasExtraRows = true := by
      rw [hasExtraRows_iff, hrest, ← List.length_pos_iff, List.length_drop]
      omega
    rw [Attempt.andThen_ok]
    dsimp only
    rw [if_pos (.inl hextra)]
    exact ⟨_, k, hk, Prod.ext rfl hstore⟩

/-- As long as the rows are those of the chunks, the chunks are what is cut off. -/
lemma cuts_take {chunks : List (List R)} {rows : List R} {j : ℕ}
    (h : (chunks.take j).flatten <+: rows) :
    (cuts (chunks.map List.length) rows).take j = chunks.take j := by
  induction j generalizing chunks rows with
  | zero => rfl
  | succ j ih =>
    cases chunks with
    | nil => rfl
    | cons chunk chunks =>
      obtain ⟨rest, rfl⟩ := h
      rw [List.take_succ_cons, List.flatten_cons, List.append_assoc, List.map_cons, cuts,
        if_pos (by simp), List.take_left, List.drop_left, List.take_succ_cons,
        ih (List.prefix_append _ _)]

end Stream

/-! ### The writer -/

section Writer

variable {R : Type} {store : RowStore R}

/-- The rows are pushed one after the other. -/
def stageRows (store : RowStore R) (rows : List R) : Except OmniError (StagedTable R) := do
  let writer ← rows.foldlM (StagedTableWriter.pushRow store) .new
  writer.finish

/-- Rows and the bytes of their batches. -/
def Weighed (store : RowStore R) (rows : List R) (bytes : ℕ) : Prop :=
  ∃ sizes, rows.Forall₂ (fun row size => store.rowBatchBytes row = .ok size) sizes ∧
    sizes.sum = bytes

/-- The chunks of a writer are within the byte limit and not too many. -/
structure WithinBytes (store : RowStore R) (writer : StagedTableWriter R) : Prop where
  chunks : ∀ chunk ∈ writer.chunks, ∃ bytes ≤ keyedWriteMaxBytes, Weighed store chunk bytes
  count : writer.chunks.length ≤ maxBranchMergeDataTransactions
  buffered : Weighed store writer.batches writer.bufferedBytes
  le : writer.bufferedBytes ≤ keyedWriteMaxBytes

namespace WithinBytes

variable {writer next : StagedTableWriter R}

lemma new : WithinBytes store (.new : StagedTableWriter R) where
  chunks := fun _ h => by cases h
  count := Nat.zero_le _
  buffered := ⟨[], .nil, rfl⟩
  le := Nat.zero_le _

variable (h : WithinBytes store writer)

include h in
lemma flush (hflush : writer.flush = .ok next) : WithinBytes store next := by
  unfold StagedTableWriter.flush at hflush
  by_cases hnil : writer.batches = []
  · rw [if_pos (List.isEmpty_iff.mpr hnil)] at hflush
    cases hflush
    exact h
  · rw [if_neg (by simpa using hnil)] at hflush
    dsimp only at hflush
    split_ifs at hflush with hcount
    cases hflush
    refine ⟨fun chunk hchunk => ?_, not_lt.mp hcount, ⟨[], .nil, rfl⟩, Nat.zero_le _⟩
    rcases mem_append.mp hchunk with hchunk | hchunk
    · exact h.chunks chunk hchunk
    · rw [mem_singleton.mp hchunk]
      exact ⟨_, h.le, h.buffered⟩

include h in
lemma flushIf {c : Bool} (hflush : writer.flushIf c = .ok next) : WithinBytes store next := by
  unfold StagedTableWriter.flushIf at hflush
  split_ifs at hflush
  · exact h.flush hflush
  · cases hflush
    exact h

include h in
/-- Nothing is buffered where no rows are. -/
lemma bufferedBytes_eq_zero (hnil : writer.batches = []) : writer.bufferedBytes = 0 := by
  obtain ⟨sizes, hsizes, hsum⟩ := h.buffered
  rw [hnil, List.forall₂_nil_left_iff] at hsizes
  rw [← hsum, hsizes, sum_nil]

include h in
/-- There is room for the bytes of one more row. -/
lemma room {rowBytes : ℕ} (hfits : writer.Fits) (hrow : rowBytes ≤ keyedWriteMaxBytes)
    (hflush : writer.flushIf (writer.overflows rowBytes) = .ok next) :
    next.bufferedBytes + rowBytes ≤ keyedWriteMaxBytes := by
  have hnext := h.flushIf hflush
  unfold StagedTableWriter.flushIf at hflush
  split_ifs at hflush with hover
  · rw [hnext.bufferedBytes_eq_zero (hfits.flush hflush).2, Nat.zero_add]
    exact hrow
  · cases hflush
    by_cases hzero : writer.bufferedRows = 0
    · have hnil : writer.batches = [] := by
        rw [← length_eq_zero_iff, hfits.buffered, hzero]
      rw [h.bufferedBytes_eq_zero hnil, Nat.zero_add]
      exact hrow
    · by_contra hfull
      apply hover
      simp only [StagedTableWriter.overflows, Bool.and_eq_true, Bool.or_eq_true, decide_eq_true_eq]
      omega

include h in
lemma pushRow {row : R} (hfits : writer.Fits) (hpush : writer.pushRow store row = .ok next) :
    WithinBytes store next := by
  unfold StagedTableWriter.pushRow at hpush
  simp only [Except.bind_eq_ok_iff] at hpush
  obtain ⟨predicted, -, -, -, first, hfirst, rowBytes, hbytes, ⟨⟩, henforce, second, hsecond,
    hlast⟩ := hpush
  have hrow : rowBytes ≤ keyedWriteMaxBytes := by
    unfold StagedTableWriter.enforceRowBytes at henforce
    split_ifs at henforce with hover
    exact not_lt.mp hover
  have hwithin := (h.flushIf hfirst).flushIf hsecond
  have hroom := (h.flushIf hfirst).room (hfits.flushIf hfirst) hrow hsecond
  have hbuffer : WithinBytes store (second.buffer row rowBytes) := by
    obtain ⟨sizes, hsizes, hsum⟩ := hwithin.buffered
    refine ⟨hwithin.chunks, hwithin.count, ⟨sizes ++ [rowBytes], ?_, ?_⟩, hroom⟩
    · exact rel_append hsizes (.cons hbytes .nil)
    · rw [sum_append, hsum, sum_singleton]
      rfl
  exact hbuffer.flushIf hlast

end WithinBytes

/-- What the writer makes of rows: chunks of keyed writes that hold exactly these rows. -/
lemma stageRows_ok {rows : List R} {table : StagedTable R} (h : stageRows store rows = .ok table) :
    table.chunks.flatten = rows ∧ table.rowCount = rows.length ∧ Sized table.chunks ∧
      table.chunks.length ≤ maxBranchMergeDataTransactions ∧
      ∀ chunk ∈ table.chunks, ∃ bytes ≤ keyedWriteMaxBytes, Weighed store chunk bytes := by
  unfold stageRows at h
  rw [Except.bind_eq_ok_iff] at h
  obtain ⟨writer, hwriter, hfinish⟩ := h
  have hrun : Ensures (rows.foldlM (StagedTableWriter.pushRow store) .new)
      (fun writer => writer.rows = rows ∧ writer.rowCount = rows.length ∧ writer.Fits ∧
        WithinBytes store writer) (fun _ => True) := by
    refine Ensures.foldlM (fun pushed writer => writer.rows = pushed ∧
      writer.rowCount = pushed.length ∧ writer.Fits ∧ WithinBytes store writer)
      ⟨rfl, rfl, StagedTableWriter.fits_new, WithinBytes.new⟩ ?_
    rintro pushed row rest writer - ⟨hrows, hcount, hfits, hwithin⟩
    refine Ensures.of_ok fun next hnext => ?_
    obtain ⟨hrows', hcount'⟩ := (writer.pushRow_ensures store row).value hnext
    refine ⟨by rw [hrows', hrows], ?_, hfits.pushRow hnext, hwithin.pushRow hfits hnext⟩
    rw [hcount', hcount, List.length_append, List.length_singleton]
  obtain ⟨hrows, hcount, hfits, hwithin⟩ := hrun.value hwriter
  have hflatten := writer.finish_ensures.value hfinish
  have hsized := hfits.finish hfinish
  unfold StagedTableWriter.finish at hfinish
  rw [Except.bind_eq_ok_iff] at hfinish
  obtain ⟨next, hnext, htable⟩ := hfinish
  cases htable
  have hnextWithin := hwithin.flush hnext
  exact ⟨hflatten.trans hrows, ((writer.flush_ensures.value hnext).2.1.trans hcount), hsized,
    hnextWithin.count, hnextWithin.chunks⟩

/-- Staged rows can be counted in a word. -/
lemma length_lt_of_sized {chunks : List (List R)} (hsized : Sized chunks)
    (hcount : chunks.length ≤ maxBranchMergeDataTransactions) : chunks.flatten.length < 2 ^ 64 := by
  have hle : (chunks.map List.length).sum ≤ chunks.length * keyedWriteMaxRows := by
    rw [← length_map (f := List.length), ← smul_eq_mul]
    refine sum_le_card_nsmul _ _ fun n hn => ?_
    obtain ⟨chunk, hchunk, rfl⟩ := List.mem_map.mp hn
    exact (hsized chunk hchunk).2
  have hmul : chunks.length * keyedWriteMaxRows ≤
      maxBranchMergeDataTransactions * keyedWriteMaxRows := Nat.mul_le_mul_right _ hcount
  have hmax : maxBranchMergeDataTransactions * keyedWriteMaxRows < 2 ^ 64 := by decide
  rw [length_flatten]
  omega

end Writer

/-! ### Publishing -/

section Publish

variable {R S σ : Type} (rowStore : RowStore R) (storage : ReplayStorage R S σ)

/-- Rows that are copied into one batch take no more memory than the batches of the single rows. -/
def ConcatsWithin : Prop :=
  ∀ rows bytes, Weighed rowStore rows bytes → storage.concatMemorySize rows ≤ bytes

/-- A table that the writer staged, and a bounded scan that yields its rows. -/
structure ReadsBack (scan : StagedTable R → List (ScanBatch R)) (table : StagedTable R) : Prop where
  staged : ∃ rows, stageRows rowStore rows = .ok table
  rows : streamRows (scan table) = table.chunks.flatten
  bounded : ∀ batch ∈ scan table, batch.Bounded

/-- One step for each chunk of each table. -/
def stagedSteps (tables : List (KeyedChunkStage × StagedTable R)) : List (σ → Except OmniError S) :=
  tables.flatMap fun table => keyedSteps storage table.1 table.2.chunks 0

variable {rowStore storage} {tableKey : String} {planned : List StagedTransactionIdentity}

@[simp] lemma length_keyedSteps (stage : KeyedChunkStage) (chunks : List (List R)) (start : ℕ) :
    (keyedSteps storage stage chunks start).length = chunks.length := by
  simp [keyedSteps]

@[simp] lemma length_deleteSteps (chunks : List DeleteIdChunk) (start : ℕ) :
    (deleteSteps storage tableKey chunks start).length = chunks.length := by
  simp [deleteSteps]

lemma replayable_of_staged (hconcat : ConcatsWithin rowStore storage) {rows : List R}
    {table : StagedTable R} (h : stageRows rowStore rows = .ok table) :
    ∀ chunk ∈ table.chunks, Replayable storage chunk := by
  obtain ⟨-, -, hsized, -, hweighed⟩ := stageRows_ok h
  intro chunk hchunk
  obtain ⟨hne, hmax⟩ := hsized chunk hchunk
  obtain ⟨bytes, hle, hbytes⟩ := hweighed chunk hchunk
  exact ⟨hne, hmax, (hconcat chunk bytes hbytes).trans hle⟩

/-- A staged table is published chunk by chunk, whatever the batches of the scan are. -/
lemma commitKeyedStreamChunks_of_staged (hconcat : ConcatsWithin rowStore storage) {rows : List R}
    {table : StagedTable R} (h : stageRows rowStore rows = .ok table) {stream : List (ScanBatch R)}
    (hbounded : ∀ batch ∈ stream, batch.Bounded) (hrows : streamRows stream = table.chunks.flatten)
    {stage : KeyedChunkStage} {plannedIndex : ℕ}
    (hplanned : plannedIndex + table.chunks.length ≤ planned.length) (store : σ) :
    commitKeyedStreamChunks storage tableKey planned stage stream (table.chunks.map List.length)
        table.rowCount plannedIndex store =
      (applySteps storage (keyedSteps storage stage table.chunks 0) (planned.drop plannedIndex)
        store).andThen fun _ store => (.ok (plannedIndex + table.chunks.length), store) := by
  obtain ⟨hflatten, hcount, hsized, hlength, -⟩ := stageRows_ok h
  have hrowCount : table.rowCount = table.chunks.flatten.length := by rw [hcount, hflatten]
  rw [hrowCount]
  exact commitKeyedStreamChunks_eq (replayable_of_staged hconcat h) hbounded hrows
    (length_lt_of_sized hsized hlength) hplanned store

/-- Committing the staged tables applies their planned steps in order. -/
lemma commitStagedTables_eq (hconcat : ConcatsWithin rowStore storage)
    {scan : StagedTable R → List (ScanBatch R)} {tables : List (KeyedChunkStage × StagedTable R)}
    (htables : ∀ table ∈ tables, ReadsBack rowStore scan table.2) :
    ∀ {plannedIndex : ℕ}, plannedIndex + (stagedSteps storage tables).length ≤ planned.length →
      ∀ store : σ, commitStagedTables storage tableKey planned scan tables plannedIndex store =
        (applySteps storage (stagedSteps storage tables) (planned.drop plannedIndex) store).andThen
          fun _ store => (.ok (plannedIndex + (stagedSteps storage tables).length), store) := by
  induction tables with
  | nil => exact fun _ _ => rfl
  | cons table tables ih =>
    intro plannedIndex hplanned store
    obtain ⟨⟨rows, hstaged⟩, hrows, hbounded⟩ := htables table List.mem_cons_self
    have hsteps : stagedSteps storage (table :: tables) =
        keyedSteps storage table.1 table.2.chunks 0 ++ stagedSteps storage tables := rfl
    rw [hsteps, List.length_append, length_keyedSteps] at hplanned
    have hloop := @ih (fun t ht => htables t (List.mem_cons_of_mem _ ht))
      (plannedIndex + table.2.chunks.length) (by omega)
    rw [commitStagedTables, commitKeyedStreamChunks_of_staged hconcat hstaged hbounded hrows
      (by omega), hsteps, applySteps_append _ _ _ (by simp; omega), Attempt.andThen_assoc,
      Attempt.andThen_assoc]
    refine congrArg (Attempt.andThen _) (funext fun _ => funext fun store => ?_)
    rw [Attempt.andThen_ok, hloop, List.drop_drop, length_keyedSteps, List.length_append,
      length_keyedSteps, Nat.add_assoc]

/-- Committing the delete chunks applies their planned steps in order. -/
lemma commitStagedDeleteChunks_eq {chunks : List DeleteIdChunk} :
    ∀ {chunkIndex plannedIndex : ℕ}, plannedIndex + chunks.length ≤ planned.length → ∀ store : σ,
      commitStagedDeleteChunks storage tableKey planned chunks chunkIndex plannedIndex store =
        (applySteps storage (deleteSteps storage tableKey chunks chunkIndex)
          (planned.drop plannedIndex) store).andThen
            fun _ store => (.ok (plannedIndex + chunks.length), store) := by
  induction chunks with
  | nil => exact fun _ _ => rfl
  | cons chunk chunks ih =>
    intro chunkIndex plannedIndex hplanned store
    rw [length_cons] at hplanned
    have hsteps : deleteSteps storage tableKey (chunk :: chunks) chunkIndex =
        [fun store => stageDeleteChunk storage tableKey store chunk chunkIndex] ++
          deleteSteps storage tableKey chunks (chunkIndex + 1) := rfl
    have hlt : plannedIndex < planned.length := by omega
    have hcommit := @commitNext_of_lt R S σ storage tableKey planned
      s!"delete chunk {chunkIndex + 1}" plannedIndex hlt
      (fun store => stageDeleteChunk storage tableKey store chunk chunkIndex) store
    have hloop := @ih (chunkIndex + 1) (plannedIndex + 1) (by omega)
    rw [commitStagedDeleteChunks]
    simp only [hcommit]
    rw [hsteps, applySteps_append _ _ _ (by simp; omega), Attempt.andThen_assoc,
      Attempt.andThen_assoc]
    refine congrArg (Attempt.andThen _) (funext fun _ => funext fun store => ?_)
    rw [Attempt.andThen_ok, hloop, length_singleton, drop_drop, length_cons,
      Nat.add_assoc, Nat.add_comm 1]

/-- With one transaction for each step, publishing is the steps, each under its transaction. -/
lemma publishChunks_eq (hconcat : ConcatsWithin rowStore storage)
    {scan : StagedTable R → List (ScanBatch R)} {tables : List (KeyedChunkStage × StagedTable R)}
    (htables : ∀ table ∈ tables, ReadsBack rowStore scan table.2) {deletedIds : DeleteIdChunks}
    (hplanned : planned.length = (stagedSteps storage tables ++
      deleteSteps storage tableKey deletedIds.chunks 0).length) (store : σ) :
    publishChunks storage tableKey planned scan tables deletedIds store =
      applySteps storage (stagedSteps storage tables ++
        deleteSteps storage tableKey deletedIds.chunks 0) planned store := by
  rw [length_append, length_deleteSteps] at hplanned
  have htablesRun := @commitStagedTables_eq R S σ rowStore storage tableKey planned hconcat scan
    tables htables 0 (by omega)
  have hdeletes := @commitStagedDeleteChunks_eq R S σ storage tableKey planned deletedIds.chunks 0
    (0 + (stagedSteps storage tables).length) (by omega)
  have hend :
      planned[0 + (stagedSteps storage tables).length + deletedIds.chunks.length]? = none := by
    rw [List.getElem?_eq_none_iff]
    omega
  rw [publishChunks, htablesRun, applySteps_append _ _ _ (by omega), Attempt.andThen_assoc,
    drop_zero]
  refine congrArg (Attempt.andThen _) (funext fun _ => funext fun store => ?_)
  rw [Attempt.andThen_ok, hdeletes, Attempt.andThen_assoc, Nat.zero_add]
  -- whatever the deletes end with, no planned transaction is left over
  refine (?_ : ∀ outcome : Attempt σ Unit, outcome.andThen _ = outcome) _
  rintro ⟨outcome, store⟩
  rw [Nat.zero_add] at hend
  cases outcome with
  | error e => rfl
  | ok => rw [Attempt.andThen_ok, Attempt.andThen_ok, hend]

lemma optionalChunkCount_ok {table : Option (StagedTable R)} {count : ℕ}
    (h : optionalChunkCount tableKey table = .ok count) (stage : KeyedChunkStage) :
    count = (stagedSteps storage (table.toList.map fun table => (stage, table))).length := by
  cases table with
  | none =>
    cases h
    rfl
  | some table =>
    unfold optionalChunkCount stagedKeyedChunkCount chunkCount at h
    dsimp only at h
    split_ifs at h
    cases h
    simp [stagedSteps]

/-- A candidate that writes staged chunks takes one transaction for each of them. -/
lemma transactionCount_ok {candidate : CandidateTableState R} {count : ℕ}
    (hproven : ∀ proven, candidate ≠ .adoptPureInserts proven)
    (h : transactionCount tableKey candidate = .ok count) :
    count = (stagedSteps storage (stagedTables candidate) ++
      deleteSteps storage tableKey (deletedIds candidate).chunks 0).length := by
  rw [length_append, length_deleteSteps]
  cases candidate with
  | adoptSourceState validationDelta =>
    cases h
    rfl
  | adoptPureInserts proven => exact absurd rfl (hproven proven)
  | rewriteMerged staged =>
    unfold transactionCount at h
    rw [Except.bind_eq_ok_iff] at h
    obtain ⟨keyed, hkeyed, h⟩ := h
    cases h
    rw [@optionalChunkCount_ok R S σ storage tableKey _ _ hkeyed (.general .upsert)]
    rfl
  | adoptWithDelta delta =>
    unfold transactionCount at h
    simp only [Except.bind_eq_ok_iff] at h
    obtain ⟨inserts, hinserts, upserts, hupserts, h⟩ := h
    cases h
    rw [@optionalChunkCount_ok R S σ storage tableKey _ _ hinserts (.general .strictInsert),
      @optionalChunkCount_ok R S σ storage tableKey _ _ hupserts (.general .knownPresentUpdate),
      stagedTables, stagedSteps, stagedSteps, stagedSteps, flatMap_append, length_append]
    rfl

/-- The transactions of a plan read versions that follow one another. -/
lemma planMergeTransactions_ok {candidate : CandidateTableState R} {firstReadVersion : ℕ}
    {readVersions : List ℕ}
    (h : planMergeTransactions tableKey candidate firstReadVersion = .ok readVersions) :
    ∃ count, transactionCount tableKey candidate = .ok count ∧
      readVersions = (List.range count).map (firstReadVersion + ·) := by
  unfold planMergeTransactions at h
  rw [Except.bind_eq_ok_iff] at h
  obtain ⟨count, hcount, h⟩ := h
  split_ifs at h
  cases h
  exact ⟨count, hcount, rfl⟩

end Publish

/-- Rows of twelve MiB each, of which a chunk takes two. -/
def plainRows : RowStore String where
  predictedRowBytes _ := .ok 12582912
  rowBatchBytes _ := .ok 12582912

/-- A store that is the list of the chunks written to it. -/
def chunkLog : ReplayStorage String (List String) (List (List String)) where
  stageKeyed _ _ chunk _ := .ok chunk
  stageDelete _ _ := .ok none
  commitExact store staged _ := (.ok (), store ++ [staged])
  concatMemorySize rows := rows.length * 12582912

lemma chunkLog_concatsWithin : ConcatsWithin plainRows chunkLog := by
  rintro rows bytes ⟨sizes, hsizes, rfl⟩
  refine le_of_eq ?_
  induction hsizes with
  | nil => rfl
  | cons hsize _ ih =>
    cases hsize
    rw [sum_cons, ← ih]
    show (_ + 1) * 12582912 = 12582912 + _ * 12582912
    omega

end Omnigraph.Replay
