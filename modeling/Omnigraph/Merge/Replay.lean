import Omnigraph.Lib.Word
import Omnigraph.Merge.Publish

/-!
# Replaying staged chunks

A merge plans one transaction for each staged chunk before it publishes. It then reads the staged
rows back from a scan, whose batches are cut in any way, and puts them together to the chunks of the
plan. What a run writes stays in the store even where the run fails.
-/

namespace Omnigraph.Replay

open List Word

/-! ### The reader -/

section Reader

variable {R : Type}

/-- A batch of rows and the memory of its arrays. -/
structure ScanBatch (R : Type) where
  rows : List R
  arrayMemorySize : ℕ

/-- A slice shares the buffers of its batch. -/
def ScanBatch.slice (batch : ScanBatch R) (offset length : ℕ) : ScanBatch R :=
  { batch with rows := (batch.rows.drop offset).take length }

/-- The rows of a stream of batches. -/
def streamRows (stream : List (ScanBatch R)) : List R := stream.flatMap ScanBatch.rows

@[simp] lemma streamRows_cons (batch : ScanBatch R) (stream : List (ScanBatch R)) :
    streamRows (batch :: stream) = batch.rows ++ streamRows stream := rfl

/-- The batches to come, and the part of a batch that is left over from the last chunk. -/
structure ChunkReader (R : Type) where
  stream : List (ScanBatch R)
  carry : Option (ScanBatch R)

/-- The rows to come. -/
def ChunkReader.rows (reader : ChunkReader R) : List R :=
  streamRows (reader.carry.toList ++ reader.stream)

/-- The next batch with rows in it. -/
def tryNext : List (ScanBatch R) → Option (ScanBatch R × List (ScanBatch R))
  | [] => none
  | batch :: stream => if batch.rows.length > 0 then some (batch, stream) else tryNext stream

/-- The next batch: the one carried over or one of the stream. -/
def ChunkReader.takeBatch (reader : ChunkReader R) : Option (ScanBatch R × List (ScanBatch R)) :=
  match reader.carry with
  | some batch => some (batch, reader.stream)
  | none => tryNext reader.stream

lemma tryNext_eq_some {stream rest : List (ScanBatch R)} {batch : ScanBatch R}
    (h : tryNext stream = some (batch, rest)) :
    0 < batch.rows.length ∧ streamRows stream = batch.rows ++ streamRows rest ∧
      ∀ b ∈ batch :: rest, b ∈ stream := by
  induction stream with
  | nil => cases h
  | cons first stream ih =>
    rw [tryNext] at h
    split_ifs at h with hpos
    · cases h
      exact ⟨hpos, rfl, fun b hb => hb⟩
    · obtain ⟨hlt, hrows, hmem⟩ := ih h
      have hnil := length_eq_zero_iff.mp (Nat.eq_zero_of_not_pos hpos)
      refine ⟨hlt, ?_, fun b hb => mem_cons_of_mem _ (hmem b hb)⟩
      rw [← hrows, streamRows_cons, hnil, nil_append]

lemma tryNext_eq_none {stream : List (ScanBatch R)} (h : tryNext stream = none) :
    streamRows stream = [] := by
  induction stream with
  | nil => rfl
  | cons first stream ih =>
    rw [tryNext] at h
    split_ifs at h with hpos
    rw [streamRows_cons, length_eq_zero_iff.mp (Nat.eq_zero_of_not_pos hpos),
      nil_append]
    exact ih h

/-- A batch is taken off the rows to come. -/
lemma ChunkReader.takeBatch_eq_some {reader : ChunkReader R} {batch : ScanBatch R}
    {rest : List (ScanBatch R)} (h : reader.takeBatch = some (batch, rest)) :
    reader.rows = batch.rows ++ streamRows rest ∧
      (0 < batch.rows.length ∨ reader.carry.isSome = true) ∧
      ∀ b ∈ batch :: rest, b ∈ reader.carry.toList ++ reader.stream := by
  unfold takeBatch at h
  unfold rows
  cases hcarry : reader.carry with
  | some carried =>
    rw [hcarry] at h
    cases h
    exact ⟨rfl, .inr rfl, fun b hb => hb⟩
  | none =>
    rw [hcarry] at h
    obtain ⟨hpos, hrows, hmem⟩ := tryNext_eq_some h
    exact ⟨hrows, .inl hpos, hmem⟩

lemma ChunkReader.takeBatch_eq_none {reader : ChunkReader R} (h : reader.takeBatch = none) :
    reader.rows = [] := by
  unfold takeBatch at h
  unfold rows
  cases hcarry : reader.carry with
  | some carried =>
    rw [hcarry] at h
    cases h
  | none =>
    rw [hcarry] at h
    exact tryNext_eq_none h

/-- Slices are collected until no rows remain. -/
def collect (expectedRows remaining : ℕ) (reader : ChunkReader R) (slices : List (ScanBatch R)) :
    Except OmniError (List (ScanBatch R) × ChunkReader R) :=
  if remaining = 0 then .ok (slices, reader)
  else
    match _h : reader.takeBatch with
    | none => .error (.manifestInternal (s!"branch merge keyed stream ended with {remaining} " ++
        s!"rows missing from a planned {expectedRows}-row chunk"))
    | some (batch, stream) =>
      let take := min remaining batch.rows.length
      let carry := if take < batch.rows.length then
        some (batch.slice take (batch.rows.length - take)) else none
      collect expectedRows (remaining - take) ⟨stream, carry⟩ (slices ++ [batch.slice 0 take])
termination_by (remaining, reader.carry.isSome.toNat)
decreasing_by
  obtain ⟨-, hpos | hcarry, -⟩ := ChunkReader.takeBatch_eq_some _h
  · left
    omega
  · by_cases hbatch : 0 < batch.rows.length
    · left
      omega
    · have hzero : batch.rows.length = 0 := Nat.eq_zero_of_not_pos hbatch
      simp only [hzero, Nat.min_zero, Nat.sub_zero, lt_self_iff_false, hcarry,
        Bool.toNat_true]
      exact Prod.Lex.right _ Nat.zero_lt_one

/-- One slice is taken as it is; several are copied into new buffers. -/
def concatBatches (concatMemorySize : List R → ℕ) : List (ScanBatch R) → ScanBatch R
  | [slice] => slice
  | slices => ⟨streamRows slices, concatMemorySize (streamRows slices)⟩

/-- The next chunk of exactly so many rows. -/
def nextExactStagedChunk (concatMemorySize : List R → ℕ) (reader : ChunkReader R)
    (expectedRows : ℕ) : Except OmniError (List R × ChunkReader R) :=
  if expectedRows = 0 then
    .error (.manifestInternal "branch merge planned an empty keyed chunk")
  else do
    let (slices, reader) ← collect expectedRows expectedRows reader []
    let chunk := concatBatches concatMemorySize slices
    if chunk.rows.length > keyedWriteMaxRows ∨ chunk.arrayMemorySize > keyedWriteMaxBytes then
      .error (.manifestInternal ("branch merge reconstructed a keyed chunk outside its armed " ++
        s!"bound: {chunk.rows.length} rows / {chunk.arrayMemorySize} bytes"))
    else .ok (chunk.rows, reader)

@[simp] lemma concatBatches_rows (concatMemorySize : List R → ℕ) (slices : List (ScanBatch R)) :
    (concatBatches concatMemorySize slices).rows = streamRows slices := by
  unfold concatBatches
  split
  · simp [streamRows]
  · rfl

/-- A batch that a bounded scan may yield. -/
def ScanBatch.Bounded (batch : ScanBatch R) : Prop := batch.arrayMemorySize ≤ keyedWriteMaxBytes

/-- The batches of a reader, the one carried over among them. -/
def ChunkReader.Bounded (reader : ChunkReader R) : Prop :=
  ∀ batch ∈ reader.carry.toList ++ reader.stream, batch.Bounded

/-- The slices are the next rows; without enough of them there is an error. -/
lemma collect_spec (expectedRows remaining : ℕ) (reader : ChunkReader R)
    (slices : List (ScanBatch R)) :
    if remaining ≤ reader.rows.length then
      ∃ more reader', collect expectedRows remaining reader slices = .ok (slices ++ more, reader') ∧
        streamRows more = reader.rows.take remaining ∧ reader'.rows = reader.rows.drop remaining ∧
        (reader.Bounded → (∀ slice ∈ more, slice.Bounded) ∧ reader'.Bounded)
    else ∃ e, collect expectedRows remaining reader slices = .error e := by
  fun_induction collect expectedRows remaining reader slices with
  | case1 reader slices =>
    rw [if_pos (Nat.zero_le _)]
    exact ⟨[], reader, by rw [append_nil], rfl, rfl, fun h => ⟨by simp, h⟩⟩
  | case2 remaining reader slices hne hnone =>
    have hrows := ChunkReader.takeBatch_eq_none hnone
    rw [hrows, if_neg (by simpa using hne)]
    exact ⟨_, rfl⟩
  | case3 remaining reader slices hne batch stream htake take carry ih =>
    obtain ⟨hrows, -, hmem⟩ := ChunkReader.takeBatch_eq_some htake
    have hleft : (⟨stream, carry⟩ : ChunkReader R).rows = reader.rows.drop take := by
      rw [hrows]
      simp only [ChunkReader.rows, carry]
      split_ifs with hlt
      · rw [drop_append_of_le_length hlt.le, Option.toList_some, singleton_append,
          streamRows_cons, ScanBatch.slice, take_of_length_le length_drop.le]
      · rw [drop_append_of_le_length (Nat.min_le_right _ _),
          drop_of_length_le (not_lt.mp hlt)]
        rfl
    have hfirst : (batch.slice 0 take).rows = reader.rows.take take := by
      rw [hrows, take_append_of_le_length (Nat.min_le_right _ _)]
      rfl
    have hlength : (reader.rows.drop take).length = reader.rows.length - take :=
      length_drop
    have htakeLe : take ≤ reader.rows.length := by
      rw [hrows, length_append]
      omega
    have hsum : take + (remaining - take) = remaining := by omega
    rw [hleft] at ih
    by_cases hle : remaining ≤ reader.rows.length
    · rw [if_pos (by omega)] at ih
      rw [if_pos hle]
      obtain ⟨more, reader', hcollect, hmore, hrest, hbounded⟩ := ih
      refine ⟨batch.slice 0 take :: more, reader', ?_, ?_, ?_, fun h => ?_⟩
      · rw [hcollect, append_assoc, singleton_append]
      · rw [streamRows_cons, hmore, hfirst, ← take_add, hsum]
      · rw [hrest, drop_drop, hsum]
      · -- a slice takes the memory of the batch it is cut from
        have hbatch : batch.Bounded := h _ (hmem _ mem_cons_self)
        have hnext : (⟨stream, carry⟩ : ChunkReader R).Bounded := by
          intro b hb
          rcases mem_append.mp hb with hb | hb
          · simp only [carry] at hb
            split_ifs at hb
            · rw [Option.toList_some, mem_singleton] at hb
              rw [hb]
              exact hbatch
            · cases hb
          · exact h _ (hmem _ (mem_cons_of_mem _ hb))
        obtain ⟨hslices, hreader⟩ := hbounded hnext
        refine ⟨fun slice hslice => ?_, hreader⟩
        rcases mem_cons.mp hslice with rfl | hslice
        · exact hbatch
        · exact hslices slice hslice
    · rw [if_neg (by omega)] at ih
      rw [if_neg hle]
      exact ih

section Next

variable {concatMemorySize : List R → ℕ} {reader : ChunkReader R} {expectedRows : ℕ}

/-- With enough rows the next chunk is cut off them, if it is within the bounds. -/
lemma nextExactStagedChunk_of_le (hpos : expectedRows ≠ 0) (hle : expectedRows ≤ reader.rows.length)
    (hmax : expectedRows ≤ keyedWriteMaxRows) (hbounded : reader.Bounded)
    (hconcat : concatMemorySize (reader.rows.take expectedRows) ≤ keyedWriteMaxBytes) :
    ∃ reader', reader'.rows = reader.rows.drop expectedRows ∧ reader'.Bounded ∧
      nextExactStagedChunk concatMemorySize reader expectedRows =
        .ok (reader.rows.take expectedRows, reader') := by
  have hspec := collect_spec expectedRows expectedRows reader []
  rw [if_pos hle] at hspec
  obtain ⟨more, reader', hcollect, hmore, hrest, hmoreBounded⟩ := hspec
  obtain ⟨hslices, hreader⟩ := hmoreBounded hbounded
  rw [nil_append] at hcollect
  have hlength : (streamRows more).length = expectedRows := by
    rw [hmore, length_take, Nat.min_eq_left hle]
  refine ⟨reader', hrest, hreader, ?_⟩
  rw [nextExactStagedChunk, if_neg hpos, hcollect, Except.ok_bind]
  have hbounds : ¬ ((concatBatches concatMemorySize more).rows.length > keyedWriteMaxRows ∨
      (concatBatches concatMemorySize more).arrayMemorySize > keyedWriteMaxBytes) := by
    rw [not_or, not_lt, not_lt, concatBatches_rows, hlength]
    rw [← hmore] at hconcat
    refine ⟨hmax, ?_⟩
    unfold concatBatches
    split
    · exact hslices _ mem_cons_self
    · exact hconcat
  dsimp only
  rw [if_neg hbounds, concatBatches_rows, hmore]

/-- A chunk that is returned was cut off the rows to come. -/
lemma nextExactStagedChunk_ok {chunk : List R} {reader' : ChunkReader R}
    (h : nextExactStagedChunk concatMemorySize reader expectedRows = .ok (chunk, reader')) :
    expectedRows ≤ reader.rows.length ∧ chunk = reader.rows.take expectedRows ∧
      reader'.rows = reader.rows.drop expectedRows := by
  unfold nextExactStagedChunk at h
  split_ifs at h with hzero
  rw [Except.bind_eq_ok_iff] at h
  obtain ⟨⟨slices, next⟩, hcollect, h⟩ := h
  dsimp only at h
  split_ifs at h
  cases h
  rw [concatBatches_rows]
  have hspec := collect_spec expectedRows expectedRows reader []
  by_cases hle : expectedRows ≤ reader.rows.length
  · rw [if_pos hle] at hspec
    obtain ⟨more, reader'', hcollect', hmore, hrest, -⟩ := hspec
    rw [hcollect] at hcollect'
    cases hcollect'
    exact ⟨hle, hmore, hrest⟩
  · rw [if_neg hle] at hspec
    obtain ⟨e, he⟩ := hspec
    rw [hcollect] at he
    cases he

end Next

end Reader

/-! ### Committing -/

/-- The outcome of a run, and the store it leaves behind. -/
abbrev Attempt (σ α : Type) := Except OmniError α × σ

/-- The first run and, if it succeeds, the second one. -/
def Attempt.andThen {σ α β : Type} (first : Attempt σ α) (next : α → σ → Attempt σ β) :
    Attempt σ β :=
  match first with
  | (.error e, store) => (.error e, store)
  | (.ok a, store) => next a store

inductive KeyedChunkStage
  | general (semantics : KeyedWriteSemantics)
  | provenStrictInsert

structure StagedTransactionIdentity where
  readVersion : ℕ
  uuid : String

def StagedTransactionIdentity.debugText (transaction : StagedTransactionIdentity) : String :=
  s!"StagedTransactionIdentity \x7b read_version: {transaction.readVersion}, uuid: " ++
    s!"\"{transaction.uuid}\" \x7d"

/-- What publishing asks of a store: to stage a chunk on its current state, to commit what is staged
as a planned transaction, and the memory that copied rows take. -/
structure ReplayStorage (R S σ : Type) where
  stageKeyed : KeyedChunkStage → σ → List R → ℕ → Except OmniError S
  stageDelete : σ → String → Except OmniError (Option S)
  commitExact : σ → S → StagedTransactionIdentity → Attempt σ Unit
  concatMemorySize : List R → ℕ

section Commit

variable {R S σ : Type} (storage : ReplayStorage R S σ) (tableKey : String)
  (planned : List StagedTransactionIdentity)

/-- Commits what was staged as the next planned transaction. -/
def commitNext (chunkText : String) (staged : Except OmniError S) (plannedIndex : ℕ) (store : σ) :
    Attempt σ ℕ :=
  match staged with
  | .error e => (.error e, store)
  | .ok staged =>
    match planned[plannedIndex]? with
    | none => (.error (.manifestInternal (s!"branch merge table '{tableKey}' has no transaction " ++
        s!"planned for {chunkText}")), store)
    | some transaction =>
      (storage.commitExact store staged transaction).andThen fun _ store =>
        (.ok (plannedIndex + 1), store)

/-- The chunks of the plan, each put together, staged and committed. -/
def commitKeyedChunks (stage : KeyedChunkStage) : List ℕ → ℕ → ChunkReader R → ℕ → ℕ → σ →
    Attempt σ (ChunkReader R × ℕ × ℕ)
  | [], _, reader, observedRows, plannedIndex, store =>
    (.ok (reader, observedRows, plannedIndex), store)
  | expectedRows :: chunkRows, chunkIndex, reader, observedRows, plannedIndex, store =>
    match nextExactStagedChunk storage.concatMemorySize reader expectedRows with
    | .error e => (.error e, store)
    | .ok (chunk, reader) =>
      match checkedAdd observedRows chunk.length with
      | none => (.error (.manifestInternal "branch merge row count overflow"), store)
      | some observedRows =>
        (commitNext storage tableKey planned s!"keyed chunk {chunkIndex + 1}"
          (storage.stageKeyed stage store chunk chunkIndex) plannedIndex store).andThen
            fun plannedIndex store =>
              commitKeyedChunks stage chunkRows (chunkIndex + 1) reader observedRows plannedIndex
                store

def ChunkReader.hasExtraRows (reader : ChunkReader R) : Bool :=
  (reader.carry.any fun batch => decide (batch.rows.length > 0)) || (tryNext reader.stream).isSome

def commitKeyedStreamChunks (stage : KeyedChunkStage) (stream : List (ScanBatch R))
    (chunkRows : List ℕ) (expectedRowCount plannedIndex : ℕ) (store : σ) : Attempt σ ℕ :=
  (commitKeyedChunks storage tableKey planned stage chunkRows 0 ⟨stream, none⟩ 0 plannedIndex
    store).andThen fun (reader, observedRows, plannedIndex) store =>
      if reader.hasExtraRows ∨ observedRows ≠ expectedRowCount then
        (.error (.manifestInternal (s!"branch merge table '{tableKey}' streamed {observedRows} " ++
          s!"keyed rows against an armed plan for {expectedRowCount}")), store)
      else (.ok plannedIndex, store)

def stageDeleteChunk (store : σ) (chunk : DeleteIdChunk) (chunkIndex : ℕ) : Except OmniError S := do
  let filter ← chunk.filter
  match ← storage.stageDelete store filter with
  | none => .error (.manifestInternal (s!"branch merge delete chunk {chunkIndex + 1} for table " ++
      s!"'{tableKey}' matched no rows"))
  | some staged => .ok staged

def commitStagedDeleteChunks : List DeleteIdChunk → ℕ → ℕ → σ → Attempt σ ℕ
  | [], _, plannedIndex, store => (.ok plannedIndex, store)
  | chunk :: chunks, chunkIndex, plannedIndex, store =>
    (commitNext storage tableKey planned s!"delete chunk {chunkIndex + 1}"
      (stageDeleteChunk storage tableKey store chunk chunkIndex) plannedIndex store).andThen
        fun plannedIndex store =>
          commitStagedDeleteChunks chunks (chunkIndex + 1) plannedIndex store

/-- The staged tables one after the other, each read back by a scan. -/
def commitStagedTables (scan : StagedTable R → List (ScanBatch R)) :
    List (KeyedChunkStage × StagedTable R) → ℕ → σ → Attempt σ ℕ
  | [], plannedIndex, store => (.ok plannedIndex, store)
  | (stage, table) :: tables, plannedIndex, store =>
    (commitKeyedStreamChunks storage tableKey planned stage (scan table)
      (table.chunks.map List.length) table.rowCount plannedIndex store).andThen
        fun plannedIndex store => commitStagedTables scan tables plannedIndex store

/-- Staged tables, then deletes; every planned transaction has to be used. -/
def publishChunks (scan : StagedTable R → List (ScanBatch R))
    (tables : List (KeyedChunkStage × StagedTable R)) (deletedIds : DeleteIdChunks) (store : σ) :
    Attempt σ Unit :=
  (commitStagedTables storage tableKey planned scan tables 0 store).andThen
    fun plannedIndex store =>
      (commitStagedDeleteChunks storage tableKey planned deletedIds.chunks 0 plannedIndex
        store).andThen fun plannedIndex store =>
          match planned[plannedIndex]? with
          | some unused => (.error (.manifestInternal (s!"branch merge table '{tableKey}' did " ++
              s!"not apply planned transaction {unused.debugText}")), store)
          | none => (.ok (), store)

/-- The staged tables of a candidate and how they are written. -/
def stagedTables : CandidateTableState R → List (KeyedChunkStage × StagedTable R)
  | .rewriteMerged staged => staged.deltaStaged.toList.map fun table => (.general .upsert, table)
  | .adoptWithDelta delta =>
    (delta.inserts.toList.map fun table => (.general .strictInsert, table)) ++
      delta.upserts.toList.map fun table => (.general .knownPresentUpdate, table)
  | _ => []

def deletedIds : CandidateTableState R → DeleteIdChunks
  | .rewriteMerged staged => staged.deletedIds
  | .adoptWithDelta delta => delta.deletedIds
  | _ => .empty

/-! ### The reference -/

/-- Each step stages on the store that the steps before it left, and is committed as the transaction
of its place. -/
def applySteps : List (σ → Except OmniError S) → List StagedTransactionIdentity → σ → Attempt σ Unit
  | step :: steps, transaction :: transactions, store =>
    match step store with
    | .error e => (.error e, store)
    | .ok staged =>
      (storage.commitExact store staged transaction).andThen fun _ store =>
        applySteps steps transactions store
  | _, _, store => (.ok (), store)

/-- One step for each chunk. -/
def keyedSteps (stage : KeyedChunkStage) (chunks : List (List R)) (start : ℕ) :
    List (σ → Except OmniError S) :=
  (chunks.zipIdx start).map fun chunk store => storage.stageKeyed stage store chunk.1 chunk.2

def deleteSteps (chunks : List DeleteIdChunk) (start : ℕ) : List (σ → Except OmniError S) :=
  (chunks.zipIdx start).map fun chunk store =>
    stageDeleteChunk storage tableKey store chunk.1 chunk.2

end Commit

/-- The chunks of those sizes that the rows fill. -/
def cuts {R : Type} : List ℕ → List R → List (List R)
  | [], _ => []
  | n :: chunkRows, rows =>
    if n ≤ rows.length then rows.take n :: cuts chunkRows (rows.drop n) else []

/-! ### A replay of the planned chunks -/

section Attempts

variable {R S σ α β γ : Type}

@[simp] lemma Attempt.andThen_ok (a : α) (store : σ) (next : α → σ → Attempt σ β) :
    Attempt.andThen (.ok a, store) next = next a store := rfl

@[simp] lemma Attempt.andThen_error (e : OmniError) (store : σ) (next : α → σ → Attempt σ β) :
    Attempt.andThen (.error e, store) next = (.error e, store) := rfl

lemma Attempt.andThen_assoc (first : Attempt σ α) (next : α → σ → Attempt σ β)
    (last : β → σ → Attempt σ γ) :
    (first.andThen next).andThen last =
      first.andThen fun a store => (next a store).andThen last := by
  obtain ⟨outcome, store⟩ := first
  cases outcome with
  | ok a => rfl
  | error e => rfl

variable {storage : ReplayStorage R S σ} {tableKey : String}
  {planned : List StagedTransactionIdentity}

lemma applySteps_append (steps steps' : List (σ → Except OmniError S))
    (transactions : List StagedTransactionIdentity)
    (h : steps.length ≤ transactions.length) (store : σ) :
    applySteps storage (steps ++ steps') transactions store =
      (applySteps storage steps transactions store).andThen fun _ store =>
        applySteps storage steps' (transactions.drop steps.length) store := by
  induction steps generalizing transactions store with
  | nil =>
    rw [nil_append, length_nil, drop_zero]
    rfl
  | cons step steps ih =>
    cases transactions with
    | nil => simp at h
    | cons transaction transactions =>
      rw [length_cons, length_cons] at h
      rw [cons_append, applySteps, applySteps]
      cases step store with
      | error e => rfl
      | ok staged =>
        dsimp only
        rw [Attempt.andThen_assoc]
        refine congrArg (Attempt.andThen _) (funext fun _ => funext fun store => ?_)
        exact ih transactions (Nat.le_of_succ_le_succ h) store

/-- The next transaction of the plan is the first of those that are left. -/
lemma commitNext_of_lt {chunkText : String} {plannedIndex : ℕ} (h : plannedIndex < planned.length)
    (step : σ → Except OmniError S) (store : σ) :
    commitNext storage tableKey planned chunkText (step store) plannedIndex store =
      (applySteps storage [step] (planned.drop plannedIndex) store).andThen fun _ store =>
        (.ok (plannedIndex + 1), store) := by
  rw [drop_eq_getElem_cons h, applySteps]
  unfold commitNext
  rw [List.getElem?_eq_getElem h]
  cases step store with
  | error e => rfl
  | ok staged =>
    dsimp only
    rw [Attempt.andThen_assoc]
    rfl

lemma hasExtraRows_iff {reader : ChunkReader R} :
    reader.hasExtraRows = true ↔ reader.rows ≠ [] := by
  have hstream : (tryNext reader.stream).isSome = true ↔ streamRows reader.stream ≠ [] := by
    cases hnext : tryNext reader.stream with
    | none => simp [tryNext_eq_none hnext]
    | some next =>
      obtain ⟨hpos, hrows, -⟩ := @tryNext_eq_some R _ next.2 next.1 hnext
      rw [hrows]
      simpa using fun hnil => absurd hnil (length_pos_iff.mp hpos)
  rw [ChunkReader.hasExtraRows, Bool.or_eq_true, hstream, ChunkReader.rows]
  cases reader.carry with
  | none => simp
  | some batch =>
    rw [Option.toList_some, singleton_append, streamRows_cons, Option.any_some,
      decide_eq_true_iff, gt_iff_lt, length_pos_iff]
    simp only [ne_eq, append_eq_nil_iff, not_and_or]

end Attempts

section Replay

variable {R S σ : Type} {storage : ReplayStorage R S σ} {tableKey : String}
  {planned : List StagedTransactionIdentity}
  {stage : KeyedChunkStage}

/-- A chunk of the size of a keyed write. -/
def Replayable (storage : ReplayStorage R S σ) (chunk : List R) : Prop :=
  chunk ≠ [] ∧ chunk.length ≤ keyedWriteMaxRows ∧
    storage.concatMemorySize chunk ≤ keyedWriteMaxBytes

/-- Rows that are those of the chunks are put together to the chunks, each committed as the next
transaction. -/
lemma commitKeyedChunks_eq {chunks : List (List R)}
    (hchunks : ∀ chunk ∈ chunks, Replayable storage chunk) :
    ∀ (chunkIndex : ℕ) {observedRows plannedIndex : ℕ} {reader : ChunkReader R} {rest : List R},
      reader.rows = chunks.flatten ++ rest → reader.Bounded →
      observedRows + chunks.flatten.length < 2 ^ 64 →
      plannedIndex + chunks.length ≤ planned.length →
        ∃ reader', reader'.rows = rest ∧ ∀ store : σ,
          commitKeyedChunks storage tableKey planned stage (chunks.map List.length) chunkIndex
              reader observedRows plannedIndex store =
            (applySteps storage (keyedSteps storage stage chunks chunkIndex)
              (planned.drop plannedIndex) store).andThen fun _ store =>
                (.ok (reader', observedRows + chunks.flatten.length, plannedIndex + chunks.length),
                  store) := by
  induction chunks with
  | nil => exact fun _ {_ _ reader _} hrows _ _ _ => ⟨reader, hrows, fun _ => rfl⟩
  | cons chunk chunks ih =>
    intro chunkIndex observedRows plannedIndex reader rest hrows hbounded hobserved hplanned
    obtain ⟨hne, hmax, hmemory⟩ := hchunks chunk mem_cons_self
    rw [flatten_cons, append_assoc] at hrows
    rw [flatten_cons, length_append] at hobserved
    rw [length_cons] at hplanned
    have htake : reader.rows.take chunk.length = chunk := by rw [hrows, take_left]
    have hdrop : reader.rows.drop chunk.length = chunks.flatten ++ rest := by
      rw [hrows, drop_left]
    rw [← htake] at hmemory
    obtain ⟨next, hleft, hnextBounded, hnext⟩ := nextExactStagedChunk_of_le
      (mt length_eq_zero_iff.mp hne) (by rw [hrows]; simp) hmax hbounded hmemory
    rw [htake] at hnext
    have hadd : checkedAdd observedRows chunk.length = some (observedRows + chunk.length) :=
      checkedAdd_eq_some_iff.mpr ⟨by omega, rfl⟩
    obtain ⟨reader', hrest, hloop⟩ := ih (fun c hc => hchunks c (mem_cons_of_mem _ hc))
      (chunkIndex + 1) (hleft.trans hdrop) hnextBounded
      (by omega : observedRows + chunk.length + chunks.flatten.length < 2 ^ 64)
      (by omega : plannedIndex + 1 + chunks.length ≤ planned.length)
    refine ⟨reader', hrest, fun store => ?_⟩
    have hsteps : keyedSteps storage stage (chunk :: chunks) chunkIndex =
        [fun store => storage.stageKeyed stage store chunk chunkIndex] ++
          keyedSteps storage stage chunks (chunkIndex + 1) := rfl
    have hlt : plannedIndex < planned.length := by omega
    have hcommit : commitNext storage tableKey planned s!"keyed chunk {chunkIndex + 1}"
        (storage.stageKeyed stage store chunk chunkIndex) plannedIndex store =
          (applySteps storage [fun store => storage.stageKeyed stage store chunk chunkIndex]
            (planned.drop plannedIndex) store).andThen fun _ store =>
              (.ok (plannedIndex + 1), store) :=
      commitNext_of_lt hlt (fun store => storage.stageKeyed stage store chunk chunkIndex) store
    have hdropPlanned : (planned.drop plannedIndex).drop 1 = planned.drop (plannedIndex + 1) := by
      rw [drop_drop]
    rw [map_cons, commitKeyedChunks, hnext]
    simp only [hadd, hcommit]
    rw [hsteps, applySteps_append _ _ _ (by simp; omega), Attempt.andThen_assoc,
      Attempt.andThen_assoc]
    refine congrArg (Attempt.andThen _) (funext fun _ => funext fun store => ?_)
    rw [Attempt.andThen_ok, hloop, length_singleton, hdropPlanned]
    simp only [flatten_cons, length_append, length_cons, Nat.add_assoc,
      Nat.add_comm 1]

/-! ### A stream of other rows -/

/-- Without a staged write or a transaction nothing is committed. -/
lemma commitNext_cases (chunkText : String) (staged : Except OmniError S) (plannedIndex : ℕ)
    (store : σ) :
    (∃ e, commitNext storage tableKey planned chunkText staged plannedIndex store =
      (.error e, store)) ∨
      ∃ s transaction, staged = .ok s ∧ planned[plannedIndex]? = some transaction ∧
        commitNext storage tableKey planned chunkText staged plannedIndex store =
          (storage.commitExact store s transaction).andThen fun _ store =>
            (.ok (plannedIndex + 1), store) := by
  unfold commitNext
  cases staged with
  | error e => exact .inl ⟨e, rfl⟩
  | ok s =>
    cases hplanned : planned[plannedIndex]? with
    | none => exact .inl ⟨_, rfl⟩
    | some transaction => exact .inr ⟨s, transaction, rfl, rfl, rfl⟩

lemma applySteps_cons_ok {step : σ → Except OmniError S} {steps : List (σ → Except OmniError S)}
    {plannedIndex : ℕ} {store : σ} {s : S} {transaction : StagedTransactionIdentity}
    (hstep : step store = .ok s) (hplanned : planned[plannedIndex]? = some transaction) :
    applySteps storage (step :: steps) (planned.drop plannedIndex) store =
      (storage.commitExact store s transaction).andThen fun _ store =>
        applySteps storage steps (planned.drop (plannedIndex + 1)) store := by
  obtain ⟨hlt, rfl⟩ := List.getElem?_eq_some_iff.mp hplanned
  rw [drop_eq_getElem_cons hlt, applySteps, hstep]

/-- An outcome whose store is what some of the first chunks that the rows fill leave behind; it
succeeds only if the rows fill all chunks. -/
def CommitsCuts (storage : ReplayStorage R S σ) (planned : List StagedTransactionIdentity)
    (stage : KeyedChunkStage) (chunkRows : List ℕ) (chunkIndex observedRows plannedIndex : ℕ)
    (rows : List R) (store : σ)
    (outcome : Attempt σ (ChunkReader R × ℕ × ℕ)) : Prop :=
  (∃ k ≤ (cuts chunkRows rows).length,
    outcome.2 = (applySteps storage
      (keyedSteps storage stage ((cuts chunkRows rows).take k) chunkIndex)
      (planned.drop plannedIndex) store).2) ∧
  ∀ reader' observed' plannedIndex', outcome.1 = .ok (reader', observed', plannedIndex') →
    chunkRows.sum ≤ rows.length ∧ reader'.rows = rows.drop chunkRows.sum ∧
      observed' = observedRows + chunkRows.sum

/-- What stops before a commit leaves the store as it was. -/
lemma commitsCuts_error {chunkRows : List ℕ} {chunkIndex observedRows plannedIndex : ℕ}
    {rows : List R} {store : σ} (e : OmniError) :
    CommitsCuts storage planned stage chunkRows chunkIndex observedRows plannedIndex rows store
      (.error e, store) :=
  ⟨⟨0, Nat.zero_le _, rfl⟩, fun _ _ _ h => by cases h⟩

/-- Whatever the rows are, the chunks that were committed are the first ones that the rows fill. -/
lemma commitKeyedChunks_cuts (chunkRows : List ℕ) :
    ∀ (chunkIndex observedRows plannedIndex : ℕ) (reader : ChunkReader R) (store : σ),
      CommitsCuts storage planned stage chunkRows chunkIndex observedRows plannedIndex reader.rows
        store (commitKeyedChunks storage tableKey planned stage chunkRows chunkIndex reader
          observedRows plannedIndex store) := by
  induction chunkRows with
  | nil =>
    intro chunkIndex observedRows plannedIndex reader store
    refine ⟨⟨0, Nat.zero_le _, rfl⟩, fun reader' observed' plannedIndex' h => ?_⟩
    cases h
    exact ⟨Nat.zero_le _, rfl, rfl⟩
  | cons expectedRows chunkRows ih =>
    intro chunkIndex observedRows plannedIndex reader store
    rw [commitKeyedChunks]
    cases hnext : nextExactStagedChunk storage.concatMemorySize reader expectedRows with
    | error e => exact commitsCuts_error e
    | ok next =>
      obtain ⟨chunk, reader1⟩ := next
      obtain ⟨hle, hchunk, hleft⟩ := nextExactStagedChunk_ok hnext
      have hlength : chunk.length = expectedRows := by
        rw [hchunk, length_take, Nat.min_eq_left hle]
      have hcuts : cuts (expectedRows :: chunkRows) reader.rows =
          chunk :: cuts chunkRows reader1.rows := by
        rw [cuts, if_pos hle, hchunk, hleft]
      dsimp only
      cases hadd : checkedAdd observedRows chunk.length with
      | none => exact commitsCuts_error _
      | some observed =>
        obtain ⟨-, rfl⟩ := checkedAdd_eq_some_iff.mp hadd
        dsimp only
        rcases @commitNext_cases R S σ storage tableKey planned
          s!"keyed chunk {chunkIndex + 1}" (storage.stageKeyed stage store chunk chunkIndex)
          plannedIndex store with
          ⟨e, hcommit⟩ | ⟨s, transaction, hstage, hplanned, hcommit⟩
        · rw [hcommit, Attempt.andThen_error]
          exact commitsCuts_error e
        · have hsteps : ∀ k, applySteps storage (keyedSteps storage stage
              ((chunk :: cuts chunkRows reader1.rows).take (k + 1)) chunkIndex)
              (planned.drop plannedIndex) store =
                (storage.commitExact store s transaction).andThen fun _ store =>
                  applySteps storage (keyedSteps storage stage
                    ((cuts chunkRows reader1.rows).take k) (chunkIndex + 1))
                    (planned.drop (plannedIndex + 1)) store := fun k =>
            @applySteps_cons_ok R S σ storage planned
              (fun store => storage.stageKeyed stage store chunk chunkIndex) _ _ _ _ _ hstage
              hplanned
          rw [hcommit, Attempt.andThen_assoc]
          unfold CommitsCuts
          rw [hcuts]
          rcases hexact : storage.commitExact store s transaction with ⟨outcome, store'⟩
          simp only [hexact] at hsteps
          cases outcome with
          | error e =>
            -- a commit that fails may have changed the store
            refine ⟨⟨1, Nat.succ_le_succ (Nat.zero_le _), ?_⟩, fun _ _ _ h => by cases h⟩
            rw [hsteps 0]
            rfl
          | ok =>
            obtain ⟨⟨k, hk, hstore⟩, hok⟩ := ih (chunkIndex + 1) (observedRows + chunk.length)
              (plannedIndex + 1) reader1 store'
            refine ⟨⟨k + 1, Nat.succ_le_succ hk, ?_⟩, fun reader' observed' plannedIndex' h => ?_⟩
            · rw [hsteps k]
              exact hstore
            · obtain ⟨hsum, hrest, hobserved⟩ := hok reader' observed' plannedIndex' h
              rw [hleft, length_drop] at hsum
              rw [sum_cons]
              refine ⟨by omega, ?_, by omega⟩
              rw [hrest, hleft, drop_drop]

end Replay

end Omnigraph.Replay
