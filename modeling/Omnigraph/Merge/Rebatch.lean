import Omnigraph.Lib.Drain
import Omnigraph.Merge.Replay

/-!
# Batches of proven inserts

The rows of a proven insert come in the batches of a scan, which may be too large for a keyed write
or keep more memory than their rows need. They are cut again: ranges of a batch are copied, small
candidates are put together, and a candidate that does not fit waits for the next output.
-/

namespace Omnigraph.ProvenInsert

open List Option

open Replay (ScanBatch streamRows)
open Drain Word

section Code

variable {R : Type}

/-- The memory of batches: the logical buffers of a range of rows, which are counted without copying
them, a range that is copied, and batches that are put together. -/
structure BatchMemory (R : Type) where
  sliceMemorySize : ScanBatch R → ℕ → ℕ → ℕ
  copyMemorySize : ScanBatch R → ℕ → ℕ → ℕ
  concatMemorySize : List (ScanBatch R) → ℕ

variable (memory : BatchMemory R) (tableKey : String)

/-! ### One candidate -/

def copyProvenInsertBatchRange (batch : ScanBatch R) (offset rows : ℕ) : ScanBatch R :=
  ⟨(batch.rows.drop offset).take rows, memory.copyMemorySize batch offset rows⟩

def searchPrefix (batch : ScanBatch R) (offset low high : ℕ) : ℕ :=
  if low < high then
    let middle := low + (high - low + 1) / 2
    if memory.sliceMemorySize batch offset middle ≤ keyedWriteMaxBytes then
      searchPrefix batch offset middle high
    else searchPrefix batch offset low (middle - 1)
  else low
termination_by high - low

/-- The most rows whose logical buffers are within the byte limit, and the bytes of these. -/
def largestProvenInsertPrefix (batch : ScanBatch R) (offset maxRows : ℕ) : ℕ × ℕ :=
  let oneRowBytes := memory.sliceMemorySize batch offset 1
  if maxRows = 1 ∨ oneRowBytes > keyedWriteMaxBytes then (1, oneRowBytes)
  else
    let maxBytes := memory.sliceMemorySize batch offset maxRows
    if maxBytes ≤ keyedWriteMaxBytes then (maxRows, maxBytes)
    else
      let low := searchPrefix memory batch offset 1 (maxRows - 1)
      (low, memory.sliceMemorySize batch offset low)

def validateProvenInsertSourceBatch (batch : ScanBatch R) : Except OmniError Unit :=
  if batch.rows.length > keyedWriteMaxRows then
    .error (.resourceLimit s!"proven insert delta rows for {tableKey}" keyedWriteMaxRows
      batch.rows.length)
  else if batch.arrayMemorySize > keyedWriteMaxBytes then
    .error (.resourceLimit s!"proven insert delta bytes for {tableKey}" keyedWriteMaxBytes
      batch.arrayMemorySize)
  else .ok ()

/-- A whole batch that keeps little more than its rows is taken as it is, any other range copied. -/
def candidateOf (batch : ScanBatch R) (offset rows logicalBytes : ℕ) : ScanBatch R :=
  let isWholeBatch := offset = 0 ∧ rows = batch.rows.length
  let retainedParentSlop := 64 * 1024
  let keepsOnlyLogicalSlice :=
    batch.arrayMemorySize ≤ saturatingAdd logicalBytes retainedParentSlop
  if isWholeBatch ∧ batch.arrayMemorySize ≤ keyedWriteMaxBytes ∧ keepsOnlyLogicalSlice then batch
  else copyProvenInsertBatchRange memory batch offset rows

/-- Fewer rows are tried until the candidate is within the byte limit. -/
def shrinkCandidate (batch : ScanBatch R) (offset rows logicalBytes : ℕ) :
    Except OmniError (ScanBatch R × ℕ) :=
  let candidate := candidateOf memory batch offset rows logicalBytes
  let bytes := candidate.arrayMemorySize
  if bytes ≤ keyedWriteMaxBytes then do
    validateProvenInsertSourceBatch tableKey candidate
    return (candidate, rows)
  -- a candidate has at least one row
  else if rows ≤ 1 then
    .error (.resourceLimit s!"proven insert delta bytes for {tableKey}" keyedWriteMaxBytes bytes)
  else
    let fewer := min (max (rows * keyedWriteMaxBytes / bytes) 1) (rows - 1)
    shrinkCandidate batch offset fewer (memory.sliceMemorySize batch offset fewer)
termination_by rows

def nextProvenInsertBatch (batch : ScanBatch R) (offset : ℕ) :
    Except OmniError (ScanBatch R × ℕ) :=
  if offset ≥ batch.rows.length then
    .error (.manifestInternal (s!"proven insert delta offset {offset} is outside {tableKey} " ++
      s!"batch with {batch.rows.length} rows"))
  else
    let maxRows := min (batch.rows.length - offset) keyedWriteMaxRows
    let (rows, logicalBytes) := largestProvenInsertPrefix memory batch offset maxRows
    shrinkCandidate memory tableKey batch offset rows logicalBytes

def concatCandidates : List (ScanBatch R) → ScanBatch R
  | [batch] => batch
  | batches => ⟨streamRows batches, memory.concatMemorySize batches⟩

def finishProvenInsertBatch (batches : List (ScanBatch R)) : Except OmniError (ScanBatch R) := do
  let batch := concatCandidates memory batches
  validateProvenInsertSourceBatch tableKey batch
  return batch

/-! ### The stream -/

structure State (R : Type) where
  raw : List (ScanBatch R)
  current : Option (ScanBatch R)
  currentOffset : ℕ
  /-- A candidate, and how many rows of the current batch it is made of. -/
  pending : Option (ScanBatch R × ℕ)
  accumulated : List (ScanBatch R)
  accumulatedRows : ℕ
  accumulatedBytes : ℕ

def State.start (raw : List (ScanBatch R)) : State R := ⟨raw, none, 0, none, [], 0, 0⟩

/-- The accumulated batches were put out. -/
def State.flushed (s : State R) : State R :=
  { s with accumulated := [], accumulatedRows := 0, accumulatedBytes := 0 }

/-- The offset moves over the rows of the candidate, and off a batch that is used up. -/
def State.advance (s : State R) (consumedRows : ℕ) : State R :=
  let currentOffset := s.currentOffset + consumedRows
  if s.current.any fun batch => currentOffset = batch.rows.length then
    { s with current := none, currentOffset := 0 }
  else { s with currentOffset }

def State.accept (s : State R) (batch : ScanBatch R) (consumedRows : ℕ) : State R :=
  { s with
    pending := none
    accumulated := s.accumulated ++ [batch]
    accumulatedRows := s.accumulatedRows + batch.rows.length
    accumulatedBytes := s.accumulatedBytes + batch.arrayMemorySize }.advance consumedRows

def State.fits (s : State R) (batch : ScanBatch R) : Bool :=
  (checkedAdd s.accumulatedRows batch.rows.length).any (fun rows => rows ≤ keyedWriteMaxRows) &&
    (checkedAdd s.accumulatedBytes batch.arrayMemorySize).any fun bytes =>
      bytes ≤ keyedWriteMaxBytes

/-- Puts out what is accumulated. -/
def yieldAccumulated (s : State R) : Except OmniError (Next (ScanBatch R) (State R)) := do
  let output ← finishProvenInsertBatch memory tableKey s.accumulated
  return .emit output s.flushed

def takePending (s : State R) (batch : ScanBatch R) (consumedRows : ℕ) :
    Except OmniError (Next (ScanBatch R) (State R)) :=
  if s.accumulated = [] ∨ s.fits batch then
    let accepted := s.accept batch consumedRows
    if accepted.accumulatedRows = keyedWriteMaxRows ∨
        accepted.accumulatedBytes = keyedWriteMaxBytes then
      yieldAccumulated memory tableKey accepted
    else .ok (.go accepted)
  -- the candidate waits for the next output
  else yieldAccumulated memory tableKey s

def nextPending (s : State R) (batch : ScanBatch R) :
    Except OmniError (Next (ScanBatch R) (State R)) :=
  if s.currentOffset < batch.rows.length then do
    let pending ← nextProvenInsertBatch memory tableKey batch s.currentOffset
    return .go { s with pending := some pending }
  else .ok (.go { s with current := none, currentOffset := 0 })

def pullRaw (s : State R) : Except OmniError (Next (ScanBatch R) (State R)) :=
  match s.raw with
  | batch :: raw =>
    if batch.rows.length ≠ 0 then .ok (.go { s with raw, current := some batch })
    else .ok (.go { s with raw })
  | [] =>
    if s.accumulated = [] then .ok .done else yieldAccumulated memory tableKey s

/-- One round of the loop. An error of it reaches the reader of the stream by its text. -/
def step (s : State R) : Except OmniError (Next (ScanBatch R) (State R)) :=
  match s.pending with
  | some (batch, consumedRows) => takePending memory tableKey s batch consumedRows
  | none =>
    match s.current with
    | some batch => nextPending memory tableKey s batch
    | none => pullRaw memory tableKey s

/-- The batches that a reader of the stream is given, with fuel for the rounds of the loop. -/
def boundedProvenInsertStream (fuel : ℕ) (raw : List (ScanBatch R)) :
    Run (ScanBatch R) OmniError :=
  drain (step memory tableKey) fuel (.start raw)

end Code

/-! ### What a candidate is -/

section Candidate

variable {R : Type} {memory : BatchMemory R} {tableKey : String} {batch : ScanBatch R} {offset : ℕ}

/-- A single row, copied alone, is over the byte limit. -/
def TooWide (memory : BatchMemory R) (batch : ScanBatch R) (offset : ℕ) : Prop :=
  offset < batch.rows.length ∧ keyedWriteMaxBytes < memory.copyMemorySize batch offset 1

/-- The error for a single row that is too wide. -/
def tooWideError (memory : BatchMemory R) (tableKey : String) (batch : ScanBatch R) (offset : ℕ) :
    OmniError :=
  .resourceLimit s!"proven insert delta bytes for {tableKey}" keyedWriteMaxBytes
    (memory.copyMemorySize batch offset 1)

/-- A batch that a keyed write admits. -/
def Admissible (batch : ScanBatch R) : Prop :=
  batch.rows ≠ [] ∧ batch.rows.length ≤ keyedWriteMaxRows ∧
    batch.arrayMemorySize ≤ keyedWriteMaxBytes

/-- A candidate is a range of rows of the batch from the offset on. -/
structure IsCandidate (batch : ScanBatch R) (offset : ℕ) (candidate : ScanBatch R) (rows : ℕ) :
    Prop where
  rows_eq : candidate.rows = (batch.rows.drop offset).take rows
  pos : 0 < rows
  le : offset + rows ≤ batch.rows.length
  admissible : Admissible candidate

lemma searchPrefix_bounds (low high : ℕ) (h : low ≤ high) :
    low ≤ searchPrefix memory batch offset low high ∧
      searchPrefix memory batch offset low high ≤ high := by
  fun_induction searchPrefix memory batch offset low high with
  | case1 low high hlt middle hfits ih =>
    obtain ⟨hlow, hhigh⟩ := ih (by omega)
    exact ⟨by omega, hhigh⟩
  | case2 low high hlt middle hfits ih =>
    obtain ⟨hlow, hhigh⟩ := ih (by omega)
    exact ⟨hlow, by omega⟩
  | case3 low high hle => exact ⟨le_rfl, h⟩

lemma largestProvenInsertPrefix_bounds {maxRows : ℕ} (h : 0 < maxRows) :
    0 < (largestProvenInsertPrefix memory batch offset maxRows).1 ∧
      (largestProvenInsertPrefix memory batch offset maxRows).1 ≤ maxRows := by
  unfold largestProvenInsertPrefix
  dsimp only
  split_ifs with hone hall
  · exact ⟨Nat.zero_lt_one, h⟩
  · exact ⟨h, le_rfl⟩
  · rw [not_or] at hone
    have hsearch := @searchPrefix_bounds R memory batch offset 1 (maxRows - 1) (by omega)
    exact ⟨hsearch.1, by omega⟩

@[simp] lemma candidateOf_rows (rows logicalBytes : ℕ) :
    (candidateOf memory batch offset rows logicalBytes).rows =
      (batch.rows.drop offset).take rows := by
  unfold candidateOf
  dsimp only
  split_ifs with hwhole
  · obtain ⟨⟨rfl, rfl⟩, -⟩ := hwhole
    rw [drop_zero, take_length]
  · rfl

/-- A candidate over the byte limit is a copy. -/
lemma candidateOf_bytes {rows logicalBytes : ℕ}
    (h : ¬ (candidateOf memory batch offset rows logicalBytes).arrayMemorySize ≤
      keyedWriteMaxBytes) :
    (candidateOf memory batch offset rows logicalBytes).arrayMemorySize =
      memory.copyMemorySize batch offset rows := by
  unfold candidateOf at h ⊢
  dsimp only at h ⊢
  split_ifs at h ⊢ with hwhole
  · exact absurd hwhole.2.1 h
  · rfl

lemma validate_of_admissible {candidate : ScanBatch R} (h : Admissible candidate) :
    validateProvenInsertSourceBatch tableKey candidate = .ok () := by
  obtain ⟨-, hrows, hbytes⟩ := h
  rw [validateProvenInsertSourceBatch, if_neg (not_lt.mpr hrows), if_neg (not_lt.mpr hbytes)]

/-- Shrinking ends in a candidate, or at a single row that is too wide. -/
lemma shrinkCandidate_ensures (rows logicalBytes : ℕ) (hpos : 0 < rows)
    (hle : offset + rows ≤ batch.rows.length) (hmax : rows ≤ keyedWriteMaxRows) :
    Ensures (shrinkCandidate memory tableKey batch offset rows logicalBytes)
      (fun next => IsCandidate batch offset next.1 next.2)
      (fun e => TooWide memory batch offset ∧ e = tooWideError memory tableKey batch offset) := by
  fun_induction shrinkCandidate memory tableKey batch offset rows logicalBytes with
  | case1 rows logicalBytes candidate bytes hfits =>
    have hrows : candidate.rows = (batch.rows.drop offset).take rows := candidateOf_rows _ _
    have hlength : candidate.rows.length = rows := by
      rw [hrows, length_take, length_drop]
      omega
    have hadmissible : Admissible candidate := by
      refine ⟨?_, hlength.trans_le hmax, hfits⟩
      rw [← length_pos_iff, hlength]
      exact hpos
    rw [validate_of_admissible hadmissible]
    exact ⟨hrows, hpos, hle, hadmissible⟩
  | case2 rows logicalBytes candidate bytes hover hone =>
    obtain rfl : rows = 1 := by omega
    have hbytes : bytes = memory.copyMemorySize batch offset 1 := candidateOf_bytes hover
    refine ⟨⟨by omega, by omega⟩, ?_⟩
    rw [hbytes]
    rfl
  | case3 rows logicalBytes candidate bytes hover hmore fewer ih =>
    exact ih (by omega) (by omega) (by omega)

lemma nextProvenInsertBatch_ensures (h : offset < batch.rows.length) :
    Ensures (nextProvenInsertBatch memory tableKey batch offset)
      (fun next => IsCandidate batch offset next.1 next.2)
      (fun e => TooWide memory batch offset ∧ e = tooWideError memory tableKey batch offset) := by
  have hmax : 0 < keyedWriteMaxRows := by decide
  have hbounds := @largestProvenInsertPrefix_bounds R memory batch offset
    (min (batch.rows.length - offset) keyedWriteMaxRows) (by omega)
  rw [nextProvenInsertBatch, if_neg (by omega)]
  dsimp only
  generalize largestProvenInsertPrefix memory batch offset
    (min (batch.rows.length - offset) keyedWriteMaxRows) = found at hbounds ⊢
  obtain ⟨rows, logicalBytes⟩ := found
  obtain ⟨hpos, hle⟩ := hbounds
  dsimp only at hpos hle
  exact shrinkCandidate_ensures rows logicalBytes hpos (by omega) (by omega)

end Candidate

/-! ### Runs -/

section Runs

variable {R : Type} {memory : BatchMemory R} {tableKey : String} {raw : List (ScanBatch R)}
  {out : List (ScanBatch R)} {s : State R}

/-- The rows of the current batch that are neither accepted nor put out. -/
def State.remaining (s : State R) : List R :=
  (s.current.map fun batch => batch.rows.drop s.currentOffset).getD []

/-- What the loop keeps: no row is lost or repeated, and what waits is within the limits. -/
structure Inv (raw out : List (ScanBatch R)) (s : State R) : Prop where
  rows : streamRows out ++ (streamRows s.accumulated ++ (s.remaining ++ streamRows s.raw)) =
    streamRows raw
  source : ∀ batch ∈ s.current.toList ++ s.raw, batch ∈ raw
  offset : s.current = none → s.currentOffset = 0
  pending : ∀ candidate n, s.pending = some (candidate, n) →
    ∃ batch, s.current = some batch ∧ IsCandidate batch s.currentOffset candidate n
  accumulated : ∀ batch ∈ s.accumulated, batch.rows ≠ []
  accumulatedRows : s.accumulatedRows = (streamRows s.accumulated).length ∧
    s.accumulatedRows ≤ keyedWriteMaxRows
  accumulatedBytes : s.accumulatedBytes = (s.accumulated.map ScanBatch.arrayMemorySize).sum ∧
    s.accumulatedBytes ≤ keyedWriteMaxBytes
  outputs : ∀ batch ∈ out, Admissible batch

/-- The rounds that are left, at most. -/
def State.measure (s : State R) : ℕ :=
  (s.raw.map fun batch => 3 * batch.rows.length + 3).sum + 3 * s.remaining.length +
    s.current.toList.length + s.pending.isNone.toNat + min s.accumulated.length 1

/-- Batches that are put together take no more memory than all of them. -/
def ConcatsWithin (memory : BatchMemory R) : Prop :=
  ∀ batches, memory.concatMemorySize batches ≤ (batches.map ScanBatch.arrayMemorySize).sum

lemma streamRows_append (left right : List (ScanBatch R)) :
    streamRows (left ++ right) = streamRows left ++ streamRows right := flatMap_append

lemma concatCandidates_rows (batches : List (ScanBatch R)) :
    (concatCandidates memory batches).rows = streamRows batches := by
  unfold concatCandidates
  split
  · simp [streamRows]
  · rfl

lemma concatCandidates_bytes (hconcat : ConcatsWithin memory) (batches : List (ScanBatch R)) :
    (concatCandidates memory batches).arrayMemorySize ≤
      (batches.map ScanBatch.arrayMemorySize).sum := by
  unfold concatCandidates
  split
  · simp
  · exact hconcat _

/-- What is accumulated is put out as one batch of its rows. -/
lemma Inv.yield (h : Inv raw out s) (hconcat : ConcatsWithin memory) (hne : s.accumulated ≠ []) :
    ∃ output, yieldAccumulated memory tableKey s = .ok (.emit output s.flushed) ∧
      Inv raw (out ++ [output]) s.flushed := by
  have hrows := @concatCandidates_rows R memory s.accumulated
  have hadmissible : Admissible (concatCandidates memory s.accumulated) := by
    refine ⟨?_, ?_, (concatCandidates_bytes hconcat _).trans ?_⟩
    · obtain ⟨first, rest, heq⟩ := exists_cons_of_ne_nil hne
      rw [hrows, heq, Replay.streamRows_cons]
      have hfirst := h.accumulated first (by rw [heq]; exact mem_cons_self)
      exact append_ne_nil_of_left_ne_nil hfirst _
    · rw [hrows, ← h.accumulatedRows.1]
      exact h.accumulatedRows.2
    · rw [← h.accumulatedBytes.1]
      exact h.accumulatedBytes.2
  refine ⟨concatCandidates memory s.accumulated, ?_, ?_⟩
  · rw [yieldAccumulated, finishProvenInsertBatch, validate_of_admissible hadmissible]
    rfl
  · refine {
      rows := ?_
      source := h.source
      offset := h.offset
      pending := h.pending
      accumulated := fun batch hbatch => by cases hbatch
      accumulatedRows := ⟨rfl, Nat.zero_le _⟩
      accumulatedBytes := ⟨rfl, Nat.zero_le _⟩
      outputs := fun batch hbatch => ?_ }
    · rw [← h.rows, streamRows_append, append_assoc]
      congr 1
      simp [streamRows, hrows, State.flushed, State.remaining]
    · rcases mem_append.mp hbatch with hbatch | hbatch
      · exact h.outputs batch hbatch
      · rw [mem_singleton.mp hbatch]
        exact hadmissible

lemma measure_flushed (hne : s.accumulated ≠ []) : s.flushed.measure < s.measure := by
  have hpos : 0 < s.accumulated.length := length_pos_iff.mpr hne
  simp only [State.measure, State.flushed, State.remaining, length_nil]
  omega

variable {n : ℕ}

/-- A candidate that is accepted is taken off the rows that remain. -/
lemma Inv.accept_remaining (h : Inv raw out s) {batch : ScanBatch R}
    (hpending : s.pending = some (batch, n)) :
    batch.rows = s.remaining.take n ∧ n ≤ s.remaining.length ∧ 0 < n ∧
      (s.accept batch n).remaining = s.remaining.drop n := by
  obtain ⟨current, hcurrent, hrows, hpos, hle, -⟩ := h.pending batch n hpending
  have hremaining : s.remaining = current.rows.drop s.currentOffset := by
    rw [State.remaining, hcurrent]
    rfl
  refine ⟨by rw [hremaining, hrows], ?_, hpos, ?_⟩
  · rw [hremaining, length_drop]
    omega
  · rw [hremaining, drop_drop]
    simp only [State.accept, State.advance, hcurrent, any_some, decide_eq_true_eq]
    split_ifs with hend
    · rw [hend, drop_length]
      rfl
    · rfl

lemma accept_current (s : State R) (batch : ScanBatch R) (n : ℕ) :
    (s.accept batch n).current = s.current ∨
      ((s.accept batch n).current = none ∧ (s.accept batch n).currentOffset = 0) := by
  simp only [State.accept, State.advance]
  split_ifs
  · exact .inr ⟨rfl, rfl⟩
  · exact .inl rfl

/-- The parts of the state that do not depend on the offset. -/
lemma accept_fields (s : State R) (batch : ScanBatch R) (n : ℕ) :
    (s.accept batch n).raw = s.raw ∧ (s.accept batch n).pending = none ∧
      (s.accept batch n).accumulated = s.accumulated ++ [batch] ∧
      (s.accept batch n).accumulatedRows = s.accumulatedRows + batch.rows.length ∧
      (s.accept batch n).accumulatedBytes = s.accumulatedBytes + batch.arrayMemorySize := by
  simp only [State.accept, State.advance]
  split_ifs <;> exact ⟨rfl, rfl, rfl, rfl, rfl⟩

/-- A batch that fits, or is the first one, is within the limits with what is accumulated. -/
lemma Inv.le_of_fits (h : Inv raw out s) {batch : ScanBatch R} (hbatch : Admissible batch)
    (hfits : s.accumulated = [] ∨ s.fits batch = true) :
    s.accumulatedRows + batch.rows.length ≤ keyedWriteMaxRows ∧
      s.accumulatedBytes + batch.arrayMemorySize ≤ keyedWriteMaxBytes := by
  rcases hfits with hnil | hfits
  · have hrows := h.accumulatedRows.1
    have hbytes := h.accumulatedBytes.1
    rw [hnil] at hrows hbytes
    rw [hrows, hbytes]
    simpa [streamRows] using hbatch.2
  · simp only [State.fits, Bool.and_eq_true, Option.any_eq_true, checkedAdd_eq_some_iff,
      decide_eq_true_eq] at hfits
    obtain ⟨⟨rows, ⟨-, rfl⟩, hrows⟩, bytes, ⟨-, rfl⟩, hbytes⟩ := hfits
    exact ⟨hrows, hbytes⟩

/-- A batch that fits is added, and less is left to do. -/
lemma Inv.accept (h : Inv raw out s) {batch : ScanBatch R} (hpending : s.pending = some (batch, n))
    (hfits : s.accumulated = [] ∨ s.fits batch = true) :
    Inv raw out (s.accept batch n) ∧ (s.accept batch n).measure < s.measure := by
  obtain ⟨current, hcurrent, hcandidate⟩ := h.pending batch n hpending
  obtain ⟨hrows, hle, hpos, hremaining⟩ := h.accept_remaining hpending
  obtain ⟨hraw, hnone, hacc, haccRows, haccBytes⟩ := accept_fields s batch n
  obtain ⟨hmaxRows, hmaxBytes⟩ := h.le_of_fits hcandidate.admissible hfits
  have hlength : (s.accept batch n).current.toList.length ≤ s.current.toList.length := by
    rcases accept_current s batch n with hsame | ⟨hgone, -⟩
    · rw [hsame]
    · rw [hgone]
      exact Nat.zero_le _
  refine ⟨{
    rows := ?_
    source := fun b hb => ?_
    offset := fun hgone => ?_
    pending := fun candidate m hm => ?_
    accumulated := fun b hb => ?_
    accumulatedRows := ?_
    accumulatedBytes := ?_
    outputs := h.outputs }, ?_⟩
  · rw [← h.rows, hacc, hraw, hremaining, streamRows_append, append_assoc]
    have hsingle : streamRows [batch] = s.remaining.take n := by
      rw [← hrows]
      exact append_nil _
    rw [hsingle, ← append_assoc (s.remaining.take n), take_append_drop]
  · rw [hraw] at hb
    rcases accept_current s batch n with hsame | ⟨hgone, -⟩
    · rw [hsame] at hb
      exact h.source b hb
    · rw [hgone] at hb
      exact h.source b (mem_append_right _ hb)
  · rcases accept_current s batch n with hsame | ⟨-, hzero⟩
    · rw [hsame, hcurrent] at hgone
      cases hgone
    · exact hzero
  · rw [hnone] at hm
    cases hm
  · rw [hacc] at hb
    rcases mem_append.mp hb with hb | hb
    · exact h.accumulated b hb
    · rw [mem_singleton.mp hb]
      exact hcandidate.admissible.1
  · rw [haccRows, hacc, streamRows_append, length_append, ← h.accumulatedRows.1]
    exact ⟨by simp [streamRows], hmaxRows⟩
  · rw [haccBytes, hacc, map_append, sum_append, ← h.accumulatedBytes.1]
    exact ⟨by simp, hmaxBytes⟩
  · simp only [State.measure, hraw, hremaining, hnone, hacc, hpending, length_drop,
      length_append, length_singleton, isNone_none, isNone_some,
      Bool.toNat_true, Bool.toNat_false]
    omega

/-- What a run may end with as an error: a row that is too wide. -/
def EndsTooWide (memory : BatchMemory R) (tableKey : String) (raw out : List (ScanBatch R))
    (e : OmniError) : Prop :=
  (∀ batch ∈ out, Admissible batch) ∧ streamRows out <+: streamRows raw ∧
    ∃ batch ∈ raw, ∃ offset, TooWide memory batch offset ∧
      e = tooWideError memory tableKey batch offset

/-- A round keeps the invariant, and leaves fewer rounds. -/
abbrev KeepsInv (memory : BatchMemory R) (tableKey : String) (raw out : List (ScanBatch R))
    (s : State R) (next : Except OmniError (Next (ScanBatch R) (State R))) : Prop :=
  Keeps (Inv raw) State.measure
    (fun out => (∀ batch ∈ out, Admissible batch) ∧ streamRows out = streamRows raw)
    (EndsTooWide memory tableKey raw) out s next

lemma Inv.yieldAccumulated (h : Inv raw out s) (hconcat : ConcatsWithin memory)
    (hne : s.accumulated ≠ []) :
    KeepsInv memory tableKey raw out s (yieldAccumulated memory tableKey s) := by
  obtain ⟨output, hyield, hnext⟩ := @Inv.yield R memory tableKey raw out s h hconcat hne
  rw [hyield]
  exact ⟨hnext, measure_flushed hne⟩

lemma Inv.takePending (h : Inv raw out s) (hconcat : ConcatsWithin memory) {batch : ScanBatch R}
    (hpending : s.pending = some (batch, n)) :
    KeepsInv memory tableKey raw out s (takePending memory tableKey s batch n) := by
  unfold ProvenInsert.takePending
  by_cases hfits : s.accumulated = [] ∨ s.fits batch = true
  · obtain ⟨hinv, hlt⟩ := h.accept hpending hfits
    rw [if_pos hfits]
    dsimp only
    split_ifs with hfull
    · have hne : (s.accept batch n).accumulated ≠ [] := by
        rw [(accept_fields s batch n).2.2.1]
        exact concat_ne_nil _ _
      obtain ⟨output, hyield, hnext⟩ := @Inv.yield R memory tableKey raw out _ hinv hconcat hne
      rw [hyield]
      exact ⟨hnext, (measure_flushed hne).trans hlt⟩
    · exact ⟨hinv, hlt⟩
  · rw [if_neg hfits]
    exact h.yieldAccumulated hconcat fun hnil => hfits (.inl hnil)

/-- The next candidate is cut off the current batch, or a row of it is too wide. -/
lemma Inv.nextPending (h : Inv raw out s) {batch : ScanBatch R} (hpending : s.pending = none)
    (hcurrent : s.current = some batch) :
    KeepsInv memory tableKey raw out s (nextPending memory tableKey s batch) := by
  have hremaining : s.remaining = batch.rows.drop s.currentOffset := by
    rw [State.remaining, hcurrent]
    rfl
  have hsource : batch ∈ raw := h.source batch (by rw [hcurrent]; exact mem_cons_self)
  unfold ProvenInsert.nextPending
  by_cases hlt : s.currentOffset < batch.rows.length
  · rw [if_pos hlt]
    have hensures := @nextProvenInsertBatch_ensures R memory tableKey batch s.currentOffset hlt
    cases hnext : nextProvenInsertBatch memory tableKey batch s.currentOffset with
    | error e =>
      rw [hnext] at hensures
      refine ⟨h.outputs, ?_, batch, hsource, s.currentOffset, hensures⟩
      rw [← h.rows]
      exact prefix_append _ _
    | ok pending =>
      rw [hnext] at hensures
      refine ⟨{ h with pending := fun candidate m hm => ?_ }, ?_⟩
      · cases hm
        exact ⟨batch, hcurrent, hensures⟩
      · simp only [State.measure, State.remaining, hpending, isNone_none,
          isNone_some, Bool.toNat_true, Bool.toNat_false]
        omega
  · rw [if_neg hlt]
    have hnil : s.remaining = [] := by
      rw [hremaining, drop_of_length_le (not_lt.mp hlt)]
    refine ⟨{ h with
      rows := ?_
      source := fun b hb => h.source b (mem_append_right _ hb)
      offset := fun _ => rfl
      pending := fun candidate m hm => by rw [hpending] at hm; cases hm }, ?_⟩
    · rw [← h.rows, hnil]
      rfl
    · simp only [State.measure, hnil, hcurrent]
      simp [State.remaining]

/-- Without a current batch the next one with rows is taken, or the run is over. -/
lemma Inv.pullRaw (h : Inv raw out s) (hconcat : ConcatsWithin memory) (hpending : s.pending = none)
    (hcurrent : s.current = none) :
    KeepsInv memory tableKey raw out s (pullRaw memory tableKey s) := by
  have hnil : s.remaining = [] := by
    rw [State.remaining, hcurrent]
    rfl
  have hnone : ∀ (candidate : ScanBatch R) (m : ℕ), s.pending ≠ some (candidate, m) := by
    intro candidate m hm
    rw [hpending] at hm
    cases hm
  unfold ProvenInsert.pullRaw
  cases hraw : s.raw with
  | cons batch rest =>
    have hrows : streamRows out ++ (streamRows s.accumulated ++
        (batch.rows ++ streamRows rest)) = streamRows raw := by
      have hrows := h.rows
      rw [hnil, hraw, Replay.streamRows_cons, nil_append] at hrows
      exact hrows
    have hsource : ∀ b ∈ batch :: rest, b ∈ raw := fun b hb =>
      h.source b (mem_append_right _ (by rw [hraw]; exact hb))
    dsimp only
    split_ifs with hempty
    · refine ⟨{ h with
        rows := ?_
        source := hsource
        offset := fun hgone => by cases hgone
        pending := fun candidate m hm => absurd hm (hnone candidate m) }, ?_⟩
      · rw [← hrows]
        simp [State.remaining, h.offset hcurrent]
      · simp [State.measure, State.remaining, hraw, hcurrent, h.offset hcurrent]
        omega
    · rw [not_not] at hempty
      refine ⟨{ h with
        rows := ?_
        source := fun b hb => ?_
        pending := fun candidate m hm => absurd hm (hnone candidate m) }, ?_⟩
      · rw [← hrows, length_eq_zero_iff.mp hempty]
        simp [State.remaining, hcurrent]
      · simp only [hcurrent, toList_none, nil_append] at hb
        exact hsource b (mem_cons_of_mem _ hb)
      · simp [State.measure, State.remaining, hraw]
  | nil =>
    dsimp only
    split_ifs with hacc
    · refine ⟨h.outputs, ?_⟩
      rw [← h.rows, hacc, hnil, hraw]
      simp [streamRows]
    · exact h.yieldAccumulated hconcat hacc

lemma Inv.step (hconcat : ConcatsWithin memory) (h : Inv raw out s) :
    KeepsInv memory tableKey raw out s (step memory tableKey s) := by
  unfold ProvenInsert.step
  cases hpending : s.pending with
  | some next => exact h.takePending hconcat hpending
  | none =>
    cases hcurrent : s.current with
    | some batch => exact h.nextPending hpending hcurrent
    | none => exact h.pullRaw hconcat hpending hcurrent

lemma inv_start (raw : List (ScanBatch R)) : Inv raw [] (.start raw) where
  rows := rfl
  source := fun _ hb => hb
  offset := fun _ => rfl
  pending := fun _ _ hm => by cases hm
  accumulated := fun _ hb => by cases hb
  accumulatedRows := ⟨rfl, Nat.zero_le _⟩
  accumulatedBytes := ⟨rfl, Nat.zero_le _⟩
  outputs := fun _ hb => by cases hb

end Runs

/-- For every list of batches the loop ends: with enough fuel there is one run, whose batches are
within the limits of a keyed write. It puts out the rows in order, or ends at a row that is too wide
when copied alone, after rows that come before it. -/
theorem boundedProvenInsertStream_exact {R : Type} (memory : BatchMemory R)
    (hconcat : ConcatsWithin memory) (tableKey : String) (raw : List (ScanBatch R)) :
    ∃ run : Run (ScanBatch R) OmniError,
      (∀ fuel > (State.start raw).measure,
        boundedProvenInsertStream memory tableKey fuel raw = run) ∧
      (∀ batch ∈ run.emitted, batch.rows ≠ [] ∧ batch.rows.length ≤ keyedWriteMaxRows ∧
        batch.arrayMemorySize ≤ keyedWriteMaxBytes) ∧
      ((run.ended = some (.ok ()) ∧ streamRows run.emitted = streamRows raw) ∨
        ∃ batch ∈ raw, ∃ offset < batch.rows.length,
          keyedWriteMaxBytes < memory.copyMemorySize batch offset 1 ∧
          run.ended = some (.error (.resourceLimit s!"proven insert delta bytes for {tableKey}"
            keyedWriteMaxBytes (memory.copyMemorySize batch offset 1))) ∧
          streamRows run.emitted <+: streamRows raw) := by
  set fuel := (State.start raw).measure + 1 with hfuel
  have hrun := @drain_spec _ _ _ (step memory tableKey) (Inv raw) State.measure _ _
    (fun out s h => @Inv.step R memory tableKey raw out s hconcat h) fuel [] (.start raw)
    (inv_start raw) (by omega)
  refine ⟨drain (step memory tableKey) fuel (.start raw), fun more hmore => ?_, ?_, ?_⟩
  · refine drain_of_le (by omega) ?_
    rcases hrun with ⟨hended, -⟩ | ⟨e, hended, -⟩ <;> rw [hended] <;> exact fun h => by cases h
  · rcases hrun with ⟨-, hout, -⟩ | ⟨e, -, hout, -⟩
    · exact hout
    · exact hout
  · rcases hrun with ⟨hended, -, hrows⟩ | ⟨e, hended, -, hrows, batch, hbatch, offset, hwide, rfl⟩
    · exact .inl ⟨hended, hrows⟩
    · exact .inr ⟨batch, hbatch, offset, hwide.1, hwide.2, hended, hrows⟩

/-- Rows of twenty MiB each, which no keyed write takes two of. -/
def wideRows : BatchMemory String where
  sliceMemorySize _ _ rows := 20971520 * rows
  copyMemorySize _ _ rows := 20971520 * rows
  concatMemorySize batches := (batches.map ScanBatch.arrayMemorySize).sum

/-- A batch that is too large is cut. -/
theorem boundedProvenInsertStream_exact_three :
    ∃ run : Run (ScanBatch String) OmniError,
      boundedProvenInsertStream wideRows "node:Person" 100
        [⟨["Ada", "Bob"], 41943040⟩, ⟨[], 0⟩, ⟨["Cleo"], 20971520⟩] = run ∧
      (∀ batch ∈ run.emitted, batch.arrayMemorySize ≤ keyedWriteMaxBytes) ∧
      run.ended = some (.ok ()) ∧ streamRows run.emitted = ["Ada", "Bob", "Cleo"] := by
  obtain ⟨run, hrun, hbounded, hok | ⟨_, _, _, _, hwide, _⟩⟩ := boundedProvenInsertStream_exact
    wideRows (fun _ => le_rfl) "node:Person"
    [⟨["Ada", "Bob"], 41943040⟩, ⟨[], 0⟩, ⟨["Cleo"], 20971520⟩]
  · exact ⟨run, hrun 100 (by decide), fun batch hb => (hbounded batch hb).2.2, hok⟩
  · exact absurd hwide (by simp [wideRows, keyedWriteMaxBytes])

end Omnigraph.ProvenInsert
