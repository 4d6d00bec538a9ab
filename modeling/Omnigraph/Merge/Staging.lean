import Mathlib.Data.String.Basic
import Omnigraph.Error
import Omnigraph.Lib.MergeJoin
import Omnigraph.Lib.Result

/-!
# What a merge stages

A three-way merge stages the rows to write and the ids to delete, both cut into chunks so that each
chunk is one bounded transaction. The rows go through a writer that flushes before a chunk would
grow past its row or byte limit; the ids carry the exact byte length of the delete filter built
from them. Publishing applies the row chunks and then the delete chunks to the target table.
-/

namespace Omnigraph

open List

def keyedWriteMaxRows : ℕ := 8192

def keyedWriteMaxBytes : ℕ := 32 * 1024 * 1024

def maxBranchMergeDataTransactions : ℕ := 1024

/-- The error of a resource ceiling, as opposed to one of the merge itself. -/
def IsResourceLimit (e : OmniError) : Prop :=
  ∃ resource limit actual, e = .resourceLimit resource limit actual

/-! ### Delete chunks -/

def deleteFilterPrefix : String := "id IN ("
def deleteFilterSeparator : String := ", "
def deleteFilterSuffix : String := ")"

/-- The apostrophe, which quotes literals in a filter. -/
def quote : Char := '\x27'

structure DeleteIdChunk where
  ids : List String
  filterBytes : ℕ

structure DeleteIdChunks where
  chunks : List DeleteIdChunk
  retainedBytes : ℕ

def DeleteIdChunks.empty : DeleteIdChunks := ⟨[], 0⟩

def deleteFilterFixedBytes : ℕ := deleteFilterPrefix.utf8ByteSize + deleteFilterSuffix.utf8ByteSize

def escapedDeleteLiteralBytes (id : String) : ℕ := id.utf8ByteSize + id.toList.count quote + 2

/-- `size_of::<String>()` and `size_of::<DeleteIdChunk>()` on a 64-bit target. -/
def sizeOfString : ℕ := 24

@[inherit_doc sizeOfString]
def sizeOfDeleteIdChunk : ℕ := 32

def DeleteIdChunks.startsNewChunk (self : DeleteIdChunks) (literalBytes maxRows
    maxFilterBytes : ℕ) : Bool :=
  match self.chunks.getLast? with
  | none => true
  | some chunk => chunk.ids.length ≥ maxRows ||
    chunk.filterBytes + deleteFilterSeparator.utf8ByteSize + literalBytes > maxFilterBytes

/-- The last chunk with one more id, and the length of its filter. -/
def DeleteIdChunk.add (chunk : DeleteIdChunk) (id : String) : DeleteIdChunk where
  ids := chunk.ids ++ [id]
  filterBytes := (if chunk.ids = [] then chunk.filterBytes
    else chunk.filterBytes + deleteFilterSeparator.utf8ByteSize) + escapedDeleteLiteralBytes id

def DeleteIdChunks.pushWithBounds (self : DeleteIdChunks) (id : String) (maxRows maxFilterBytes
    maxRetainedBytes : ℕ) : Except OmniError DeleteIdChunks :=
  if maxRows = 0 then .error (.manifestInternal "branch merge delete chunk row bound is zero")
  else
    let literalBytes := escapedDeleteLiteralBytes id
    let firstFilterBytes := deleteFilterFixedBytes + literalBytes
    if firstFilterBytes > maxFilterBytes then
      .error (.resourceLimit "branch-merge delete filter bytes" maxFilterBytes firstFilterBytes)
    else
      let startsNewChunk := self.startsNewChunk literalBytes maxRows maxFilterBytes
      let retainedBytes := self.retainedBytes + (id.utf8ByteSize + sizeOfString * 2) +
        if startsNewChunk then sizeOfDeleteIdChunk * 2 else 0
      if retainedBytes > maxRetainedBytes then
        .error (.resourceLimit "branch-merge retained delete plan bytes" maxRetainedBytes
          retainedBytes)
      else
        let chunks := if startsNewChunk then self.chunks ++ [⟨[], deleteFilterFixedBytes⟩]
          else self.chunks
        match chunks.getLast? with
        | none => .error (.manifestInternal "branch merge delete chunk was not created")
        | some chunk => .ok ⟨chunks.dropLast ++ [chunk.add id], retainedBytes⟩

def DeleteIdChunks.push (self : DeleteIdChunks) (id : String) : Except OmniError DeleteIdChunks :=
  self.pushWithBounds id keyedWriteMaxRows keyedWriteMaxBytes keyedWriteMaxBytes

/-- The ids in the order they were pushed. -/
def DeleteIdChunks.iter (self : DeleteIdChunks) : List String :=
  self.chunks.flatMap DeleteIdChunk.ids

/-- A quoted literal, with every quote doubled. -/
def deleteLiteral (id : String) : String :=
  String.singleton quote ++
    String.ofList (id.toList.flatMap fun c => if c = quote then [quote, c] else [c]) ++
    String.singleton quote

def DeleteIdChunk.filterText (self : DeleteIdChunk) : String :=
  deleteFilterPrefix ++ deleteFilterSeparator.intercalate (self.ids.map deleteLiteral) ++
    deleteFilterSuffix

def DeleteIdChunk.filter (self : DeleteIdChunk) : Except OmniError String :=
  if self.ids = [] ∨ self.ids.length > keyedWriteMaxRows then
    .error (.manifestInternal s!"branch merge delete chunk contains {self.ids.length} ids")
  else if self.filterBytes > keyedWriteMaxBytes then
    .error (.manifestInternal ("branch merge delete chunk exceeds its armed byte bound: " ++
      s!"{self.filterBytes} bytes"))
  else if self.filterText.utf8ByteSize ≠ self.filterBytes then
    .error (.manifestInternal ("branch merge delete filter built " ++
      s!"{self.filterText.utf8ByteSize} bytes against a {self.filterBytes}-byte plan"))
  else .ok self.filterText

/-! ### The staged writer -/

section Writer

variable {R : Type}

/-- What the store computes of a row before it is buffered: the bytes it is predicted to take, and
the bytes of the batch that is built from it. Building a batch may read external payloads. -/
structure RowStore (R : Type) where
  predictedRowBytes : R → Except OmniError ℕ
  rowBatchBytes : R → Except OmniError ℕ

/-- An error of the store for some row. -/
def RowStore.Fails (store : RowStore R) (e : OmniError) : Prop :=
  ∃ row, store.predictedRowBytes row = .error e ∨ store.rowBatchBytes row = .error e

structure StagedTableWriter (R : Type) where
  /-- The batches already appended to the staged dataset. -/
  chunks : List (List R)
  bufferedRows : ℕ
  bufferedBytes : ℕ
  rowCount : ℕ
  batches : List R

structure StagedTable (R : Type) where
  chunks : List (List R)
  rowCount : ℕ

namespace StagedTableWriter

def new : StagedTableWriter R := ⟨[], 0, 0, 0, []⟩

def flush (self : StagedTableWriter R) : Except OmniError (StagedTableWriter R) :=
  if self.batches.isEmpty then .ok self
  else
    let chunks := self.chunks ++ [self.batches]
    if chunks.length > maxBranchMergeDataTransactions then
      .error (.resourceLimit "branch-merge recovery transaction chain"
        maxBranchMergeDataTransactions chunks.length)
    else .ok { self with chunks, bufferedRows := 0, bufferedBytes := 0, batches := [] }

def flushIf (c : Bool) (self : StagedTableWriter R) : Except OmniError (StagedTableWriter R) :=
  if c then self.flush else .ok self

/-- A row of that many bytes does not fit into the chunk being buffered. -/
def overflows (self : StagedTableWriter R) (rowBytes : ℕ) : Bool :=
  self.bufferedRows > 0 && (self.bufferedRows ≥ keyedWriteMaxRows ||
    self.bufferedBytes + rowBytes > keyedWriteMaxBytes)

def enforceRowBytes (rowBytes : ℕ) : Except OmniError Unit :=
  if rowBytes > keyedWriteMaxBytes then
    .error (.resourceLimit "branch-merge fenced row bytes" keyedWriteMaxBytes rowBytes)
  else .ok ()

def buffer (self : StagedTableWriter R) (row : R) (rowBytes : ℕ) : StagedTableWriter R :=
  { self with
    rowCount := self.rowCount + 1
    bufferedRows := self.bufferedRows + 1
    bufferedBytes := self.bufferedBytes + rowBytes
    batches := self.batches ++ [row] }

/-- The chunk being buffered has reached a limit. -/
def full (self : StagedTableWriter R) : Bool :=
  self.bufferedRows ≥ keyedWriteMaxRows || self.bufferedBytes ≥ keyedWriteMaxBytes

def pushRow (store : RowStore R) (self : StagedTableWriter R) (row : R) :
    Except OmniError (StagedTableWriter R) := do
  let predictedRowBytes ← store.predictedRowBytes row
  enforceRowBytes predictedRowBytes
  -- flushed before the payload is read, so that two valid rows never exceed the ceiling together
  let self ← self.flushIf (self.overflows predictedRowBytes)
  let rowBytes ← store.rowBatchBytes row
  enforceRowBytes rowBytes
  let self ← self.flushIf (self.overflows rowBytes)
  let self := self.buffer row rowBytes
  self.flushIf self.full

def finish (self : StagedTableWriter R) : Except OmniError (StagedTable R) := do
  let self ← self.flush
  return ⟨self.chunks, self.rowCount⟩

/-- The rows pushed so far. -/
def rows (self : StagedTableWriter R) : List R := self.chunks.flatten ++ self.batches

end StagedTableWriter

/-! ### Publishing -/

/-- A table as a partial map from ids to rows. -/
abbrev Table (R : Type) := String → Option R

structure StagedMergeResult (R : Type) where
  deltaStaged : Option (StagedTable R)
  deletedIds : DeleteIdChunks

/-- Upsert by id. -/
def upsertRow (rowId : R → String) (table : Table R) (row : R) : Table R :=
  Function.update table (rowId row) (some row)

def commitStagedKeyedChunks (rowId : R → String) (staged : StagedTable R) (current : Table R) :
    Table R :=
  staged.chunks.foldl (fun table chunk => chunk.foldl (upsertRow rowId) table) current

/-- Deletes the rows a filter matches; nothing is staged when it matches none. -/
def stageDelete (current : Table R) (ids : List String) : Option (Table R) :=
  if ids.any fun id => (current id).isSome then
    some fun id => if id ∈ ids then none else current id
  else none

def commitStagedDeleteChunk (tableKey : String) (current : Table R) (chunk : DeleteIdChunk × ℕ) :
    Except OmniError (Table R) := do
  let _filter ← chunk.1.filter
  match stageDelete current chunk.1.ids with
  | none => .error (.manifestInternal (s!"branch merge delete chunk {chunk.2 + 1} for table " ++
      s!"'{tableKey}' matched no rows"))
  | some current => .ok current

def commitStagedDeleteChunks (tableKey : String) (deletedIds : DeleteIdChunks)
    (current : Table R) : Except OmniError (Table R) :=
  deletedIds.chunks.zipIdx.foldlM (commitStagedDeleteChunk tableKey) current

/-- The staged rows are upserted, then the staged ids deleted. -/
def publishRewrittenMergeTable (rowId : R → String) (tableKey : String)
    (staged : StagedMergeResult R) (current : Table R) : Except OmniError (Table R) :=
  let current := match staged.deltaStaged with
    | some delta => commitStagedKeyedChunks rowId delta current
    | none => current
  commitStagedDeleteChunks tableKey staged.deletedIds current

/-! ### What the chunks hold -/

namespace StagedTableWriter

lemma flush_ensures (self : StagedTableWriter R) :
    Ensures self.flush (fun w => w.rows = self.rows ∧ w.rowCount = self.rowCount ∧ w.batches = [])
      IsResourceLimit := by
  unfold flush
  by_cases h : self.batches = []
  · simp [h]
  · simp only [List.isEmpty_iff, h, if_false]
    refine Ensures.ite (fun _ => ⟨_, _, _, rfl⟩) fun _ => ?_
    simp [rows]

lemma flushIf_ensures (c : Bool) (self : StagedTableWriter R) :
    Ensures (self.flushIf c) (fun w => w.rows = self.rows ∧ w.rowCount = self.rowCount)
      IsResourceLimit := by
  refine Ensures.ite (fun _ => ?_) fun _ => ⟨rfl, rfl⟩
  exact self.flush_ensures.mono (fun w hw => ⟨hw.1, hw.2.1⟩) fun _ he => he

lemma enforceRowBytes_ensures (rowBytes : ℕ) :
    Ensures (enforceRowBytes rowBytes) (fun _ => True) IsResourceLimit :=
  Ensures.ite (fun _ => ⟨_, _, _, rfl⟩) fun _ => trivial

/-- Pushing a row appends it, wherever the chunks are cut. -/
lemma pushRow_ensures (store : RowStore R) (self : StagedTableWriter R) (row : R) :
    Ensures (self.pushRow store row)
      (fun w => w.rows = self.rows ++ [row] ∧ w.rowCount = self.rowCount + 1)
      (fun e => IsResourceLimit e ∨ store.Fails e) := by
  have hstore : ∀ x : Except OmniError ℕ, (∀ e, x = .error e → store.Fails e) →
      Ensures x (fun _ => True) (fun e => IsResourceLimit e ∨ store.Fails e) := by
    intro x hx
    cases x with
    | ok _ => trivial
    | error e => exact .inr (hx e rfl)
  have hlimit : ∀ {α : Type} {x : Except OmniError α} {P : α → Prop},
      Ensures x P IsResourceLimit → Ensures x P (fun e => IsResourceLimit e ∨ store.Fails e) :=
    fun h => h.mono (fun _ hp => hp) fun _ he => .inl he
  unfold pushRow
  refine (hstore _ fun e he => ⟨row, .inl he⟩).bind fun predicted _ => ?_
  refine (hlimit (enforceRowBytes_ensures predicted)).bind fun _ _ => ?_
  refine (hlimit (flushIf_ensures _ self)).bind fun w hw => ?_
  refine (hstore _ fun e he => ⟨row, .inr he⟩).bind fun rowBytes _ => ?_
  refine (hlimit (enforceRowBytes_ensures rowBytes)).bind fun _ _ => ?_
  refine (hlimit (flushIf_ensures _ w)).bind fun w' hw' => ?_
  refine (hlimit (flushIf_ensures _ (w'.buffer row rowBytes))).mono ?_ fun _ he => he
  rintro w'' ⟨hrows, hcount⟩
  have hbuffer : (w'.buffer row rowBytes).rows = w'.rows ++ [row] := by
    simp [rows, buffer]
  rw [hrows, hcount, hbuffer, hw'.1, hw.1]
  exact ⟨rfl, by simp [buffer, hw'.2, hw.2]⟩

lemma finish_ensures (self : StagedTableWriter R) :
    Ensures self.finish (fun t => t.chunks.flatten = self.rows) IsResourceLimit := by
  refine self.flush_ensures.bind fun w hw => ?_
  have := hw.1
  rw [rows, hw.2.2, append_nil] at this
  exact this

end StagedTableWriter

end Writer

lemma utf8ByteSize_deleteLiteral (id : String) :
    (deleteLiteral id).utf8ByteSize = escapedDeleteLiteralBytes id := by
  have hquote : quote.utf8Size = 1 := by decide
  have hbody : ∀ l : List Char,
      String.utf8Len (l.flatMap fun c => if c = quote then [quote, c] else [c]) =
        String.utf8Len l + l.count quote := by
    intro l
    induction l with
    | nil => rfl
    | cons c l ih =>
      by_cases hc : c = quote
      · subst hc
        simp only [flatMap_cons, if_true, cons_append, nil_append,
          String.utf8Len_cons, ih, hquote, count_cons_self]
        omega
      · simp only [flatMap_cons, hc, if_false, cons_append, nil_append,
          String.utf8Len_cons, ih, count_cons_of_ne hc]
        omega
  have hid : String.utf8Len id.toList = id.utf8ByteSize := by
    rw [← String.utf8ByteSize_ofList, String.ofList_toList]
  simp only [deleteLiteral, String.utf8ByteSize_append, String.utf8ByteSize_singleton, hquote,
    String.utf8ByteSize_ofList, hbody, hid, escapedDeleteLiteralBytes]
  omega

/-- A chunk within the limits, with the exact byte length of its filter. -/
structure DeleteIdChunk.Armed (chunk : DeleteIdChunk) : Prop where
  ids_ne_nil : chunk.ids ≠ []
  length_le : chunk.ids.length ≤ keyedWriteMaxRows
  bytes_le : chunk.filterBytes ≤ keyedWriteMaxBytes
  bytes_eq : chunk.filterBytes = chunk.filterText.utf8ByteSize

variable {chunk : DeleteIdChunk}

lemma DeleteIdChunk.Armed.filter_ok (h : chunk.Armed) : chunk.filter = .ok chunk.filterText := by
  have hlen : ¬ (chunk.ids = [] ∨ chunk.ids.length > keyedWriteMaxRows) := by
    rintro (hnil | hgt)
    · exact h.ids_ne_nil hnil
    · exact absurd h.length_le (by omega)
  rw [DeleteIdChunk.filter, if_neg hlen, if_neg (not_lt.mpr h.bytes_le),
    if_neg (not_not.mpr h.bytes_eq.symm)]

lemma DeleteIdChunk.add_bytes_of_nil (id : String) :
    ((⟨[], deleteFilterFixedBytes⟩ : DeleteIdChunk).add id).filterBytes =
      ((⟨[], deleteFilterFixedBytes⟩ : DeleteIdChunk).add id).filterText.utf8ByteSize := by
  simp only [DeleteIdChunk.add, DeleteIdChunk.filterText, if_true, nil_append, map_cons,
    map_nil, String.intercalate_singleton, String.utf8ByteSize_append,
    utf8ByteSize_deleteLiteral, deleteFilterFixedBytes]
  omega

lemma DeleteIdChunk.add_bytes_of_ne_nil (hne : chunk.ids ≠ [])
    (h : chunk.filterBytes = chunk.filterText.utf8ByteSize) (id : String) :
    (chunk.add id).filterBytes = (chunk.add id).filterText.utf8ByteSize := by
  have hjoin := String.intercalate_append_of_ne_nil (s := deleteFilterSeparator)
    (l := chunk.ids.map deleteLiteral) (m := [deleteLiteral id]) (by simpa using hne) (by simp)
  simp only [DeleteIdChunk.filterText, String.utf8ByteSize_append] at h
  simp only [DeleteIdChunk.add, DeleteIdChunk.filterText, hne, if_false, map_append,
    map_cons, map_nil, hjoin, String.intercalate_singleton, String.utf8ByteSize_append,
    utf8ByteSize_deleteLiteral, h]
  omega

lemma DeleteIdChunks.startsNewChunk_eq_false {self : DeleteIdChunks} {literalBytes : ℕ}
    (h : self.startsNewChunk literalBytes keyedWriteMaxRows keyedWriteMaxBytes = false) :
    ∃ front chunk, self.chunks = front ++ [chunk] ∧ chunk.ids.length < keyedWriteMaxRows ∧
      chunk.filterBytes + deleteFilterSeparator.utf8ByteSize + literalBytes ≤
        keyedWriteMaxBytes := by
  unfold DeleteIdChunks.startsNewChunk at h
  cases hlast : self.chunks.getLast? with
  | none => simp [hlast] at h
  | some chunk =>
    simp only [hlast, Bool.or_eq_false_iff, decide_eq_false_iff_not, not_le, not_lt] at h
    obtain ⟨front, hfront⟩ := List.getLast?_eq_some_iff.mp hlast
    exact ⟨front, chunk, hfront, h.1, h.2⟩

/-- Pushing an id appends it, keeps every chunk armed, and fails only at a resource ceiling. -/
lemma DeleteIdChunks.push_ensures (self : DeleteIdChunks) (id : String) :
    Ensures (self.push id)
      (fun d => d.iter = self.iter ++ [id] ∧
        ((∀ chunk ∈ self.chunks, chunk.Armed) → ∀ chunk ∈ d.chunks, chunk.Armed))
      IsResourceLimit := by
  simp only [DeleteIdChunks.push, DeleteIdChunks.pushWithBounds]
  rw [if_neg (by decide)]
  refine Ensures.ite (fun _ => ⟨_, _, _, rfl⟩) fun hfirst => ?_
  refine Ensures.ite (fun _ => ⟨_, _, _, rfl⟩) fun _ => ?_
  rw [not_lt] at hfirst
  cases hnew : self.startsNewChunk (escapedDeleteLiteralBytes id) keyedWriteMaxRows
      keyedWriteMaxBytes with
  | true =>
    simp only [if_true, List.getLast?_append, List.getLast?_singleton, Option.some_or,
      dropLast_concat, Ensures.ok_iff, DeleteIdChunks.iter, flatMap_append,
      flatMap_singleton]
    refine ⟨rfl, fun hself chunk hchunk => ?_⟩
    rcases mem_append.mp hchunk with hchunk | hchunk
    · exact hself chunk hchunk
    · obtain rfl := mem_singleton.mp hchunk
      refine ⟨by simp [DeleteIdChunk.add], ?_, hfirst, DeleteIdChunk.add_bytes_of_nil id⟩
      simp [DeleteIdChunk.add, keyedWriteMaxRows]
  | false =>
    obtain ⟨front, last, hfront, hlen, hbytes⟩ := DeleteIdChunks.startsNewChunk_eq_false hnew
    simp only [Bool.false_eq_true, if_false, hfront, List.getLast?_append,
      List.getLast?_singleton, Option.some_or, dropLast_concat, Ensures.ok_iff,
      DeleteIdChunks.iter, flatMap_append, flatMap_singleton]
    refine ⟨by simp [DeleteIdChunk.add], fun hself chunk hchunk => ?_⟩
    rcases mem_append.mp hchunk with hchunk | hchunk
    · exact hself chunk (mem_append_left _ hchunk)
    · obtain rfl := mem_singleton.mp hchunk
      have hlast := hself last (by simp)
      refine ⟨by simp [DeleteIdChunk.add], ?_, ?_,
        DeleteIdChunk.add_bytes_of_ne_nil hlast.ids_ne_nil hlast.bytes_eq id⟩
      · simpa [DeleteIdChunk.add, Nat.succ_le_iff] using hlen
      · simpa [DeleteIdChunk.add, hlast.ids_ne_nil] using hbytes

/-! ### What publishing does -/

section Publish

variable {R : Type} {rowId : R → String}

/-- Upserting rows in ascending id order: each row replaces what the table held for its id. -/
lemma foldl_upsertRow {rows : List R} (hrows : MergeJoin.Ascending rowId rows) (table : Table R)
    (id : String) :
    rows.foldl (upsertRow rowId) table id = (MergeJoin.lookup rowId id rows).or (table id) := by
  induction rows generalizing table with
  | nil => rfl
  | cons row rows ih =>
    obtain ⟨hhead, htail⟩ := pairwise_cons.mp hrows
    rw [foldl_cons, ih htail]
    by_cases hid : rowId row = id
    · have hnone : MergeJoin.lookup rowId id rows = none := by
        rw [MergeJoin.lookup_eq_none_iff]
        intro r hr
        exact (hid ▸ hhead r hr).ne'
      rw [hnone]
      simp [MergeJoin.lookup, hid, upsertRow]
    · have hne : id ≠ rowId row := fun h => hid h.symm
      simp [MergeJoin.lookup, hid, upsertRow, Function.update_of_ne hne]

/-- Deleting in chunks: every chunk still matches a row, since no id is deleted twice. -/
lemma foldlM_commitStagedDeleteChunk (tableKey : String) (chunks : List (DeleteIdChunk × ℕ))
    (current : Table R) (harmed : ∀ chunk ∈ chunks, chunk.1.Armed)
    (hpresent : ∀ id ∈ chunks.flatMap (·.1.ids), (current id).isSome)
    (hnodup : (chunks.flatMap (·.1.ids)).Nodup) :
    chunks.foldlM (commitStagedDeleteChunk tableKey) current =
      .ok fun id => if id ∈ chunks.flatMap (·.1.ids) then none else current id := by
  induction chunks generalizing current with
  | nil => rfl
  | cons chunk chunks ih =>
    have hchunk := harmed chunk mem_cons_self
    rw [flatMap_cons] at hpresent hnodup
    obtain ⟨-, htail, hdisjoint⟩ := nodup_append.mp hnodup
    have hany : (chunk.1.ids.any fun id => (current id).isSome) = true := by
      obtain ⟨id, hid⟩ := exists_mem_of_ne_nil _ hchunk.ids_ne_nil
      exact List.any_eq_true.mpr ⟨id, hid, hpresent id (mem_append_left _ hid)⟩
    have hstep : commitStagedDeleteChunk tableKey current chunk =
        .ok fun id => if id ∈ chunk.1.ids then none else current id := by
      rw [commitStagedDeleteChunk, hchunk.filter_ok]
      simp only [stageDelete, hany, if_true]
      rfl
    rw [foldlM_cons, hstep]
    refine (ih _ (fun c hc => harmed c (mem_cons_of_mem _ hc)) ?_ htail).trans ?_
    · intro id hid
      have hnotin : id ∉ chunk.1.ids := fun h => hdisjoint id h id hid rfl
      rw [if_neg hnotin]
      exact hpresent id (mem_append_right _ hid)
    · congr 1
      funext id
      simp only [flatMap_cons, mem_append]
      by_cases h1 : id ∈ chunk.1.ids <;> by_cases h2 : id ∈ chunks.flatMap (·.1.ids) <;>
        simp [h1, h2]

/-- Every staged id is deleted, and nothing else. -/
lemma commitStagedDeleteChunks_eq (tableKey : String) {deletedIds : DeleteIdChunks}
    {current : Table R} (harmed : ∀ chunk ∈ deletedIds.chunks, chunk.Armed)
    (hpresent : ∀ id ∈ deletedIds.iter, (current id).isSome) (hnodup : deletedIds.iter.Nodup) :
    commitStagedDeleteChunks tableKey deletedIds current =
      .ok fun id => if id ∈ deletedIds.iter then none else current id := by
  have hids : deletedIds.chunks.zipIdx.flatMap (·.1.ids) = deletedIds.iter := by
    rw [DeleteIdChunks.iter, ← flatMap_map, zipIdx_map_fst]
  rw [commitStagedDeleteChunks, foldlM_commitStagedDeleteChunk, hids]
  · intro chunk hchunk
    exact harmed chunk.1 (fst_mem_of_mem_zipIdx hchunk)
  · rw [hids]
    exact hpresent
  · rw [hids]
    exact hnodup

def StagedMergeResult.deltaRows (staged : StagedMergeResult R) : List R :=
  match staged.deltaStaged with
  | none => []
  | some delta => delta.chunks.flatten

/-- Publishing succeeds and gives the table with the staged rows written and the staged ids gone. -/
theorem publishRewrittenMergeTable_eq (tableKey : String) {staged : StagedMergeResult R}
    {current : Table R} (hrows : MergeJoin.Ascending rowId staged.deltaRows)
    (harmed : ∀ chunk ∈ staged.deletedIds.chunks, chunk.Armed)
    (hpresent : ∀ id ∈ staged.deletedIds.iter, (current id).isSome)
    (hnodup : staged.deletedIds.iter.Nodup) :
    publishRewrittenMergeTable rowId tableKey staged current =
      .ok fun id => if id ∈ staged.deletedIds.iter then none
        else (MergeJoin.lookup rowId id staged.deltaRows).or (current id) := by
  have hwritten : (match staged.deltaStaged with
      | some delta => commitStagedKeyedChunks rowId delta current
      | none => current) = fun id =>
        (MergeJoin.lookup rowId id staged.deltaRows).or (current id) := by
    funext id
    unfold StagedMergeResult.deltaRows at hrows ⊢
    cases hdelta : staged.deltaStaged with
    | none => rfl
    | some delta =>
      rw [hdelta] at hrows
      exact (congrFun foldl_flatten.symm id).trans (foldl_upsertRow hrows current id)
  unfold publishRewrittenMergeTable
  simp only [hwritten]
  apply commitStagedDeleteChunks_eq tableKey harmed ?_ hnodup
  intro id hid
  rw [Option.isSome_or, hpresent id hid, Bool.or_true]

end Publish

end Omnigraph
