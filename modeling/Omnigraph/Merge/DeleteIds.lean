import Omnigraph.Lib.Doubled
import Omnigraph.Lib.Prefixed
import Omnigraph.Lib.Word
import Omnigraph.Merge.Staging

/-!
# Pushing delete ids in place

A push computes its sizes with checked arithmetic and only then changes the chunks. Here the chunks
are a state that a push leaves behind even when it fails.
-/

namespace Omnigraph

open List Option Word

variable {id : String} {u : Unit}

namespace DeleteIdChunks

/-! ### One push -/

/-- A result or an internal error. -/
def require {α : Type} (result : Option α) (message : String) : Except OmniError α :=
  match result with
  | some a => .ok a
  | none => .error (.manifestInternal message)

def enforce (condition : Prop) [Decidable condition] (e : OmniError) : Except OmniError Unit :=
  if condition then .ok () else .error e

/-- The bytes of a literal, with its quotes. -/
def checkedLiteralBytes (id : String) : Except OmniError ℕ := do
  let idBytes ← require (fits id.utf8ByteSize) "branch merge delete id bytes exceed u64"
  let escapedQuotes ← require (fits (id.toList.count quote))
    "branch merge delete quote count exceeds u64"
  require ((checkedAdd idBytes escapedQuotes).bind (checkedAdd · 2))
    "branch merge delete literal overflow"

/-- The last chunk takes no other literal of that length. -/
def needsChunk (self : DeleteIdChunks) (literalBytes maxRows maxFilterBytes : ℕ) : Bool :=
  self.chunks.getLast?.all fun chunk => decide (chunk.ids.length ≥ maxRows) ||
    ((checkedAdd chunk.filterBytes deleteFilterSeparator.utf8ByteSize).bind
      (checkedAdd · literalBytes)).all fun bytes => decide (bytes > maxFilterBytes)

/-- What a push has computed before it changes the chunks. -/
structure PushPlan where
  literalBytes : ℕ
  startsNewChunk : Bool
  retainedBytes : ℕ

def planPush (self : DeleteIdChunks) (id : String) (maxRows maxFilterBytes maxRetainedBytes : ℕ) :
    Except OmniError PushPlan := do
  enforce (maxRows ≠ 0) (.manifestInternal "branch merge delete chunk row bound is zero")
  let literalBytes ← checkedLiteralBytes id
  let firstFilterBytes ← require (checkedAdd deleteFilterFixedBytes literalBytes)
    "branch merge delete filter overflow"
  enforce (firstFilterBytes ≤ maxFilterBytes)
    (.resourceLimit "branch-merge delete filter bytes" maxFilterBytes firstFilterBytes)
  let startsNewChunk := self.needsChunk literalBytes maxRows maxFilterBytes
  let idStorage ← require (checkedAdd id.utf8ByteSize (sizeOfString * 2))
    "branch merge delete retained bytes overflow"
  let retainedBytes ← require ((checkedAdd self.retainedBytes idStorage).bind
    (checkedAdd · (if startsNewChunk then sizeOfDeleteIdChunk * 2 else 0)))
    "branch merge delete retained bytes overflow"
  enforce (retainedBytes ≤ maxRetainedBytes)
    (.resourceLimit "branch-merge retained delete plan bytes" maxRetainedBytes retainedBytes)
  return ⟨literalBytes, startsNewChunk, retainedBytes⟩

/-- The chunks after the planned push, or where it stopped. -/
def applyPush (self : DeleteIdChunks) (id : String) (plan : PushPlan) :
    Except OmniError Unit × DeleteIdChunks :=
  let chunks := if plan.startsNewChunk then self.chunks ++ [⟨[], deleteFilterFixedBytes⟩]
    else self.chunks
  match chunks.getLast? with
  | none => (.error (.manifestInternal "branch merge delete chunk was not created"),
      ⟨chunks, self.retainedBytes⟩)
  | some chunk =>
    match if chunk.ids = [] then some chunk.filterBytes
      else checkedAdd chunk.filterBytes deleteFilterSeparator.utf8ByteSize with
    | none => (.error (.manifestInternal "branch merge delete filter overflow"),
        ⟨chunks, self.retainedBytes⟩)
    | some separated =>
      match checkedAdd separated plan.literalBytes with
      | none => (.error (.manifestInternal "branch merge delete filter overflow"),
          ⟨chunks.dropLast ++ [⟨chunk.ids, separated⟩], self.retainedBytes⟩)
      | some filterBytes => (.ok (),
          ⟨chunks.dropLast ++ [⟨chunk.ids ++ [id], filterBytes⟩], plan.retainedBytes⟩)

/-- `push_with_bounds` on chunks that are changed in place. -/
def pushInPlace (self : DeleteIdChunks) (maxRows maxFilterBytes maxRetainedBytes : ℕ)
    (id : String) : Except OmniError Unit × DeleteIdChunks :=
  match self.planPush id maxRows maxFilterBytes maxRetainedBytes with
  | .error e => (.error e, self)
  | .ok plan => self.applyPush id plan

/-- The ids whose push was accepted, and the chunks after all pushes. -/
def pushAll (maxRows maxFilterBytes maxRetainedBytes : ℕ) (self : DeleteIdChunks) :
    List String → List String × DeleteIdChunks
  | [] => ([], self)
  | id :: ids =>
    let pushed := self.pushInPlace maxRows maxFilterBytes maxRetainedBytes id
    let rest := pushAll maxRows maxFilterBytes maxRetainedBytes pushed.2 ids
    match pushed.1 with
    | .ok _ => (id :: rest.1, rest.2)
    | .error _ => rest

/-! ### What a push does -/

lemma require_eq_ok_iff {α : Type} {result : Option α} {message : String} {a : α} :
    require result message = .ok a ↔ result = some a := by
  cases result <;> simp [require]

variable {e : OmniError} {literalBytes : ℕ}

lemma enforce_eq_ok_iff {condition : Prop} [Decidable condition] :
    enforce condition e = .ok u ↔ condition := by
  unfold enforce
  split_ifs with h <;> simp [h]

lemma checkedLiteralBytes_eq_ok (h : checkedLiteralBytes id = .ok literalBytes) :
    literalBytes = escapedDeleteLiteralBytes id := by
  simp only [checkedLiteralBytes, Except.bind_eq_ok_iff, require_eq_ok_iff, fits_eq_some_iff,
    bind_eq_some_iff, checkedAdd_eq_some_iff] at h
  obtain ⟨idBytes, ⟨-, rfl⟩, quotes, ⟨-, rfl⟩, sum, ⟨-, rfl⟩, -, rfl⟩ := h
  rfl

/-- What a plan promises. -/
structure Planned (chunks : DeleteIdChunks) (id : String)
    (maxRows maxFilterBytes maxRetainedBytes : ℕ) (plan : PushPlan) : Prop where
  rows : maxRows ≠ 0
  literal : plan.literalBytes = escapedDeleteLiteralBytes id
  first : deleteFilterFixedBytes + plan.literalBytes < 2 ^ 64 ∧
    deleteFilterFixedBytes + plan.literalBytes ≤ maxFilterBytes
  starts : plan.startsNewChunk = chunks.needsChunk plan.literalBytes maxRows maxFilterBytes
  retained : plan.retainedBytes = chunks.retainedBytes + (id.utf8ByteSize + sizeOfString * 2) +
    (if plan.startsNewChunk then sizeOfDeleteIdChunk * 2 else 0)
  retained_le : plan.retainedBytes ≤ maxRetainedBytes

variable {plan : PushPlan}

lemma planned {self : DeleteIdChunks} {maxRows maxFilterBytes maxRetainedBytes : ℕ}
    (h : self.planPush id maxRows maxFilterBytes maxRetainedBytes = .ok plan) :
    self.Planned id maxRows maxFilterBytes maxRetainedBytes plan := by
  simp only [planPush, Except.bind_eq_ok_iff, require_eq_ok_iff, enforce_eq_ok_iff,
    bind_eq_some_iff, checkedAdd_eq_some_iff, Except.pure_eq_ok_iff] at h
  obtain ⟨-, hrows, literalBytes, hliteral, -, ⟨hfits, rfl⟩, -, hfirst, idStorage, ⟨-, rfl⟩,
    retainedBytes, ⟨-, ⟨-, rfl⟩, -, rfl⟩, -, hretained, rfl⟩ := h
  exact ⟨hrows, checkedLiteralBytes_eq_ok hliteral, ⟨hfits, hfirst⟩, rfl, rfl, hretained⟩

lemma needsChunk_eq_false {self : DeleteIdChunks} {maxRows maxFilterBytes : ℕ}
    (h : self.needsChunk literalBytes maxRows maxFilterBytes = false) :
    ∃ front last, self.chunks = front ++ [last] ∧ last.ids.length < maxRows ∧
      last.filterBytes + deleteFilterSeparator.utf8ByteSize + literalBytes < 2 ^ 64 ∧
        last.filterBytes + deleteFilterSeparator.utf8ByteSize + literalBytes ≤ maxFilterBytes := by
  unfold needsChunk at h
  cases hlast : self.chunks.getLast? with
  | none => simp [hlast] at h
  | some last =>
    obtain ⟨front, hfront⟩ := List.getLast?_eq_some_iff.mp hlast
    rw [hlast, all_some, Bool.or_eq_false_iff, decide_eq_false_iff_not, not_le] at h
    refine ⟨front, last, hfront, h.1, ?_⟩
    have hbytes := h.2
    cases hsum : (checkedAdd last.filterBytes deleteFilterSeparator.utf8ByteSize).bind
        (checkedAdd · literalBytes) with
    | none => simp [hsum] at hbytes
    | some bytes =>
      rw [hsum, all_some, decide_eq_false_iff_not, not_lt] at hbytes
      simp only [bind_eq_some_iff, checkedAdd_eq_some_iff] at hsum
      obtain ⟨-, ⟨-, rfl⟩, hfits, rfl⟩ := hsum
      exact ⟨hfits, hbytes⟩

/-- The last chunk with one more id, where its bytes do not overflow. -/
lemma applyPush_last {self : DeleteIdChunks} {front : List DeleteIdChunk} {last : DeleteIdChunk}
    (hchunks : (if plan.startsNewChunk then self.chunks ++ [⟨[], deleteFilterFixedBytes⟩]
      else self.chunks) = front ++ [last])
    (hliteral : plan.literalBytes = escapedDeleteLiteralBytes id)
    (hfits : (last.add id).filterBytes < 2 ^ 64) :
    self.applyPush id plan = (.ok (), ⟨front ++ [last.add id], plan.retainedBytes⟩) := by
  have hseparated : (if last.ids = [] then some last.filterBytes
      else checkedAdd last.filterBytes deleteFilterSeparator.utf8ByteSize) =
        some (if last.ids = [] then last.filterBytes
          else last.filterBytes + deleteFilterSeparator.utf8ByteSize) := by
    simp only [DeleteIdChunk.add] at hfits
    split_ifs with hnil
    · rfl
    · rw [if_neg hnil] at hfits
      exact checkedAdd_eq_some_iff.mpr ⟨by omega, rfl⟩
  have hbytes : checkedAdd (if last.ids = [] then last.filterBytes
      else last.filterBytes + deleteFilterSeparator.utf8ByteSize) plan.literalBytes =
        some (last.add id).filterBytes := by
    rw [checkedAdd_eq_some_iff, hliteral]
    exact ⟨hfits, rfl⟩
  simp only [applyPush, hchunks, List.getLast?_concat, hseparated, hbytes, dropLast_concat]
  rfl

/-- A planned push succeeds: it adds the id to a fresh chunk or to the last one. -/
lemma Planned.pushes {self : DeleteIdChunks} {maxRows maxFilterBytes maxRetainedBytes : ℕ}
    (h : self.Planned id maxRows maxFilterBytes maxRetainedBytes plan) :
    ∃ front last, (self.chunks = front ∧ last = ⟨[], deleteFilterFixedBytes⟩ ∨
        self.chunks = front ++ [last] ∧ last.ids.length < maxRows ∧
          last.filterBytes + deleteFilterSeparator.utf8ByteSize + escapedDeleteLiteralBytes id ≤
            maxFilterBytes) ∧
      (if plan.startsNewChunk then self.chunks ++ [⟨[], deleteFilterFixedBytes⟩]
        else self.chunks) = front ++ [last] ∧
      self.applyPush id plan = (.ok (), ⟨front ++ [last.add id], plan.retainedBytes⟩) := by
  have hfirst := h.first
  rw [h.literal] at hfirst
  cases hstarts : plan.startsNewChunk with
  | true =>
    have hchunks : (if plan.startsNewChunk then self.chunks ++ [⟨[], deleteFilterFixedBytes⟩]
        else self.chunks) = self.chunks ++ [⟨[], deleteFilterFixedBytes⟩] := if_pos hstarts
    rw [hstarts] at hchunks
    refine ⟨self.chunks, ⟨[], deleteFilterFixedBytes⟩, .inl ⟨rfl, rfl⟩, hchunks, ?_⟩
    exact applyPush_last (by rw [hstarts, hchunks]) h.literal hfirst.1
  | false =>
    obtain ⟨front, last, hchunks, hrows, hfits, hbytes⟩ :=
      needsChunk_eq_false (h.starts.symm.trans hstarts)
    rw [h.literal] at hfits hbytes
    refine ⟨front, last, .inr ⟨hchunks, hrows, hbytes⟩, by simpa using hchunks, ?_⟩
    refine applyPush_last (by simpa [hstarts] using hchunks) h.literal ?_
    simp only [DeleteIdChunk.add]
    split_ifs <;> omega

/-- Checked or not, the sums decide alike where the bound is one of 64 bits. -/
lemma needsChunk_eq_startsNewChunk {self : DeleteIdChunks} {maxRows : ℕ} {maxFilterBytes : ℕ}
    (hmax : maxFilterBytes < 2 ^ 64) :
    self.needsChunk literalBytes maxRows maxFilterBytes =
      self.startsNewChunk literalBytes maxRows maxFilterBytes := by
  unfold needsChunk startsNewChunk
  cases self.chunks.getLast? with
  | none => rfl
  | some last =>
    rw [all_some]
    congr 1
    by_cases hfits : last.filterBytes + deleteFilterSeparator.utf8ByteSize + literalBytes < 2 ^ 64
    · have hsum := checkedAdd_eq_some_iff.mpr ⟨hfits, rfl⟩
      have hfirst := checkedAdd_eq_some_iff.mpr (And.intro (lt_of_le_of_lt
        (Nat.le_add_right _ literalBytes) hfits) rfl)
      rw [hfirst, bind_some, hsum, all_some]
    · have hnone : ((checkedAdd last.filterBytes deleteFilterSeparator.utf8ByteSize).bind
          (checkedAdd · literalBytes)) = none := by
        rw [eq_none_iff_forall_ne_some]
        intro bytes hbytes
        simp only [bind_eq_some_iff, checkedAdd_eq_some_iff] at hbytes
        obtain ⟨-, ⟨-, rfl⟩, hlt, -⟩ := hbytes
        exact hfits hlt
      rw [hnone, all_none, eq_comm, decide_eq_true_eq]
      omega

/-- An accepted push does what the push on values does. -/
theorem pushWithBounds_of_accepted {self : DeleteIdChunks}
    {maxRows maxFilterBytes maxRetainedBytes : ℕ} (hmax : maxFilterBytes < 2 ^ 64) {id : String}
    {u : Unit} (h : (self.pushInPlace maxRows maxFilterBytes maxRetainedBytes id).1 = .ok u) :
    self.pushWithBounds id maxRows maxFilterBytes maxRetainedBytes =
      .ok (self.pushInPlace maxRows maxFilterBytes maxRetainedBytes id).2 := by
  unfold pushInPlace at h ⊢
  cases hplan : self.planPush id maxRows maxFilterBytes maxRetainedBytes with
  | error e =>
    rw [hplan] at h
    cases h
  | ok plan =>
    have hplanned := planned hplan
    obtain ⟨front, last, -, hchunks, happly⟩ := hplanned.pushes
    have hfirst := hplanned.first.2
    have hretained := hplanned.retained_le
    have hstarts := hplanned.starts.trans (needsChunk_eq_startsNewChunk hmax)
    have hbytes := hplanned.retained
    rw [hplanned.literal] at hfirst hstarts
    rw [hstarts] at hbytes hchunks
    rw [hbytes] at hretained happly
    simp only [pushWithBounds, if_neg hplanned.rows, if_neg (not_lt.mpr hfirst),
      if_neg (not_lt.mpr hretained), hchunks, List.getLast?_concat, dropLast_concat, happly]

/-- The second push extends the chunk of the first in place. -/
theorem pushWithBounds_of_accepted_second :
    (pushInPlace ⟨[], 0⟩ 2 99 999 "a").2.pushWithBounds "b" 2 99 999 =
      .ok (pushInPlace (pushInPlace ⟨[], 0⟩ 2 99 999 "a").2 2 99 999 "b").2 :=
  pushWithBounds_of_accepted (by decide)
    (by decide +kernel : (pushInPlace (pushInPlace ⟨[], 0⟩ 2 99 999 "a").2 2 99 999 "b").1 = .ok ())

/-- A rejected push leaves the chunks unchanged. -/
lemma pushInPlace_rejected {self : DeleteIdChunks} {maxRows maxFilterBytes maxRetainedBytes : ℕ}
    (h : (self.pushInPlace maxRows maxFilterBytes maxRetainedBytes id).1 = .error e) :
    (self.pushInPlace maxRows maxFilterBytes maxRetainedBytes id).2 = self := by
  unfold pushInPlace at h ⊢
  cases hplan : self.planPush id maxRows maxFilterBytes maxRetainedBytes with
  | error e => rfl
  | ok plan =>
    obtain ⟨front, last, -, -, happly⟩ := (planned hplan).pushes
    simp only [hplan, happly] at h
    cases h

end DeleteIdChunks

/-! ### What the chunks hold -/

/-- The ids that a delete filter compares with, read as a list of literals. -/
def filterIds (text : String) : Option (List String) := do
  let list ← Prefixed.strip deleteFilterPrefix text
  let ids ← Doubled.readList quote ',' ')' ' ' text.length list.toList
  return ids.map String.ofList

/-- A row with that id is deleted by the filter. -/
def FilterMatches (text id : String) : Prop := ∃ ids, filterIds text = some ids ∧ id ∈ ids

namespace DeleteIdChunk

/-- A chunk within the bounds, whose bytes are those of its filter. -/
structure Exact (maxRows maxFilterBytes : ℕ) (chunk : DeleteIdChunk) : Prop where
  ids_ne_nil : chunk.ids ≠ []
  length_le : chunk.ids.length ≤ maxRows
  bytes_le : chunk.filterBytes ≤ maxFilterBytes
  bytes_eq : chunk.filterBytes = chunk.filterText.utf8ByteSize

variable {maxRows maxFilterBytes : ℕ} {chunk : DeleteIdChunk}

lemma Exact.fresh (hrows : maxRows ≠ 0)
    (hbytes : deleteFilterFixedBytes + escapedDeleteLiteralBytes id ≤ maxFilterBytes) :
    Exact maxRows maxFilterBytes ((⟨[], deleteFilterFixedBytes⟩ : DeleteIdChunk).add id) := by
  refine ⟨by simp [add], ?_, hbytes, add_bytes_of_nil id⟩
  simpa [add] using Nat.one_le_iff_ne_zero.mpr hrows

lemma Exact.add (h : Exact maxRows maxFilterBytes chunk) (hrows : chunk.ids.length < maxRows)
    (hbytes : chunk.filterBytes + deleteFilterSeparator.utf8ByteSize +
      escapedDeleteLiteralBytes id ≤ maxFilterBytes) :
    Exact maxRows maxFilterBytes (chunk.add id) := by
  refine ⟨by simp [DeleteIdChunk.add], ?_, ?_, add_bytes_of_ne_nil h.ids_ne_nil h.bytes_eq id⟩
  · simpa [DeleteIdChunk.add] using hrows
  · simpa [DeleteIdChunk.add, h.ids_ne_nil] using hbytes

/-- The filter of a chunk is rendered unless the chunk is beyond the bounds of a keyed write. -/
lemma Exact.filter_eq (h : Exact maxRows maxFilterBytes chunk) :
    chunk.filter = .ok chunk.filterText ↔
      chunk.ids.length ≤ keyedWriteMaxRows ∧ chunk.filterBytes ≤ keyedWriteMaxBytes := by
  constructor
  · intro hfilter
    rw [filter] at hfilter
    split_ifs at hfilter with hrows hbytes
    rw [not_or, not_lt] at hrows
    exact ⟨hrows.2, not_lt.mp hbytes⟩
  · rintro ⟨hrows, hbytes⟩
    exact Armed.filter_ok ⟨h.ids_ne_nil, hrows, hbytes, h.bytes_eq⟩

lemma filter_eq_ok {text : String} (h : chunk.filter = .ok text) : text = chunk.filterText := by
  rw [filter] at h
  split_ifs at h
  cases h
  rfl

lemma toList_deleteLiteral (id : String) :
    (deleteLiteral id).toList = Doubled.literal quote id.toList := by
  simp [deleteLiteral, Doubled.literal, Doubled.escape]

/-- The filter is read back as the ids of the chunk. -/
lemma filterIds_filterText (hne : chunk.ids ≠ []) :
    filterIds chunk.filterText = some chunk.ids := by
  have hlist : (deleteFilterSeparator.intercalate (chunk.ids.map deleteLiteral)).toList =
      [',', ' '].intercalate ((chunk.ids.map String.toList).map (Doubled.literal quote)) := by
    rw [String.toList_intercalate, List.map_map, List.map_map]
    congr 1
    exact map_congr_left fun id _ => toList_deleteLiteral id
  have htext : (deleteFilterSeparator.intercalate (chunk.ids.map deleteLiteral) ++
      deleteFilterSuffix).toList = [',', ' '].intercalate
        ((chunk.ids.map String.toList).map (Doubled.literal quote)) ++ [')'] := by
    rw [String.toList_append, hlist]
    rfl
  have hlength : (chunk.ids.map String.toList).length ≤ chunk.filterText.length := by
    have hlist' := Doubled.length_le_intercalate quote ',' ' ' (chunk.ids.map String.toList)
    rw [← hlist, String.length_toList] at hlist'
    rw [filterText, String.length_append, String.length_append]
    omega
  have hread := Doubled.readList_intercalate quote ',' ')' ' ' (by decide) (by decide)
    (by simpa using hne) hlength
  have hstrip : Prefixed.strip deleteFilterPrefix chunk.filterText =
      some (deleteFilterSeparator.intercalate (chunk.ids.map deleteLiteral) ++
        deleteFilterSuffix) := by
    rw [filterText, String.append_assoc, Prefixed.strip_append]
  rw [filterIds, hstrip, bind_eq_bind, bind_some, htext, hread]
  show some ((chunk.ids.map String.toList).map String.ofList) = _
  rw [List.map_map]
  exact congrArg some (map_id'' (fun id => String.ofList_toList) _)

end DeleteIdChunk

namespace DeleteIdChunks

variable {self : DeleteIdChunks} {maxRows maxFilterBytes maxRetainedBytes : ℕ}

/-- An accepted push adds its id at the end and keeps every chunk exact. -/
lemma pushInPlace_accepted
    (h : (self.pushInPlace maxRows maxFilterBytes maxRetainedBytes id).1 = .ok u)
    (hself : ∀ chunk ∈ self.chunks, chunk.Exact maxRows maxFilterBytes) :
    (self.pushInPlace maxRows maxFilterBytes maxRetainedBytes id).2.iter = self.iter ++ [id] ∧
      ∀ chunk ∈ (self.pushInPlace maxRows maxFilterBytes maxRetainedBytes id).2.chunks,
        chunk.Exact maxRows maxFilterBytes := by
  unfold pushInPlace at h ⊢
  cases hplan : self.planPush id maxRows maxFilterBytes maxRetainedBytes with
  | error e =>
    rw [hplan] at h
    cases h
  | ok plan =>
    have hplanned := planned hplan
    obtain ⟨front, last, hlast, -, happly⟩ := hplanned.pushes
    simp only [happly]
    rcases hlast with ⟨rfl, rfl⟩ | ⟨hchunks, hrows, hbytes⟩
    · refine ⟨by simp [iter, DeleteIdChunk.add], fun chunk hchunk => ?_⟩
      rcases mem_append.mp hchunk with hchunk | hchunk
      · exact hself chunk hchunk
      · obtain rfl := mem_singleton.mp hchunk
        exact .fresh hplanned.rows (hplanned.literal ▸ hplanned.first.2)
    · refine ⟨by simp [iter, hchunks, DeleteIdChunk.add], fun chunk hchunk => ?_⟩
      rcases mem_append.mp hchunk with hchunk | hchunk
      · exact hself chunk (hchunks ▸ mem_append_left _ hchunk)
      · obtain rfl := mem_singleton.mp hchunk
        have hexact := hself last (by simp [hchunks])
        exact hexact.add hrows hbytes

lemma pushAll_exact (ids : List String) :
    ∀ {self : DeleteIdChunks}, (∀ chunk ∈ self.chunks, chunk.Exact maxRows maxFilterBytes) →
      (pushAll maxRows maxFilterBytes maxRetainedBytes self ids).2.iter =
          self.iter ++ (pushAll maxRows maxFilterBytes maxRetainedBytes self ids).1 ∧
        ∀ chunk ∈ (pushAll maxRows maxFilterBytes maxRetainedBytes self ids).2.chunks,
          chunk.Exact maxRows maxFilterBytes := by
  induction ids with
  | nil => exact fun hself => ⟨(append_nil _).symm, hself⟩
  | cons id ids ih =>
    intro self hself
    cases hpush : (self.pushInPlace maxRows maxFilterBytes maxRetainedBytes id).1 with
    | ok u =>
      obtain ⟨hiter, hexact⟩ := pushInPlace_accepted hpush hself
      obtain ⟨hrest, hchunks⟩ := ih hexact
      simp only [pushAll, hpush]
      refine ⟨?_, hchunks⟩
      rw [hrest, hiter, append_assoc, singleton_append]
    | error e =>
      have hsame := pushInPlace_rejected hpush
      simp only [pushAll, hpush, hsame]
      exact ih hself

/-- Delete chunks are exact. After any sequence of pushes with any bounds they hold the accepted ids
in order; no chunk is empty or beyond the bounds, its bytes are those of its filter, which matches
its ids and nothing else; and a rejected push changes nothing. -/
theorem pushes_exact (maxRows maxFilterBytes maxRetainedBytes : ℕ) (ids : List String) :
    ∃ accepted chunks,
      pushAll maxRows maxFilterBytes maxRetainedBytes .empty ids = (accepted, chunks) ∧
        chunks.iter = accepted ∧
        (∀ chunk ∈ chunks.chunks, chunk.Exact maxRows maxFilterBytes ∧
          (∀ text, chunk.filter = .ok text → text.utf8ByteSize = chunk.filterBytes ∧
            text.utf8ByteSize ≤ maxFilterBytes ∧
              ∀ id, FilterMatches text id ↔ id ∈ chunk.ids) ∧
            (chunk.filter = .ok chunk.filterText ↔
              chunk.ids.length ≤ keyedWriteMaxRows ∧ chunk.filterBytes ≤ keyedWriteMaxBytes)) ∧
          ∀ id e, (chunks.pushInPlace maxRows maxFilterBytes maxRetainedBytes id).1 = .error e →
            (chunks.pushInPlace maxRows maxFilterBytes maxRetainedBytes id).2 = chunks := by
  obtain ⟨hiter, hchunks⟩ := @pushAll_exact maxRows maxFilterBytes maxRetainedBytes ids .empty
    (by simp [empty])
  refine ⟨_, _, rfl, hiter.trans (nil_append _), fun chunk hchunk => ?_,
    fun id e h => pushInPlace_rejected h⟩
  have hexact := hchunks chunk hchunk
  refine ⟨hexact, fun text htext => ?_, hexact.filter_eq⟩
  obtain rfl := DeleteIdChunk.filter_eq_ok htext
  rw [← hexact.bytes_eq]
  refine ⟨rfl, hexact.bytes_le, fun id => ?_⟩
  simp [FilterMatches, DeleteIdChunk.filterIds_filterText hexact.ids_ne_nil]

end DeleteIdChunks

end Omnigraph
