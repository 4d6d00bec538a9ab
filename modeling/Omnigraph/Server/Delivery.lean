import Omnigraph.Lib.Result
import Omnigraph.Server.Range

/-!
# Delivery of managed Blobs

The bytes of a managed Blob are streamed in chunks of bounded size. The stream is polled: each poll
yields the next range of bytes to read, until the end of the requested range is reached.
-/

namespace Omnigraph.Server

open List Word

def blobReadRangeMaxBytes : ℕ := 4 * 1024 * 1024

/-- A managed Blob: its file yields the bytes it has. -/
structure BlobReader where
  file : List UInt8
  fits : file.length < 2 ^ 64

inductive BlobReadError
  | rangeNotSatisfiable (start stop length : ℕ)
  | resourceLimit (resource : String) (limit actual : ℕ)
  /-- A chunk of another length than was asked for. -/
  | unexpectedLength (actual expected : ℕ)

variable {reader : BlobReader} {start stop : ℕ}

namespace BlobReader

def length (reader : BlobReader) : ℕ := reader.file.length

/-- The bytes of a half-open range. -/
def slice (reader : BlobReader) (start stop : ℕ) : List UInt8 :=
  (reader.file.drop start).take (stop - start)

def readRange (reader : BlobReader) (start stop : ℕ) : Except BlobReadError (List UInt8) :=
  if stop < start ∨ reader.length < stop then
    .error (.rangeNotSatisfiable start stop reader.length)
  else if blobReadRangeMaxBytes < stop - start then
    .error (.resourceLimit "Blob read range bytes" blobReadRangeMaxBytes (stop - start))
  else if stop - start = 0 then .ok []
  else .ok (reader.slice start stop)

def readChunk (reader : BlobReader) (range : ℕ × ℕ) : Except BlobReadError (List UInt8) := do
  let bytes ← reader.readRange range.1 range.2
  if bytes.length ≠ range.2 - range.1 then
    .error (.unexpectedLength bytes.length (range.2 - range.1))
  else .ok bytes

lemma length_slice {reader : BlobReader} {start stop : ℕ} (hstop : stop ≤ reader.length) :
    (reader.slice start stop).length = stop - start := by
  have hfile : reader.length = reader.file.length := rfl
  rw [slice, length_take, length_drop]
  omega

lemma slice_append {middle : ℕ} (hstart : start ≤ middle) (hmiddle : middle ≤ stop) :
    reader.slice start middle ++ reader.slice middle stop = reader.slice start stop := by
  have hsum : stop - start = middle - start + (stop - middle) := by omega
  have hdrop : middle = start + (middle - start) := by omega
  rw [slice, slice, slice, hsum, take_add, drop_drop, ← hdrop]

/-- A short range within the Blob is read. -/
lemma readChunk_eq (hstart : start < stop) (hstop : stop ≤ reader.length)
    (hsize : stop - start ≤ blobReadRangeMaxBytes) :
    reader.readRange start stop = .ok (reader.slice start stop) ∧
      reader.readChunk (start, stop) = .ok (reader.slice start stop) := by
  have hread : reader.readRange start stop = .ok (reader.slice start stop) := by
    rw [readRange, if_neg (by omega), if_neg (by omega), if_neg (by omega)]
  refine ⟨hread, ?_⟩
  rw [readChunk, hread]
  exact if_neg (not_not.mpr (length_slice hstop))

end BlobReader

/-! ### The stream -/

/-- The next item of the stream and where it goes on; none when it has ended. -/
def nextChunk (finalOffset start : ℕ) : Option ((ℕ × ℕ) × ℕ) :=
  if finalOffset ≤ start then none
  else
    let stop := min finalOffset (saturatingAdd start blobReadRangeMaxBytes)
    some ((start, stop), stop)

/-- What a number of polls of the stream yields. -/
def managedStream (finalOffset : ℕ) : ℕ → ℕ → List (ℕ × ℕ)
  | 0, _ => []
  | polls + 1, start =>
    match nextChunk finalOffset start with
    | none => []
    | some (range, next) => range :: managedStream finalOffset polls next

@[simp] lemma managedStream_self (stop polls : ℕ) : managedStream stop polls stop = [] := by
  cases polls with
  | zero => rfl
  | succ polls => simp [managedStream, nextChunk]

/-- A chunk goes from where the stream is to a later place that is not too far. -/
lemma nextChunk_of_lt {finalOffset : ℕ} (hstart : start < finalOffset)
    (hfinal : finalOffset < 2 ^ 64) :
    ∃ stop, nextChunk finalOffset start = some ((start, stop), stop) ∧ start < stop ∧
      stop ≤ finalOffset ∧ stop - start ≤ blobReadRangeMaxBytes := by
  refine ⟨_, if_neg (not_le.mpr hstart), ?_, min_le_left _ _, ?_⟩ <;>
    simp only [saturatingAdd, maxValue, blobReadRangeMaxBytes] <;> omega

/-- However often the stream is polled, its chunks are read, none is empty or too long, and once it
is polled often enough they are the bytes of the range. -/
lemma managedStream_chunks (hstop : stop ≤ reader.length) (polls : ℕ) : ∀ start, start ≤ stop →
      (∀ range ∈ managedStream stop polls start,
        ∃ bytes, reader.readRange range.1 range.2 = .ok bytes) ∧
        ∃ chunks, (managedStream stop polls start).mapM reader.readChunk = .ok chunks ∧
          (∀ chunk ∈ chunks, chunk ≠ [] ∧ chunk.length ≤ blobReadRangeMaxBytes) ∧
            (stop - start ≤ polls → chunks.flatten = reader.slice start stop) := by
  have hfinal : stop < 2 ^ 64 := lt_of_le_of_lt hstop reader.fits
  induction polls with
  | zero =>
    intro start hstart
    refine ⟨by simp [managedStream], [], rfl, by simp, fun hpolls => ?_⟩
    have hempty : stop - start = 0 := Nat.le_zero.mp hpolls
    rw [BlobReader.slice, hempty, take_zero]
    rfl
  | succ polls ih =>
    intro start hstart
    rcases Nat.lt_or_eq_of_le hstart with hlt | rfl
    · obtain ⟨next, hnext, hgrows, hle, hsize⟩ := nextChunk_of_lt hlt hfinal
      obtain ⟨haccepted, chunks, hchunks, hbounds, hflatten⟩ := ih next hle
      obtain ⟨hread, hchunk⟩ := BlobReader.readChunk_eq hgrows (le_trans hle hstop) hsize
      have hlength := @BlobReader.length_slice reader start next (le_trans hle hstop)
      have hstream : managedStream stop (polls + 1) start =
          (start, next) :: managedStream stop polls next := by
        rw [managedStream, hnext]
      rw [hstream]
      refine ⟨?_, reader.slice start next :: chunks, ?_, ?_, fun hpolls => ?_⟩
      · intro range hrange
        rcases mem_cons.mp hrange with rfl | hrange
        · exact ⟨_, hread⟩
        · exact haccepted range hrange
      · rw [mapM_cons, hchunk, hchunks]
        rfl
      · intro chunk hmem
        rcases mem_cons.mp hmem with rfl | hmem
        · refine ⟨fun hnil => ?_, by omega⟩
          rw [hnil, length_nil] at hlength
          omega
        · exact hbounds chunk hmem
      · rw [flatten_cons, hflatten (by omega), BlobReader.slice_append hgrows.le hle]
    · rw [managedStream_self]
      refine ⟨by simp, [], rfl, by simp, fun _ => ?_⟩
      rw [BlobReader.slice, Nat.sub_self, take_zero]
      rfl

/-- The stream has ended after as many polls as there are bytes. -/
lemma managedStream_ends (hfinal : stop < 2 ^ 64) (polls : ℕ) : ∀ start, start ≤ stop →
    stop - start ≤ polls → managedStream stop polls start =
      managedStream stop (stop - start) start := by
  have hstep : ∀ polls start more, start ≤ stop → stop - start ≤ polls →
      managedStream stop (polls + more) start = managedStream stop polls start := by
    intro polls
    induction polls with
    | zero =>
      intro start more hstart hpolls
      have heq : stop = start := by omega
      subst heq
      rw [managedStream_self, managedStream_self]
    | succ polls ih =>
      intro start more hstart hpolls
      rcases Nat.lt_or_eq_of_le hstart with hlt | rfl
      · obtain ⟨next, hnext, hgrows, hle, -⟩ := nextChunk_of_lt hlt hfinal
        rw [Nat.add_right_comm, managedStream, managedStream, hnext]
        simp only [List.cons.injEq, true_and]
        exact ih next more hle (by omega)
      · rw [managedStream_self, managedStream_self]
  intro start hstart hpolls
  obtain ⟨more, rfl⟩ := Nat.exists_eq_add_of_le hpolls
  exact hstep _ start more hstart le_rfl

/-! ### Responses -/

/-- The status, the headers and the streamed range of a response. -/
structure BlobResponse where
  status : ℕ
  contentLength : Option String
  contentRange : Option String
  body : Option (ℕ × ℕ)

/-- The response to a GET; none if a subtraction underflows. -/
def serveManaged (length : ℕ) : RequestedRange → Option BlobResponse
  | .unsatisfiable _ _ => some ⟨416, none, some s!"bytes */{length}", none⟩
  | .satisfiable start stop => do
    let servedLength ← checkedSub stop start
    let last ← checkedSub stop 1
    return ⟨206, some (toString servedLength), some s!"bytes {start}-{last}/{length}",
      some (start, stop)⟩
  | .ignore =>
    some ⟨200, some (toString length), none, if length = 0 then none else some (0, length)⟩

/-- The chunks of a range: they come to an end, each of them is read, they are not empty, not too
long and the bytes of the range, and the headers announce these. -/
structure Delivers (reader : BlobReader) (start stop : ℕ) : Prop where
  within : start < stop ∧ stop ≤ reader.length
  ends : ∀ polls, stop - start ≤ polls →
    managedStream stop polls start = managedStream stop (stop - start) start
  accepted : ∀ range ∈ managedStream stop (stop - start) start,
    ∃ bytes, reader.readRange range.1 range.2 = .ok bytes
  chunks : ∃ chunks, (managedStream stop (stop - start) start).mapM reader.readChunk = .ok chunks ∧
    (∀ chunk ∈ chunks, chunk ≠ [] ∧ chunk.length ≤ blobReadRangeMaxBytes) ∧
      chunks.flatten = reader.slice start stop
  announced : serveManaged reader.length (.satisfiable start stop) =
    some ⟨206, some (toString (reader.slice start stop).length),
      some s!"bytes {start}-{start + (reader.slice start stop).length - 1}/{reader.length}",
      some (start, stop)⟩

lemma delivers (hstart : start < stop) (hstop : stop ≤ reader.length) :
    Delivers reader start stop := by
  obtain ⟨haccepted, chunks, hchunks, hbounds, hflatten⟩ :=
    managedStream_chunks hstop (stop - start) start hstart.le
  have hfinal : stop < 2 ^ 64 := lt_of_le_of_lt hstop reader.fits
  refine ⟨⟨hstart, hstop⟩,
    fun polls hpolls => managedStream_ends hfinal polls start hstart.le hpolls,
    haccepted, ⟨chunks, hchunks, hbounds, hflatten le_rfl⟩, ?_⟩
  have hserved : checkedSub stop start = some (stop - start) := if_pos hstart.le
  have hlast : checkedSub stop 1 = some (stop - 1) := if_pos (by omega)
  have hend : start + (stop - start) - 1 = stop - 1 := by omega
  rw [serveManaged, hserved, hlast, BlobReader.length_slice hstop, hend]
  rfl

/-- A satisfiable answer lies within the Blob. -/
lemma ByteRange.Prescribes.within {range : ByteRange} {length : ℕ}
    (h : range.Prescribes length (.satisfiable start stop))
    (horder : ∀ first last, range = .closed first last → first ≤ last) :
    start < stop ∧ stop ≤ length := by
  cases range with
  | closed first last =>
    have hle := horder first last rfl
    rw [Prescribes] at h
    split_ifs at h with hfirst
    · cases h
      omega
    · obtain ⟨_, _, h⟩ := h
      cases h
  | tail first =>
    rw [Prescribes] at h
    split_ifs at h with hfirst
    · cases h
      omega
    · obtain ⟨_, _, h⟩ := h
      cases h
  | suffix n =>
    rw [Prescribes] at h
    split_ifs at h with hsome
    · cases h
      omega
    · obtain ⟨_, _, h⟩ := h
      cases h

/-- Range responses are exact. A header whose one range has numbers of 64 bits is answered as the
grammar prescribes, every other header is ignored, and an accepted range is delivered. -/
theorem rangeResponse_exact (reader : BlobReader) (raw : List UInt8) :
    ∃ requested, parseRangeHeader raw reader.length = some requested ∧
      (∀ range, HeaderRange raw range → range.Fits → range.Prescribes reader.length requested) ∧
        ((∀ range, HeaderRange raw range → ¬ range.Fits) → requested = .ignore) ∧
          ∀ start stop, requested = .satisfiable start stop → Delivers reader start stop := by
  obtain ⟨requested, hparse, hprescribes, hignored⟩ := parseRangeHeader_exact raw reader.fits
  refine ⟨requested, hparse, hprescribes, hignored, ?_⟩
  rintro start stop rfl
  by_cases hrange : ∃ range, HeaderRange raw range ∧ range.Fits
  · obtain ⟨range, hheader, hfits⟩ := hrange
    have hwithin := (hprescribes range hheader hfits).within hheader.ordered
    exact delivers hwithin.1 hwithin.2
  · have := hignored fun range hheader hfits => hrange ⟨range, hheader, hfits⟩
    cases this

/-- The bytes of `bytes=0-18446744073709551616`. -/
def wideHeader : List UInt8 :=
  bytesUnit ++ 61 :: ([48] ++ 45 ::
    [49, 56, 52, 52, 54, 55, 52, 52, 48, 55, 51, 55, 48, 57, 53, 53, 49, 54, 49, 54])

lemma headerRange_wideHeader : HeaderRange wideHeader (.closed 0 18446744073709551616) := by
  refine ⟨[], bytesUnit, _, [], (append_nil _).symm, by simp, by simp, by decide, ?_⟩
  exact .closed ⟨by simp, by decide +kernel, by decide +kernel⟩
    ⟨by simp, by decide +kernel, by decide +kernel⟩ (by omega)

/-- A header whose range ends at `2 ^ 64` is ignored, where its end would be cut off. -/
theorem not_prescribes_wideHeader :
    ¬ ∀ (raw : List UInt8) (length : ℕ), length < 2 ^ 64 →
      ∃ requested, parseRangeHeader raw length = some requested ∧
        ∀ range, HeaderRange raw range → range.Prescribes length requested := by
  intro h
  obtain ⟨requested, hparse, hprescribes⟩ := h wideHeader 10 (by norm_num)
  have hsome := hprescribes _ headerRange_wideHeader
  rw [ByteRange.Prescribes, if_pos (by norm_num)] at hsome
  subst hsome
  revert hparse
  decide +kernel

end Omnigraph.Server
