import Omnigraph.Merge.ThreeWay

/-!
# Adopting a source

On a fast-forward the target equals the base, and the merge copies what the source changed: two
cursors walk base and source, new rows are inserted, changed rows updated and missing ids deleted.
The three-way walk with the base as its target stages the same, but for the new rows it overlooks.
-/

namespace Omnigraph

open List OrderedTableCursor MergeJoin

/-! ### The code -/

inductive KeyedWriteSemantics
  | strictInsert
  | upsert
  | knownPresentUpdate

structure AdoptDelta (R : Type) where
  inserts : Option (StagedTable R)
  upserts : Option (StagedTable R)
  deletedIds : DeleteIdChunks

/-- The first id that stood in the list before. -/
def firstRepeat : List String → List String → Option String
  | _, [] => none
  | seen, id :: ids => if id ∈ seen then some id else firstRepeat (id :: seen) ids

section Code

variable {R : Type} (view : RowView R) (store : RowStore R) (tableKey : String)

/-- The rows of a chunk that the semantics does not admit, as an error. -/
def checkSemantics (rowId : R → String) (semantics : KeyedWriteSemantics) (current : Table R)
    (chunk : List R) : Except OmniError Unit :=
  match semantics with
  | .strictInsert =>
    match (chunk.map rowId).find? fun id => (current id).isSome with
    | some id => .error (.keyConflict tableKey id)
    | none => .ok ()
  | .upsert => .ok ()
  | .knownPresentUpdate =>
    let updated := (chunk.filter fun row => (current (rowId row)).isSome).length
    if updated ≠ chunk.length then
      .error (.manifestReadSetChanged "stage_keyed_write:known_present_ids"
        (some s!"updated={chunk.length}, inserted=0, deleted=0, skipped=0")
        (some s!"updated={updated}, inserted=0, deleted=0, skipped=0"))
    else .ok ()

def stageKeyedWrite (rowId : R → String) (semantics : KeyedWriteSemantics) (current : Table R)
    (chunk : List R) : Except OmniError (Table R) :=
  if chunk = [] then .error (.manifestInternal "stage_keyed_write called with empty batch")
  else if chunk.length > keyedWriteMaxRows then
    .error (.resourceLimit s!"keyed write rows for {tableKey}" keyedWriteMaxRows chunk.length)
  else
    match firstRepeat [] (chunk.map rowId) with
    | some id => .error (.keyConflict tableKey id)
    | none => do
      checkSemantics tableKey rowId semantics current chunk
      return chunk.foldl (upsertRow rowId) current

def commitKeyedStreamChunks (rowId : R → String) (semantics : KeyedWriteSemantics)
    (staged : Option (StagedTable R)) (current : Table R) : Except OmniError (Table R) :=
  match staged with
  | some staged => staged.chunks.foldlM (stageKeyedWrite tableKey rowId semantics) current
  | none => .ok current

/-- Strict inserts, then updates, then deletes. -/
def publishAdoptedDelta (rowId : R → String) (delta : AdoptDelta R) (current : Table R) :
    Except OmniError (Table R) := do
  let current ← commitKeyedStreamChunks tableKey rowId .strictInsert delta.inserts current
  let current ← commitKeyedStreamChunks tableKey rowId .knownPresentUpdate delta.upserts current
  commitStagedDeleteChunks tableKey delta.deletedIds current

def CursorRow.computeSignature (row : CursorRow R) : String := view.rowSignature row.row

structure AdoptProgress (R : Type) where
  appendWriter : StagedTableWriter R
  upsertWriter : StagedTableWriter R
  deletedIds : DeleteIdChunks
  needsUpdate : Bool

/-- The body of the loop for one id. -/
def adoptRow (nextId : String) (baseRow sourceRow : Option (CursorRow R)) (out : AdoptProgress R) :
    Except OmniError (AdoptProgress R) :=
  match baseRow, sourceRow with
  | some _, none => do
    let deletedIds ← out.deletedIds.push nextId
    return { out with deletedIds, needsUpdate := true }
  | none, some src => do
    let appendWriter ← out.appendWriter.pushRow store src.row
    return { out with appendWriter, needsUpdate := true }
  | some base, some src =>
    if src.computeSignature view ≠ base.computeSignature view then do
      let upsertWriter ← out.upsertWriter.pushRow store src.row
      return { out with upsertWriter, needsUpdate := true }
    else .ok out
  | none, none => .ok out

def adoptLoop : ℕ → OrderedTableCursor R → OrderedTableCursor R → AdoptProgress R →
    Except OmniError (AdoptProgress R)
  | 0, _, _, out => .ok out
  | fuel + 1, base, source, out =>
    let base := base.peekCloned view
    let source := source.peekCloned view
    match ([base.1, source.1].filterMap fun row => row.map CursorRow.id).min? with
    | none => .ok out
    | some nextId => do
      let base := takeRow view nextId base
      let source := takeRow view nextId source
      let out ← adoptRow view store nextId base.1 source.1 out
      adoptLoop fuel base.2 source.2 out

/-- The staged rows, if there are any. -/
def finishRows (writer : StagedTableWriter R) : Except OmniError (Option (StagedTable R)) :=
  if writer.rowCount > 0 then writer.finish.map some else .ok none

/-- What the source changed against the base. Signatures are computed only for ids that both
have. -/
def computeAdoptDelta (base source : Option (List (List R))) :
    Except OmniError (Option (AdoptDelta R)) := do
  let fuel := (streamedRows base).length + (streamedRows source).length + 1
  let out ← adoptLoop view store fuel (.fromDataset base false) (.fromDataset source false)
    ⟨.new, .new, .empty, false⟩
  if !out.needsUpdate then return none
  else
    let inserts ← finishRows out.appendWriter
    let upserts ← finishRows out.upsertWriter
    return some ⟨inserts, upserts, out.deletedIds⟩

end Code

/-! ### The chunks of a writer -/

section Chunks

variable {R : Type}

/-- Chunks that a keyed write admits. -/
def Sized (chunks : List (List R)) : Prop :=
  ∀ chunk ∈ chunks, chunk ≠ [] ∧ chunk.length ≤ keyedWriteMaxRows

/-- The writer cuts chunks of the right size, and so is what it buffers. -/
structure StagedTableWriter.Fits (writer : StagedTableWriter R) : Prop where
  chunks : Sized writer.chunks
  buffered : writer.batches.length = writer.bufferedRows
  le : writer.bufferedRows ≤ keyedWriteMaxRows

namespace StagedTableWriter

lemma fits_new : (new : StagedTableWriter R).Fits := ⟨by simp [Sized, new], rfl, Nat.zero_le _⟩

lemma Fits.flush {writer next : StagedTableWriter R} (h : writer.Fits)
    (hflush : writer.flush = .ok next) :
    next.Fits ∧ next.batches = [] := by
  unfold StagedTableWriter.flush at hflush
  by_cases hnil : writer.batches = []
  · rw [if_pos (List.isEmpty_iff.mpr hnil)] at hflush
    cases hflush
    exact ⟨h, hnil⟩
  · rw [if_neg (by simpa using hnil)] at hflush
    dsimp only at hflush
    split_ifs at hflush
    cases hflush
    refine ⟨⟨?_, rfl, Nat.zero_le _⟩, rfl⟩
    intro chunk hchunk
    rcases List.mem_append.mp hchunk with hchunk | hchunk
    · exact h.chunks chunk hchunk
    · rw [List.mem_singleton.mp hchunk]
      exact ⟨hnil, h.buffered ▸ h.le⟩

lemma Fits.flushIf {c : Bool} {writer next : StagedTableWriter R} (h : writer.Fits)
    (hflush : writer.flushIf c = .ok next) : next.Fits := by
  unfold StagedTableWriter.flushIf at hflush
  split_ifs at hflush
  · exact (h.flush hflush).1
  · cases hflush
    exact h

/-- There is room for one more row. -/
lemma Fits.room {rowBytes : ℕ} {writer next : StagedTableWriter R} (h : writer.Fits)
    (hflush : writer.flushIf (writer.overflows rowBytes) = .ok next) :
    next.bufferedRows < keyedWriteMaxRows := by
  unfold StagedTableWriter.flushIf at hflush
  split_ifs at hflush with hover
  · obtain ⟨hfits, hnil⟩ := h.flush hflush
    rw [← hfits.buffered, hnil]
    show 0 < keyedWriteMaxRows
    decide
  · cases hflush
    by_contra hfull
    apply hover
    have hpos : 0 < keyedWriteMaxRows := by decide
    simp only [overflows, Bool.and_eq_true, Bool.or_eq_true, decide_eq_true_eq]
    omega

lemma Fits.pushRow {store : RowStore R} {row : R} {writer next : StagedTableWriter R}
    (h : writer.Fits) (hpush : writer.pushRow store row = .ok next) : next.Fits := by
  unfold StagedTableWriter.pushRow at hpush
  simp only [Except.bind_eq_ok_iff] at hpush
  obtain ⟨predicted, -, -, -, first, hfirst, rowBytes, -, -, -, second, hsecond, hlast⟩ := hpush
  have hfits := (h.flushIf hfirst).flushIf hsecond
  have hroom := (h.flushIf hfirst).room hsecond
  have hbuffer : (second.buffer row rowBytes).Fits :=
    ⟨hfits.chunks, by simp [buffer, hfits.buffered], hroom⟩
  exact hbuffer.flushIf hlast

lemma Fits.finish {writer : StagedTableWriter R} {staged : StagedTable R} (h : writer.Fits)
    (hfinish : writer.finish = .ok staged) : Sized staged.chunks := by
  unfold StagedTableWriter.finish at hfinish
  rw [Except.bind_eq_ok_iff] at hfinish
  obtain ⟨next, hnext, hstaged⟩ := hfinish
  cases hstaged
  exact (h.flush hnext).1.chunks

end StagedTableWriter

end Chunks

/-! ### Keyed writes -/

section Keyed

variable {R : Type} {rowId : R → String} {tableKey : String}

/-- The rows are of the kind the semantics asks for. -/
def Admits (rowId : R → String) (current : Table R) (rows : List R) : KeyedWriteSemantics → Prop
  | .strictInsert => ∀ row ∈ rows, current (rowId row) = none
  | .upsert => True
  | .knownPresentUpdate => ∀ row ∈ rows, (current (rowId row)).isSome

lemma firstRepeat_eq_none {seen ids : List String} (hnodup : ids.Nodup)
    (hseen : ∀ id ∈ ids, id ∉ seen) : firstRepeat seen ids = none := by
  induction ids generalizing seen with
  | nil => rfl
  | cons id ids ih =>
    obtain ⟨hnew, hnodup⟩ := nodup_cons.mp hnodup
    rw [firstRepeat, if_neg (hseen id mem_cons_self)]
    apply ih hnodup
    intro other hother hmem
    rcases mem_cons.mp hmem with rfl | hmem
    · exact hnew hother
    · exact hseen other (mem_cons_of_mem _ hother) hmem

lemma stageKeyedWrite_eq {semantics : KeyedWriteSemantics} {current : Table R} {chunk : List R}
    (hsize : chunk ≠ [] ∧ chunk.length ≤ keyedWriteMaxRows) (hnodup : (chunk.map rowId).Nodup)
    (hadmits : Admits rowId current chunk semantics) :
    stageKeyedWrite tableKey rowId semantics current chunk =
      .ok (chunk.foldl (upsertRow rowId) current) := by
  have hcheck : checkSemantics tableKey rowId semantics current chunk = .ok () := by
    cases semantics with
    | strictInsert =>
      have hnone : (chunk.map rowId).find? (fun id => (current id).isSome) = none := by
        rw [List.find?_eq_none]
        intro id hid
        obtain ⟨row, hrow, rfl⟩ := List.mem_map.mp hid
        simp [hadmits row hrow]
      rw [checkSemantics, hnone]
    | upsert => rfl
    | knownPresentUpdate =>
      have hall : chunk.filter (fun row => (current (rowId row)).isSome) = chunk :=
        List.filter_eq_self.mpr hadmits
      simp [checkSemantics, hall]
  rw [stageKeyedWrite, if_neg hsize.1, if_neg (not_lt.mpr hsize.2),
    firstRepeat_eq_none hnodup (by simp), hcheck]
  rfl

lemma foldl_upsertRow_of_ne {rows : List R} {current : Table R} {id : String}
    (h : ∀ row ∈ rows, rowId row ≠ id) : rows.foldl (upsertRow rowId) current id = current id := by
  induction rows generalizing current with
  | nil => rfl
  | cons row rows ih =>
    rw [List.forall_mem_cons] at h
    rw [List.foldl_cons, ih h.2]
    exact Function.update_of_ne (Ne.symm h.1) _ _

/-- Writing other rows first does not matter. -/
lemma Admits.foldl_upsertRow {semantics : KeyedWriteSemantics} {current : Table R}
    {chunk rows : List R} (h : Admits rowId current rows semantics)
    (hne : ∀ row ∈ rows, ∀ other ∈ chunk, rowId other ≠ rowId row) :
    Admits rowId (chunk.foldl (upsertRow rowId) current) rows semantics := by
  cases semantics with
  | strictInsert =>
    intro row hrow
    rw [foldl_upsertRow_of_ne (hne row hrow)]
    exact h row hrow
  | upsert => trivial
  | knownPresentUpdate =>
    intro row hrow
    rw [foldl_upsertRow_of_ne (hne row hrow)]
    exact h row hrow

/-- Staging the chunks one by one upserts all their rows. -/
lemma foldlM_stageKeyedWrite {semantics : KeyedWriteSemantics} {current : Table R}
    {chunks : List (List R)} (hsized : Sized chunks) (hnodup : (chunks.flatten.map rowId).Nodup)
    (hadmits : Admits rowId current chunks.flatten semantics) :
    chunks.foldlM (stageKeyedWrite tableKey rowId semantics) current =
      .ok (chunks.flatten.foldl (upsertRow rowId) current) := by
  induction chunks generalizing current with
  | nil => rfl
  | cons chunk chunks ih =>
    rw [List.flatten_cons, List.map_append] at hnodup
    obtain ⟨hchunk, hrest, hdisjoint⟩ := List.nodup_append.mp hnodup
    have hparts : Admits rowId current chunk semantics ∧
        Admits rowId current chunks.flatten semantics := by
      cases semantics with
      | strictInsert => exact List.forall_mem_append.mp hadmits
      | upsert => exact ⟨trivial, trivial⟩
      | knownPresentUpdate => exact List.forall_mem_append.mp hadmits
    rw [List.foldlM_cons, stageKeyedWrite_eq (hsized chunk List.mem_cons_self) hchunk hparts.1]
    refine (ih (fun c hc => hsized c (List.mem_cons_of_mem _ hc)) hrest ?_).trans ?_
    · apply hparts.2.foldl_upsertRow
      intro row hrow other hother heq
      exact hdisjoint _ (List.mem_map_of_mem hother) _ (List.mem_map_of_mem hrow) heq
    · rw [List.flatten_cons, List.foldl_append]

end Keyed

/-! ### The loop is a fold over the joined streams -/

section Loop

variable {R : Type} (view : RowView R) (store : RowStore R)

def adoptVisit (out : AdoptProgress R) (visit : String × List (Option (CursorRow R))) :
    Except OmniError (AdoptProgress R) :=
  match visit.2 with
  | [baseRow, sourceRow] => adoptRow view store visit.1 baseRow sourceRow out
  | _ => .ok out

lemma adoptLoop_eq_foldlM (fuel : ℕ) (base source : OrderedTableCursor R)
    (out : AdoptProgress R) :
    adoptLoop view store fuel base source out =
      (join CursorRow.id fuel
        [base.remaining view, source.remaining view]).foldlM (adoptVisit view store) out := by
  induction fuel generalizing base source out with
  | zero => rfl
  | succ fuel ih =>
    have hnext : ([(base.peekCloned view).1, (source.peekCloned view).1].filterMap
        fun row => row.map CursorRow.id).min? = nextKey CursorRow.id
          [base.remaining view, source.remaining view] := by
      rw [(base.peekCloned_spec view).1, (source.peekCloned_spec view).1]
      simp only [nextKey, filterMap_cons, filterMap_nil]
    simp only [adoptLoop, join, hnext]
    cases nextKey CursorRow.id [base.remaining view, source.remaining view] with
    | none => rfl
    | some nextId =>
      obtain ⟨hb, hb'⟩ := takeRow_spec view nextId base
      obtain ⟨hs, hs'⟩ := takeRow_spec view nextId source
      simp only [foldlM_cons, map_cons, map_nil, adoptVisit, ih, hb, hb', hs, hs']

end Loop

/-! ### What one visit stages -/

section Visit

variable {R : Type} (view : RowView R) (store : RowStore R)

def insertOf : String × List (Option (CursorRow R)) → Option R
  | (_, [none, some src]) => some src.row
  | _ => none

def updateOf : String × List (Option (CursorRow R)) → Option R
  | (_, [some base, some src]) =>
    if src.computeSignature view ≠ base.computeSignature view then some src.row else none
  | _ => none

def goneOf : String × List (Option (CursorRow R)) → Option String
  | (id, [some _, none]) => some id
  | _ => none

/-- A writer that holds the given rows. -/
structure HoldsRows (writer : StagedTableWriter R) (rows : List R) : Prop where
  rows_eq : writer.rows = rows
  rowCount : writer.rowCount = rows.length
  fits : writer.Fits

/-- The progress after the visits `pre`. -/
structure Adopts (pre : List (String × List (Option (CursorRow R)))) (out : AdoptProgress R) :
    Prop where
  inserts : HoldsRows out.appendWriter (pre.filterMap insertOf)
  updates : HoldsRows out.upsertWriter (pre.filterMap (updateOf view))
  deleted : out.deletedIds.iter = pre.filterMap goneOf
  armed : ∀ chunk ∈ out.deletedIds.chunks, chunk.Armed
  needsUpdate : out.needsUpdate = true ↔ pre.filterMap insertOf ≠ [] ∨
    pre.filterMap (updateOf view) ≠ [] ∨ pre.filterMap goneOf ≠ []

lemma pushRow_holds {writer : StagedTableWriter R} {rows : List R} (h : HoldsRows writer rows)
    (row : R) :
    Ensures (writer.pushRow store row) (fun next => HoldsRows next (rows ++ [row]))
      (fun e => IsResourceLimit e ∨ store.Fails e) := by
  have hpush := writer.pushRow_ensures store row
  cases hnext : writer.pushRow store row with
  | error e =>
    rw [hnext] at hpush
    exact hpush
  | ok next =>
    rw [hnext] at hpush
    obtain ⟨hrows, hcount⟩ := hpush
    exact ⟨by rw [hrows, h.rows_eq],
      by rw [hcount, h.rowCount, List.length_append, List.length_singleton],
      h.fits.pushRow hnext⟩

/-- One more visit. -/
lemma Adopts.visit {pre : List (String × List (Option (CursorRow R)))} {out next : AdoptProgress R}
    (h : Adopts view pre out) {visit : String × List (Option (CursorRow R))}
    (hinserts : HoldsRows next.appendWriter (pre.filterMap insertOf ++ (insertOf visit).toList))
    (hupdates : HoldsRows next.upsertWriter
      (pre.filterMap (updateOf view) ++ (updateOf view visit).toList))
    (hdeleted : next.deletedIds.iter = out.deletedIds.iter ++ (goneOf visit).toList)
    (harmed : ∀ chunk ∈ next.deletedIds.chunks, chunk.Armed)
    (hneeds : next.needsUpdate = (out.needsUpdate || (insertOf visit).isSome ||
      (updateOf view visit).isSome || (goneOf visit).isSome)) :
    Adopts view (pre ++ [visit]) next := by
  have hconcat : ∀ {α : Type} (f : String × List (Option (CursorRow R)) → Option α),
      (pre ++ [visit]).filterMap f = pre.filterMap f ++ (f visit).toList := by
    intro α f
    rw [List.filterMap_append]
    cases hf : f visit <;> simp [hf]
  have hne : ∀ {α : Type} (l : List α) (o : Option α), l ++ o.toList ≠ [] ↔ l ≠ [] ∨ o.isSome := by
    intro α l o
    cases o <;> simp
  refine ⟨by rwa [hconcat], by rwa [hconcat], by rw [hdeleted, hconcat, h.deleted], harmed, ?_⟩
  rw [hconcat, hconcat, hconcat, hne, hne, hne, hneeds]
  simp only [Bool.or_eq_true, h.needsUpdate]
  tauto

/-- Each visited id is adopted; an error comes from a limit or the store. -/
lemma adoptVisit_ensures {pre : List (String × List (Option (CursorRow R)))}
    {out : AdoptProgress R} (h : Adopts view pre out) (id : String)
    (b s : Option (CursorRow R)) :
    Ensures (adoptVisit view store out (id, [b, s])) (Adopts view (pre ++ [(id, [b, s])]))
      (fun e => IsResourceLimit e ∨ store.Fails e) := by
  show Ensures (adoptRow view store id b s out) _ _
  have hinserts : HoldsRows out.appendWriter (pre.filterMap insertOf ++ []) := by
    rw [List.append_nil]
    exact h.inserts
  have hupdates : HoldsRows out.upsertWriter (pre.filterMap (updateOf view) ++ []) := by
    rw [List.append_nil]
    exact h.updates
  have hdeleted : out.deletedIds.iter = out.deletedIds.iter ++ [] := by rw [List.append_nil]
  cases b with
  | none =>
    cases s with
    | none =>
      exact h.visit view hinserts hupdates hdeleted h.armed (by simp [insertOf, updateOf, goneOf])
    | some src =>
      refine Ensures.bind (pushRow_holds store h.inserts src.row) fun next hnext => ?_
      exact h.visit view hnext hupdates hdeleted h.armed (by simp [insertOf])
  | some base =>
    cases s with
    | none =>
      refine Ensures.bind ((out.deletedIds.push_ensures id).mono (fun _ hp => hp)
        fun _ he => .inl he) fun next hnext => ?_
      exact h.visit view hinserts hupdates hnext.1 (hnext.2 h.armed) (by simp [goneOf])
    | some src =>
      refine Ensures.ite (fun hne => ?_) fun heq => ?_
      · have hupdate : updateOf view (id, [some base, some src]) = some src.row := if_pos hne
        refine Ensures.bind (pushRow_holds store h.updates src.row) fun next hnext => ?_
        exact h.visit view hinserts (by rwa [hupdate]) hdeleted h.armed (by simp [hupdate])
      · have hupdate : updateOf view (id, [some base, some src]) = none := if_neg heq
        exact h.visit view hinserts (by rwa [hupdate]) hdeleted h.armed
          (by simp [hupdate, insertOf, goneOf])

lemma foldlM_adoptVisit_ensures {visits : List (String × List (Option (CursorRow R)))}
    (hshape : ∀ visit ∈ visits, ∃ b s, visit.2 = [b, s]) :
    Ensures (visits.foldlM (adoptVisit view store) ⟨.new, .new, .empty, false⟩)
      (Adopts view visits) (fun e => IsResourceLimit e ∨ store.Fails e) := by
  refine Ensures.foldlM (Adopts view) ?_ ?_
  · exact ⟨⟨rfl, rfl, StagedTableWriter.fits_new⟩, ⟨rfl, rfl, StagedTableWriter.fits_new⟩, rfl,
      by simp [DeleteIdChunks.empty], by simp⟩
  · intro pre visit post acc hvisits hacc
    obtain ⟨id, rows⟩ := visit
    obtain ⟨b, s, hrows⟩ := hshape (id, rows) (by simp [hvisits])
    subst hrows
    exact adoptVisit_ensures view store hacc id b s

end Visit

/-! ### From visits to tables -/

variable {id x : String}

section Tables

variable {R : Type} (view : RowView R)

/-- The rows of a table as a lazy cursor hands them out. -/
abbrev lazyRows (rows : List R) : List (CursorRow R) :=
  rows.map (cursorRow view false)

def lazyAt (rows : List R) (id : String) : Option (CursorRow R) :=
  (tableOf view rows id).map (cursorRow view false)

def adoptVisits (base source : List R) : List (String × List (Option (CursorRow R))) :=
  join CursorRow.id (base.length + source.length + 1)
    [lazyRows view base, lazyRows view source]

variable {view} {base source : List R}

lemma lookup_lazyRows (rows : List R) (id : String) :
    MergeJoin.lookup CursorRow.id id (lazyRows view rows) = lazyAt view rows id := by
  simp only [MergeJoin.lookup, lazyRows, lazyAt, tableOf, List.find?_map]
  rfl

lemma ascending_lazyRows {rows : List R} (h : MergeJoin.Ascending view.rowIdAt rows) :
    MergeJoin.Ascending CursorRow.id (lazyRows view rows) :=
  List.pairwise_map.mpr h

/-- The ids of the two tables are visited with the rows the tables hold for them. -/
lemma mem_adoptVisits_iff (hb : MergeJoin.Ascending view.rowIdAt base)
    (hs : MergeJoin.Ascending view.rowIdAt source)
    {visit : String × List (Option (CursorRow R))} :
    visit ∈ adoptVisits view base source ↔
      ¬ (tableOf view base visit.1 = none ∧ tableOf view source visit.1 = none) ∧
      visit.2 = [lazyAt view base visit.1, lazyAt view source visit.1] := by
  obtain ⟨id, rows⟩ := visit
  have hsize : size [lazyRows view base, lazyRows view source] <
      base.length + source.length + 1 := by
    simp [size]
  have hheld : ∀ rows : List R, id ∈ (lazyRows view rows).map CursorRow.id ↔
      tableOf view rows id ≠ none := by
    intro rows
    rw [← MergeJoin.lookup_isSome_iff, lookup_lazyRows, lazyAt, Option.isSome_map,
      Option.isSome_iff_ne_none]
  rw [adoptVisits, mem_join_iff hsize (by
    simp [ascending_lazyRows hb, ascending_lazyRows hs])]
  simp only [List.mem_cons, List.not_mem_nil, or_false, exists_eq_or_imp, exists_eq_left, hheld,
    List.map_cons, List.map_nil, lookup_lazyRows, ne_eq]
  tauto

lemma mem_filterMap_adoptVisits_iff (hb : MergeJoin.Ascending view.rowIdAt base)
    (hs : MergeJoin.Ascending view.rowIdAt source) {α : Type}
    {f : String × List (Option (CursorRow R)) → Option α} {a : α}
    (hempty : ∀ id, f (id, [none, none]) ≠ some a) :
    a ∈ (adoptVisits view base source).filterMap f ↔
      ∃ id, f (id, [lazyAt view base id, lazyAt view source id]) = some a := by
  simp only [List.mem_filterMap, mem_adoptVisits_iff hb hs]
  constructor
  · rintro ⟨⟨id, rows⟩, ⟨-, hrows⟩, ha⟩
    simp only at hrows
    subst hrows
    exact ⟨id, ha⟩
  · rintro ⟨id, ha⟩
    refine ⟨(id, [lazyAt view base id, lazyAt view source id]), ⟨?_, rfl⟩, ha⟩
    rintro ⟨hnb, hns⟩
    simp only at hnb hns
    rw [lazyAt, lazyAt, hnb, hns] at ha
    exact hempty id ha

lemma insertOf_eq_some_iff (hs : MergeJoin.Ascending view.rowIdAt source) {id : String} {r : R} :
    insertOf (id, [lazyAt view base id, lazyAt view source id]) = some r ↔
      view.rowIdAt r = id ∧ tableOf view base id = none ∧ tableOf view source id = some r := by
  cases hb : tableOf view base id with
  | some b => cases hsrc : tableOf view source id <;> simp [insertOf, lazyAt, hb, hsrc]
  | none =>
    cases hsrc : tableOf view source id with
    | none => simp [insertOf, lazyAt, hb, hsrc]
    | some s =>
      have hid := ((tableOf_eq_some hs).mp hsrc).2
      simp only [insertOf, lazyAt, hb, hsrc, Option.map_none, Option.map_some, Option.some.injEq,
        cursorRow, true_and]
      constructor
      · rintro rfl
        exact ⟨hid, rfl⟩
      · rintro ⟨-, rfl⟩
        rfl

lemma updateOf_eq_some_iff (hs : MergeJoin.Ascending view.rowIdAt source) {id : String} {r : R} :
    updateOf view (id, [lazyAt view base id, lazyAt view source id]) = some r ↔
      view.rowIdAt r = id ∧ tableOf view source id = some r ∧
        ∃ b, tableOf view base id = some b ∧ view.rowSignature r ≠ view.rowSignature b := by
  cases hb : tableOf view base id with
  | none => cases hsrc : tableOf view source id <;> simp [updateOf, lazyAt, hb, hsrc]
  | some b =>
    cases hsrc : tableOf view source id with
    | none => simp [updateOf, lazyAt, hb, hsrc]
    | some s =>
      have hid := ((tableOf_eq_some hs).mp hsrc).2
      have hvalue : updateOf view (id, [lazyAt view base id, lazyAt view source id]) =
          if view.rowSignature s ≠ view.rowSignature b then some s else none := by
        rw [lazyAt, lazyAt, hb, hsrc]
        rfl
      rw [hvalue]
      by_cases hsig : view.rowSignature s ≠ view.rowSignature b
      · rw [if_pos hsig, Option.some.injEq]
        constructor
        · rintro rfl
          exact ⟨hid, rfl, b, rfl, hsig⟩
        · rintro ⟨-, heq, -⟩
          exact heq
      · rw [if_neg hsig]
        constructor
        · intro h
          cases h
        · rintro ⟨-, heq, _, hb', hne⟩
          cases heq
          cases hb'
          exact absurd hne hsig

lemma goneOf_eq_some_iff :
    goneOf (id, [lazyAt view base id, lazyAt view source id]) = some x ↔
      id = x ∧ tableOf view base id ≠ none ∧ tableOf view source id = none := by
  cases hb : tableOf view base id <;> cases hsrc : tableOf view source id <;>
    simp [goneOf, lazyAt, hb, hsrc]

section Members

variable (hb : MergeJoin.Ascending view.rowIdAt base) (hs : MergeJoin.Ascending view.rowIdAt source)

include hb hs

lemma mem_inserts_iff {r : R} : r ∈ (adoptVisits view base source).filterMap insertOf ↔
    tableOf view base (view.rowIdAt r) = none ∧ tableOf view source (view.rowIdAt r) = some r := by
  rw [mem_filterMap_adoptVisits_iff hb hs (by simp [insertOf])]
  simp only [insertOf_eq_some_iff hs]
  constructor
  · rintro ⟨id, rfl, h⟩
    exact h
  · exact fun h => ⟨_, rfl, h⟩

lemma mem_updates_iff {r : R} : r ∈ (adoptVisits view base source).filterMap (updateOf view) ↔
    tableOf view source (view.rowIdAt r) = some r ∧
      ∃ b, tableOf view base (view.rowIdAt r) = some b ∧
        view.rowSignature r ≠ view.rowSignature b := by
  rw [mem_filterMap_adoptVisits_iff hb hs (by simp [updateOf])]
  simp only [updateOf_eq_some_iff hs]
  constructor
  · rintro ⟨id, rfl, h⟩
    exact h
  · exact fun h => ⟨_, rfl, h⟩

lemma mem_gone_iff : id ∈ (adoptVisits view base source).filterMap goneOf ↔
    tableOf view base id ≠ none ∧ tableOf view source id = none := by
  rw [mem_filterMap_adoptVisits_iff hb hs (by simp [goneOf])]
  simp only [goneOf_eq_some_iff, exists_eq_left]

/-- What the visits stage is in the order of the visits. -/
lemma pairwise_filterMap_adoptVisits {α : Type}
    {f : String × List (Option (CursorRow R)) → Option α} {k : α → String}
    (hkey : ∀ id a, f (id, [lazyAt view base id, lazyAt view source id]) = some a → k a = id) :
    ((adoptVisits view base source).filterMap f).Pairwise fun a a' => k a < k a' := by
  have hvisits : (adoptVisits view base source).Pairwise fun v v' => v.1 < v'.1 := by
    apply join_ascending
    simp [ascending_lazyRows hb, ascending_lazyRows hs]
  refine List.pairwise_filterMap.mpr (hvisits.imp_of_mem ?_)
  rintro ⟨id, rows⟩ ⟨id', rows'⟩ hv hv' hlt a ha a' ha'
  have hrows := ((mem_adoptVisits_iff hb hs).mp hv).2
  have hrows' := ((mem_adoptVisits_iff hb hs).mp hv').2
  simp only at hrows hrows'
  subst hrows hrows'
  rw [hkey _ _ ha, hkey _ _ ha']
  exact hlt

lemma inserts_ascending : MergeJoin.Ascending view.rowIdAt
    ((adoptVisits view base source).filterMap insertOf) :=
  pairwise_filterMap_adoptVisits hb hs fun _ _ h => ((insertOf_eq_some_iff hs).mp h).1

lemma updates_ascending : MergeJoin.Ascending view.rowIdAt
    ((adoptVisits view base source).filterMap (updateOf view)) :=
  pairwise_filterMap_adoptVisits hb hs fun _ _ h => ((updateOf_eq_some_iff hs).mp h).1

lemma gone_nodup : ((adoptVisits view base source).filterMap goneOf).Nodup :=
  (pairwise_filterMap_adoptVisits (k := fun id => id) hb hs
    fun _ _ h => (goneOf_eq_some_iff.mp h).1.symm).imp fun h => h.ne

end Members

end Tables

/-! ### What a run stages -/

section Staged

variable {R : Type} {view : RowView R}

def stagedRows : Option (StagedTable R) → List R
  | none => []
  | some staged => staged.chunks.flatten

/-- What a run hands back, in terms of the visits. -/
structure StagesAdopt (view : RowView R) (visits : List (String × List (Option (CursorRow R))))
    (delta : Option (AdoptDelta R)) : Prop where
  none_iff : delta = none ↔ visits.filterMap insertOf = [] ∧
    visits.filterMap (updateOf view) = [] ∧ visits.filterMap goneOf = []
  inserts : ∀ d, delta = some d → stagedRows d.inserts = visits.filterMap insertOf ∧
    ∀ staged, d.inserts = some staged → Sized staged.chunks
  updates : ∀ d, delta = some d → stagedRows d.upserts = visits.filterMap (updateOf view) ∧
    ∀ staged, d.upserts = some staged → Sized staged.chunks
  deleted : ∀ d, delta = some d → d.deletedIds.iter = visits.filterMap goneOf ∧
    ∀ chunk ∈ d.deletedIds.chunks, chunk.Armed

lemma finishRows_ensures {writer : StagedTableWriter R} {rows : List R}
    (h : HoldsRows writer rows) :
    Ensures (finishRows writer) (fun staged => stagedRows staged = rows ∧
      ∀ t, staged = some t → Sized t.chunks) IsResourceLimit := by
  unfold finishRows
  refine Ensures.ite (fun _ => ?_) fun hzero => ?_
  · have hfinish := writer.finish_ensures
    cases hstaged : writer.finish with
    | error e =>
      rw [hstaged] at hfinish
      exact hfinish
    | ok staged =>
      rw [hstaged] at hfinish
      refine ⟨hfinish.trans h.rows_eq, ?_⟩
      rintro _ ⟨⟩
      exact h.fits.finish hstaged
  · rw [h.rowCount, not_lt, Nat.le_zero, List.length_eq_zero_iff] at hzero
    exact ⟨hzero.symm, by simp⟩

/-- A run fails only at a resource ceiling or in the store; otherwise it stages its visits. -/
lemma computeAdoptDelta_ensures (store : RowStore R) {base source : Option (List (List R))}
    (hb : MergeJoin.Ascending view.rowIdAt (streamedRows base))
    (hs : MergeJoin.Ascending view.rowIdAt (streamedRows source)) :
    Ensures (computeAdoptDelta view store base source)
      (StagesAdopt view (adoptVisits view (streamedRows base) (streamedRows source)))
      (fun e => IsResourceLimit e ∨ store.Fails e) := by
  set V := adoptVisits view (streamedRows base) (streamedRows source) with hV
  have hshape : ∀ visit ∈ V, ∃ b s, visit.2 = [b, s] :=
    fun visit hvisit => ⟨_, _, ((mem_adoptVisits_iff hb hs).mp hvisit).2⟩
  simp only [computeAdoptDelta, adoptLoop_eq_foldlM, remaining_fromDataset]
  refine Ensures.bind (foldlM_adoptVisit_ensures view store hshape)
    fun out (hout : Adopts view V out) => ?_
  refine Ensures.ite (fun hidle => ?_) fun hbusy => ?_
  · have hnone : ¬ (V.filterMap insertOf ≠ [] ∨ V.filterMap (updateOf view) ≠ [] ∨
        V.filterMap goneOf ≠ []) := fun h => by simp [hout.needsUpdate.mpr h] at hidle
    simp only [ne_eq, not_or, not_not] at hnone
    exact ⟨⟨fun _ => hnone, fun _ => rfl⟩, by simp, by simp, by simp⟩
  · have hsome := hout.needsUpdate.mp (by simpa using hbusy)
    refine Ensures.bind ((finishRows_ensures hout.inserts).mono (fun _ h => h) fun _ he => .inl he)
      fun inserts hinserts => ?_
    refine Ensures.bind ((finishRows_ensures hout.updates).mono (fun _ h => h) fun _ he => .inl he)
      fun upserts hupserts => ?_
    refine ⟨⟨by simp, fun hnone => ?_⟩, ?_, ?_, ?_⟩
    · rcases hsome with h | h | h
      · exact absurd hnone.1 h
      · exact absurd hnone.2.1 h
      · exact absurd hnone.2.2 h
    · rintro _ ⟨⟩
      exact hinserts
    · rintro _ ⟨⟩
      exact hupserts
    · rintro _ ⟨⟩
      exact ⟨hout.deleted, hout.armed⟩

end Staged

/-! ### When a run adopts the source -/

section Exact

variable {R : Type} (view : RowView R)

/-- The base table with an adopted delta published. -/
def publishAdopted (tableKey : String) (delta : Option (AdoptDelta R)) (base : Table R) :
    Except OmniError (Table R) :=
  match delta with
  | none => .ok base
  | some delta => publishAdoptedDelta tableKey view.rowIdAt delta base

/-- The source's row, except where it looks like the base's. -/
def adopted (base source : Table R) : Table R := fun id =>
  match base id, source id with
  | some b, some s => if view.rowSignature s ≠ view.rowSignature b then some s else some b
  | _, s => s

/-- A row of the source with the signature of the base's row for its id is that row. -/
def SignaturesTell (base source : List R) : Prop :=
  ∀ b ∈ base, ∀ s ∈ source, view.rowIdAt s = view.rowIdAt b →
    view.rowSignature s = view.rowSignature b → s = b

variable {view} {base source : List R}

lemma commitKeyedStreamChunks_eq {rowId : R → String} {tableKey : String}
    {semantics : KeyedWriteSemantics} {staged : Option (StagedTable R)} {current : Table R}
    (hsized : ∀ t, staged = some t → Sized t.chunks)
    (hrows : MergeJoin.Ascending rowId (stagedRows staged))
    (hadmits : Admits rowId current (stagedRows staged) semantics) :
    commitKeyedStreamChunks tableKey rowId semantics staged current =
      .ok fun id => (MergeJoin.lookup rowId id (stagedRows staged)).or (current id) := by
  cases staged with
  | none => rfl
  | some staged =>
    have hnodup : (staged.chunks.flatten.map rowId).Nodup :=
      List.pairwise_map.mpr (hrows.imp fun h => h.ne)
    rw [commitKeyedStreamChunks, foldlM_stageKeyedWrite (hsized staged rfl) hnodup hadmits]
    congr 1
    funext id
    exact foldl_upsertRow hrows current id

lemma lookup_inserts (hb : MergeJoin.Ascending view.rowIdAt base)
    (hs : MergeJoin.Ascending view.rowIdAt source) (id : String) :
    MergeJoin.lookup view.rowIdAt id ((adoptVisits view base source).filterMap insertOf) =
      if tableOf view base id = none then tableOf view source id else none := by
  apply Option.ext
  intro r
  rw [lookup_eq_some_iff (inserts_ascending hb hs), mem_inserts_iff hb hs]
  split_ifs with hnone
  · constructor
    · rintro ⟨⟨-, hr⟩, rfl⟩
      exact hr
    · intro hr
      obtain ⟨-, rfl⟩ := (tableOf_eq_some hs).mp hr
      exact ⟨⟨hnone, hr⟩, rfl⟩
  · constructor
    · rintro ⟨⟨hno, -⟩, rfl⟩
      exact absurd hno hnone
    · intro h
      cases h

lemma lookup_updates (hb : MergeJoin.Ascending view.rowIdAt base)
    (hs : MergeJoin.Ascending view.rowIdAt source) {id : String} {r : R} :
    MergeJoin.lookup view.rowIdAt id ((adoptVisits view base source).filterMap (updateOf view)) =
      some r ↔ tableOf view source id = some r ∧
        ∃ b, tableOf view base id = some b ∧ view.rowSignature r ≠ view.rowSignature b := by
  rw [lookup_eq_some_iff (updates_ascending hb hs), mem_updates_iff hb hs]
  constructor
  · rintro ⟨h, rfl⟩
    exact h
  · rintro ⟨hr, h⟩
    obtain ⟨-, rfl⟩ := (tableOf_eq_some hs).mp hr
    exact ⟨⟨hr, h⟩, rfl⟩

/-- The written rows and the deletions, id by id. -/
lemma adopted_eq (hb : MergeJoin.Ascending view.rowIdAt base)
    (hs : MergeJoin.Ascending view.rowIdAt source) (id : String) :
    (if id ∈ (adoptVisits view base source).filterMap goneOf then none
      else (MergeJoin.lookup view.rowIdAt id
        ((adoptVisits view base source).filterMap (updateOf view))).or
          ((MergeJoin.lookup view.rowIdAt id
            ((adoptVisits view base source).filterMap insertOf)).or (tableOf view base id))) =
      adopted view (tableOf view base) (tableOf view source) id := by
  have hupdate : ∀ r, MergeJoin.lookup view.rowIdAt id
      ((adoptVisits view base source).filterMap (updateOf view)) = some r ↔ _ :=
    fun r => lookup_updates hb hs
  simp only [mem_gone_iff hb hs, lookup_inserts hb hs]
  unfold adopted
  cases hbase : tableOf view base id with
  | none =>
    have hnone : MergeJoin.lookup view.rowIdAt id
        ((adoptVisits view base source).filterMap (updateOf view)) = none := by
      rw [Option.eq_none_iff_forall_ne_some]
      intro r hr
      obtain ⟨-, b, hb', -⟩ := (hupdate r).mp hr
      rw [hbase] at hb'
      cases hb'
    cases hsrc : tableOf view source id <;> simp [hnone]
  | some b =>
    cases hsrc : tableOf view source id with
    | none => simp
    | some s =>
      by_cases hsig : view.rowSignature s ≠ view.rowSignature b
      · rw [(hupdate s).mpr ⟨hsrc, b, hbase, hsig⟩]
        simp [hsig]
      · have hnone : MergeJoin.lookup view.rowIdAt id
            ((adoptVisits view base source).filterMap (updateOf view)) = none := by
          rw [Option.eq_none_iff_forall_ne_some]
          intro r hr
          obtain ⟨hr', b', hb', hne⟩ := (hupdate r).mp hr
          rw [hsrc] at hr'
          rw [hbase] at hb'
          cases hr'
          cases hb'
          exact hsig hne
        simp [hnone, hsig]

/-- Publishing what a run stages gives the adopted table. -/
lemma StagesAdopt.publish_eq (hb : MergeJoin.Ascending view.rowIdAt base)
    (hs : MergeJoin.Ascending view.rowIdAt source) (tableKey : String)
    {delta : Option (AdoptDelta R)}
    (h : StagesAdopt view (adoptVisits view base source) delta) :
    publishAdopted view tableKey delta (tableOf view base) =
      .ok (adopted view (tableOf view base) (tableOf view source)) := by
  cases delta with
  | none =>
    obtain ⟨hinserts, hupdates, hgone⟩ := h.none_iff.mp rfl
    rw [publishAdopted]
    congr 1
    funext id
    rw [← adopted_eq hb hs id, hinserts, hupdates, hgone]
    rfl
  | some d =>
    obtain ⟨hinserts, hisized⟩ := h.inserts d rfl
    obtain ⟨hupdates, husized⟩ := h.updates d rfl
    obtain ⟨hgone, harmed⟩ := h.deleted d rfl
    have hinsert : Admits view.rowIdAt (tableOf view base) (stagedRows d.inserts)
        .strictInsert := by
      intro row hrow
      rw [hinserts, mem_inserts_iff hb hs] at hrow
      exact hrow.1
    have hupdate : ∀ current : Table R, (∀ id, (tableOf view base id).isSome →
        (current id).isSome) →
          Admits view.rowIdAt current (stagedRows d.upserts) .knownPresentUpdate := by
      intro current hcurrent row hrow
      rw [hupdates, mem_updates_iff hb hs] at hrow
      obtain ⟨-, b, hbase, -⟩ := hrow
      exact hcurrent _ (by simp [hbase])
    rw [publishAdopted, publishAdoptedDelta,
      commitKeyedStreamChunks_eq hisized (hinserts ▸ inserts_ascending hb hs) hinsert]
    show (commitKeyedStreamChunks tableKey view.rowIdAt .knownPresentUpdate d.upserts _ >>= _) = _
    rw [commitKeyedStreamChunks_eq husized (hupdates ▸ updates_ascending hb hs)
      (hupdate _ fun id hid => by rw [Option.isSome_or, hid, Bool.or_true])]
    show commitStagedDeleteChunks tableKey d.deletedIds _ = _
    rw [commitStagedDeleteChunks_eq tableKey harmed]
    · congr 1
      funext id
      rw [← adopted_eq hb hs id, hinserts, hupdates, hgone]
    · intro id hid
      rw [hgone, mem_gone_iff hb hs] at hid
      rw [Option.isSome_or, Option.isSome_or, Option.isSome_iff_ne_none.mpr hid.1, Bool.or_true,
        Bool.or_true]
    · rw [hgone]
      exact gone_nodup hb hs

lemma adopted_eq_source_iff (hb : MergeJoin.Ascending view.rowIdAt base)
    (hs : MergeJoin.Ascending view.rowIdAt source) :
    adopted view (tableOf view base) (tableOf view source) = tableOf view source ↔
      SignaturesTell view base source := by
  constructor
  · intro h b hbmem s hsmem hid hsig
    have hbase := (tableOf_eq_some hb).mpr ⟨hbmem, rfl⟩
    have hsrc := (tableOf_eq_some hs).mpr ⟨hsmem, hid⟩
    have := congrFun h (view.rowIdAt b)
    simp only [adopted, hbase, hsrc, hsig, ne_eq, not_true_eq_false, if_false,
      Option.some.injEq] at this
    exact this.symm
  · intro h
    funext id
    unfold adopted
    cases hbase : tableOf view base id with
    | none => rfl
    | some b =>
      cases hsrc : tableOf view source id with
      | none => rfl
      | some s =>
        obtain ⟨hbmem, rfl⟩ := (tableOf_eq_some hb).mp hbase
        obtain ⟨hsmem, hid⟩ := (tableOf_eq_some hs).mp hsrc
        by_cases hsig : view.rowSignature s = view.rowSignature b
        · rw [h b hbmem s hsmem hid hsig]
          simp
        · simp [hsig]

end Exact

/-! ### The three-way walk with the base as target -/

section Coincide

variable {R : Type} {view : RowView R} {base source : List R}

lemma conflictOf_base (tableKey id : String) :
    conflictOf tableKey (visitOf view base source base id) = none := by
  simp [conflictOf]

/-- The three-way walk compares a new row with the empty text. -/
lemma deltaOf_base (id : String) :
    deltaOf (visitOf view base source base id) = (tableOf view source id).filter fun s =>
      view.rowSignature s ≠ ((tableOf view base id).map view.rowSignature).getD "" := by
  simp only [deltaOf, selectionOf, and_true, sig_cursorAt]
  cases hsrc : tableOf view source id with
  | none => cases hbase : tableOf view base id <;> simp [cursorAt, hsrc, hbase]
  | some s =>
    cases hbase : tableOf view base id with
    | none =>
      by_cases hsig : view.rowSignature s = "" <;>
        simp [cursorAt, hsrc, Option.filter_some, cursorRow, hsig]
    | some b =>
      by_cases hsig : view.rowSignature s = view.rowSignature b <;>
        simp [cursorAt, hsrc, hbase, Option.filter_some, cursorRow, hsig]

lemma deletedOf_base :
    deletedOf (visitOf view base source base id) = some x ↔
      id = x ∧ tableOf view base id ≠ none ∧ tableOf view source id = none := by
  simp only [deletedOf, selectionOf, and_true, sig_cursorAt, cursorAt_eq_none_iff, ne_eq]
  cases hsrc : tableOf view source id with
  | none => cases hbase : tableOf view base id <;> simp [cursorAt, hsrc, hbase]
  | some s =>
    cases hbase : tableOf view base id with
    | none => simp
    | some b =>
      by_cases hsig : view.rowSignature s = view.rowSignature b <;>
        simp [cursorAt, hsrc, hbase, hsig]

section Members

variable (hb : MergeJoin.Ascending view.rowIdAt base) (hs : MergeJoin.Ascending view.rowIdAt source)

include hb hs

lemma conflicts_base (tableKey : String) :
    (visits view base source base).filterMap (conflictOf tableKey) = [] := by
  rw [filterMap_eq_nil_iff]
  intro visit hvisit
  obtain ⟨id, rows⟩ := visit
  have hrows := ((mem_visits_iff hb hs hb).mp hvisit).2
  simp only at hrows
  subst hrows
  exact conflictOf_base tableKey id

lemma mem_delta_base {r : R} : r ∈ (visits view base source base).filterMap deltaOf ↔
    (r ∈ (adoptVisits view base source).filterMap insertOf ∧ view.rowSignature r ≠ "") ∨
      r ∈ (adoptVisits view base source).filterMap (updateOf view) := by
  rw [mem_filterMap_visits_iff hb hs hb, mem_inserts_iff hb hs, mem_updates_iff hb hs]
  · simp only [deltaOf_base, Option.filter_eq_some_iff, decide_eq_true_eq]
    constructor
    · rintro ⟨id, hr, hsig⟩
      obtain ⟨-, rfl⟩ := (tableOf_eq_some hs).mp hr
      cases hbase : tableOf view base (view.rowIdAt r) with
      | none => exact .inl ⟨⟨rfl, hr⟩, by simpa [hbase] using hsig⟩
      | some b => exact .inr ⟨hr, b, rfl, by simpa [hbase] using hsig⟩
    · rintro (⟨⟨hbase, hr⟩, hsig⟩ | ⟨hr, b, hbase, hsig⟩)
      · exact ⟨_, hr, by simpa [hbase] using hsig⟩
      · exact ⟨_, hr, by simpa [hbase] using hsig⟩
  · intro id _ hnone _
    rw [deltaOf_base, hnone]
    simp

lemma mem_deleted_base :
    id ∈ (visits view base source base).filterMap deletedOf ↔
      id ∈ (adoptVisits view base source).filterMap goneOf := by
  rw [mem_filterMap_visits_iff hb hs hb, mem_gone_iff hb hs]
  · simp only [deletedOf_base, exists_eq_left]
  · intro id' hnone _ _ hid
    exact (deletedOf_base.mp hid).2.1 hnone

lemma deleted_base : (visits view base source base).filterMap deletedOf =
    (adoptVisits view base source).filterMap goneOf := by
  refine @MergeJoin.Ascending.ext _ _ _ (fun id => id) _ _ ?_ ?_ fun id =>
    mem_deleted_base hb hs
  · refine pairwise_filterMap.mpr ((visits_ascending hb hs hb).imp_of_mem ?_)
    rintro ⟨id, rows⟩ ⟨id', rows'⟩ hv hv' hlt x hx x' hx'
    have hrows := ((mem_visits_iff hb hs hb).mp hv).2
    have hrows' := ((mem_visits_iff hb hs hb).mp hv').2
    simp only at hrows hrows'
    subst hrows hrows'
    rw [← (deletedOf_base.mp hx).1, ← (deletedOf_base.mp hx').1]
    exact hlt
  · exact pairwise_filterMap_adoptVisits hb hs fun _ _ h => (goneOf_eq_some_iff.mp h).1.symm

end Members

/-- Adopting as it should be: inserts, updates and deletions are disjoint, inserts are new to the
base and the others are there; publishing gives the source; nothing is staged exactly when base
and source are equal; and the three-way walk with the base as its target stages the same. -/
structure AdoptsExactly (view : RowView R) (tableKey : String) (base source : List R)
    (prior : List MergeConflict) (delta : Option (AdoptDelta R))
    (merged : Option (StagedMergeResult R) × List MergeConflict) : Prop where
  inserts_new : ∀ d, delta = some d → ∀ r ∈ stagedRows d.inserts,
    tableOf view base (view.rowIdAt r) = none
  updates_present : ∀ d, delta = some d → ∀ r ∈ stagedRows d.upserts,
    tableOf view base (view.rowIdAt r) ≠ none
  deleted_present : ∀ d, delta = some d → ∀ id ∈ d.deletedIds.iter, tableOf view base id ≠ none
  disjoint : ∀ d, delta = some d → ((stagedRows d.inserts).map view.rowIdAt ++
    (stagedRows d.upserts).map view.rowIdAt ++ d.deletedIds.iter).Nodup
  published : publishAdopted view tableKey delta (tableOf view base) = .ok (tableOf view source)
  none_iff : delta = none ↔ base = source
  conflicts : merged.2 = prior
  coincides_none : merged.1 = none ↔ delta = none
  coincides : ∀ d m, delta = some d → merged.1 = some m →
    m.deletedIds.iter = d.deletedIds.iter ∧
    ∀ r, r ∈ m.deltaRows ↔ r ∈ stagedRows d.inserts ∨ r ∈ stagedRows d.upserts

lemma StagesAdopt.nodup (hb : MergeJoin.Ascending view.rowIdAt base)
    (hs : MergeJoin.Ascending view.rowIdAt source) {delta : Option (AdoptDelta R)}
    (h : StagesAdopt view (adoptVisits view base source) delta) (d : AdoptDelta R)
    (hd : delta = some d) : ((stagedRows d.inserts).map view.rowIdAt ++
      (stagedRows d.upserts).map view.rowIdAt ++ d.deletedIds.iter).Nodup := by
  rw [(h.inserts d hd).1, (h.updates d hd).1, (h.deleted d hd).1]
  have hnodup : ∀ {rows : List R}, MergeJoin.Ascending view.rowIdAt rows →
      (rows.map view.rowIdAt).Nodup := fun hrows =>
    List.pairwise_map.mpr (List.Pairwise.imp (fun hlt => hlt.ne) hrows)
  refine List.nodup_append.mpr ⟨List.nodup_append.mpr ⟨hnodup (inserts_ascending hb hs),
    hnodup (updates_ascending hb hs), ?_⟩, gone_nodup hb hs, ?_⟩
  · rintro id hid _ hid' rfl
    obtain ⟨r, hr, rfl⟩ := List.mem_map.mp hid
    obtain ⟨q, hq, hqr⟩ := List.mem_map.mp hid'
    obtain ⟨-, b, hbase, -⟩ := (mem_updates_iff hb hs).mp hq
    rw [hqr, ((mem_inserts_iff hb hs).mp hr).1] at hbase
    cases hbase
  · rintro id hid _ hid' rfl
    obtain ⟨hpresent, hnone⟩ := (mem_gone_iff hb hs).mp hid'
    rcases List.mem_append.mp hid with hid | hid
    · obtain ⟨r, hr, rfl⟩ := List.mem_map.mp hid
      exact hpresent ((mem_inserts_iff hb hs).mp hr).1
    · obtain ⟨r, hr, rfl⟩ := List.mem_map.mp hid
      rw [((mem_updates_iff hb hs).mp hr).1] at hnone
      cases hnone

/-- Tables of ascending rows are equal when the rows are. -/
lemma eq_of_tableOf_eq (hb : MergeJoin.Ascending view.rowIdAt base)
    (hs : MergeJoin.Ascending view.rowIdAt source) (h : tableOf view base = tableOf view source) :
    base = source := by
  apply hb.ext hs
  intro r
  have hbase := @tableOf_eq_some _ _ _ hb (view.rowIdAt r) r
  have hsource := @tableOf_eq_some _ _ _ hs (view.rowIdAt r) r
  rw [h, hsource] at hbase
  simpa using hbase.symm

/-- Nothing is staged when base and source are equal. -/
lemma StagesAdopt.none_of_eq (hb : MergeJoin.Ascending view.rowIdAt base)
    {delta : Option (AdoptDelta R)} (h : StagesAdopt view (adoptVisits view base base) delta) :
    delta = none := by
  rw [h.none_iff]
  simp only [List.eq_nil_iff_forall_not_mem, mem_inserts_iff hb hb, mem_updates_iff hb hb,
    mem_gone_iff hb hb]
  refine ⟨fun r hr => ?_, fun r hr => ?_, fun id hid => hid.1 hid.2⟩
  · rw [hr.1] at hr
    cases hr.2
  · obtain ⟨hr, b, hbase, hsig⟩ := hr
    rw [hr] at hbase
    cases hbase
    exact hsig rfl

/-- A run adopts exactly when signatures tell the rows apart and no new row has the empty one. -/
lemma StagesAdopt.exact_iff (hb : MergeJoin.Ascending view.rowIdAt base)
    (hs : MergeJoin.Ascending view.rowIdAt source) {tableKey : String}
    {prior : List MergeConflict} {delta : Option (AdoptDelta R)}
    {merged : Option (StagedMergeResult R) × List MergeConflict}
    (h : StagesAdopt view (adoptVisits view base source) delta)
    (hmerged : StagesVisits tableKey prior (visits view base source base) merged) :
    AdoptsExactly view tableKey base source prior delta merged ↔
      SignaturesTell view base source ∧
        ∀ s ∈ source, tableOf view base (view.rowIdAt s) = none → view.rowSignature s ≠ "" := by
  have hpublish := h.publish_eq hb hs tableKey
  have hclean := conflicts_base hb hs tableKey
  constructor
  · intro hexact
    have htell : SignaturesTell view base source := by
      rw [← adopted_eq_source_iff hb hs]
      exact Except.ok.inj (hpublish.symm.trans hexact.published)
    refine ⟨htell, fun s hmem hnew hsig => ?_⟩
    have hinsert : s ∈ (adoptVisits view base source).filterMap insertOf :=
      (mem_inserts_iff hb hs).mpr ⟨hnew, (tableOf_eq_some hs).mpr ⟨hmem, rfl⟩⟩
    have hsome : delta ≠ none := by
      intro hnone
      rw [(h.none_iff.mp hnone).1] at hinsert
      cases hinsert
    obtain ⟨d, hd⟩ := Option.ne_none_iff_exists'.mp hsome
    obtain ⟨m, hm⟩ := Option.ne_none_iff_exists'.mp (mt hexact.coincides_none.mp hsome)
    have hdelta := ((hexact.coincides d m hd hm).2 s).mpr (.inl ((h.inserts d hd).1 ▸ hinsert))
    rw [(hmerged.staged m hm).1, mem_delta_base hb hs] at hdelta
    rcases hdelta with ⟨-, hne⟩ | hupdate
    · exact hne hsig
    · obtain ⟨-, b, hbase, -⟩ := (mem_updates_iff hb hs).mp hupdate
      rw [hnew] at hbase
      cases hbase
  · rintro ⟨htell, hnonempty⟩
    rw [(adopted_eq_source_iff hb hs).mpr htell] at hpublish
    have hdelta : ∀ r, r ∈ (visits view base source base).filterMap deltaOf ↔
        r ∈ (adoptVisits view base source).filterMap insertOf ∨
          r ∈ (adoptVisits view base source).filterMap (updateOf view) := by
      intro r
      rw [mem_delta_base hb hs]
      refine or_congr_left ⟨fun hr => hr.1, fun hr => ⟨hr, ?_⟩⟩
      obtain ⟨hnew, hsrc⟩ := (mem_inserts_iff hb hs).mp hr
      exact hnonempty r ((tableOf_eq_some hs).mp hsrc).1 hnew
    refine ⟨fun d hd r hr => ?_, fun d hd r hr => ?_, fun d hd id hid => ?_, h.nodup hb hs,
      hpublish, ⟨fun hnone => ?_, ?_⟩, ?_, ?_, fun d m hd hm => ?_⟩
    · rw [(h.inserts d hd).1, mem_inserts_iff hb hs] at hr
      exact hr.1
    · rw [(h.updates d hd).1, mem_updates_iff hb hs] at hr
      obtain ⟨-, b, hbase, -⟩ := hr
      simp [hbase]
    · rw [(h.deleted d hd).1, mem_gone_iff hb hs] at hid
      exact hid.1
    · subst hnone
      exact eq_of_tableOf_eq hb hs (Except.ok.inj hpublish)
    · rintro rfl
      exact h.none_of_eq hb
    · rw [hmerged.conflicts, hclean, List.append_nil]
    · rw [hmerged.none_iff hclean, h.none_iff, deleted_base hb hs, ← and_assoc]
      refine and_congr_left fun _ => ?_
      simp only [List.eq_nil_iff_forall_not_mem, hdelta, not_or, forall_and]
    · rw [(hmerged.staged m hm).1, (hmerged.staged m hm).2.1, (h.inserts d hd).1,
        (h.updates d hd).1, (h.deleted d hd).1]
      exact ⟨deleted_base hb hs, hdelta⟩

end Coincide

/-- For every base and source streamed in ascending id order: two runs that do not stop at a
resource ceiling or in the store adopt the source, and agree, if and only if a source row with the
signature of the base's row is that row, and no new source row has the empty signature. -/
theorem computeAdoptDelta_exact_iff {R : Type} (view : RowView R) (store : RowStore R)
    (tableKey : String) (base source : Option (List (List R))) (prior : List MergeConflict)
    (hb : MergeJoin.Ascending view.rowIdAt (streamedRows base))
    (hs : MergeJoin.Ascending view.rowIdAt (streamedRows source)) :
    Ensures (computeAdoptDelta view store base source)
      (fun delta =>
        Ensures (stageStreamingTableMerge view store tableKey base source base prior)
          (fun merged =>
            AdoptsExactly view tableKey (streamedRows base) (streamedRows source) prior delta
                merged ↔
              SignaturesTell view (streamedRows base) (streamedRows source) ∧
              ∀ s ∈ streamedRows source,
                tableOf view (streamedRows base) (view.rowIdAt s) = none →
                  view.rowSignature s ≠ "")
          (fun e => IsResourceLimit e ∨ store.Fails e))
      (fun e => IsResourceLimit e ∨ store.Fails e) := by
  refine (computeAdoptDelta_ensures store hb hs).mono (fun delta hdelta => ?_) fun _ he => he
  refine (stageStreamingTableMerge_ensures store tableKey prior hb hs hb).mono
    (fun merged hmerged => ?_) fun _ he => he
  exact hdelta.exact_iff hb hs hmerged

/-- The rows of the person `p1`, by nickname. -/
def nicknameView : RowView (Option String) where
  rowIdAt _ := "p1"
  rowSignature nickname := rowSignature (nicknameRow nickname)

def nicknameStore : RowStore (Option String) where
  predictedRowBytes _ := .ok 64
  rowBatchBytes _ := .ok 64

/-- The source set the nickname of `p1` to the empty text. It looks like no nickname, so nothing is
adopted and the target keeps the null. -/
theorem computeAdoptDelta_loses_update :
    computeAdoptDelta nicknameView nicknameStore (some [[none]]) (some [[some ""]]) = .ok none ∧
      ∀ merged, ¬ AdoptsExactly nicknameView "node:Person" [none] [some ""] [] none merged := by
  refine ⟨rfl, fun merged hexact => ?_⟩
  have := hexact.none_iff.mp rfl
  simp at this

/-- The source added a node, and it is adopted. -/
theorem computeAdoptDelta_exact_added :
    ∃ delta merged, computeAdoptDelta idView smallRows (some [["a"]]) (some [["a", "b"]]) =
        .ok delta ∧
      stageStreamingTableMerge idView smallRows "node:Marker" (some [["a"]]) (some [["a", "b"]])
        (some [["a"]]) [] = .ok merged ∧
      AdoptsExactly idView "node:Marker" ["a"] ["a", "b"] [] delta merged := by
  have hrun := computeAdoptDelta_exact_iff idView smallRows "node:Marker" (some [["a"]])
    (some [["a", "b"]]) [] (pairwise_singleton _ _) (pairwise_pair.mpr (by decide))
  refine ⟨_, _, rfl, rfl, ((hrun.value rfl).value rfl).mpr ⟨?_, ?_⟩⟩
  · intro b _ s _ hid _
    exact hid
  · intro s hmem _ hsig
    obtain rfl : s = "" := (rowSignature_idRow s).symm.trans hsig
    exact absurd hmem (by decide)

end Omnigraph
