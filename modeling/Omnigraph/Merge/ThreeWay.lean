import Omnigraph.Merge.Cursor
import Omnigraph.Merge.Signature
import Omnigraph.Merge.Staging

/-!
# The streaming three-way merge

Three cursors walk base, source and target in id order. For each id the merge keeps the side that
changed, reports a conflict when both changed differently, and stages only what differs from the
target. A row counts as staged when its signature differs from the target's, an absent target row
standing for the empty text: a new row whose signature is itself empty is lost.
-/

namespace Omnigraph

open List Option OrderedTableCursor MergeJoin

/-! ### The code -/

section Code

variable {R : Type} (view : RowView R) (store : RowStore R) (tableKey : String)

def classifyMergeConflict (rowId : String) (baseSig sourceSig targetSig : Option String) :
    MergeConflict :=
  let (kind, message) : MergeConflictKind × String := match baseSig, sourceSig, targetSig with
    | none, some _, some _ => (.divergentInsert, s!"divergent insert for id '{rowId}'")
    | some _, none, some _ | some _, some _, none =>
      (.deleteVsUpdate, s!"delete/update conflict for id '{rowId}'")
    | _, _, _ => (.divergentUpdate, s!"divergent update for id '{rowId}'")
  ⟨tableKey, some rowId, kind, message⟩

def minCursorId (baseRow sourceRow targetRow : Option (CursorRow R)) : Option String :=
  ([baseRow, sourceRow, targetRow].filterMap fun row => row.map CursorRow.id).min?

/-- What the walk has reported and staged so far. -/
structure MergeProgress (R : Type) where
  conflicts : List MergeConflict
  deltaWriter : StagedTableWriter R
  deletedIds : DeleteIdChunks
  needsUpdate : Bool

/-- The body of the loop for one id. -/
def mergeRow (priorConflictCount : ℕ) (nextId : String)
    (baseRow sourceRow targetRow : Option (CursorRow R)) (out : MergeProgress R) :
    Except OmniError (MergeProgress R) :=
  let baseSig := baseRow.map CursorRow.signature
  let sourceSig := sourceRow.map CursorRow.signature
  let targetSig := targetRow.map CursorRow.signature
  let (selection, conflicts) : Option (CursorRow R) × List MergeConflict :=
    if sourceSig = baseSig then (targetRow, out.conflicts)
    else if targetSig = baseSig then (sourceRow, out.conflicts)
    else if sourceSig = targetSig then (targetRow, out.conflicts)
    else (none, out.conflicts ++
      [classifyMergeConflict tableKey nextId baseSig sourceSig targetSig])
  let out := { out with conflicts }
  if out.conflicts.length > priorConflictCount then .ok out
  else match selection with
    | none =>
      if targetRow.isSome then do
        let deletedIds ← out.deletedIds.push nextId
        return { out with deletedIds, needsUpdate := true }
      else .ok out
    | some selection =>
      if selection.signature ≠ targetSig.getD "" then do
        let deltaWriter ← out.deltaWriter.pushRow store selection.row
        return { out with deltaWriter, needsUpdate := true }
      else .ok out

/-- The peeked row is popped when it has the id in turn. -/
def takeRow (nextId : String) (peeked : Option (CursorRow R) × OrderedTableCursor R) :
    Option (CursorRow R) × OrderedTableCursor R :=
  if peeked.1.map CursorRow.id = some nextId then peeked.2.pop view else (none, peeked.2)

def mergeLoop (priorConflictCount : ℕ) : ℕ → OrderedTableCursor R → OrderedTableCursor R →
    OrderedTableCursor R → MergeProgress R → Except OmniError (MergeProgress R)
  | 0, _, _, _, out => .ok out
  | fuel + 1, base, source, target, out =>
    let base := base.peekCloned view
    let source := source.peekCloned view
    let target := target.peekCloned view
    match minCursorId base.1 source.1 target.1 with
    | none => .ok out
    | some nextId => do
      let base := takeRow view nextId base
      let source := takeRow view nextId source
      let target := takeRow view nextId target
      let out ← mergeRow store tableKey priorConflictCount nextId base.1 source.1 target.1 out
      mergeLoop priorConflictCount fuel base.2 source.2 target.2 out

/-- The rows of a streamed table, which may be absent. -/
def streamedRows (batches : Option (List (List R))) : List R := (batches.getD []).flatten

/-- Stages a three-way merge of the streamed tables; the conflicts go to the end of the given list.
Every turn of the loop takes a row off some cursor. -/
def stageStreamingTableMerge (base source target : Option (List (List R)))
    (conflicts : List MergeConflict) :
    Except OmniError (Option (StagedMergeResult R) × List MergeConflict) := do
  let fuel := (streamedRows base).length + (streamedRows source).length +
    (streamedRows target).length + 1
  let out ← mergeLoop view store tableKey conflicts.length fuel
    (.fromDataset base true) (.fromDataset source true) (.fromDataset target true)
    ⟨conflicts, .new, .empty, false⟩
  if out.conflicts.length > conflicts.length then return (none, out.conflicts)
  else if !out.needsUpdate then return (none, out.conflicts)
  else if out.deltaWriter.rowCount > 0 then
    let deltaStaged ← out.deltaWriter.finish
    return (some ⟨some deltaStaged, out.deletedIds⟩, out.conflicts)
  else return (some ⟨none, out.deletedIds⟩, out.conflicts)

end Code

/-! ### The merge a three-way merge should be -/

section Abstract

variable {R : Type} [DecidableEq R]

/-- Source and target both changed the row, and differently. -/
def Table.Diverges (base source target : Table R) (id : String) : Prop :=
  source id ≠ base id ∧ target id ≠ base id ∧ source id ≠ target id

/-- The source's row where only the source changed it, the target's otherwise. -/
def Table.threeWay (base source target : Table R) : Table R := fun id =>
  if source id ≠ base id ∧ target id = base id then source id else target id

end Abstract

section Spec

variable {R : Type} (view : RowView R)

/-- The table a list of rows stands for. -/
def tableOf (rows : List R) : Table R := fun id => MergeJoin.lookup view.rowIdAt id rows

/-- Rows with one signature are one row. -/
def SignaturesIdentify (rows : List R) : Prop :=
  ∀ r ∈ rows, ∀ r' ∈ rows, view.rowSignature r = view.rowSignature r' → r = r'

/-- The target table with the staged result published. -/
def publishResult (tableKey : String) (staged : Option (StagedMergeResult R)) (target : Table R) :
    Except OmniError (Table R) :=
  match staged with
  | none => .ok target
  | some staged => publishRewrittenMergeTable view.rowIdAt tableKey staged target

variable [DecidableEq R]

/-- The outcome of a merge as it should be: the conflicts reported are the diverging ids, each
once; without one, publishing the staged result gives the three-way merge, nothing is staged
exactly when that merge is the target, and no id is both written and deleted. -/
structure MergesExactly (tableKey : String) (base source target : List R)
    (prior : List MergeConflict)
    (out : Option (StagedMergeResult R) × List MergeConflict) : Prop where
  reported : ∃ new, out.2 = prior ++ new ∧ (new.map MergeConflict.rowId).Nodup ∧
    ∀ rowId, rowId ∈ new.map MergeConflict.rowId ↔ ∃ id, rowId = some id ∧
      Table.Diverges (tableOf view base) (tableOf view source) (tableOf view target) id
  merged : (∀ id, ¬ Table.Diverges (tableOf view base) (tableOf view source)
      (tableOf view target) id) →
    publishResult view tableKey out.1 (tableOf view target) =
      .ok (Table.threeWay (tableOf view base) (tableOf view source) (tableOf view target))
  unchanged : (∀ id, ¬ Table.Diverges (tableOf view base) (tableOf view source)
      (tableOf view target) id) →
    (out.1 = none ↔ Table.threeWay (tableOf view base) (tableOf view source)
      (tableOf view target) = tableOf view target)
  disjoint : ∀ staged, out.1 = some staged → ∀ id ∈ staged.deletedIds.iter,
    id ∉ staged.deltaRows.map view.rowIdAt

/-- Three tables as the merge receives them: streamed in ascending id order, with signatures that
identify rows. -/
structure MergeInputs (base source target : List R) : Prop where
  ascendingBase : MergeJoin.Ascending view.rowIdAt base
  ascendingSource : MergeJoin.Ascending view.rowIdAt source
  ascendingTarget : MergeJoin.Ascending view.rowIdAt target
  identify : SignaturesIdentify view (base ++ source ++ target)

/-- A new source row that the comparison with the empty text overlooks. -/
def Overlooked (base source target : List R) (r : R) : Prop :=
  r ∈ source ∧ tableOf view base (view.rowIdAt r) = none ∧
    tableOf view target (view.rowIdAt r) = none ∧ view.rowSignature r = ""

end Spec

/-! ### The loop is a fold over the joined streams -/

section Loop

variable {R : Type} (view : RowView R) (store : RowStore R) (tableKey : String)

def visitRow (priorConflictCount : ℕ) (out : MergeProgress R)
    (visit : String × List (Option (CursorRow R))) : Except OmniError (MergeProgress R) :=
  match visit.2 with
  | [baseRow, sourceRow, targetRow] =>
    mergeRow store tableKey priorConflictCount visit.1 baseRow sourceRow targetRow out
  | _ => .ok out

lemma takeRow_spec (nextId : String) (cursor : OrderedTableCursor R) :
    (takeRow view nextId (cursor.peekCloned view)).1 =
        headAt CursorRow.id nextId (cursor.remaining view) ∧
      (takeRow view nextId (cursor.peekCloned view)).2.remaining view =
        dropAt CursorRow.id nextId (cursor.remaining view) := by
  obtain ⟨hrow, hrest⟩ := cursor.peekCloned_spec view
  obtain ⟨hpop, hpopped⟩ := (cursor.peekCloned view).2.pop_spec view
  rw [hrest] at hpop hpopped
  unfold takeRow dropAt headAt
  rw [hrow]
  cases hrem : cursor.remaining view with
  | nil => simpa [hrem] using hrest
  | cons row rows =>
    by_cases hid : row.id = nextId
    · simp only [List.head?_cons, map_some, hid, if_true, filter_some,
        decide_true, isSome_some, hpop, hpopped, hrem, tail_cons]
      exact ⟨trivial, trivial⟩
    · simp only [List.head?_cons, map_some, Option.some.injEq, hid, if_false,
        filter_some, decide_false, Bool.false_eq_true, isSome_none, hrest, hrem]
      exact ⟨trivial, trivial⟩

/-- Cursor by cursor, the loop visits what the join of the remaining rows visits. -/
lemma mergeLoop_eq_foldlM (prior fuel : ℕ) (base source target : OrderedTableCursor R)
    (out : MergeProgress R) :
    mergeLoop view store tableKey prior fuel base source target out =
      (MergeJoin.join CursorRow.id fuel
        [base.remaining view, source.remaining view, target.remaining view]).foldlM
          (visitRow store tableKey prior) out := by
  induction fuel generalizing base source target out with
  | zero => rfl
  | succ fuel ih =>
    have hnext : minCursorId (base.peekCloned view).1 (source.peekCloned view).1
        (target.peekCloned view).1 = nextKey CursorRow.id
          [base.remaining view, source.remaining view, target.remaining view] := by
      rw [(base.peekCloned_spec view).1, (source.peekCloned_spec view).1,
        (target.peekCloned_spec view).1]
      simp only [minCursorId, nextKey, filterMap_cons, filterMap_nil]
    simp only [mergeLoop, MergeJoin.join, hnext]
    cases nextKey CursorRow.id
        [base.remaining view, source.remaining view, target.remaining view] with
    | none => rfl
    | some nextId =>
      obtain ⟨hb, hb'⟩ := takeRow_spec view nextId base
      obtain ⟨hs, hs'⟩ := takeRow_spec view nextId source
      obtain ⟨ht, ht'⟩ := takeRow_spec view nextId target
      simp only [foldlM_cons, map_cons, map_nil, visitRow, ih, hb, hb', hs, hs',
        ht, ht']

end Loop

/-! ### What one visit reports and stages -/

variable {id : String} {prior : List MergeConflict}

section Visit

variable {R : Type} (store : RowStore R) (tableKey : String)

abbrev sig (row : Option (CursorRow R)) : Option String := row.map CursorRow.signature

/-- The row kept when there is no conflict. -/
def selectionOf (baseRow sourceRow targetRow : Option (CursorRow R)) : Option (CursorRow R) :=
  if sig sourceRow ≠ sig baseRow ∧ sig targetRow = sig baseRow then sourceRow else targetRow

def conflictOf : String × List (Option (CursorRow R)) → Option MergeConflict
  | (id, [baseRow, sourceRow, targetRow]) =>
    if sig sourceRow ≠ sig baseRow ∧ sig targetRow ≠ sig baseRow ∧ sig sourceRow ≠ sig targetRow
    then some (classifyMergeConflict tableKey id (sig baseRow) (sig sourceRow) (sig targetRow))
    else none
  | _ => none

def deltaOf : String × List (Option (CursorRow R)) → Option R
  | (_, [baseRow, sourceRow, targetRow]) =>
    ((selectionOf baseRow sourceRow targetRow).filter fun row =>
      row.signature ≠ (sig targetRow).getD "").map CursorRow.row
  | _ => none

def deletedOf : String × List (Option (CursorRow R)) → Option String
  | (id, [baseRow, sourceRow, targetRow]) =>
    if selectionOf baseRow sourceRow targetRow = none ∧ targetRow ≠ none then some id else none
  | _ => none

/-- The progress after the visits `pre`; what is staged matters only while nothing diverges. -/
structure Progress (prior : List MergeConflict) (pre : List (String × List (Option (CursorRow R))))
    (out : MergeProgress R) : Prop where
  conflicts : out.conflicts = prior ++ pre.filterMap (conflictOf tableKey)
  rows : pre.filterMap (conflictOf tableKey) = [] →
    out.deltaWriter.rows = pre.filterMap deltaOf
  rowCount : pre.filterMap (conflictOf tableKey) = [] →
    out.deltaWriter.rowCount = (pre.filterMap deltaOf).length
  deleted : pre.filterMap (conflictOf tableKey) = [] →
    out.deletedIds.iter = pre.filterMap deletedOf
  armed : ∀ chunk ∈ out.deletedIds.chunks, chunk.Armed
  needsUpdate : pre.filterMap (conflictOf tableKey) = [] →
    (out.needsUpdate = true ↔ pre.filterMap deltaOf ≠ [] ∨ pre.filterMap deletedOf ≠ [])

variable {tableKey}

variable {c : MergeConflict} {visits : List (String × List (Option (CursorRow R)))}
  {b s t : Option (CursorRow R)}

lemma rowId_of_conflictOf {visit : String × List (Option (CursorRow R))}
    (hc : conflictOf tableKey visit = some c) : c.rowId = some visit.1 := by
  unfold conflictOf at hc
  split at hc
  · split_ifs at hc
    cases hc
    rfl
  · cases hc

lemma Progress.skip {prior : List MergeConflict}
    {pre : List (String × List (Option (CursorRow R)))} {out : MergeProgress R}
    (h : Progress tableKey prior pre out) {visit : String × List (Option (CursorRow R))}
    (hc : conflictOf tableKey visit = none) (hd : deltaOf visit = none)
    (hx : deletedOf visit = none) : Progress tableKey prior (pre ++ [visit]) out := by
  have hcs : (pre ++ [visit]).filterMap (conflictOf tableKey) =
      pre.filterMap (conflictOf tableKey) := by simp [hc]
  have hds : (pre ++ [visit]).filterMap deltaOf = pre.filterMap deltaOf := by simp [hd]
  have hxs : (pre ++ [visit]).filterMap deletedOf = pre.filterMap deletedOf := by simp [hx]
  exact ⟨by rw [hcs]; exact h.conflicts, by rw [hcs, hds]; exact h.rows,
    by rw [hcs, hds]; exact h.rowCount, by rw [hcs, hxs]; exact h.deleted, h.armed,
    by rw [hcs, hds, hxs]; exact h.needsUpdate⟩

/-- Once something diverges, only the conflicts count. -/
lemma Progress.of_conflict {out : MergeProgress R}
    (hc : out.conflicts = prior ++ visits.filterMap (conflictOf tableKey))
    (hne : visits.filterMap (conflictOf tableKey) ≠ [])
    (harmed : ∀ chunk ∈ out.deletedIds.chunks, chunk.Armed) : Progress tableKey prior visits out :=
  ⟨hc, fun h => absurd h hne, fun h => absurd h hne, fun h => absurd h hne, harmed,
    fun h => absurd h hne⟩

lemma mergeRow_eq_of_diverges {prior : ℕ} {out : MergeProgress R}
    (hprior : prior ≤ out.conflicts.length) (hc : conflictOf tableKey (id, [b, s, t]) = some c) :
    mergeRow store tableKey prior id b s t out =
      .ok { out with conflicts := out.conflicts ++ [c] } := by
  simp only [conflictOf] at hc
  split_ifs at hc with h
  cases hc
  simp only [mergeRow, if_neg h.1, if_neg h.2.1, if_neg h.2.2]
  rw [if_pos (by simp; omega)]

/-- A visit without a conflict leaves the conflicts alone; when there are none so far, it stages
the selected row or the deletion. -/
lemma mergeRow_eq_of_agrees {prior : ℕ} {out : MergeProgress R}
    (hc : conflictOf tableKey (id, [b, s, t]) = none) :
    mergeRow store tableKey prior id b s t out =
      if out.conflicts.length > prior then .ok out
      else match selectionOf b s t with
        | none =>
          if t.isSome then do
            let deletedIds ← out.deletedIds.push id
            return { out with deletedIds, needsUpdate := true }
          else .ok out
        | some selection =>
          if selection.signature ≠ (sig t).getD "" then do
            let deltaWriter ← out.deltaWriter.pushRow store selection.row
            return { out with deltaWriter, needsUpdate := true }
          else .ok out := by
  have hno : ¬ (sig s ≠ sig b ∧ sig t ≠ sig b ∧ sig s ≠ sig t) := by
    intro h
    simp [conflictOf, h] at hc
  by_cases hs : sig s = sig b
  · simp only [mergeRow, selectionOf, hs, if_true, ne_eq, not_true_eq_false, false_and, if_false]
  · by_cases ht : sig t = sig b
    · simp only [mergeRow, selectionOf, hs, ht, if_true, if_false, ne_eq, not_false_eq_true,
        and_self]
    · have hst : sig s = sig t := by
        by_contra hne
        exact hno ⟨hs, ht, hne⟩
      simp only [mergeRow, selectionOf, ht, hst, if_true, if_false, ne_eq, not_false_eq_true,
        and_false]

/-- Each visited id is merged or a conflict; an error comes from a limit or the store. -/
lemma visitRow_ensures {pre : List (String × List (Option (CursorRow R)))} {out : MergeProgress R}
    (h : Progress tableKey prior pre out) (id : String) (b s t : Option (CursorRow R)) :
    Ensures (visitRow store tableKey prior.length out (id, [b, s, t]))
      (Progress tableKey prior (pre ++ [(id, [b, s, t])]))
      (fun e => IsResourceLimit e ∨ store.Fails e) := by
  have hlen : out.conflicts.length =
      prior.length + (pre.filterMap (conflictOf tableKey)).length := by
    rw [h.conflicts, length_append]
  simp only [visitRow]
  cases hc : conflictOf tableKey (id, [b, s, t]) with
  | some c =>
    rw [mergeRow_eq_of_diverges store (by omega) hc]
    apply Progress.of_conflict
    · simp [h.conflicts, hc]
    · simp [hc]
    · exact h.armed
  | none =>
    rw [mergeRow_eq_of_agrees store hc]
    refine Ensures.ite (fun hgt => ?_) fun hle => ?_
    · -- an earlier conflict: nothing more is staged
      have hne : pre.filterMap (conflictOf tableKey) ≠ [] := by
        intro hnil
        rw [hnil, length_nil] at hlen
        omega
      exact Progress.of_conflict (by simp [h.conflicts, hc]) (by simp [hc, hne]) h.armed
    · have hnil : pre.filterMap (conflictOf tableKey) = [] := by
        rw [← length_eq_zero_iff]
        omega
      cases hsel : selectionOf b s t with
      | none =>
        have hd : deltaOf (id, [b, s, t]) = none := by simp [deltaOf, hsel]
        cases t with
        | none => exact h.skip hc hd (by simp [deletedOf])
        | some row =>
          have hx : deletedOf (id, [b, s, some row]) = some id := by simp [deletedOf, hsel]
          refine Ensures.bind ((out.deletedIds.push_ensures id).mono (fun _ hp => hp)
            fun _ he => .inl he) fun deletedIds hpush => ?_
          refine ⟨by simp [h.conflicts, hc], fun _ => ?_, fun _ => ?_, fun _ => ?_,
            hpush.2 h.armed, fun _ => ?_⟩
          · simpa [hd] using h.rows hnil
          · simpa [hd] using h.rowCount hnil
          · simp [hx, hpush.1, h.deleted hnil]
          · simp [hx]
      | some selection =>
        have hx : deletedOf (id, [b, s, t]) = none := by simp [deletedOf, hsel]
        refine Ensures.ite (fun hne => ?_) fun heq => ?_
        · have hd : deltaOf (id, [b, s, t]) = some selection.row := by
            simp [deltaOf, hsel, filter_some, hne]
          refine Ensures.bind (out.deltaWriter.pushRow_ensures store selection.row)
            fun deltaWriter hpush => ?_
          refine ⟨by simp [h.conflicts, hc], fun _ => ?_, fun _ => ?_, fun _ => ?_,
            h.armed, fun _ => ?_⟩
          · simp [hd, hpush.1, h.rows hnil]
          · simp [hd, hpush.2, h.rowCount hnil]
          · simpa [hx] using h.deleted hnil
          · simp [hd]
        · exact h.skip hc (by simpa [deltaOf, hsel, filter_some] using heq) hx

/-- The whole walk. -/
lemma foldlM_visitRow_ensures (prior : List MergeConflict)
    (hshape : ∀ visit ∈ visits, ∃ b s t, visit.2 = [b, s, t]) :
    Ensures (visits.foldlM (visitRow store tableKey prior.length) ⟨prior, .new, .empty, false⟩)
      (Progress tableKey prior visits) (fun e => IsResourceLimit e ∨ store.Fails e) := by
  refine Ensures.foldlM (Progress tableKey prior) ?_ ?_
  · exact ⟨by simp, fun _ => rfl, fun _ => rfl, fun _ => rfl, by simp [DeleteIdChunks.empty],
      by simp⟩
  · intro pre visit post acc hvisits hacc
    obtain ⟨id, rows⟩ := visit
    obtain ⟨b, s, t, hrows⟩ := hshape (id, rows) (by simp [hvisits])
    subst hrows
    exact visitRow_ensures store hacc id b s t

end Visit

/-! ### From visits to tables -/

section Tables

variable {R : Type} (view : RowView R)

/-- The rows of a table as an eager cursor hands them out. -/
abbrev cursorRows (rows : List R) : List (CursorRow R) :=
  rows.map (cursorRow view true)

def visits (base source target : List R) : List (String × List (Option (CursorRow R))) :=
  MergeJoin.join CursorRow.id (base.length + source.length + target.length + 1)
    [cursorRows view base, cursorRows view source, cursorRows view target]

/-- The row of a table for an id, as a cursor hands it out. -/
def cursorAt (rows : List R) (id : String) : Option (CursorRow R) :=
  (tableOf view rows id).map (cursorRow view true)

variable {view}

lemma lookup_cursorRows (rows : List R) (id : String) :
    MergeJoin.lookup CursorRow.id id (cursorRows view rows) = cursorAt view rows id := by
  simp only [MergeJoin.lookup, cursorRows, cursorAt, tableOf, List.find?_map]
  rfl

variable {rows rows' : List R}

lemma ascending_cursorRows (h : MergeJoin.Ascending view.rowIdAt rows) :
    MergeJoin.Ascending CursorRow.id (cursorRows view rows) :=
  pairwise_map.mpr h

lemma sig_cursorAt (rows : List R) (id : String) :
    sig (cursorAt view rows id) = (tableOf view rows id).map view.rowSignature := by
  simp only [sig, cursorAt, Option.map_map]
  rfl

lemma cursorAt_eq_none_iff (rows : List R) (id : String) :
    cursorAt view rows id = none ↔ tableOf view rows id = none := map_eq_none_iff

lemma tableOf_eq_some {rows : List R} (h : MergeJoin.Ascending view.rowIdAt rows) {id : String}
    {r : R} : tableOf view rows id = some r ↔ r ∈ rows ∧ view.rowIdAt r = id :=
  lookup_eq_some_iff h

variable {base source target : List R}

variable (hb : MergeJoin.Ascending view.rowIdAt base)

variable (hs : MergeJoin.Ascending view.rowIdAt source)

variable (ht : MergeJoin.Ascending view.rowIdAt target)

include hb hs ht in
/-- The ids of the three tables are visited with the rows the tables hold for them. -/
lemma mem_visits_iff {visit : String × List (Option (CursorRow R))} :
    visit ∈ visits view base source target ↔
      ¬ (tableOf view base visit.1 = none ∧ tableOf view source visit.1 = none ∧
        tableOf view target visit.1 = none) ∧
      visit.2 = [cursorAt view base visit.1, cursorAt view source visit.1,
        cursorAt view target visit.1] := by
  obtain ⟨id, rows⟩ := visit
  have hsize : size [cursorRows view base, cursorRows view source,
      cursorRows view target] < base.length + source.length + target.length + 1 := by
    simp [size]
    omega
  have hheld : ∀ rows : List R, id ∈ (cursorRows view rows).map CursorRow.id ↔
      tableOf view rows id ≠ none := by
    intro rows
    rw [← MergeJoin.lookup_isSome_iff, lookup_cursorRows, cursorAt, Option.isSome_map,
      Option.isSome_iff_ne_none]
  rw [visits, mem_join_iff hsize (by
    simp [ascending_cursorRows hb, ascending_cursorRows hs, ascending_cursorRows ht])]
  simp only [List.mem_cons, List.not_mem_nil, or_false, exists_eq_or_imp, exists_eq_left, hheld,
    List.map_cons, List.map_nil, lookup_cursorRows, ne_eq]
  tauto

include hb hs ht in
lemma visits_ascending : (visits view base source target).Pairwise fun v v' => v.1 < v'.1 := by
  apply join_ascending
  simp [ascending_cursorRows hb, ascending_cursorRows hs, ascending_cursorRows ht]

/-- Signatures that identify rows compare rows. -/
lemma map_rowSignature_eq_iff {all : List R} (hall : SignaturesIdentify view all)
    (hsub : rows ⊆ all) (hsub' : rows' ⊆ all) (id : String) :
    (tableOf view rows id).map view.rowSignature = (tableOf view rows' id).map view.rowSignature ↔
      tableOf view rows id = tableOf view rows' id := by
  constructor
  · intro h
    cases hr : tableOf view rows id with
    | none =>
      rw [hr] at h
      simpa [eq_comm] using h
    | some r =>
      cases hr' : tableOf view rows' id with
      | none => simp [hr, hr'] at h
      | some r' =>
        rw [hr, hr'] at h
        have hmem : r ∈ all := hsub (mem_of_find?_eq_some hr)
        have hmem' : r' ∈ all := hsub' (mem_of_find?_eq_some hr')
        rw [hall r hmem r' hmem' (by simpa using h)]
  · intro h
    rw [h]

/-- Comparing signatures compares rows, whichever two tables they come from. -/
lemma MergeInputs.sig_cursorAt_eq_iff (h : MergeInputs view base source target)
    (hrows : rows ⊆ base ++ source ++ target) (hrows' : rows' ⊆ base ++ source ++ target)
    (id : String) :
    sig (cursorAt view rows id) = sig (cursorAt view rows' id) ↔
      tableOf view rows id = tableOf view rows' id := by
  rw [sig_cursorAt, sig_cursorAt, map_rowSignature_eq_iff h.identify hrows hrows']

lemma base_subset : base ⊆ base ++ source ++ target := by
  intro r hr; simp [hr]

lemma source_subset : source ⊆ base ++ source ++ target := by
  intro r hr; simp [hr]

lemma target_subset : target ⊆ base ++ source ++ target := by
  intro r hr; simp [hr]

/-- The visit of an id. -/
abbrev visitOf (view : RowView R) (base source target : List R) (id : String) :
    String × List (Option (CursorRow R)) :=
  (id, [cursorAt view base id, cursorAt view source id, cursorAt view target id])

lemma eq_visitOf (h : MergeInputs view base source target)
    {visit : String × List (Option (CursorRow R))} (hv : visit ∈ visits view base source target) :
    visit = visitOf view base source target visit.1 :=
  Prod.ext rfl ((mem_visits_iff h.ascendingBase h.ascendingSource h.ascendingTarget).mp hv).2

include hb hs ht in
/-- Every id held by a table is visited, and only with the rows the tables hold. -/
lemma mem_filterMap_visits_iff {α : Type} {f : String × List (Option (CursorRow R)) → Option α}
    {a : α}
    (hempty : ∀ id, tableOf view base id = none → tableOf view source id = none →
      tableOf view target id = none → f (visitOf view base source target id) ≠ some a) :
    a ∈ (visits view base source target).filterMap f ↔
      ∃ id, f (visitOf view base source target id) = some a := by
  simp only [List.mem_filterMap, mem_visits_iff hb hs ht]
  constructor
  · rintro ⟨⟨id, rows⟩, ⟨-, hrows⟩, ha⟩
    simp only at hrows
    subst hrows
    exact ⟨id, ha⟩
  · rintro ⟨id, ha⟩
    exact ⟨visitOf view base source target id,
      ⟨fun hnone => hempty id hnone.1 hnone.2.1 hnone.2.2 ha, rfl⟩, ha⟩

end Tables

/-! ### What a run stages -/

section Staged

variable {R : Type} {view : RowView R}

/-- What a run hands back, in terms of the visits. -/
structure StagesVisits (tableKey : String) (prior : List MergeConflict)
    (visits : List (String × List (Option (CursorRow R))))
    (out : Option (StagedMergeResult R) × List MergeConflict) : Prop where
  conflicts : out.2 = prior ++ visits.filterMap (conflictOf tableKey)
  withheld : visits.filterMap (conflictOf tableKey) ≠ [] → out.1 = none
  none_iff : visits.filterMap (conflictOf tableKey) = [] →
    (out.1 = none ↔ visits.filterMap deltaOf = [] ∧ visits.filterMap deletedOf = [])
  staged : ∀ staged, out.1 = some staged → staged.deltaRows = visits.filterMap deltaOf ∧
    staged.deletedIds.iter = visits.filterMap deletedOf ∧
    ∀ chunk ∈ staged.deletedIds.chunks, chunk.Armed

/-- A run fails only at a resource ceiling or in the store; otherwise it stages its visits. -/
lemma stageStreamingTableMerge_ensures (store : RowStore R) (tableKey : String)
    {base source target : Option (List (List R))} (prior : List MergeConflict)
    (hb : MergeJoin.Ascending view.rowIdAt (streamedRows base))
    (hs : MergeJoin.Ascending view.rowIdAt (streamedRows source))
    (ht : MergeJoin.Ascending view.rowIdAt (streamedRows target)) :
    Ensures (stageStreamingTableMerge view store tableKey base source target prior)
      (StagesVisits tableKey prior
        (visits view (streamedRows base) (streamedRows source) (streamedRows target)))
      (fun e => IsResourceLimit e ∨ store.Fails e) := by
  set V := visits view (streamedRows base) (streamedRows source) (streamedRows target) with hV
  have hshape : ∀ visit ∈ V, ∃ b s t, visit.2 = [b, s, t] :=
    fun visit hvisit => ⟨_, _, _, ((mem_visits_iff hb hs ht).mp hvisit).2⟩
  simp only [stageStreamingTableMerge, mergeLoop_eq_foldlM,
    remaining_fromDataset]
  refine Ensures.bind (foldlM_visitRow_ensures store prior hshape)
    fun out (hout : Progress tableKey prior V out) => ?_
  have hlen : out.conflicts.length > prior.length ↔ V.filterMap (conflictOf tableKey) ≠ [] := by
    rw [hout.conflicts, List.length_append, ← List.length_pos_iff]
    omega
  refine Ensures.ite (fun hconflict => ?_) fun hnone => ?_
  · exact ⟨hout.conflicts, fun _ => rfl, fun h => absurd h (hlen.mp hconflict), by simp⟩
  have hclean : V.filterMap (conflictOf tableKey) = [] := not_not.mp (mt hlen.mpr hnone)
  have hneeds := hout.needsUpdate hclean
  refine Ensures.ite (fun hidle => ?_) fun hbusy => ?_
  · have hidle' : ¬ (V.filterMap deltaOf ≠ [] ∨ V.filterMap deletedOf ≠ []) := by
      intro h
      simp [hneeds.mpr h] at hidle
    rw [not_or, not_not, not_not] at hidle'
    exact ⟨hout.conflicts, fun _ => rfl, fun _ => ⟨fun _ => hidle', fun _ => rfl⟩, by simp⟩
  have hstaged : ¬ (V.filterMap deltaOf = [] ∧ V.filterMap deletedOf = []) := by
    rw [not_and_or]
    exact hneeds.mp (by simpa using hbusy)
  refine Ensures.ite (fun hrows => ?_) fun hrows => ?_
  · refine Ensures.bind (out.deltaWriter.finish_ensures.mono (fun _ h => h) fun _ he => .inl he)
      fun delta hdelta => ?_
    refine ⟨hout.conflicts, fun h => absurd hclean h,
      fun _ => ⟨by simp, fun h => absurd h hstaged⟩, ?_⟩
    rintro _ ⟨⟩
    exact ⟨hdelta.trans (hout.rows hclean), hout.deleted hclean, hout.armed⟩
  · refine ⟨hout.conflicts, fun h => absurd hclean h,
      fun _ => ⟨by simp, fun h => absurd h hstaged⟩, ?_⟩
    rintro _ ⟨⟩
    refine ⟨?_, hout.deleted hclean, hout.armed⟩
    rw [hout.rowCount hclean, gt_iff_lt, not_lt, Nat.le_zero, List.length_eq_zero_iff] at hrows
    exact hrows.symm

end Staged

/-! ### When a run is the three-way merge -/

section Exact

variable {R : Type} [DecidableEq R] {view : RowView R} {base source target : List R}

section Tables

variable (view base source target)

abbrev mergedTable : Table R :=
  Table.threeWay (tableOf view base) (tableOf view source) (tableOf view target)

abbrev DivergesAt (id : String) : Prop :=
  Table.Diverges (tableOf view base) (tableOf view source) (tableOf view target) id

/-- The row is staged: it is the merged row and looks different from the target's. -/
def Delivers (r : R) : Prop :=
  mergedTable view base source target (view.rowIdAt r) = some r ∧
    view.rowSignature r ≠
      ((tableOf view target (view.rowIdAt r)).map view.rowSignature).getD ""

end Tables

lemma conflictOf_eq_none_iff (h : MergeInputs view base source target) (tableKey id : String) :
    conflictOf tableKey (visitOf view base source target id) = none ↔
      ¬ DivergesAt view base source target id := by
  simp only [conflictOf, ne_eq, h.sig_cursorAt_eq_iff source_subset base_subset,
    h.sig_cursorAt_eq_iff target_subset base_subset,
    h.sig_cursorAt_eq_iff source_subset target_subset, Table.Diverges]
  split_ifs with hd
  · simp [hd]
  · simp [hd]

lemma selectionOf_eq (h : MergeInputs view base source target) (id : String) :
    selectionOf (cursorAt view base id) (cursorAt view source id) (cursorAt view target id) =
      (mergedTable view base source target id).map
        (cursorRow view true) := by
  simp only [selectionOf, mergedTable, Table.threeWay, ne_eq,
    h.sig_cursorAt_eq_iff source_subset base_subset,
    h.sig_cursorAt_eq_iff target_subset base_subset]
  split_ifs <;> rfl

variable {r : R}

lemma rowIdAt_of_mergedTable (h : MergeInputs view base source target)
    (hr : mergedTable view base source target id = some r) : view.rowIdAt r = id := by
  simp only [mergedTable, Table.threeWay] at hr
  split_ifs at hr
  · exact ((tableOf_eq_some h.ascendingSource).mp hr).2
  · exact ((tableOf_eq_some h.ascendingTarget).mp hr).2

lemma deltaOf_eq_some_iff (h : MergeInputs view base source target) :
    deltaOf (visitOf view base source target id) = some r ↔
      view.rowIdAt r = id ∧ Delivers view base source target r := by
  simp only [deltaOf, selectionOf_eq h, sig_cursorAt]
  constructor
  · intro hdelta
    obtain ⟨row, hrow, rfl⟩ := map_eq_some_iff.mp hdelta
    obtain ⟨hsel, hsig⟩ := filter_eq_some_iff.mp hrow
    obtain ⟨r, hr, rfl⟩ := map_eq_some_iff.mp hsel
    obtain rfl := rowIdAt_of_mergedTable h hr
    exact ⟨rfl, hr, by simpa [cursorRow] using hsig⟩
  · rintro ⟨rfl, hr, hsig⟩
    simp [hr, filter_some, cursorRow, hsig]

lemma deletedOf_eq_some_iff (h : MergeInputs view base source target) {x : String} :
    deletedOf (visitOf view base source target id) = some x ↔
      id = x ∧ mergedTable view base source target id = none ∧
        tableOf view target id ≠ none := by
  simp only [deletedOf, selectionOf_eq h, map_eq_none_iff, ne_eq, cursorAt_eq_none_iff]
  split_ifs with hd
  · simp [hd]
  · simp [hd]

lemma mem_delta_iff (h : MergeInputs view base source target) :
    r ∈ (visits view base source target).filterMap deltaOf ↔
      Delivers view base source target r := by
  rw [mem_filterMap_visits_iff h.ascendingBase h.ascendingSource h.ascendingTarget]
  · simp only [deltaOf_eq_some_iff h]
    exact ⟨fun ⟨_, _, hr⟩ => hr, fun hr => ⟨_, rfl, hr⟩⟩
  · intro id hb hs ht hr
    obtain ⟨rfl, hr, -⟩ := (deltaOf_eq_some_iff h).mp hr
    simp [mergedTable, Table.threeWay, hb, hs, ht] at hr

lemma mem_deleted_iff (h : MergeInputs view base source target) :
    id ∈ (visits view base source target).filterMap deletedOf ↔
      mergedTable view base source target id = none ∧ tableOf view target id ≠ none := by
  rw [mem_filterMap_visits_iff h.ascendingBase h.ascendingSource h.ascendingTarget]
  · simp only [deletedOf_eq_some_iff h, exists_eq_left]
  · intro id' hb hs ht hx
    exact ((deletedOf_eq_some_iff h).mp hx).2.2 ht

lemma delta_ascending (h : MergeInputs view base source target) :
    MergeJoin.Ascending view.rowIdAt ((visits view base source target).filterMap deltaOf) := by
  refine List.pairwise_filterMap.mpr ?_
  refine (visits_ascending h.ascendingBase h.ascendingSource h.ascendingTarget).imp_of_mem ?_
  intro v v' hv hv' hlt r hr r' hr'
  rw [eq_visitOf h hv, deltaOf_eq_some_iff h] at hr
  rw [eq_visitOf h hv', deltaOf_eq_some_iff h] at hr'
  rw [hr.1, hr'.1]
  exact hlt

lemma deleted_nodup (h : MergeInputs view base source target) :
    ((visits view base source target).filterMap deletedOf).Nodup := by
  refine List.pairwise_filterMap.mpr ?_
  refine (visits_ascending h.ascendingBase h.ascendingSource h.ascendingTarget).imp_of_mem ?_
  intro v v' hv hv' hlt x hx x' hx'
  rw [eq_visitOf h hv, deletedOf_eq_some_iff h] at hx
  rw [eq_visitOf h hv', deletedOf_eq_some_iff h] at hx'
  rw [← hx.1, ← hx'.1]
  exact hlt.ne

/-- The conflicts reported are the diverging ids, each once. -/
lemma conflicts_reported (h : MergeInputs view base source target) (tableKey : String) :
    (((visits view base source target).filterMap (conflictOf tableKey)).map
        MergeConflict.rowId).Nodup ∧
      ∀ rowId, rowId ∈ ((visits view base source target).filterMap (conflictOf tableKey)).map
        MergeConflict.rowId ↔ ∃ id, rowId = some id ∧ DivergesAt view base source target id := by
  constructor
  · refine pairwise_map.mpr (pairwise_filterMap.mpr ?_)
    refine (visits_ascending h.ascendingBase h.ascendingSource h.ascendingTarget).imp ?_
    intro v v' hlt c hc c' hc'
    rw [rowId_of_conflictOf hc, rowId_of_conflictOf hc', ne_eq, Option.some.injEq]
    exact hlt.ne
  · intro rowId
    have hempty : ∀ c id, tableOf view base id = none → tableOf view source id = none →
        tableOf view target id = none →
        conflictOf tableKey (visitOf view base source target id) ≠ some c := by
      intro c id hb hs ht
      rw [(conflictOf_eq_none_iff h tableKey id).mpr (by simp [Table.Diverges, hb, hs])]
      simp
    rw [List.mem_map]
    constructor
    · rintro ⟨c, hc, rfl⟩
      obtain ⟨id, hid⟩ := (mem_filterMap_visits_iff h.ascendingBase h.ascendingSource
        h.ascendingTarget (hempty c)).mp hc
      refine ⟨id, rowId_of_conflictOf hid, ?_⟩
      by_contra hdiv
      rw [(conflictOf_eq_none_iff h tableKey id).mpr hdiv] at hid
      cases hid
    · rintro ⟨id, rfl, hdiv⟩
      have hne := mt (conflictOf_eq_none_iff h tableKey id).mp (not_not.mpr hdiv)
      obtain ⟨c, hc⟩ := ne_none_iff_exists'.mp hne
      exact ⟨c, (mem_filterMap_visits_iff h.ascendingBase h.ascendingSource
        h.ascendingTarget (hempty c)).mpr ⟨id, hc⟩, rowId_of_conflictOf hc⟩

lemma conflicts_eq_nil_iff (h : MergeInputs view base source target) (tableKey : String) :
    (visits view base source target).filterMap (conflictOf tableKey) = [] ↔
      ∀ id, ¬ DivergesAt view base source target id := by
  have hreported := (conflicts_reported h tableKey).2
  constructor
  · intro hnil id hdiv
    rw [hnil] at hreported
    simpa using (hreported (some id)).mpr ⟨id, rfl, hdiv⟩
  · intro hno
    rw [eq_nil_iff_forall_not_mem]
    intro c hc
    obtain ⟨id, -, hdiv⟩ := (hreported c.rowId).mp (List.mem_map_of_mem hc)
    exact hno id hdiv

/-- The table that publishing the visits' staged rows and deletions gives. -/
def deliveredTable (view : RowView R) (base source target : List R) : Table R := fun id =>
  if id ∈ (visits view base source target).filterMap deletedOf then none
  else (MergeJoin.lookup view.rowIdAt id
    ((visits view base source target).filterMap deltaOf)).or (tableOf view target id)

lemma lookup_delta_eq_some_iff (h : MergeInputs view base source target) :
    MergeJoin.lookup view.rowIdAt id ((visits view base source target).filterMap deltaOf) =
      some r ↔ view.rowIdAt r = id ∧ Delivers view base source target r := by
  rw [lookup_eq_some_iff (delta_ascending h), mem_delta_iff h, and_comm]

lemma overlooked_iff (h : MergeInputs view base source target) (r : R) :
    Overlooked view base source target r ↔
      mergedTable view base source target (view.rowIdAt r) = some r ∧
        tableOf view target (view.rowIdAt r) = none ∧ view.rowSignature r = "" := by
  constructor
  · rintro ⟨hmem, hb, ht, hsig⟩
    have hs : tableOf view source (view.rowIdAt r) = some r :=
      (tableOf_eq_some h.ascendingSource).mpr ⟨hmem, rfl⟩
    exact ⟨by simp [mergedTable, Table.threeWay, hb, hs, ht], ht, hsig⟩
  · rintro ⟨hr, ht, hsig⟩
    simp only [mergedTable, Table.threeWay] at hr
    split_ifs at hr with hchanged
    · exact ⟨((tableOf_eq_some h.ascendingSource).mp hr).1, hchanged.2 ▸ ht, ht, hsig⟩
    · rw [ht] at hr
      cases hr

/-- A delivered row replaces the target's; one that is not delivered is the target's already,
unless it is overlooked. -/
lemma not_delivers_iff (h : MergeInputs view base source target)
    (hr : mergedTable view base source target id = some r) :
    ¬ Delivers view base source target r ↔
      tableOf view target id = some r ∨ Overlooked view base source target r := by
  obtain rfl := rowIdAt_of_mergedTable h hr
  simp only [Delivers, hr, true_and, ne_eq, not_not, overlooked_iff h]
  cases ht : tableOf view target (view.rowIdAt r) with
  | none => simp
  | some r' =>
    simp only [map_some, getD_some, Option.some.injEq, reduceCtorEq, false_and,
      or_false]
    constructor
    · intro hsig
      have hr' : r' ∈ base ++ source ++ target := target_subset (mem_of_find?_eq_some ht)
      have hmem : r ∈ base ++ source ++ target := by
        simp only [mergedTable, Table.threeWay] at hr
        split_ifs at hr
        · exact source_subset (mem_of_find?_eq_some hr)
        · exact target_subset (mem_of_find?_eq_some hr)
      exact (h.identify r hmem r' hr' hsig).symm
    · rintro rfl
      rfl

lemma deliveredTable_eq_of_not_delivers (h : MergeInputs view base source target)
    (hr : mergedTable view base source target id = some r)
    (hnot : ¬ Delivers view base source target r) :
    deliveredTable view base source target id = tableOf view target id := by
  have hkept : id ∉ (visits view base source target).filterMap deletedOf := by
    rw [mem_deleted_iff h, hr]
    simp
  have hnone : MergeJoin.lookup view.rowIdAt id
      ((visits view base source target).filterMap deltaOf) = none := by
    rw [eq_none_iff_forall_ne_some]
    intro r' hr'
    obtain ⟨rfl, hdel⟩ := (lookup_delta_eq_some_iff h).mp hr'
    rw [hdel.1] at hr
    cases hr
    exact hnot hdel
  simp [deliveredTable, hkept, hnone]

/-- Publishing delivers the three-way merge, but for the rows overlooked. -/
lemma deliveredTable_eq_merged (h : MergeInputs view base source target)
    (hno : ∀ r, ¬ Overlooked view base source target r) :
    deliveredTable view base source target = mergedTable view base source target := by
  funext id
  cases hr : mergedTable view base source target id with
  | none =>
    by_cases ht : tableOf view target id = none
    · have hnone : MergeJoin.lookup view.rowIdAt id
          ((visits view base source target).filterMap deltaOf) = none := by
        rw [eq_none_iff_forall_ne_some]
        intro r hlook
        obtain ⟨rfl, hdel⟩ := (lookup_delta_eq_some_iff h).mp hlook
        rw [hdel.1] at hr
        cases hr
      simp [deliveredTable, hnone, ht]
    · rw [deliveredTable, if_pos ((mem_deleted_iff h).mpr ⟨hr, ht⟩)]
  | some r =>
    by_cases hdel : Delivers view base source target r
    · have hlook := (lookup_delta_eq_some_iff h).mpr ⟨rowIdAt_of_mergedTable h hr, hdel⟩
      have hkept : id ∉ (visits view base source target).filterMap deletedOf := by
        rw [mem_deleted_iff h, hr]
        simp
      simp [deliveredTable, hkept, hlook]
    · rw [deliveredTable_eq_of_not_delivers h hr hdel]
      exact ((not_delivers_iff h hr).mp hdel).resolve_right (hno r)

lemma nothing_staged_iff (h : MergeInputs view base source target)
    (hno : ∀ r, ¬ Overlooked view base source target r) :
    ((visits view base source target).filterMap deltaOf = [] ∧
        (visits view base source target).filterMap deletedOf = []) ↔
      mergedTable view base source target = tableOf view target := by
  simp only [eq_nil_iff_forall_not_mem, mem_delta_iff h, mem_deleted_iff h]
  constructor
  · rintro ⟨hdelta, hdeleted⟩
    funext id
    cases hr : mergedTable view base source target id with
    | none =>
      by_contra hne
      exact hdeleted id ⟨hr, fun ht => hne ht.symm⟩
    | some r => exact (((not_delivers_iff h hr).mp (hdelta r)).resolve_right (hno r)).symm
  · intro heq
    refine ⟨fun r hdel => ?_, fun id hid => ?_⟩
    · have ht := congrFun heq (view.rowIdAt r)
      rw [hdel.1] at ht
      exact (not_delivers_iff h hdel.1).mpr (.inl ht.symm) hdel
    · exact hid.2 (heq ▸ hid.1)

variable {out : Option (StagedMergeResult R) × List MergeConflict}

/-- What a staged run publishes. -/
lemma StagesVisits.publish_eq (h : MergeInputs view base source target) {tableKey : String}
    (hout : StagesVisits tableKey prior (visits view base source target) out)
    (hclean : ∀ id, ¬ DivergesAt view base source target id) :
    publishResult view tableKey out.1 (tableOf view target) =
      .ok (deliveredTable view base source target) := by
  cases hres : out.1 with
  | none =>
    obtain ⟨hdelta, hdeleted⟩ :=
      (hout.none_iff ((conflicts_eq_nil_iff h tableKey).mpr hclean)).mp hres
    have : deliveredTable view base source target = tableOf view target := by
      funext id
      simp [deliveredTable, hdelta, hdeleted, MergeJoin.lookup]
    rw [this, publishResult]
  | some staged =>
    obtain ⟨hdelta, hdeleted, harmed⟩ := hout.staged staged hres
    have hpresent : ∀ id ∈ staged.deletedIds.iter, (tableOf view target id).isSome := by
      intro id hid
      rw [hdeleted, mem_deleted_iff h] at hid
      exact isSome_iff_ne_none.mpr hid.2
    have hascending : MergeJoin.Ascending view.rowIdAt staged.deltaRows :=
      hdelta ▸ delta_ascending h
    have hpublish := publishRewrittenMergeTable_eq tableKey hascending harmed hpresent
      (hdeleted ▸ deleted_nodup h)
    rw [hdelta, hdeleted] at hpublish
    exact hpublish

/-- A merge that is staged is exact if some rows diverge or none is overlooked. -/
lemma StagesVisits.exact_iff (h : MergeInputs view base source target) {tableKey : String}
    (hout : StagesVisits tableKey prior (visits view base source target) out) :
    MergesExactly view tableKey base source target prior out ↔
      (∃ id, DivergesAt view base source target id) ∨
        ∀ r, ¬ Overlooked view base source target r := by
  constructor
  · intro hexact
    by_contra hcon
    rw [not_or] at hcon
    obtain ⟨hclean, hover⟩ := hcon
    push Not at hclean hover
    obtain ⟨r, hr⟩ := hover
    obtain ⟨hmerged, ht, -⟩ := (overlooked_iff h r).mp hr
    have hsame : deliveredTable view base source target =
        mergedTable view base source target := by
      have := (hout.publish_eq h hclean).symm.trans (hexact.merged hclean)
      injection this
    have hlost := deliveredTable_eq_of_not_delivers h hmerged
      ((not_delivers_iff h hmerged).mpr (.inr hr))
    rw [hsame, hmerged, ht] at hlost
    cases hlost
  · intro hcond
    have hno : (∀ id, ¬ DivergesAt view base source target id) →
        ∀ r, ¬ Overlooked view base source target r := fun hclean =>
      hcond.resolve_left fun ⟨id, hid⟩ => hclean id hid
    refine ⟨⟨_, hout.conflicts, conflicts_reported h tableKey⟩, fun hclean => ?_,
      fun hclean => ?_, ?_⟩
    · rw [hout.publish_eq h hclean, deliveredTable_eq_merged h (hno hclean)]
    · rw [hout.none_iff ((conflicts_eq_nil_iff h tableKey).mpr hclean)]
      exact nothing_staged_iff h (hno hclean)
    · intro staged hstaged id hid hmem
      obtain ⟨hdelta, hdeleted, -⟩ := hout.staged staged hstaged
      rw [hdeleted, mem_deleted_iff h] at hid
      rw [hdelta] at hmem
      obtain ⟨r, hr, rfl⟩ := List.mem_map.mp hmem
      have := ((mem_delta_iff h).mp hr).1
      rw [hid.1] at this
      cases this

end Exact

/-- A run that does not stop at a resource ceiling or in the store is the three-way merge if and
only if some id diverges or no new source row has the empty signature. -/
theorem stageStreamingTableMerge_exact_iff {R : Type} [DecidableEq R] (view : RowView R)
    (store : RowStore R) (tableKey : String) (base source target : Option (List (List R)))
    (prior : List MergeConflict)
    (h : MergeInputs view (streamedRows base) (streamedRows source) (streamedRows target)) :
    Ensures (stageStreamingTableMerge view store tableKey base source target prior)
      (fun out =>
        MergesExactly view tableKey (streamedRows base) (streamedRows source)
            (streamedRows target) prior out ↔
          (∃ id, Table.Diverges (tableOf view (streamedRows base))
            (tableOf view (streamedRows source)) (tableOf view (streamedRows target)) id) ∨
          ∀ r, ¬ Overlooked view (streamedRows base) (streamedRows source)
            (streamedRows target) r)
      (fun e => IsResourceLimit e ∨ store.Fails e) :=
  (stageStreamingTableMerge_ensures store tableKey prior h.ascendingBase h.ascendingSource
    h.ascendingTarget).mono (fun _ hout => hout.exact_iff h) fun _ he => he

/-- The rows of a node type without properties: an id column and nothing else. -/
def idRow (id : String) : Row sampleDisplay [⟨"id", .scalar .utf8, false⟩] :=
  .cons _ ⟨some id, by simp⟩ .nil

def idView : RowView String where
  rowIdAt id := id
  rowSignature id := rowSignature (idRow id)

def smallRows : RowStore String where
  predictedRowBytes _ := .ok 64
  rowBatchBytes _ := .ok 64

lemma rowSignature_idRow (id : String) : rowSignature (idRow id) = id := by
  have hvalues : signatureValues (idRow id) = [id] := rfl
  rw [rowSignature, hvalues, String.intercalate_singleton]

lemma signaturesIdentify_idView (rows : List String) : SignaturesIdentify idView rows := by
  intro r _ r' _ hsig
  simpa only [idView, rowSignature_idRow] using hsig

/-- The source added a node with the empty id, which a type without a key accepts. Its signature is
empty too, so the merge stages nothing and the node is lost. -/
theorem stageStreamingTableMerge_loses_row :
    MergeInputs idView (streamedRows (some [])) (streamedRows (some [[""]]))
        (streamedRows (some [])) ∧
      stageStreamingTableMerge idView smallRows "node:Marker" (some []) (some [[""]]) (some [])
        [] = .ok (none, []) ∧
      ¬ MergesExactly idView "node:Marker" (streamedRows (some []))
        (streamedRows (some [[""]])) (streamedRows (some [])) [] (none, []) := by
  refine ⟨⟨.nil, pairwise_singleton _ _, .nil, signaturesIdentify_idView _⟩, rfl, ?_⟩
  intro hexact
  have hclean : ∀ id, ¬ Table.Diverges (tableOf idView (streamedRows (some [])))
      (tableOf idView (streamedRows (some [[""]]))) (tableOf idView (streamedRows (some []))) id :=
    fun id hdiv => hdiv.2.1 rfl
  have hmerged := (hexact.unchanged hclean).mp rfl
  exact absurd (congrFun hmerged "") (by decide)

/-- The source added a node with an id, and it is merged. -/
theorem stageStreamingTableMerge_exact_added :
    ∃ out, stageStreamingTableMerge idView smallRows "node:Marker" (some [["a"]])
        (some [["a", "b"]]) (some [["a"]]) [] = .ok out ∧
      MergesExactly idView "node:Marker" (streamedRows (some [["a"]]))
        (streamedRows (some [["a", "b"]])) (streamedRows (some [["a"]])) [] out := by
  have hinputs : MergeInputs idView (streamedRows (some [["a"]]))
      (streamedRows (some [["a", "b"]])) (streamedRows (some [["a"]])) := by
    refine ⟨pairwise_singleton _ _, ?_, pairwise_singleton _ _,
      signaturesIdentify_idView _⟩
    exact pairwise_pair.mpr (by decide)
  have hrun := stageStreamingTableMerge_exact_iff idView smallRows "node:Marker" (some [["a"]])
    (some [["a", "b"]]) (some [["a"]]) [] hinputs
  refine ⟨_, rfl, (hrun.value rfl).mpr (.inr ?_)⟩
  rintro r ⟨hmem, -, -, hsig⟩
  obtain rfl : r = "" := (rowSignature_idRow r).symm.trans hsig
  exact absurd hmem (by decide)

end Omnigraph
