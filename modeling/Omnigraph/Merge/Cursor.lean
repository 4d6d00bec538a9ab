import Mathlib.Data.String.Basic
import Omnigraph.Lib.MergeJoin

/-!
# Ordered table cursors

A cursor reads a table in batches, one row at a time, with one row of lookahead. Whatever the batch
boundaries, a cursor behaves as the list of the rows it has not handed out yet (`remaining`).
-/

namespace Omnigraph

/-- What the merge reads off a row: its id and its signature. -/
structure RowView (R : Type) where
  rowIdAt : R → String
  rowSignature : R → String

structure CursorRow (R : Type) where
  id : String
  signature : String
  row : R

/-- `stream` holds the batches not read yet; it is absent when the snapshot lacks the table, and
after the last batch. -/
structure OrderedTableCursor (R : Type) where
  stream : Option (List (List R))
  currentBatch : Option (List R)
  currentRow : ℕ
  peeked : Option (CursorRow R)
  eagerSignatures : Bool

namespace OrderedTableCursor

variable {R : Type} (view : RowView R)

def fromDataset (dataset : Option (List (List R))) (eagerSignatures : Bool) :
    OrderedTableCursor R := ⟨dataset, none, 0, none, eagerSignatures⟩

def cursorRow (eagerSignatures : Bool) (row : R) : CursorRow R where
  id := view.rowIdAt row
  signature := if eagerSignatures then view.rowSignature row else ""
  row := row

/-- The rest of the loop of `nextRow` once the current batch is used up: batches are pulled until
one has a row. -/
def pull (self : OrderedTableCursor R) : List (List R) →
    Option (CursorRow R) × OrderedTableCursor R
  | [] => (none, { self with stream := none, currentBatch := none })
  | [] :: batches => pull self batches
  | (row :: rows) :: batches => (some (cursorRow view self.eagerSignatures row),
      { self with stream := some batches, currentBatch := some (row :: rows), currentRow := 1 })

def nextRow (self : OrderedTableCursor R) : Option (CursorRow R) × OrderedTableCursor R :=
  match self.currentBatch.bind fun batch => batch[self.currentRow]? with
  | some row => (some (cursorRow view self.eagerSignatures row),
      { self with currentRow := self.currentRow + 1 })
  | none =>
    match self.stream with
    | none => (none, self)
    | some batches => pull view self batches

def peekCloned (self : OrderedTableCursor R) : Option (CursorRow R) × OrderedTableCursor R :=
  match self.peeked with
  | some row => (some row, self)
  | none =>
    let (row, self) := nextRow view self
    (row, { self with peeked := row })

def pop (self : OrderedTableCursor R) : Option (CursorRow R) × OrderedTableCursor R :=
  match self.peeked with
  | some row => (some row, { self with peeked := none })
  | none => nextRow view self

/-! ### A cursor is the list of its remaining rows -/

/-- The rows of the current batch and of the stream that have not been read. -/
def unread (self : OrderedTableCursor R) : List (CursorRow R) :=
  ((self.currentBatch.getD []).drop self.currentRow ++ (self.stream.getD []).flatten).map
    (cursorRow view self.eagerSignatures)

def remaining (self : OrderedTableCursor R) : List (CursorRow R) :=
  self.peeked.toList ++ self.unread view

/-- What reading one row does: `result` is the head of the list and the tail is left. -/
structure Reads (list : List (CursorRow R)) (before : OrderedTableCursor R)
    (result : Option (CursorRow R) × OrderedTableCursor R) : Prop where
  row : result.1 = list.head?
  rest : result.2.unread view = list.tail
  peeked : result.2.peeked = before.peeked

lemma pull_reads (self : OrderedTableCursor R) (batches : List (List R)) :
    Reads view (batches.flatten.map (cursorRow view self.eagerSignatures)) self
      (pull view self batches) := by
  induction batches with
  | nil => exact ⟨rfl, by simp [pull, unread], rfl⟩
  | cons batch batches ih =>
    cases batch with
    | nil => exact ih
    | cons row rows => exact ⟨rfl, by simp [pull, unread], rfl⟩

lemma nextRow_reads (self : OrderedTableCursor R) :
    Reads view (self.unread view) self (nextRow view self) := by
  unfold nextRow
  cases hrow : self.currentBatch.bind fun batch => batch[self.currentRow]? with
  | some row =>
    obtain ⟨batch, hbatch, hget⟩ := Option.bind_eq_some_iff.mp hrow
    obtain ⟨hlt, rfl⟩ := List.getElem?_eq_some_iff.mp hget
    have hunread : self.unread view = cursorRow view self.eagerSignatures batch[self.currentRow] ::
        (batch.drop (self.currentRow + 1) ++ (self.stream.getD []).flatten).map
          (cursorRow view self.eagerSignatures) := by
      rw [unread, hbatch, Option.getD_some, List.drop_eq_getElem_cons hlt, List.cons_append,
        List.map_cons]
    exact ⟨by rw [hunread]; rfl, by rw [hunread]; simp [unread, hbatch], rfl⟩
  | none =>
    have hdone : (self.currentBatch.getD []).drop self.currentRow = [] := by
      cases hbatch : self.currentBatch with
      | none => simp
      | some batch => simpa [hbatch] using hrow
    cases hstream : self.stream with
    | none => exact ⟨by simp [unread, hdone, hstream], by simp [unread, hdone, hstream], rfl⟩
    | some batches =>
      have := pull_reads view self batches
      simpa [unread, hdone, hstream] using this

lemma peekCloned_spec (self : OrderedTableCursor R) :
    (peekCloned view self).1 = (self.remaining view).head? ∧
      (peekCloned view self).2.remaining view = self.remaining view := by
  unfold peekCloned
  cases hpeeked : self.peeked with
  | some row => simp [remaining, hpeeked]
  | none =>
    obtain ⟨hrow, hrest, -⟩ := nextRow_reads view self
    have hunread : ∀ p, ({ (nextRow view self).2 with peeked := p } :
        OrderedTableCursor R).unread view = (nextRow view self).2.unread view := fun p => rfl
    simp only [remaining, hpeeked, Option.toList_none, List.nil_append, hrow, hunread, hrest]
    exact ⟨trivial, by cases self.unread view <;> rfl⟩

lemma pop_spec (self : OrderedTableCursor R) :
    (pop view self).1 = (self.remaining view).head? ∧
      (pop view self).2.remaining view = (self.remaining view).tail := by
  unfold pop
  cases hpeeked : self.peeked with
  | some row => simp [remaining, hpeeked, unread]
  | none =>
    obtain ⟨hrow, hrest, hsame⟩ := nextRow_reads view self
    simp [remaining, hpeeked, hsame, hrow, hrest]

@[simp] lemma remaining_fromDataset (dataset : Option (List (List R))) (eager : Bool) :
    (fromDataset dataset eager).remaining view =
      (dataset.getD []).flatten.map (cursorRow view eager) := by
  simp [fromDataset, remaining, unread]

end OrderedTableCursor

end Omnigraph
