import Omnigraph.Lib.Ranked
import Omnigraph.Query.Aggregate

/-!
# Ordering and limits

The rows of a result are sorted by the columns of the order clause and then by the id columns of the
source, which for an aggregate query is the result itself. The sort is not stable: it may return any
sorted order.
-/

namespace Omnigraph.Query

open Compiler

/-! ### Sort keys -/

/-- The place of a double in the total order of bit patterns. -/
def f64Total (bits : UInt64) : ℤ :=
  if bits.toNat < 2 ^ 63 then (bits.toNat : ℤ) else -1 - ((bits.toNat - 2 ^ 63 : ℕ) : ℤ)

def Scalar.sortKey : Scalar → List ℤ
  | .utf8 s => s.toList.map fun c => (c.toNat : ℤ)
  | .boolean b => [if b then 1 else 0]
  | .int i => [i]
  | .float bits => [f64Total bits]

def Value.sortKey : Value → List (List ℤ)
  | .scalar s => [s.sortKey]
  | .list items => items.map fun item => match item with
    | none => []
    | some s => 0 :: s.sortKey

/-- The place of a cell among the cells of its column; null is the first one. -/
abbrev SortKey := WithBot (List (List ℤ))

def cellKey : Cell → SortKey
  | none => ⊥
  | some v => (v.sortKey : SortKey)

lemma f64Total_inj {a b : UInt64} (h : f64Total a = f64Total b) : a = b := by
  have ha := a.toNat_lt
  have hb := b.toNat_lt
  apply UInt64.toNat_inj.mp
  simp only [f64Total] at h
  split_ifs at h <;> omega

variable {t : DataType}

lemma Scalar.sortKey_inj {s s' : Scalar} (hs : t.HoldsScalar s) (hs' : t.HoldsScalar s')
    (h : s.sortKey = s'.sortKey) : s = s' := by
  have hinj : Function.Injective fun c : Char => (c.toNat : ℤ) := by
    intro c d hcd
    exact Char.toNat_inj.mp (Int.ofNat_inj.mp hcd)
  refine DataType.scalar_inj (fun a b h => ?_) (fun a b h => ?_) (fun a b h => ?_)
    (fun a b h => ?_) hs hs' h
  · exact String.toList_inj.mp (List.map_injective_iff.mpr hinj h)
  · cases a <;> cases b <;> first | rfl | cases h
  · exact (List.cons.inj h).1
  · exact f64Total_inj (List.cons.inj h).1

/-- Values of one type have different keys. -/
lemma Value.sortKey_inj {v w : Value} (hv : t.Holds v) (hw : t.Holds w)
    (h : v.sortKey = w.sortKey) : v = w := by
  refine DataType.value_inj (fun s s' hs hs' h => ?_) (fun item items items' hs hs' h => ?_) hv hw h
  · exact Scalar.sortKey_inj hs hs' (List.cons.inj h).1
  · refine DataType.items_inj (fun _ hnil => List.cons_ne_nil _ _ hnil.symm) ?_ hs hs' h
    exact fun s s' hs hs' h => Scalar.sortKey_inj hs hs' (List.cons.inj h).2

lemma Column.cell_eq_of_key (c : Column) {i j : ℕ} (h : cellKey (c.cell i) = cellKey (c.cell j)) :
    c.cell i = c.cell j := by
  cases hi : c.cell i with
  | none =>
    cases hj : c.cell j with
    | none => rfl
    | some w =>
      rw [hi, hj] at h
      cases h
  | some v =>
    cases hj : c.cell j with
    | none =>
      rw [hi, hj] at h
      cases h
    | some w =>
      rw [hi, hj] at h
      rw [Value.sortKey_inj (c.cell_holds hi) (c.cell_holds hj) (WithBot.coe_inj.mp h)]

/-- A column to sort by. Nulls come first in ascending order and last in descending order. -/
structure SortColumn where
  values : Column
  descending : Bool

def SortColumn.key (c : SortColumn) : Bool × (ℕ → SortKey) :=
  (c.descending, fun row => cellKey (c.values.cell row))

/-- A sort of rows by columns: any order that is sorted. -/
structure Lexsort where
  run : List SortColumn → ℕ → List ℕ
  sorts : ∀ cols numRows,
    Ranked.Sorts (Ranked.lexLe (cols.map SortColumn.key)) (List.range numRows) (run cols numRows)

/-- The sort that leaves rows that tie in their order. -/
def stableLexsort : Lexsort where
  run cols numRows :=
    (List.range numRows).insertionSort (Ranked.lexLe (cols.map SortColumn.key))
  sorts cols numRows := by
    have : IsTrans ℕ (Ranked.lexLe (cols.map SortColumn.key)) := ⟨Ranked.lexLe_trans _⟩
    have : Std.Total (Ranked.lexLe (cols.map SortColumn.key)) := ⟨Ranked.lexLe_total _⟩
    exact ⟨List.perm_insertionSort _ _, List.pairwise_insertionSort _ _⟩

/-! ### Ordering -/

def orderingColumn (batch source : RecordBatch) (ordering : IROrdering) :
    Except OmniError SortColumn :=
  match ordering.expr with
  | .propAccess variable_ property =>
    let colName := variable_ ++ "." ++ property
    match source.columnByName colName with
    | some col => .ok ⟨col, ordering.descending⟩
    | none => .error (.manifest s!"column '{colName}' not found for ordering")
  | .aliasRef alias_ =>
    match batch.columnByName alias_ with
    | some col => .ok ⟨col, ordering.descending⟩
    | none => .error (.manifest s!"alias '{alias_}' not found for ordering")
  | _ => .error (.manifest "unsupported ordering expression")

/-- Whether a column holds the ids of a variable. -/
def isIdColumn (name : String) : Bool := ".id".toList.isSuffixOf name.toList

/-- The id columns of the source, by name. -/
def tiebreakNames (source : RecordBatch) : List String :=
  ((source.fields.map Prod.fst).filter isIdColumn).insertionSort (· ≤ ·)

def tiebreakColumns (source : RecordBatch) : List SortColumn :=
  (tiebreakNames source).filterMap fun name =>
    (source.columnByName name).map fun col => ⟨col, false⟩

/-- Sort the rows of a batch; columns are looked up in the source, aliases in the batch. -/
def applyOrdering (lexsort : Lexsort) (batch : RecordBatch) (orderings : List IROrdering)
    (source : RecordBatch) : Except OmniError RecordBatch := do
  let sortColumns ← orderings.mapM (orderingColumn batch source)
  .ok (batch.take (lexsort.run (sortColumns ++ tiebreakColumns source) batch.numRows))

/-! ### The end of a query -/

section Finish

variable (arrow : Arrow)

def isAggregate (proj : IRProjection) : Bool :=
  match proj.expr with
  | .aggregate _ _ => true
  | _ => false

/-- A result column; an alias replaces its name. -/
def projectColumn (wide : RecordBatch) (params : ParamMap) (proj : IRProjection) :
    Except OmniError (String × Column) :=
  (evaluateProjection arrow wide proj.expr params).map fun p => (proj.asName.getD p.1, p.2)

/-- Project return expressions into a result batch. -/
def projectReturn (wide : RecordBatch) (projections : List IRProjection) (params : ParamMap) :
    Except OmniError RecordBatch :=
  if projections = [] then .error (.manifest "query has no return projections")
  else if projections.any isAggregate then aggregateReturn arrow wide projections params
  else do
    let columns ← projections.mapM (projectColumn arrow wide params)
    RecordBatch.tryNew columns

/-- The first rows, as many as the limit says. -/
def applyLimit (limit : Option ℕ) (b : RecordBatch) : RecordBatch :=
  match limit with
  | some limit => b.slice (min b.numRows limit)
  | none => b

/-- Apply the order clause; an aggregate result is its own source. -/
def orderResult (lexsort : Lexsort) (wide result : RecordBatch) (ir : QueryIR) :
    Except OmniError RecordBatch :=
  if ir.orderBy.isEmpty then .ok result
  else if ir.returnExprs.any isAggregate then applyOrdering lexsort result ir.orderBy result
  else applyOrdering lexsort result ir.orderBy wide

/-- Project the wide batch of a query without search ordering, order the result and limit it. -/
def finishQuery (lexsort : Lexsort) (wide : RecordBatch) (ir : QueryIR) (params : ParamMap) :
    Except OmniError RecordBatch := do
  let result ← projectReturn arrow wide ir.returnExprs params
  let ordered ← orderResult lexsort wide result ir
  .ok (applyLimit ir.limit ordered)

end Finish

end Omnigraph.Query
