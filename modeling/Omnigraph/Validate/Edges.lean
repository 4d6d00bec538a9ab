import Omnigraph.Validate.Evaluate

/-!
# Edge tables

Batches of edges as lists of edges, what the evaluator reads of them, and the table a change leaves.
-/

namespace Omnigraph

structure Edge where
  id : String
  src : String
  dst : String
deriving DecidableEq

/-- The batch has the three columns of an edge table, without nulls. -/
structure HoldsEdges (batch : RecordBatch) (edges : List Edge) : Prop where
  ids : stringCol batch "id" = .ok (edges.map fun e => some e.id)
  srcs : stringCol batch "src" = .ok (edges.map fun e => some e.src)
  dsts : stringCol batch "dst" = .ok (edges.map fun e => some e.dst)

/-- The rows of a change, batch after batch. -/
def TableChange.HoldsEdges (change : TableChange) (edges : List Edge) : Prop :=
  ∃ parts, List.Forall₂ Omnigraph.HoldsEdges change.valueBatches parts ∧ parts.flatten = edges

/-- A committed table, or no edges where there is none. -/
def ViewsEdges : Option RecordBatch → List Edge → Prop
  | none, edges => edges = []
  | some batch, edges => HoldsEdges batch edges

/-- A batch of edges. -/
def edgeBatch (edges : List Edge) : RecordBatch where
  columns := [("id", .string .utf8 (edges.map fun e => some e.id)),
    ("src", .string .utf8 (edges.map fun e => some e.src)),
    ("dst", .string .utf8 (edges.map fun e => some e.dst))]
  numRows := edges.length
  length_eq := by
    intro entry hentry
    simp only [List.mem_cons, List.not_mem_nil, or_false] at hentry
    rcases hentry with rfl | rfl | rfl <;> simp [Column.length]

lemma holdsEdges_edgeBatch (edges : List Edge) : HoldsEdges (edgeBatch edges) edges :=
  ⟨rfl, rfl, rfl⟩

section Reading

variable {batch : RecordBatch} {edges : List Edge} {change : TableChange}

variable (h : HoldsEdges batch edges)

include h in
lemma HoldsEdges.idValues : stringValues batch "id" = .ok (edges.map Edge.id) :=
  stringValues_of_cells (by rw [h.ids, List.map_map]; rfl)

include h in
lemma HoldsEdges.srcValues : stringValues batch "src" = .ok (edges.map Edge.src) :=
  stringValues_of_cells (by rw [h.srcs, List.map_map]; rfl)

include h in
lemma HoldsEdges.dstValues : stringValues batch "dst" = .ok (edges.map Edge.dst) :=
  stringValues_of_cells (by rw [h.dsts, List.map_map]; rfl)

/-- Reading a change batch by batch. -/
lemma mapM_batches {β : Type} {read : RecordBatch → Except OmniError (List β)}
    {f : Edge → β} (h : change.HoldsEdges edges)
    (hread : ∀ batch part, HoldsEdges batch part → read batch = .ok (part.map f)) :
    ∃ columns, change.valueBatches.mapM read = .ok columns ∧ columns.flatten = edges.map f := by
  obtain ⟨parts, hparts, rfl⟩ := h
  refine ⟨parts.map (List.map f), ?_, List.map_flatten.symm⟩
  rw [Except.mapM_eq_ok_iff]
  generalize change.valueBatches = batches at hparts
  induction hparts with
  | nil => exact .nil
  | cons hpart _ ih => exact .cons (hread _ _ hpart) ih

lemma TableChange.HoldsEdges.deltaEdgeSrc (h : change.HoldsEdges edges) :
    deltaEdgeSrc change = .ok (edges.map fun e => (e.id, e.src)) := by
  have hread : ∀ batch part, Omnigraph.HoldsEdges batch part →
      edgeSrcsOf batch = .ok (part.map fun e => (e.id, e.src)) := by
    intro batch part hpart
    rw [edgeSrcsOf, hpart.idValues, hpart.srcValues]
    exact congrArg Except.ok List.zip_map'
  obtain ⟨columns, hcolumns, hflat⟩ := mapM_batches h hread
  rw [Omnigraph.deltaEdgeSrc, hcolumns, ← hflat]
  rfl

include h in
lemma HoldsEdges.edgesOf : edgesOf batch = .ok (edges.map fun e => (e.id, e.src, e.dst)) := by
  rw [Omnigraph.edgesOf, h.idValues, h.srcValues, h.dstValues]
  show Except.ok _ = _
  rw [List.zip_map', List.zip_map']

lemma TableChange.HoldsEdges.deltaEdges (h : change.HoldsEdges edges) :
    deltaEdges change = .ok (edges.map fun e => (e.id, e.src, e.dst)) := by
  obtain ⟨columns, hcolumns, hflat⟩ := mapM_batches h fun _ _ hpart => hpart.edgesOf
  rw [Omnigraph.deltaEdges, hcolumns, ← hflat]
  rfl

end Reading

/-! ### The committed edges -/

section Committed

variable {committed : CommittedState} {edgeTable : String} {edges : List Edge}

variable (h : ViewsEdges (committed.openCardinality edgeTable) edges)

include h in
lemma committedEdges_eq {keyCol : String} {key : Edge → String} {keys : List String}
    (hkey : ∀ batch, HoldsEdges batch edges →
      stringCol batch keyCol = .ok (edges.map fun e => some (key e))) :
    committed.committedEdges edgeTable keyCol keys =
      .ok ((edges.filter fun e => key e ∈ keys).map fun e => (e.id, e.src)) := by
  unfold CommittedState.committedEdges
  cases hopen : committed.openCardinality edgeTable with
  | none =>
    rw [hopen] at h
    rw [show edges = [] from h]
    rfl
  | some table =>
    rw [hopen] at h
    have h : HoldsEdges table edges := h
    show (if keys = [] then _ else _) = _
    split_ifs with hkeys
    · simp [hkeys]
    · rw [hkey table h, h.idValues, h.srcValues]
      show Except.ok _ = _
      rw [List.zip_map', List.zip_map', List.filter_map, List.map_map]
      congr 1

end Committed

/-! ### The table a change leaves -/

/-- The rows after a change: an overwrite leaves exactly its own rows; any other change removes
the deleted ids and then replaces by id, the last row of an id winning. -/
def resultingEdges (overwrites : Bool) (committed delta : List Edge) (deletedIds : List String) :
    List Edge :=
  if overwrites then delta
  else Keyed.upsertAll Edge.id (committed.filter fun e => e.id ∉ deletedIds) delta

lemma mem_resultingEdges {committed delta : List Edge} {deletedIds : List String} {e : Edge} :
    e ∈ resultingEdges false committed delta deletedIds ↔
      Keyed.IsLast Edge.id delta e ∨
        (e ∈ committed ∧ e.id ∉ deletedIds ∧ ∀ r ∈ delta, r.id ≠ e.id) := by
  show e ∈ Keyed.upsertAll _ _ _ ↔ _
  rw [Keyed.mem_upsertAll_iff]
  simp [and_assoc]

/-! ### The write surfaces -/

/-- Where a change comes from, with the snapshots it is validated against. -/
inductive WriteSurface
  | merge (target : Snapshot)
  | mutation (base live : Snapshot)
  | load (base : Snapshot) (mode : LoadMode)

namespace WriteSurface

def committedState (surface : WriteSurface) (changeset : ChangeSet) : CommittedState :=
  match surface with
  | merge target => .merge target
  | mutation base live => .write base live
  | load base mode => .load base mode changeset

def overwrites : WriteSurface → Bool
  | load _ mode => mode = .overwrite
  | _ => false

/-- The committed table; a mutation counts edges in the current snapshot of its branch. -/
def table (tableKey : String) : WriteSurface → Option RecordBatch
  | merge target => target.lookup tableKey
  | mutation _ live => live.lookup tableKey
  | load base _ => base.lookup tableKey

/-- A mutation writes to tables it has opened. -/
def Opens (tableKey : String) : WriteSurface → Prop
  | mutation base _ => tableKey ∈ base
  | _ => True

/-- The snapshot the other lookups read. -/
def base : WriteSurface → Snapshot
  | merge target => target
  | mutation base _ => base
  | load base _ => base

variable {surface : WriteSurface} {changeset : ChangeSet} {tableKey : String}

lemma openCardinality_of_keeps (hopens : surface.Opens tableKey)
    (hkeeps : surface.overwrites = false) :
    (surface.committedState changeset).openCardinality tableKey = surface.table tableKey := by
  cases surface with
  | merge target =>
    show (target.lookup tableKey).bind some = _
    exact Option.bind_fun_some _
  | mutation base live =>
    obtain ⟨table, htable⟩ := HashMap.mem_iff_exists_lookup.mp hopens
    show (base.lookup tableKey).bind (fun _ => live.lookup tableKey) = _
    rw [htable]
    rfl
  | load base mode =>
    cases mode with
    | overwrite => cases hkeeps
    | append =>
      show (base.lookup tableKey).bind some = _
      exact Option.bind_fun_some _
    | merge =>
      show (base.lookup tableKey).bind some = _
      exact Option.bind_fun_some _

/-- An overwritten table looks empty. -/
lemma openCardinality_of_overwrites (hmem : tableKey ∈ changeset)
    (hoverwrites : surface.overwrites = true) :
    (surface.committedState changeset).openCardinality tableKey = none := by
  cases surface with
  | merge target => cases hoverwrites
  | mutation base live => cases hoverwrites
  | load base mode =>
    cases mode with
    | overwrite => exact if_pos hmem
    | append => cases hoverwrites
    | merge => cases hoverwrites

lemma openTable_of_keeps (hkeeps : surface.overwrites = false) :
    (surface.committedState changeset).openTable tableKey = surface.base.lookup tableKey := by
  cases surface with
  | merge target => rfl
  | mutation base live => rfl
  | load base mode =>
    cases mode with
    | overwrite => cases hkeeps
    | append => rfl
    | merge => rfl

lemma openTable_of_overwrites (hoverwrites : surface.overwrites = true) :
    (surface.committedState changeset).openTable tableKey =
      if tableKey ∈ changeset then none else surface.base.lookup tableKey := by
  cases surface with
  | merge target => cases hoverwrites
  | mutation base live => cases hoverwrites
  | load base mode =>
    cases mode with
    | overwrite =>
      by_cases hmem : tableKey ∈ changeset
      · rw [if_pos hmem]
        exact if_pos hmem
      · rw [if_neg hmem]
        exact if_neg hmem
    | append => cases hoverwrites
    | merge => cases hoverwrites

end WriteSurface

end Omnigraph
