import Omnigraph.Validate.Edges
import Mathlib.Data.List.ReduceOption

/-!
# Referential integrity

The evaluator checks the edges of a change against the nodes there will be, and the committed edges
that stay against the nodes that go. Together the two checks cover every edge of the resulting
graph, whichever tables the change touches and whether it replaces them or not.
-/

namespace Omnigraph

open List Emission

/-! ### Graphs -/

/-- The ids of each node type and the edges of each edge type. -/
structure GraphTables where
  nodes : String → List String
  edges : String → List Edge

/-- Every edge has both its endpoints. -/
def GraphTables.Intact (graph : GraphTables) (catalog : Catalog) : Prop :=
  ∀ name edgeType, catalog.edgeTypes.lookup name = some edgeType → ∀ e ∈ graph.edges name,
    e.src ∈ graph.nodes edgeType.fromType ∧ e.dst ∈ graph.nodes edgeType.toType

/-- A committed node table, or no nodes where there is none. -/
def ViewsIds : Option RecordBatch → List String → Prop
  | none, ids => ids = []
  | some batch, ids => stringCol batch "id" = .ok (ids.map some)

/-- The snapshot holds the graph. -/
structure Snapshot.Holds (snapshot : Snapshot) (graph : GraphTables) : Prop where
  nodes : ∀ name, ViewsIds (snapshot.lookup (nodeKey name)) (graph.nodes name)
  edges : ∀ name, ViewsEdges (snapshot.lookup (edgeKey name)) (graph.edges name)

/-- The rows of the changes, for the tables that have one. -/
structure ChangeSet.Holds (changeset : ChangeSet) (delta : GraphTables) : Prop where
  nodes : ∀ name change, changeset.lookup (nodeKey name) = some change →
    deltaIdSet change = .ok (delta.nodes name)
  edges : ∀ name change, changeset.lookup (edgeKey name) = some change →
    change.HoldsEdges (delta.edges name)

def resultingIds (overwrites : Bool) (committed delta deletedIds : List String) : List String :=
  if overwrites then delta else committed.filter (· ∉ deletedIds) ++ delta

/-- The graph after the changes. Tables without a change stay as they are. -/
def GraphTables.apply (graph delta : GraphTables) (overwrites : Bool) (changeset : ChangeSet) :
    GraphTables where
  nodes name :=
    match changeset.lookup (nodeKey name) with
    | some change => resultingIds overwrites (graph.nodes name) (delta.nodes name) change.deletedIds
    | none => graph.nodes name
  edges name :=
    match changeset.lookup (edgeKey name) with
    | some change =>
      resultingEdges overwrites (graph.edges name) (delta.edges name) change.deletedIds
    | none => graph.edges name

/-! ### What an overwrite removes -/

variable {id tableKey : String} {ids : List String}

section Removed

variable {base : Snapshot} {raw changeset : ChangeSet}

/-- A table's change with the removals of the overwrite. -/
def Folded (base : Snapshot) (tableKey : String) (before change : TableChange) : Prop :=
  change.valueBatches = before.valueBatches ∧
    ∃ removed, overwriteRemovedIds base tableKey before = .ok removed ∧
      ∀ id ∈ removed, id ∈ change.deletedIds

variable {change : TableChange}

/-- Folding in the removed ids keeps the tables and extends their deletions. -/
lemma foldRemovedIds_folded (h : foldRemovedIds base raw = .ok changeset)
    (hchange : changeset.lookup tableKey = some change) :
    ∃ before, raw.lookup tableKey = some before ∧ Folded base tableKey before change := by
  -- each round replaces the change of its own table
  have hrun : ∀ (l : List (Sigma fun _ : String => TableChange)) (acc : ChangeSet),
      (∀ k c, acc.lookup k = some c → (∃ before, raw.lookup k = some before ∧
        Folded base k before c) ∨ ((⟨k, c⟩ : Sigma fun _ : String => TableChange) ∈ l)) →
      (∀ entry ∈ l, raw.lookup entry.1 = some entry.2) →
      l.foldlM (fun acc entry => do
        let removed ← overwriteRemovedIds base entry.1 entry.2
        return if removed = [] then acc
          else acc.insert entry.1 { entry.2 with deletedIds := removed }) acc = .ok changeset →
      ∀ k c, changeset.lookup k = some c →
        ∃ before, raw.lookup k = some before ∧ Folded base k before c := by
    intro l
    induction l with
    | nil =>
      intro acc hacc _ hfold k c hlook
      cases hfold
      rcases hacc k c hlook with hdone | hmem
      · exact hdone
      · cases hmem
    | cons entry l ih =>
      intro acc hacc hraw hfold
      rw [foldlM_cons] at hfold
      obtain ⟨next, hnext, hrest⟩ := Except.bind_eq_ok_iff.mp hfold
      obtain ⟨removed, hremoved, hres⟩ := Except.bind_eq_ok_iff.mp hnext
      cases hres
      have hentry := hraw entry mem_cons_self
      refine ih _ ?_ (fun e he => hraw e (mem_cons_of_mem _ he)) hrest
      intro k c hlook
      split_ifs at hlook with hempty
      · rcases hacc k c hlook with hdone | hmem
        · exact .inl hdone
        · rcases mem_cons.mp hmem with heq | hmem
          · cases heq
            refine .inl ⟨c, hentry, rfl, removed, hremoved, ?_⟩
            rw [hempty]
            exact fun id hid => (nomatch hid)
          · exact .inr hmem
      · rw [HashMap.lookup_insert_ite] at hlook
        split_ifs at hlook with hk
        · cases hlook
          subst hk
          exact .inl ⟨entry.2, hentry, rfl, removed, hremoved, fun id hid => hid⟩
        · rcases hacc k c hlook with hdone | hmem
          · exact .inl hdone
          · rcases mem_cons.mp hmem with heq | hmem
            · cases heq
              exact absurd rfl hk
            · exact .inr hmem
  refine hrun raw.entries raw (fun k c hlook => .inr ?_) ?_ h tableKey change hchange
  · exact HashMap.lookup_eq_some_iff_mem.mp hlook
  · exact fun entry hentry => HashMap.lookup_eq_some_iff_mem.mpr hentry

/-- Every committed id is written again or deleted. -/
lemma mem_deletedIds_of_folded (h : foldRemovedIds base raw = .ok changeset)
    (hchange : changeset.lookup tableKey = some change) {delta : List String}
    (hids : ViewsIds (base.lookup tableKey) ids) (hdelta : deltaIdSet change = .ok delta)
    (hid : id ∈ ids) (hnew : id ∉ delta) : id ∈ change.deletedIds := by
  obtain ⟨before, -, hbatches, removed, hremoved, hall⟩ := foldRemovedIds_folded h hchange
  apply hall
  unfold overwriteRemovedIds at hremoved
  cases htable : base.lookup tableKey with
  | none =>
    rw [htable] at hids
    rw [show ids = [] from hids] at hid
    cases hid
  | some table =>
    rw [htable] at hids hremoved
    have hsame : deltaIdSet before = .ok delta := by
      rw [← hdelta, deltaIdSet, deltaIdSet, hbatches]
    dsimp only at hremoved
    rw [hsame, show stringCol table "id" = .ok (ids.map some) from hids] at hremoved
    cases hremoved
    rw [mem_filter, reduceOption_mem_iff]
    exact ⟨List.mem_map_of_mem hid, decide_eq_true hnew⟩

end Removed

/-! ### The two checks -/

variable {e : Edge} {u : Unit}

section Checks

variable {committed : CommittedState} {edgeTable fromType toType : String} {changeset : ChangeSet}

lemma mem_existingIds {view existing : List String}
    (hview : ViewsIds (committed.openTable tableKey) view)
    (h : committed.existingIds tableKey ids = .ok existing) (hid : id ∈ existing) :
    id ∈ view ∧ id ∈ ids := by
  unfold CommittedState.existingIds at h
  cases hopen : committed.openTable tableKey with
  | none =>
    rw [hopen] at h
    cases h
    cases hid
  | some table =>
    rw [hopen] at h hview
    dsimp only at h
    split_ifs at h with hempty
    · cases h
      cases hid
    · rw [show stringCol table "id" = .ok (view.map some) from hview] at h
      cases h
      rw [mem_filter, reduceOption_mem_iff, decide_eq_true_iff] at hid
      exact ⟨by simpa using hid.1, hid.2⟩

variable {edges : List Edge}

lemma edgesReferencing_eq {srcNodes dstNodes : List String}
    (h : ViewsEdges (committed.openTable edgeTable) edges) :
    committed.edgesReferencing edgeTable srcNodes dstNodes =
      .ok ((edges.filter fun e => e.src ∈ srcNodes ∨ e.dst ∈ dstNodes).map
        fun e => (e.id, e.src, e.dst)) := by
  unfold CommittedState.edgesReferencing
  split_ifs with hempty
  · simp [hempty]
  cases hopen : committed.openTable edgeTable with
  | none =>
    rw [hopen] at h
    rw [show edges = [] from h]
    rfl
  | some table =>
    rw [hopen] at h
    have h : HoldsEdges table edges := h
    dsimp only
    rw [h.srcs, h.dsts, h.idValues, h.srcValues, h.dstValues]
    show Except.ok _ = _
    rw [zip_map', zip_map', zip_map', zip_map', List.filter_map, List.map_map]
    congr 2
    · simp [Function.comp_def]

/-- The orphans a quiet run rules out. -/
abbrev IsOrphan (violation : Violation) : Prop := violation.kind = .orphanEdge

lemma quiet_checkDeltaEdges {edges : List (String × String × String)}
    (h : Quiet IsOrphan (checkDeltaEdges edgeTable fromType toType edges changeset committed) u)
    {e : String × String × String} (he : e ∈ edges) :
    (∃ ids exist, mergedNodeExistence (nodeKey fromType) ids changeset committed = .ok exist ∧
      e.2.1 ∈ exist) ∧
    ∃ ids exist, mergedNodeExistence (nodeKey toType) ids changeset committed = .ok exist ∧
      e.2.2 ∈ exist := by
  unfold checkDeltaEdges at h
  split_ifs at h with hempty
  · rw [hempty] at he
    cases he
  simp only [quiet_bind_iff, quiet_lift_iff, quiet_forM_iff, quiet_emitIf_iff] at h
  obtain ⟨fromExist, hfrom, toExist, hto, hall⟩ := h
  obtain ⟨_, hsrc, hdst⟩ := hall e he
  refine ⟨⟨_, fromExist, hfrom, ?_⟩, ⟨_, toExist, hto, ?_⟩⟩
  · by_contra hmissing
    exact hsrc hmissing rfl
  · by_contra hmissing
    exact hdst hmissing rfl

/-- A kept edge without a violation has both its ends. -/
lemma quiet_checkStrandedEdges {deltaEdgeIds removed : List String}
    (hview : ViewsEdges (committed.openTable edgeTable) edges)
    (h : Quiet IsOrphan (checkStrandedEdges edgeTable fromType toType deltaEdgeIds removed
      changeset committed) u) (he : e ∈ edges) (hdelta : e.id ∉ deltaEdgeIds)
    (hkept : e.id ∉ removed) :
    e.src ∉ changeDeletedIds changeset (nodeKey fromType) ∧
      e.dst ∉ changeDeletedIds changeset (nodeKey toType) := by
  by_contra hstranded
  have href : e.src ∈ changeDeletedIds changeset (nodeKey fromType) ∨
      e.dst ∈ changeDeletedIds changeset (nodeKey toType) := by
    by_contra hno
    exact hstranded (not_or.mp hno)
  unfold checkStrandedEdges at h
  dsimp only at h
  split_ifs at h with hempty
  · rw [hempty.1, hempty.2] at href
    simp at href
  rw [quiet_bind_iff] at h
  simp only [edgesReferencing_eq hview, quiet_lift_iff, Except.ok.injEq, exists_eq_left',
    quiet_forM_iff] at h
  have hround := h (e.id, e.src, e.dst)
    (List.mem_map.mpr ⟨e, mem_filter.mpr ⟨he, decide_eq_true href⟩, rfl⟩)
  rw [if_neg (by simp [hdelta, hkept]), quiet_bind_iff] at hround
  simp only [quiet_emitIf_iff] at hround
  obtain ⟨_, hsrc, hdst⟩ := hround
  rcases href with hmem | hmem
  · exact hsrc hmem rfl
  · exact hdst hmem rfl

end Checks

/-! ### Soundness -/

section Sound

variable {surface : WriteSurface} {changeset : ChangeSet} {graph delta : GraphTables}

/-- The overwrite's removals are in the change set. -/
def RemovalsFolded (surface : WriteSurface) (changeset : ChangeSet) : Prop :=
  surface.overwrites = true → ∃ raw, foldRemovedIds surface.base raw = .ok changeset

/-- The evaluator's view of a table that is not replaced. -/
lemma openTable_eq (h : surface.overwrites = true → tableKey ∉ changeset) :
    (surface.committedState changeset).openTable tableKey = surface.base.lookup tableKey := by
  cases hoverwrites : surface.overwrites with
  | false => exact WriteSurface.openTable_of_keeps hoverwrites
  | true => rw [WriteSurface.openTable_of_overwrites hoverwrites, if_neg (h hoverwrites)]

variable {name : String} {catalog : Catalog}

/-- A node the evaluator finds is one there will be. -/
lemma mem_nodes_of_exists (hbase : surface.base.Holds graph) (hdelta : changeset.Holds delta)
    {exist : List String}
    (h : mergedNodeExistence (nodeKey name) ids changeset (surface.committedState changeset) =
      .ok exist) (hid : id ∈ exist) :
    id ∈ (graph.apply delta surface.overwrites changeset).nodes name := by
  obtain ⟨added, hadded, h⟩ := Except.bind_eq_ok_iff.mp h
  obtain ⟨existing, hexisting, hres⟩ := Except.bind_eq_ok_iff.mp h
  cases hres
  unfold changeIds at hadded
  unfold changeDeletedIds at hexisting
  cases hchange : changeset.lookup (nodeKey name) with
  | none =>
    rw [hchange] at hadded
    cases hadded
    have hview : ViewsIds ((surface.committedState changeset).openTable (nodeKey name))
        (graph.nodes name) := by
      rw [openTable_eq fun _ hmem => ?_]
      · exact hbase.nodes name
      · exact AList.lookup_eq_none.mp hchange hmem
    have hid : id ∈ existing := by simpa using hid
    simp only [GraphTables.apply, hchange]
    exact (mem_existingIds hview hexisting hid).1
  | some change =>
    rw [hchange] at hadded hexisting
    cases (hdelta.nodes name change hchange).symm.trans hadded
    simp only [GraphTables.apply, hchange, resultingIds]
    rcases mem_append.mp hid with hid | hid
    · have hnew : id ∈ delta.nodes name := by simpa using (mem_filter.mp hid).2
      split_ifs with hoverwrites
      · exact hnew
      · exact mem_append_right _ hnew
    · cases hoverwrites : surface.overwrites with
      | true =>
        -- a replaced table shows no committed node
        have hview : ViewsIds ((surface.committedState changeset).openTable (nodeKey name)) [] := by
          rw [WriteSurface.openTable_of_overwrites hoverwrites,
            if_pos (HashMap.mem_of_lookup hchange)]
          rfl
        exact absurd (mem_existingIds hview hexisting hid).1 not_mem_nil
      | false =>
        have hview : ViewsIds ((surface.committedState changeset).openTable (nodeKey name))
            (graph.nodes name) := by
          rw [WriteSurface.openTable_of_keeps hoverwrites]
          exact hbase.nodes name
        obtain ⟨hmem, hprobed⟩ := mem_existingIds hview hexisting hid
        have hkept : id ∉ change.deletedIds := by
          have := (mem_filter.mp hprobed).2
          simpa using (of_decide_eq_true this).2
        exact mem_append_left _ (mem_filter.mpr ⟨hmem, decide_eq_true hkept⟩)

/-- A committed node that the changes do not delete stays. -/
lemma mem_nodes_of_not_deleted (hbase : surface.base.Holds graph) (hdelta : changeset.Holds delta)
    (hfolded : RemovalsFolded surface changeset) (hid : id ∈ graph.nodes name)
    (hkept : id ∉ changeDeletedIds changeset (nodeKey name)) :
    id ∈ (graph.apply delta surface.overwrites changeset).nodes name := by
  cases hchange : changeset.lookup (nodeKey name) with
  | none =>
    simp only [GraphTables.apply, hchange]
    exact hid
  | some change =>
    have hkept : id ∉ change.deletedIds := by simpa [changeDeletedIds, hchange] using hkept
    simp only [GraphTables.apply, hchange, resultingIds]
    split_ifs with hoverwrites
    · obtain ⟨raw, hraw⟩ := hfolded hoverwrites
      by_contra hnew
      exact hkept (mem_deletedIds_of_folded hraw hchange (hbase.nodes name)
        (hdelta.nodes name change hchange) hid hnew)
    · exact mem_append_left _ (mem_filter.mpr ⟨hid, decide_eq_true hkept⟩)

/-- An edge of the result is one of the change, or a committed one in a table that is not
replaced. -/
lemma mem_edges_apply (he : e ∈ (graph.apply delta surface.overwrites changeset).edges name) :
    (∃ change, changeset.lookup (edgeKey name) = some change ∧ e ∈ delta.edges name) ∨
      (e ∈ graph.edges name ∧ (surface.overwrites = true → edgeKey name ∉ changeset) ∧
        ∀ change, changeset.lookup (edgeKey name) = some change →
          e.id ∉ change.deletedIds ∧ ∀ r ∈ delta.edges name, r.id ≠ e.id) := by
  cases hchange : changeset.lookup (edgeKey name) with
  | none =>
    simp only [GraphTables.apply, hchange] at he
    exact .inr ⟨he, fun _ => AList.lookup_eq_none.mp hchange, fun change h => (nomatch h)⟩
  | some change =>
    simp only [GraphTables.apply, hchange] at he
    cases hoverwrites : surface.overwrites with
    | true =>
      rw [hoverwrites] at he
      exact .inl ⟨change, rfl, he⟩
    | false =>
      rw [hoverwrites, mem_resultingEdges] at he
      rcases he with hlast | ⟨he, hkept, hnew⟩
      · exact .inl ⟨change, rfl, hlast.mem⟩
      · refine .inr ⟨he, fun h => (nomatch h), fun change' h => ?_⟩
        cases h
        exact ⟨hkept, hnew⟩

/-- The evaluation of one edge type covers all its edges. -/
theorem endpoints_of_quiet (hbase : surface.base.Holds graph) (hdelta : changeset.Holds delta)
    (hfolded : RemovalsFolded surface changeset) {fromType toType : String}
    (hquiet : Quiet IsOrphan (evaluateEdgeRi (edgeKey name) fromType toType
      (changeset.lookup (edgeKey name)) changeset (surface.committedState changeset)) u)
    (hintact : ∀ e ∈ graph.edges name, e.src ∈ graph.nodes fromType ∧ e.dst ∈ graph.nodes toType)
    (he : e ∈ (graph.apply delta surface.overwrites changeset).edges name) :
    e.src ∈ (graph.apply delta surface.overwrites changeset).nodes fromType ∧
      e.dst ∈ (graph.apply delta surface.overwrites changeset).nodes toType := by
  unfold evaluateEdgeRi at hquiet
  simp only [quiet_bind_iff, quiet_lift_iff] at hquiet
  obtain ⟨edges, hedges, _, hnewEdges, hstranded⟩ := hquiet
  -- a written edge was checked itself, a kept one only against the removed nodes
  rcases mem_edges_apply he with ⟨change, hchange, he⟩ | ⟨he, hkeeps, hkept⟩
  · rw [hchange, changeEdges, (hdelta.edges name change hchange).deltaEdges] at hedges
    cases hedges
    obtain ⟨⟨_, _, hfrom, hsrc⟩, ⟨_, _, hto, hdst⟩⟩ :=
      quiet_checkDeltaEdges hnewEdges (List.mem_map.mpr ⟨e, he, rfl⟩)
    exact ⟨mem_nodes_of_exists hbase hdelta hfrom hsrc, mem_nodes_of_exists hbase hdelta hto hdst⟩
  · have hview : ViewsEdges ((surface.committedState changeset).openTable (edgeKey name))
        (graph.edges name) := by
      rw [openTable_eq hkeeps]
      exact hbase.edges name
    have hid : e.id ∉ edges.map Prod.fst ∧
        e.id ∉ ((changeset.lookup (edgeKey name)).map TableChange.deletedIds).getD [] := by
      cases hchange : changeset.lookup (edgeKey name) with
      | none =>
        rw [hchange] at hedges
        cases hedges
        simp
      | some change =>
        rw [hchange, changeEdges, (hdelta.edges name change hchange).deltaEdges] at hedges
        cases hedges
        obtain ⟨hnot, hnew⟩ := hkept change hchange
        refine ⟨?_, hnot⟩
        rw [List.map_map]
        intro hmem
        obtain ⟨r, hr, hrid⟩ := List.mem_map.mp hmem
        exact hnew r hr hrid
    obtain ⟨hsrc, hdst⟩ := quiet_checkStrandedEdges hview hstranded he hid.1 hid.2
    obtain ⟨hfrom, hto⟩ := hintact e he
    exact ⟨mem_nodes_of_not_deleted hbase hdelta hfolded hfrom hsrc,
      mem_nodes_of_not_deleted hbase hdelta hfolded hto hdst⟩

/-- Where the gate skips an edge type, there is nothing to check. -/
lemma quiet_evaluateEdgeRi_of_constraint {leaf : LeafChecks}
    {sameValue : ScalarValue → ScalarValue → Bool} {committed : CommittedState}
    {fromType toType : String}
    (h : Quiet IsOrphan (evaluateConstraint leaf sameValue changeset committed catalog
      (.edgeRi tableKey fromType toType)) u) :
    Quiet IsOrphan (evaluateEdgeRi tableKey fromType toType (changeset.lookup tableKey) changeset
      committed) u := by
  unfold evaluateConstraint at h
  dsimp only at h
  split_ifs at h with hgate
  · exact h
  · push Not at hgate
    obtain ⟨hchange, hfrom, hto⟩ := hgate
    have hnone : changeset.lookup tableKey = none := by simpa using hchange
    unfold evaluateEdgeRi checkStrandedEdges
    rw [hnone, quiet_bind_iff]
    refine ⟨[], quiet_lift_iff.mpr rfl, ?_⟩
    rw [quiet_bind_iff]
    refine ⟨(), by simp [checkDeltaEdges], ?_⟩
    dsimp only
    rw [if_pos ⟨hfrom, hto⟩]
    exact quiet_pure_iff.mpr rfl

lemma edgeRi_mem_constraintsFor {edgeType : EdgeType}
    (h : catalog.edgeTypes.lookup name = some edgeType) :
    Constraint.edgeRi (edgeKey name) edgeType.fromType edgeType.toType ∈
      constraintsFor catalog := by
  have hentry := HashMap.lookup_eq_some_iff_mem.mp h
  refine mem_append_right _ (mem_flatMap.mpr ⟨_, hentry, ?_⟩)
  exact mem_append_right _ mem_cons_self

lemma records_counting {σ : Type} {sink : σ → Violation → Except OmniError σ}
    {given : σ → List Violation} (h : Records sink given) :
    Records (counting sink) fun state => given state.1 := by
  intro state violation next hnext
  unfold counting at hnext
  split_ifs at hnext
  cases hsink : sink state.1 violation with
  | error e =>
    rw [hsink] at hnext
    cases hnext
  | ok after =>
    rw [hsink] at hnext
    cases hnext
    exact h state.1 violation after hsink

/-- For every intact graph, change set and surface, and whatever the sink does: if the evaluation of
the catalog's constraints ends without an orphan edge among the violations it emits, then the
resulting graph is intact, in the tables the changes mention and in the others. -/
theorem referential_integrity_sound {leaf : LeafChecks}
    {sameValue : ScalarValue → ScalarValue → Bool} {catalog : Catalog} {σ : Type}
    {sink : σ → Violation → Except OmniError σ} {s s' : σ} {count : ℕ} {emitted : List Violation}
    (hbase : surface.base.Holds graph) (hdelta : changeset.Holds delta)
    (hfolded : RemovalsFolded surface changeset) (hintact : graph.Intact catalog)
    (hrun : evaluateWithSink leaf sameValue (constraintsFor catalog) changeset
      (surface.committedState changeset) catalog (recording sink) ([], s) =
        .ok (count, (emitted, s')))
    (hnone : ∀ violation ∈ emitted, violation.kind ≠ .orphanEdge) :
    (graph.apply delta surface.overwrites changeset).Intact catalog := by
  unfold evaluateWithSink at hrun
  cases hfeed : (evaluateAll leaf sameValue (constraintsFor catalog) changeset
      (surface.committedState changeset) catalog).feed (counting (recording sink)) (([], s), 0) with
  | error e =>
    rw [hfeed] at hrun
    cases hrun
  | ok ended =>
    obtain ⟨u, ⟨given, last⟩, n⟩ := ended
    rw [hfeed] at hrun
    cases hrun
    have hquiet := quiet_of_feed (records_counting (records_recording sink)) hfeed hnone
    unfold evaluateAll at hquiet
    rw [quiet_forM_iff] at hquiet
    intro name edgeType hedge e he
    exact endpoints_of_quiet hbase hdelta hfolded
      (quiet_evaluateEdgeRi_of_constraint (hquiet _ (edgeRi_mem_constraintsFor hedge)))
      (hintact name edgeType hedge) he

end Sound

/-! A load replaces the nodes: it drops one that no edge needs and adds one. The edge table is not
part of the load. -/

/-- A batch of nodes without properties. -/
def nodeBatch (ids : List String) : RecordBatch where
  columns := [("id", .string .utf8 (ids.map some))]
  numRows := ids.length
  length_eq := by simp [Column.length]

lemma no_minimum : 0 < 2 ^ 32 := by decide

lemma no_maximum : ∀ m ∈ (none : Option ℕ), m < 2 ^ 32 := fun _ h => absurd h (by simp)

def friendsCatalog : Catalog where
  nodeTypes := AList.insert "Person" ⟨none, []⟩ ∅
  edgeTypes := AList.insert "Knows"
    ⟨"Knows", "Person", "Person", ⟨0, none, no_minimum, no_maximum⟩, []⟩ ∅

def friendsSnapshot : Snapshot :=
  AList.insert (nodeKey "Person") (nodeBatch ["alice", "bob", "dave"])
    (AList.insert (edgeKey "Knows") (edgeBatch [⟨"k1", "alice", "bob"⟩]) ∅)

/-- One table of nodes and one of edges. -/
def friends (people : List String) (knows : List Edge) : GraphTables where
  nodes name := if name = "Person" then people else []
  edges name := if name = "Knows" then knows else []

def friendsChange (deletedIds : List String) : ChangeSet :=
  AList.insert (nodeKey "Person") ⟨[], [nodeBatch ["alice", "bob", "carol"]], deletedIds⟩ ∅

def noLeafChecks : LeafChecks := ⟨fun _ _ => .ok (), fun _ _ => .ok ()⟩

lemma friendsSnapshot_holds :
    friendsSnapshot.Holds (friends ["alice", "bob", "dave"] [⟨"k1", "alice", "bob"⟩]) := by
  refine ⟨fun name => ?_, fun name => ?_⟩
  · simp only [friendsSnapshot, HashMap.lookup_insert_ite, nodeKey_inj, nodeKey_ne_edgeKey,
      if_false, friends]
    split_ifs
    · rfl
    · rfl
  · simp only [friendsSnapshot, HashMap.lookup_insert_ite, edgeKey_inj, nodeKey_ne_edgeKey.symm,
      if_false, friends]
    split_ifs
    · exact holdsEdges_edgeBatch _
    · rfl

lemma friendsChange_holds (deletedIds : List String) :
    (friendsChange deletedIds).Holds (friends ["alice", "bob", "carol"] []) := by
  refine ⟨fun name change h => ?_, fun name change h => ?_⟩
  · simp only [friendsChange, HashMap.lookup_insert_ite, nodeKey_inj, AList.lookup_empty] at h
    split_ifs at h with hname
    subst hname
    cases h
    rfl
  · simp only [friendsChange, HashMap.lookup_insert_ite, nodeKey_ne_edgeKey.symm, if_false,
      AList.lookup_empty] at h
    cases h

theorem referential_integrity_overwritten :
    ((friends ["alice", "bob", "dave"] [⟨"k1", "alice", "bob"⟩]).apply
      (friends ["alice", "bob", "carol"] []) true (friendsChange ["dave"])).Intact
        friendsCatalog := by
  refine @referential_integrity_sound (.load friendsSnapshot .overwrite) (friendsChange ["dave"])
    (friends ["alice", "bob", "dave"] [⟨"k1", "alice", "bob"⟩])
    (friends ["alice", "bob", "carol"] []) noLeafChecks (fun a b => a = b) friendsCatalog Unit
    (fun _ _ => .ok ()) () () 0 [] friendsSnapshot_holds (friendsChange_holds _)
    (fun _ => ⟨friendsChange [], ?_⟩) ?_ (by decide +kernel) (by simp)
  · rfl
  · intro name edgeType hedge e he
    simp only [friendsCatalog, HashMap.lookup_insert_ite, AList.lookup_empty] at hedge
    split_ifs at hedge with hname
    cases hedge
    simp only [friends, if_pos hname, mem_singleton] at he
    subst he
    decide

end Omnigraph
