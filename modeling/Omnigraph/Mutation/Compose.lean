import Omnigraph.Mutation.Delete

/-!
# Delete statements compose

The predicates recorded for a table match, row by row, what some statement or some cascade of a
statement matches. Each statement records the ids of the rows it is the first to match, so every
removed row is recorded and counted once.
-/

namespace Omnigraph

open List DeleteStaging

open Compiler (CompOp Literal)

variable {env : DeleteEnv}

/-! ### What a filter matches -/

/-- The filter is true of the row: false and unknown rows stay. -/
def Sql.Matches (env : DeleteEnv) (filter : Sql) (row : TableRow) : Prop :=
  filter.eval env.compare row = some true

variable {row : TableRow}

lemma matches_orAll {p : Sql} {rest : List Sql} :
    (orAll p rest).Matches env row ↔ ∃ q ∈ p :: rest, q.Matches env row := by
  induction rest generalizing p with
  | nil => simp [orAll]
  | cons q rest ih =>
    rw [orAll, foldl_cons]
    refine (ih (p := .or p q)).trans ?_
    simp only [mem_cons, exists_eq_or_imp, Sql.Matches, Sql.eval, Truth.or_eq_true, or_assoc]

/-- A predicate recorded for the table matches the row. -/
def DeleteStaging.Hits (env : DeleteEnv) (st : DeleteStaging) (tableKey : String)
    (row : TableRow) : Prop :=
  ∃ p ∈ st.recordedDeletePredicates tableKey, p.Matches env row

variable {base filter : Sql} {table : StoredTable}

/-- The scan of a statement finds what it matches and no earlier predicate did. -/
lemma matches_dedup {st : DeleteStaging} {tableKey : String} :
    (dedupDeleteFilter base (st.recordedDeletePredicates tableKey)).Matches env row ↔
      base.Matches env row ∧ ¬ st.Hits env tableKey row := by
  unfold DeleteStaging.Hits
  cases hprior : st.recordedDeletePredicates tableKey with
  | nil => simp [dedupDeleteFilter]
  | cons p prior =>
    rw [← matches_orAll]
    simp only [dedupDeleteFilter, Sql.Matches, Sql.eval, Truth.and_eq_true,
      Truth.isNotTrue_eq_true, ne_eq]

lemma mem_scanIds {id : String} :
    id ∈ scanIds env table filter ↔ ∃ row ∈ table.rows, row.id = id ∧ filter.Matches env row := by
  simp only [scanIds, List.mem_map, mem_filter, decide_eq_true_eq, Sql.Matches]
  constructor
  · rintro ⟨row, ⟨hrow, hmatch⟩, rfl⟩
    exact ⟨row, hrow, rfl, hmatch⟩
  · rintro ⟨row, hrow, rfl, hmatch⟩
    exact ⟨row, ⟨hrow, hmatch⟩, rfl⟩

lemma scanIds_nodup (table : StoredTable) (filter : Sql) : (scanIds env table filter).Nodup :=
  (List.Nodup.sublist ((filter_sublist).map TableRow.id) table.nodup)

lemma StoredTable.eq_of_id {row' : TableRow} (hrow : row ∈ table.rows) (hrow' : row' ∈ table.rows)
    (h : row.id = row'.id) : row = row' :=
  inj_on_of_nodup_map table.nodup hrow hrow' h

/-! ### One scheduled delete -/

namespace DeleteStaging

lemma predicates_recordDelete (st : DeleteStaging) (tableKey key : String) (p : Sql) :
    (st.recordDelete tableKey p).recordedDeletePredicates key =
      if key = tableKey then st.recordedDeletePredicates tableKey ++ [p]
      else st.recordedDeletePredicates key := by
  simp only [recordDelete, recordedDeletePredicates, HashMap.lookup_insert_ite]
  split_ifs <;> rfl

lemma predicates_recordDeletedIds (st : DeleteStaging) (tableKey key : String)
    (ids : List String) : (st.recordDeletedIds tableKey ids).recordedDeletePredicates key =
      st.recordedDeletePredicates key := by
  unfold recordDeletedIds
  split_ifs <;> rfl

lemma recordedIds_recordDeletedIds (st : DeleteStaging) (tableKey key : String)
    (ids : List String) : (st.recordDeletedIds tableKey ids).recordedIds key =
      if key = tableKey then st.recordedIds key ++ ids else st.recordedIds key := by
  unfold recordDeletedIds
  split_ifs with hempty hkey hkey
  · rw [hempty, append_nil]
  · rfl
  · rw [hkey]
    simp only [recordedIds, AList.lookup_insert, Option.getD_some]
  · simp only [recordedIds, AList.lookup_insert_ne hkey]

end DeleteStaging

/-- What scheduling a delete on a table does. -/
structure Scheduled (env : DeleteEnv) (tableKey : String) (base : Sql) (st : DeleteStaging)
    (ids : List String) (st' : DeleteStaging) (table : StoredTable) : Prop where
  table_eq : env.graph.lookup tableKey = some table
  ids_nodup : ids.Nodup
  mem_ids : ∀ id, id ∈ ids ↔ ∃ row ∈ table.rows, row.id = id ∧ base.Matches env row ∧
    ¬ st.Hits env tableKey row
  recorded : ∀ key, st'.recordedIds key =
    if key = tableKey then st.recordedIds key ++ ids else st.recordedIds key
  hits : ∀ row ∈ table.rows, st'.Hits env tableKey row ↔
    st.Hits env tableKey row ∨ base.Matches env row
  hits_other : ∀ key ≠ tableKey, ∀ row, st'.Hits env key row ↔ st.Hits env key row

variable {ids : List String}

/-- A scheduled delete is of one table, with the ids that match it. -/
lemma scheduleDelete_ok {tableKey : String} {st st' : DeleteStaging}
    (h : scheduleDelete env tableKey base st = .ok (ids, st')) :
    ∃ table, Scheduled env tableKey base st ids st' table := by
  rw [scheduleDelete, Except.bind_eq_ok_iff] at h
  obtain ⟨table, hopen, h⟩ := h
  have htable : env.graph.lookup tableKey = some table := by
    unfold openTableForMutation at hopen
    cases hlook : env.graph.lookup tableKey with
    | none => rw [hlook] at hopen; cases hopen
    | some found => rw [hlook] at hopen; cases hopen; rfl
  have hmem : ∀ id, id ∈ scanIds env table
      (dedupDeleteFilter base (st.recordedDeletePredicates tableKey)) ↔
      ∃ row ∈ table.rows, row.id = id ∧ base.Matches env row ∧ ¬ st.Hits env tableKey row := by
    intro id
    simp only [mem_scanIds, matches_dedup]
  have hnodup := @scanIds_nodup env table
    (dedupDeleteFilter base (st.recordedDeletePredicates tableKey))
  dsimp only at h
  split_ifs at h with hempty
  · -- nothing new: every row the predicate matches was matched before
    cases h
    refine ⟨table, htable, hnodup, hmem, fun key => ?_, fun row hrow => ?_, fun _ _ _ => Iff.rfl⟩
    · rw [hempty, append_nil, ite_self]
    · refine ⟨.inl, ?_⟩
      rintro (hhit | hbase)
      · exact hhit
      · by_contra hnot
        have := (hmem row.id).mpr ⟨row, hrow, rfl, hbase, hnot⟩
        rw [hempty] at this
        cases this
  · cases h
    refine ⟨table, htable, hnodup, hmem, fun key => ?_, fun row hrow => ?_, fun key hne row => ?_⟩
    · exact recordedIds_recordDeletedIds st tableKey key _
    · simp only [DeleteStaging.Hits, predicates_recordDelete, if_pos,
        predicates_recordDeletedIds, mem_append, mem_singleton,
        or_and_right, exists_or, exists_eq_left]
    · simp only [DeleteStaging.Hits, predicates_recordDelete, if_neg hne,
        predicates_recordDeletedIds]

/-! ### The records agree with the predicates -/

/-- The ids recorded for a table are those of the rows its predicates match, each once. -/
def DeleteStaging.Consistent (env : DeleteEnv) (st : DeleteStaging) : Prop :=
  ∀ key table, env.graph.lookup key = some table → (st.recordedIds key).Nodup ∧
    ∀ id, id ∈ st.recordedIds key ↔ ∃ row ∈ table.rows, row.id = id ∧ st.Hits env key row

/-- A scheduled delete keeps the recorded ids those that the predicates match. -/
lemma Scheduled.consistent {tableKey : String} {st st' : DeleteStaging}
    (h : Scheduled env tableKey base st ids st' table) (hst : st.Consistent env) :
    st'.Consistent env := by
  intro key table' hlook
  rw [h.recorded key]
  obtain ⟨hnodup, hmem⟩ := hst key table' hlook
  by_cases hkey : key = tableKey
  · subst hkey
    obtain rfl : table = table' := Option.some.inj (h.table_eq.symm.trans hlook)
    rw [if_pos rfl]
    refine ⟨?_, fun id => ?_⟩
    · refine nodup_append.mpr ⟨hnodup, h.ids_nodup, ?_⟩
      rintro id hold _ hnew rfl
      obtain ⟨row, hrow, hid, hhit⟩ := (hmem id).mp hold
      obtain ⟨row', hrow', hid', -, hnot⟩ := (h.mem_ids id).mp hnew
      rw [StoredTable.eq_of_id hrow' hrow (hid'.trans hid.symm)] at hnot
      exact hnot hhit
    · rw [mem_append, hmem id, h.mem_ids id]
      constructor
      · rintro (⟨row, hrow, hid, hhit⟩ | ⟨row, hrow, hid, hbase, -⟩)
        · exact ⟨row, hrow, hid, (h.hits row hrow).mpr (.inl hhit)⟩
        · exact ⟨row, hrow, hid, (h.hits row hrow).mpr (.inr hbase)⟩
      · rintro ⟨row, hrow, hid, hhit⟩
        by_cases hold : st.Hits env key row
        · exact .inl ⟨row, hrow, hid, hold⟩
        · exact .inr ⟨row, hrow, hid, ((h.hits row hrow).mp hhit).resolve_left hold, hold⟩
  · rw [if_neg hkey]
    refine ⟨hnodup, fun id => ?_⟩
    rw [hmem id]
    simp only [h.hits_other key hkey]

lemma Scheduled.hits_iff {tableKey : String} {st st' : DeleteStaging}
    (h : Scheduled env tableKey base st ids st' table) (key : String) (table' : StoredTable)
    (hlook : env.graph.lookup key = some table') (row : TableRow) (hrow : row ∈ table'.rows) :
    st'.Hits env key row ↔ st.Hits env key row ∨ key = tableKey ∧ base.Matches env row := by
  by_cases hkey : key = tableKey
  · subst hkey
    obtain rfl : table = table' := Option.some.inj (h.table_eq.symm.trans hlook)
    simp only [h.hits row hrow, true_and]
  · simp only [h.hits_other key hkey, hkey, false_and, or_false]

/-- The number of ids recorded for some tables. -/
def DeleteStaging.count (st : DeleteStaging) (keys : Finset String) : ℕ :=
  ∑ key ∈ keys, (st.recordedIds key).length

lemma Scheduled.count {tableKey : String} {st st' : DeleteStaging}
    (h : Scheduled env tableKey base st ids st' table) (keys : Finset String) :
    st'.count keys = st.count keys + if tableKey ∈ keys then ids.length else 0 := by
  unfold DeleteStaging.count
  have hterm : ∀ key, (st'.recordedIds key).length =
      (st.recordedIds key).length + if key = tableKey then ids.length else 0 := by
    intro key
    rw [h.recorded key]
    split_ifs
    · exact length_append
    · rfl
  simp only [hterm, Finset.sum_add_distrib, Finset.sum_ite_eq']

/-! ### What a statement stands for -/

/-- The edge row touches the node on a side whose type is `typeName`. -/
def TouchesNode (typeName : String) (edge : EdgeType) (node : String) (row : TableRow) : Prop :=
  (edge.fromType = typeName ∧ row.cell "src" = some (.string node)) ∨
    (edge.toType = typeName ∧ row.cell "dst" = some (.string node))

/-- The predicate of a statement is true of the row. -/
def DeleteOp.Selects (env : DeleteEnv) (op : DeleteOp) (row : TableRow) : Prop :=
  ∃ sql, predicateToSql op.predicate env.params (op.typeName ∉ env.catalog.nodeTypes) = .ok sql ∧
    sql.Matches env row

/-- The table a statement names. -/
def DeleteOp.tableKey (env : DeleteEnv) (op : DeleteOp) : String :=
  if op.typeName ∈ env.catalog.nodeTypes then nodeKey op.typeName else edgeKey op.typeName

/-- The rows a statement removes when it runs alone: those it selects and, when these are nodes, the
edges that touch one of them. -/
inductive MatchedBy (env : DeleteEnv) (op : DeleteOp) : String → TableRow → Prop
  | statement {row : TableRow} (selected : op.Selects env row) :
    MatchedBy env op (op.tableKey env) row
  | cascade {name : String} {edge : EdgeType} {table : StoredTable} {node row : TableRow}
    (isNode : op.typeName ∈ env.catalog.nodeTypes)
    (isEdge : env.catalog.edgeTypes.lookup name = some edge)
    (nodes : env.graph.lookup (nodeKey op.typeName) = some table) (mem : node ∈ table.rows)
    (selected : op.Selects env node) (touches : TouchesNode op.typeName edge node.id row) :
    MatchedBy env op (edgeKey name) row

lemma matches_isIn {column : String} :
    (Sql.isIn column ids).Matches env row ↔ ∃ id ∈ ids, row.cell column = some (.string id) := by
  simp only [Sql.Matches, Sql.eval]
  split <;> simp_all

variable {edge : EdgeType} {typeName : String}

lemma matches_cascadeFilter (h : cascadeFilter typeName edge ids = some filter) (row : TableRow) :
    filter.Matches env row ↔ ∃ id ∈ ids, TouchesNode typeName edge id row := by
  have hor : ∀ p q : Sql, (Sql.or p q).Matches env row ↔ p.Matches env row ∨ q.Matches env row :=
    fun p q => Truth.or_eq_true
  unfold cascadeFilter at h
  simp only [TouchesNode, and_or_left, exists_or]
  split_ifs at h with hfrom hto hto
  · cases h
    simp only [hor, matches_isIn, hfrom, hto, true_and]
  · cases h
    simp only [matches_isIn, hfrom, hto, true_and, false_and, and_false, exists_false, or_false]
  · cases h
    simp only [matches_isIn, hfrom, hto, true_and, false_and, and_false, exists_false, false_or]

lemma not_touches_of_cascadeFilter (h : cascadeFilter typeName edge ids = none) (id : String)
    (row : TableRow) : ¬ TouchesNode typeName edge id row := by
  unfold cascadeFilter at h
  split_ifs at h with hfrom hto hto
  rintro (⟨hf, -⟩ | ⟨ht, -⟩)
  · exact hfrom hf
  · exact hto ht

/-! ### Runs of scheduled deletes -/

/-- The tables of node types. -/
def nodeTables (env : DeleteEnv) : Finset String :=
  env.graph.keys.toFinset.filter fun key => key ∈ env.catalog.nodeTypes.keys.map nodeKey

/-- The other tables, which hold edges. -/
def edgeTables (env : DeleteEnv) : Finset String :=
  env.graph.keys.toFinset.filter fun key => key ∉ env.catalog.nodeTypes.keys.map nodeKey

/-- Between `st` and `st'` the rows in `M` were removed, `nodes` new ones from node tables and
`edges` new ones from the others. -/
structure Removes (env : DeleteEnv) (M : String → TableRow → Prop) (nodes edges : ℕ)
    (st st' : DeleteStaging) : Prop where
  consistent : st.Consistent env → st'.Consistent env
  hits : ∀ key table, env.graph.lookup key = some table → ∀ row ∈ table.rows,
    (st'.Hits env key row ↔ st.Hits env key row ∨ M key row)
  countNodes : st'.count (nodeTables env) = st.count (nodeTables env) + nodes
  countEdges : st'.count (edgeTables env) = st.count (edgeTables env) + edges

namespace Removes

variable {M M' : String → TableRow → Prop} {n n' e e' : ℕ} {st st' st'' : DeleteStaging}

lemma refl (st : DeleteStaging) : Removes env (fun _ _ => False) 0 0 st st :=
  ⟨id, fun _ _ _ _ _ => by rw [or_false], rfl, rfl⟩

lemma trans (h : Removes env M n e st st') (h' : Removes env M' n' e' st' st'') :
    Removes env (fun key row => M key row ∨ M' key row) (n + n') (e + e') st st'' := by
  refine ⟨fun hst => h'.consistent (h.consistent hst), fun key table hlook row hrow => ?_, ?_, ?_⟩
  · rw [h'.hits key table hlook row hrow, h.hits key table hlook row hrow, or_assoc]
  · rw [h'.countNodes, h.countNodes, Nat.add_assoc]
  · rw [h'.countEdges, h.countEdges, Nat.add_assoc]

/-- Only what is removed beyond the rows removed before matters. -/
lemma congr (h : Removes env M n e st st')
    (hM : ∀ key table, env.graph.lookup key = some table → ∀ row ∈ table.rows,
      ¬ st.Hits env key row → (M key row ↔ M' key row)) : Removes env M' n e st st' := by
  refine ⟨h.consistent, fun key table hlook row hrow => ?_, h.countNodes, h.countEdges⟩
  rw [h.hits key table hlook row hrow]
  by_cases hhit : st.Hits env key row
  · simp only [hhit, true_or]
  · simp only [hhit, false_or, hM key table hlook row hrow hhit]

end Removes

variable {key name : String}

lemma mem_tables_of_lookup (h : env.graph.lookup key = some table) :
    key ∈ env.graph.keys.toFinset :=
  List.mem_toFinset.mpr (AList.mem_keys.mpr (HashMap.mem_of_lookup h))

lemma Scheduled.removes_node (hnode : typeName ∈ env.catalog.nodeTypes) {st st' : DeleteStaging}
    (h : Scheduled env (nodeKey typeName) base st ids st' table) :
    Removes env (fun key row => key = nodeKey typeName ∧ base.Matches env row) ids.length 0
      st st' := by
  have hkey : nodeKey typeName ∈ env.catalog.nodeTypes.keys.map nodeKey :=
    List.mem_map_of_mem (AList.mem_keys.mpr hnode)
  refine ⟨h.consistent, h.hits_iff, ?_, ?_⟩
  · rw [h.count, if_pos]
    exact Finset.mem_filter.mpr ⟨mem_tables_of_lookup h.table_eq, hkey⟩
  · rw [h.count, if_neg]
    exact fun hmem => (Finset.mem_filter.mp hmem).2 hkey

lemma Scheduled.removes_edge {st st' : DeleteStaging}
    (h : Scheduled env (edgeKey name) base st ids st' table) :
    Removes env (fun key row => key = edgeKey name ∧ base.Matches env row) 0 ids.length
      st st' := by
  have hkey : edgeKey name ∉ env.catalog.nodeTypes.keys.map nodeKey := by
    rw [List.mem_map]
    rintro ⟨typeName, -, heq⟩
    exact nodeKey_ne_edgeKey heq
  refine ⟨h.consistent, h.hits_iff, ?_, ?_⟩
  · rw [h.count, if_neg]
    exact fun hmem => hkey (Finset.mem_filter.mp hmem).2
  · rw [h.count, if_pos]
    exact Finset.mem_filter.mpr ⟨mem_tables_of_lookup h.table_eq, hkey⟩

/-! ### The cascade of a node delete -/

lemma mem_edgeInfo :
    (name, edge) ∈ edgeInfo env ↔ env.catalog.edgeTypes.lookup name = some edge := by
  rw [edgeInfo, IterOrder.mem_walk, HashMap.lookup_eq_some_iff_mem, List.mem_map]
  constructor
  · rintro ⟨entry, hentry, heq⟩
    cases heq
    exact hentry
  · intro hentry
    exact ⟨_, hentry, rfl⟩

/-- The edge rows of the given types that touch one of the nodes. -/
def CascadedBy (typeName : String) (ids : List String) (edges : List (String × EdgeType))
    (key : String) (row : TableRow) : Prop :=
  ∃ edge ∈ edges, key = edgeKey edge.1 ∧ ∃ id ∈ ids, TouchesNode typeName edge.2 id row

variable {acc : ℕ × DeleteStaging}

lemma cascadeDelete_removes {acc' : ℕ × DeleteStaging} {edge : String × EdgeType}
    (h : cascadeDelete env typeName ids acc edge = .ok acc') :
    ∃ matched, acc'.1 = acc.1 + matched ∧
      Removes env (CascadedBy typeName ids [edge]) 0 matched acc.2 acc'.2 := by
  unfold cascadeDelete at h
  cases hfilter : cascadeFilter typeName edge.2 ids with
  | none =>
    rw [hfilter] at h
    cases h
    refine ⟨0, rfl, (Removes.refl acc.2).congr fun key table _ row _ _ => ?_⟩
    simp only [CascadedBy, mem_singleton, exists_eq_left, false_iff]
    rintro ⟨-, id, -, htouch⟩
    exact not_touches_of_cascadeFilter hfilter id row htouch
  | some filter =>
    rw [hfilter] at h
    simp only [Except.bind_eq_ok_iff] at h
    obtain ⟨⟨matched, st⟩, hsched, heq⟩ := h
    cases heq
    obtain ⟨table, hsched⟩ := scheduleDelete_ok hsched
    refine ⟨matched.length, rfl, hsched.removes_edge.congr fun key table _ row _ _ => ?_⟩
    simp only [CascadedBy, mem_singleton, exists_eq_left, matches_cascadeFilter hfilter]

lemma cascade_removes {st : DeleteStaging}
    (h : (edgeInfo env).foldlM (cascadeDelete env typeName ids) (0, st) = .ok acc) :
    Removes env (CascadedBy typeName ids (edgeInfo env)) 0 acc.1 st acc.2 := by
  have hfold : Ensures ((edgeInfo env).foldlM (cascadeDelete env typeName ids) (0, st))
      (fun acc => Removes env (CascadedBy typeName ids (edgeInfo env)) 0 acc.1 st acc.2)
      (fun _ => True) := by
    refine Ensures.foldlM (fun pre (acc : ℕ × DeleteStaging) =>
      Removes env (CascadedBy typeName ids pre) 0 acc.1 st acc.2) ?_
      fun pre edge post acc _ hacc => Ensures.of_ok fun acc' hstep => ?_
    · refine (Removes.refl st).congr fun key table _ row _ _ => ?_
      simp [CascadedBy]
    · obtain ⟨matched, hcount, hremoves⟩ := cascadeDelete_removes hstep
      rw [hcount]
      refine (hacc.trans hremoves).congr fun key table _ row _ _ => ?_
      simp only [CascadedBy, mem_append, or_and_right, exists_or]
  exact hfold.value h

/-! ### One statement -/

/-- Every edge row that touches a removed node is removed. -/
def DeleteStaging.Closed (env : DeleteEnv) (st : DeleteStaging) : Prop :=
  ∀ typeName nodes, env.graph.lookup (nodeKey typeName) = some nodes →
    ∀ node ∈ nodes.rows, st.Hits env (nodeKey typeName) node →
    ∀ name edge, env.catalog.edgeTypes.lookup name = some edge →
    ∀ edges, env.graph.lookup (edgeKey name) = some edges → ∀ row ∈ edges.rows,
    TouchesNode typeName edge node.id row → st.Hits env (edgeKey name) row

/-- The rows the statement and its cascade remove are those it stands for: a node that an earlier
statement removed has had its edges removed then. -/
lemma executeDeleteNode_removes {op : DeleteOp} (hnode : op.typeName ∈ env.catalog.nodeTypes)
    {st st' : DeleteStaging} {result : MutationResult} (hclosed : st.Closed env)
    (h : executeDeleteNode env op st = .ok (result, st')) :
    Removes env (MatchedBy env op) result.affectedNodes result.affectedEdges st st' := by
  simp only [executeDeleteNode, Except.bind_eq_ok_iff] at h
  obtain ⟨sql, hsql, ⟨ids, st₁⟩, hsched, h⟩ := h
  obtain ⟨table, hsched⟩ := scheduleDelete_ok hsched
  have hselects : ∀ row, op.Selects env row ↔ sql.Matches env row := by
    intro row
    simp only [DeleteOp.Selects, hnode, not_true_eq_false, decide_false, hsql, Except.ok.injEq,
      exists_eq_left']
  have hkey : op.tableKey env = nodeKey op.typeName := if_pos hnode
  have hcascade : ∀ key table', env.graph.lookup key = some table' → ∀ row ∈ table'.rows,
      ¬ st.Hits env key row →
      ((key = nodeKey op.typeName ∧ sql.Matches env row) ∨
        CascadedBy op.typeName ids (edgeInfo env) key row ↔ MatchedBy env op key row) := by
    intro key table' hlook row hrow hnot
    constructor
    · rintro (⟨rfl, hmatch⟩ | ⟨⟨name, edge⟩, hedge, rfl, id, hid, htouch⟩)
      · rw [← hkey]
        exact .statement ((hselects row).mpr hmatch)
      · obtain ⟨node, hmem, rfl, hmatch, -⟩ := (hsched.mem_ids id).mp hid
        exact .cascade hnode (mem_edgeInfo.mp hedge) hsched.table_eq hmem
          ((hselects node).mpr hmatch) htouch
    · intro hmatched
      cases hmatched with
      | statement hselected => exact .inl ⟨hkey, (hselects row).mp hselected⟩
      | @cascade name edge nodes node _ _ hedge hnodes hmem hselected htouch =>
        obtain rfl : table = nodes := Option.some.inj (hsched.table_eq.symm.trans hnodes)
        refine .inr ⟨(name, edge), mem_edgeInfo.mpr hedge, rfl, node.id, ?_, htouch⟩
        refine (hsched.mem_ids node.id).mpr ⟨node, hmem, rfl, (hselects node).mp hselected, ?_⟩
        intro hhit
        exact hnot (hclosed _ _ hsched.table_eq node hmem hhit name edge hedge _ hlook row hrow
          htouch)
  dsimp only at h
  split_ifs at h with hempty
  · cases h
    have hremoves := hsched.removes_node hnode
    rw [hempty] at hremoves
    refine hremoves.congr fun key table' hlook row hrow hnot => ?_
    rw [← hcascade key table' hlook row hrow hnot, hempty]
    simp [CascadedBy]
  · simp only [Except.bind_eq_ok_iff] at h
    obtain ⟨⟨affected, st₂⟩, hfold, heq⟩ := h
    cases heq
    have hremoves := (hsched.removes_node hnode).trans (cascade_removes hfold)
    rw [Nat.zero_add] at hremoves
    exact hremoves.congr hcascade

lemma executeDeleteEdge_removes {op : DeleteOp} (hnode : op.typeName ∉ env.catalog.nodeTypes)
    {st st' : DeleteStaging} {result : MutationResult}
    (h : executeDeleteEdge env op st = .ok (result, st')) :
    Removes env (MatchedBy env op) result.affectedNodes result.affectedEdges st st' := by
  simp only [executeDeleteEdge, Except.bind_eq_ok_iff] at h
  obtain ⟨sql, hsql, ⟨ids, st₁⟩, hsched, h⟩ := h
  cases h
  obtain ⟨table, hsched⟩ := scheduleDelete_ok hsched
  refine hsched.removes_edge.congr fun key table' _ row _ _ => ?_
  have hselects : op.Selects env row ↔ sql.Matches env row := by
    simp only [DeleteOp.Selects, hnode, not_false_eq_true, decide_true, hsql, Except.ok.injEq,
      exists_eq_left']
  have hkey : op.tableKey env = edgeKey op.typeName := if_neg hnode
  constructor
  · rintro ⟨rfl, hmatch⟩
    rw [← hkey]
    exact .statement (hselects.mpr hmatch)
  · intro hmatched
    cases hmatched with
    | statement hselected => exact ⟨hkey, hselects.mp hselected⟩
    | cascade hisNode => exact absurd hisNode hnode

variable {result : MutationResult}

lemma executeDelete_removes {op : DeleteOp} {st st' : DeleteStaging} (hclosed : st.Closed env)
    (h : executeDelete env op st = .ok (result, st')) :
    Removes env (MatchedBy env op) result.affectedNodes result.affectedEdges st st' := by
  unfold executeDelete at h
  split_ifs at h with hnode
  · exact executeDeleteNode_removes hnode hclosed h
  · exact executeDeleteEdge_removes hnode h

/-- A statement removes the edges of the nodes it removes. -/
lemma Removes.closed {op : DeleteOp} {st st' : DeleteStaging} {n e : ℕ}
    (h : Removes env (MatchedBy env op) n e st st') (hclosed : st.Closed env) :
    st'.Closed env := by
  intro typeName nodes hnodes node hmem hhit name edge hedge edges hedges row hrow htouch
  rw [h.hits _ _ hedges row hrow]
  rcases (h.hits _ _ hnodes node hmem).mp hhit with hold | hnew
  · exact .inl (hclosed _ _ hnodes node hmem hold name edge hedge _ hedges row hrow htouch)
  · right
    generalize hkey : nodeKey typeName = key at hnew
    cases hnew with
    | statement hselected =>
      by_cases hnode : op.typeName ∈ env.catalog.nodeTypes
      · rw [DeleteOp.tableKey, if_pos hnode] at hkey
        obtain rfl := nodeKey_inj.mp hkey
        exact .cascade hnode hedge hnodes hmem hselected htouch
      · rw [DeleteOp.tableKey, if_neg hnode] at hkey
        exact absurd hkey nodeKey_ne_edgeKey
    | cascade => exact absurd hkey nodeKey_ne_edgeKey

/-! ### All statements -/

/-- What holds after the statements `ops`. -/
structure Composed (env : DeleteEnv) (ops : List DeleteOp) (result : MutationResult)
    (st : DeleteStaging) : Prop where
  removes : Removes env (fun key row => ∃ op ∈ ops, MatchedBy env op key row)
    result.affectedNodes result.affectedEdges ⟨∅, ∅⟩ st
  closed : st.Closed env

lemma not_hits_empty (key : String) (row : TableRow) :
    ¬ (⟨∅, ∅⟩ : DeleteStaging).Hits env key row := by
  simp [DeleteStaging.Hits, recordedDeletePredicates]

variable {ops : List DeleteOp}

lemma executeDeletes_composed {st : DeleteStaging} (h : executeDeletes env ops = .ok (result, st)) :
    Composed env ops result st := by
  refine (Ensures.foldlM (E := fun _ => True)
    (fun pre acc => Composed env pre acc.1 acc.2) ?_ ?_).value h
  · refine ⟨(Removes.refl _).congr fun key table _ row _ _ => by simp, ?_⟩
    intro typeName nodes _ node _ hhit
    exact absurd hhit (not_hits_empty _ _)
  · intro pre op post acc _ hacc
    refine Ensures.of_ok fun acc' hstep => ?_
    simp only [Except.bind_eq_ok_iff] at hstep
    obtain ⟨⟨result', st'⟩, hop, heq⟩ := hstep
    cases heq
    have hremoves := executeDelete_removes hacc.closed hop
    refine ⟨(hacc.removes.trans hremoves).congr fun key table _ row _ _ => ?_,
      hremoves.closed hacc.closed⟩
    simp only [mem_append, mem_singleton, or_and_right, exists_or, exists_eq_left]

lemma Composed.consistent {st : DeleteStaging} (h : Composed env ops result st) :
    st.Consistent env := by
  refine h.removes.consistent fun key table _ => ⟨nodup_nil, fun id => ?_⟩
  simp [recordedIds, not_hits_empty]

lemma Composed.hits_iff {st : DeleteStaging} (h : Composed env ops result st)
    (hlook : env.graph.lookup key = some table) (hrow : row ∈ table.rows) :
    st.Hits env key row ↔ ∃ op ∈ ops, MatchedBy env op key row := by
  rw [h.removes.hits key table hlook row hrow, or_iff_right (not_hits_empty key row)]

/-! ### The staged deletes -/

lemma survivingRows_eq (st : DeleteStaging) (key : String) (table : StoredTable) :
    ∃ hit : TableRow → Bool, (∀ row, hit row = true ↔ st.Hits env key row) ∧
      survivingRows env st key table = table.rows.filter fun row => !hit row := by
  unfold survivingRows combinedDelete DeleteStaging.Hits
  cases hpreds : st.recordedDeletePredicates key with
  | nil => exact ⟨fun _ => false, by simp, by simp⟩
  | cons p rest =>
    refine ⟨fun row => (orAll p rest).eval env.compare row = some true, fun row => ?_, by simp⟩
    rw [decide_eq_true_iff]
    exact matches_orAll

lemma mem_survivingRows {st : DeleteStaging} :
    row ∈ survivingRows env st key table ↔ row ∈ table.rows ∧ ¬ st.Hits env key row := by
  obtain ⟨hit, hhit, heq⟩ := @survivingRows_eq env st key table
  rw [heq, mem_filter, ← hhit, Bool.not_eq_true', Bool.not_eq_true]

/-- The number of rows the staged deletes remove from a table. -/
def removedRows (env : DeleteEnv) (st : DeleteStaging) (key : String) : ℕ :=
  match env.graph.lookup key with
  | none => 0
  | some table => table.rows.length - (survivingRows env st key table).length

lemma DeleteStaging.Consistent.length_recordedIds {st : DeleteStaging} (h : st.Consistent env)
    (hkey : key ∈ env.graph.keys.toFinset) :
    (st.recordedIds key).length = removedRows env st key := by
  obtain ⟨table, hlook⟩ := HashMap.mem_iff_exists_lookup.mp
    (AList.mem_keys.mp (List.mem_toFinset.mp hkey))
  obtain ⟨hnodup, hmem⟩ := h key table hlook
  obtain ⟨hit, hhit, heq⟩ := @survivingRows_eq env st key table
  have hperm : (st.recordedIds key).Perm ((table.rows.filter hit).map TableRow.id) := by
    refine (perm_ext_iff_of_nodup hnodup
      (List.Nodup.sublist ((filter_sublist).map TableRow.id) table.nodup)).mpr fun id => ?_
    rw [hmem id, List.mem_map]
    simp only [mem_filter, hhit]
    constructor
    · rintro ⟨row, hrow, rfl, hrhit⟩
      exact ⟨row, ⟨hrow, hrhit⟩, rfl⟩
    · rintro ⟨row, ⟨hrow, hrhit⟩, rfl⟩
      exact ⟨row, hrow, rfl, hrhit⟩
  have hsplit := length_eq_length_filter_add hit (l := table.rows)
  rw [removedRows, hlook, hperm.length_eq, length_map]
  dsimp only
  rw [heq, hsplit, Nat.add_sub_cancel]

lemma DeleteStaging.Consistent.count_eq {st : DeleteStaging} (h : st.Consistent env)
    {keys : Finset String} (hkeys : keys ⊆ env.graph.keys.toFinset) :
    st.count keys = ∑ key ∈ keys, removedRows env st key :=
  Finset.sum_congr rfl fun _ hkey => h.length_recordedIds (hkeys hkey)

/-- Delete statements compose. The ids recorded for a table are those of the rows that some
statement or cascade matches, each once; the reported counts are the numbers of rows removed; and no
surviving edge row touches a removed node. -/
theorem deletes_compose {ops : List DeleteOp} {result : MutationResult} {st : DeleteStaging}
    (h : executeDeletes env ops = .ok (result, st)) :
    (∀ key table, env.graph.lookup key = some table → (st.recordedIds key).Nodup ∧
      ∀ id, id ∈ st.recordedIds key ↔
        ∃ row ∈ table.rows, row.id = id ∧ ∃ op ∈ ops, MatchedBy env op key row) ∧
    result.affectedNodes = ∑ key ∈ nodeTables env, removedRows env st key ∧
    result.affectedEdges = ∑ key ∈ edgeTables env, removedRows env st key ∧
    ∀ name edge, env.catalog.edgeTypes.lookup name = some edge →
      ∀ edges, env.graph.lookup (edgeKey name) = some edges →
      ∀ row ∈ survivingRows env st (edgeKey name) edges,
      ∀ typeName nodes, env.graph.lookup (nodeKey typeName) = some nodes →
      ∀ node ∈ nodes.rows, node ∉ survivingRows env st (nodeKey typeName) nodes →
        ¬ TouchesNode typeName edge node.id row := by
  have hcomposed := executeDeletes_composed h
  have hconsistent := hcomposed.consistent
  have hempty : ∀ keys, (⟨∅, ∅⟩ : DeleteStaging).count keys = 0 := by
    intro keys
    simp [DeleteStaging.count, recordedIds]
  refine ⟨fun key table hlook => ?_, ?_, ?_, ?_⟩
  · obtain ⟨hnodup, hmem⟩ := hconsistent key table hlook
    refine ⟨hnodup, fun id => (hmem id).trans ?_⟩
    constructor
    · rintro ⟨row, hrow, hid, hhit⟩
      exact ⟨row, hrow, hid, (hcomposed.hits_iff hlook hrow).mp hhit⟩
    · rintro ⟨row, hrow, hid, hmatched⟩
      exact ⟨row, hrow, hid, (hcomposed.hits_iff hlook hrow).mpr hmatched⟩
  · have hcount := hcomposed.removes.countNodes
    rw [hempty, Nat.zero_add] at hcount
    rw [← hcount]
    exact hconsistent.count_eq (Finset.filter_subset _ _)
  · have hcount := hcomposed.removes.countEdges
    rw [hempty, Nat.zero_add] at hcount
    rw [← hcount]
    exact hconsistent.count_eq (Finset.filter_subset _ _)
  · intro name edge hedge edges hedges row hrow typeName nodes hnodes node hmem hgone htouch
    obtain ⟨hrow, hstays⟩ := mem_survivingRows.mp hrow
    -- a node that is gone was hit, and the records are closed under the cascade
    have hhit : st.Hits env (nodeKey typeName) node := by
      by_contra hnot
      exact hgone (mem_survivingRows.mpr ⟨hmem, hnot⟩)
    exact hstays (hcomposed.closed _ _ hnodes node hmem hhit name edge hedge _ hedges row hrow
      htouch)

/-! ### A graph of friends -/

/-- SQL comparison of strings for equality and of integers: a null cell gives unknown. -/
def compareCell : CompOp → Option Literal → Literal → Truth
  | .eq, some (.string s), .string t => some (s = t)
  | .eq, some (.integer i), .integer j => some (i = j)
  | .gt, some (.integer i), .integer j => some (i > j)
  | _, _, _ => none

def personRow (name : String) (age : Option ℤ) : TableRow where
  id := name
  cells := match age with
    | some n => (∅ : HashMap String Literal).insert "age" (.integer n)
    | none => ∅

def knowsRow (id source target : String) : TableRow where
  id := id
  cells := ((∅ : HashMap String Literal).insert "src" (.string source)).insert "dst"
    (.string target)

/-- The age of Cal is unknown, and Bob knows himself. -/
def friendsGraph : DeleteEnv where
  compare := compareCell
  catalog :=
    { nodeTypes := (∅ : HashMap String NodeType).insert "Person" ⟨none, []⟩
      edgeTypes := (∅ : HashMap String EdgeType).insert "Knows"
        ⟨"Knows", "Person", "Person", ⟨0, none, by decide, by simp⟩, []⟩ }
  edgeOrder := .stored _
  graph :=
    let people := [personRow "ann" (some 25), personRow "bob" (some 40), personRow "cal" none]
    let pairs :=
      [knowsRow "e1" "ann" "bob", knowsRow "e2" "bob" "bob", knowsRow "e3" "cal" "ann"]
    ((∅ : HashMap String StoredTable).insert "node:Person" ⟨people, by decide⟩).insert
      "edge:Knows" ⟨pairs, by decide⟩
  params := ∅

/-- Remove what Ann knows, everybody over thirty, and Cal. -/
def forget : List DeleteOp :=
  [⟨"Knows", "from", .eq, .literal (.string "ann")⟩,
    ⟨"Person", "age", .gt, .literal (.integer 30)⟩,
    ⟨"Person", "id", .eq, .literal (.string "cal")⟩]

theorem deletes_compose_friends : ∃ result st,
    executeDeletes friendsGraph forget = .ok (result, st) ∧
    st.recordedIds "node:Person" = ["bob", "cal"] ∧
    st.recordedIds "edge:Knows" = ["e1", "e2", "e3"] ∧
    result.affectedNodes = ∑ key ∈ nodeTables friendsGraph, removedRows friendsGraph st key ∧
    result.affectedEdges = ∑ key ∈ edgeTables friendsGraph, removedRows friendsGraph st key ∧
    result.affectedNodes = 2 ∧ result.affectedEdges = 3 := by
  have hcomposes := @deletes_compose friendsGraph forget _ _ rfl
  exact ⟨_, _, rfl, rfl, rfl, hcomposes.2.1, hcomposes.2.2.1, rfl, rfl⟩

end Omnigraph
