import Omnigraph.Query.Exact
import Omnigraph.Query.Deterministic
import Omnigraph.Query.Fusion

/-!
# What fusion returns

The fused result holds the rows of the entities of both arms, ranked by the sum of their reciprocal
ranks. The code reads the entities of both arms off the variable of the primary search, takes the
constant of the formula as the last 32 bits of an integer that nothing checks at run time, and
computes the scores in doubles, where sums that differ can become one double.
-/

namespace Omnigraph.Query

open List Option Except Compiler Ranked Grouped Double RecordBatch

/-! ### Ranks and rows of entities -/

/-- The entities of both arms, those of the primary arm first. -/
def entities (primaryIds secondaryIds : List String) : List String :=
  seen (primaryIds ++ secondaryIds)

/-- The share of an arm: the reciprocal of its constant and the rank of the entity in it, counted
from 1. -/
def reciprocalRank (k : ℕ) (ids : List String) (id : String) : ℚ :=
  if id ∈ ids then 1 / ((k : ℚ) + ((seen ids).idxOf id + 1 : ℕ)) else 0

def fusedScore (k : ℕ) (primaryIds secondaryIds : List String) (id : String) : ℚ :=
  reciprocalRank k primaryIds id + reciprocalRank k secondaryIds id

/-- The share of an arm in doubles. -/
def roundedRank (k : ℕ) (ids : List String) (id : String) : ℚ :=
  if id ∈ ids then roundedReciprocal k ((seen ids).idxOf id) else 0

/-- The score in doubles. -/
def roundedScore (k : ℕ) (primaryIds secondaryIds : List String) (id : String) : ℚ :=
  nearest (roundedRank k primaryIds id + roundedRank k secondaryIds id)

/-- The rows of an entity, as they come. -/
def places (ids : List String) (id : String) : List ℕ :=
  (ids.zipIdx.filter fun p => p.1 = id).map Prod.snd

/-- The rows of an entity among the rows of both arms. -/
def entityRows (primaryIds secondaryIds : List String) (id : String) : List ℕ :=
  if id ∈ primaryIds then places primaryIds id
  else (places secondaryIds id).map (primaryIds.length + ·)

/-- The scores in doubles put the same entities before each one with a row among the first ones,
as many as the limit says. -/
def RoundsAsExact (k limit : ℕ) (primaryIds secondaryIds : List String) : Prop :=
  ShownAlike (fusedScore k primaryIds secondaryIds) (roundedScore k primaryIds secondaryIds)
    (entities primaryIds secondaryIds) (entityRows primaryIds secondaryIds) limit

instance (k limit : ℕ) (primaryIds secondaryIds : List String) :
    Decidable (RoundsAsExact k limit primaryIds secondaryIds) :=
  inferInstanceAs (Decidable (ShownAlike ..))

-- the sums of the last two entities differ, their doubles do not
example : ¬ RoundsAsExact 100000000 1 ["f", "x", "y"] ["y", "x"] := by decide +kernel

variable {ids primaryIds secondaryIds : List String} {id : String} {k : ℕ}

lemma places_append_singleton (ids : List String) (a id : String) :
    places (ids ++ [a]) id = places ids id ++ if a = id then [ids.length] else [] := by
  simp only [places, zipIdx_append, filter_append, map_append]
  split_ifs with h
  · simp [h]
  · simp [h]

variable {i : ℕ} {τ : List String} {name : String}

lemma lt_of_mem_places (h : i ∈ places ids id) : i < ids.length := by
  induction ids using List.reverseRecOn with
  | nil => cases h
  | append_singleton ids a ih =>
    rw [places_append_singleton, mem_append] at h
    rw [length_append, length_singleton]
    rcases h with h | h
    · exact Nat.lt_succ_of_lt (ih h)
    · split_ifs at h
      · rw [mem_singleton.mp h]
        exact Nat.lt_succ_self _
      · cases h

/-- A row belongs to its entity. -/
lemma getElem?_of_mem_places (h : i ∈ places ids id) : ids[i]? = some id := by
  obtain ⟨p, hp, rfl⟩ := List.mem_map.mp h
  obtain ⟨hmem, hid⟩ := mem_filter.mp hp
  rw [← of_decide_eq_true hid]
  exact mem_zipIdx_iff_getElem?.mp hmem

lemma getElem?_of_mem_entityRows (h : i ∈ entityRows primaryIds secondaryIds id) :
    (primaryIds ++ secondaryIds)[i]? = some id := by
  rw [entityRows] at h
  split_ifs at h
  · rw [List.getElem?_append_left (lt_of_mem_places h)]
    exact getElem?_of_mem_places h
  · obtain ⟨j, hj, rfl⟩ := List.mem_map.mp h
    rw [List.getElem?_append_right (Nat.le_add_right _ _), Nat.add_sub_cancel_left]
    exact getElem?_of_mem_places hj

lemma places_ne_nil (h : id ∈ ids) : places ids id ≠ [] := by
  obtain ⟨i, hi, hget⟩ := mem_iff_getElem.mp h
  have hmem : (id, i) ∈ ids.zipIdx := by
    rw [mem_zipIdx_iff_getElem?, List.getElem?_eq_getElem hi, hget]
  exact ne_nil_of_mem (List.mem_map.mpr ⟨(id, i), mem_filter.mpr ⟨hmem, by simp⟩, rfl⟩)

lemma entityRows_ne_nil (h : id ∈ entities primaryIds secondaryIds) :
    entityRows primaryIds secondaryIds id ≠ [] := by
  rw [entityRows]
  split_ifs with hid
  · exact places_ne_nil hid
  · have hmem := mem_append.mp (mem_seen.mp h)
    simpa using places_ne_nil (hmem.resolve_left hid)

lemma lookup_rowsById (ids : List String) (id : String) :
    (rowsById ids).lookup id = if id ∈ ids then some (places ids id) else none := by
  unfold rowsById
  induction ids using List.reverseRecOn with
  | nil => simp
  | append_singleton ids a ih =>
    rw [zipIdx_append, foldl_append, places_append_singleton]
    simp only [zipIdx_cons, zipIdx_nil, foldl_cons, foldl_nil,
      HashMap.lookup_insert_ite, Nat.zero_add]
    by_cases ha : id = a
    · subst ha
      have hmem : id ∈ ids ++ [id] := by simp
      rw [if_pos rfl, ih, if_pos rfl, if_pos hmem]
      by_cases hid : id ∈ ids
      · rw [if_pos hid, getD_some]
      · have hnone : places ids id = [] := by
          simp only [places, map_eq_nil_iff, filter_eq_nil_iff, decide_eq_true_eq]
          rintro p hp rfl
          exact hid (mem_of_getElem? (mem_zipIdx_iff_getElem?.mp hp))
        rw [if_neg hid, getD_none, hnone]
    · rw [if_neg ha, ih, if_neg (Ne.symm ha), append_nil]
      simp [ha]

/-! ### The ranking -/

lemma armScore_eq (k : ℕ) (ids : List String) (id : String) :
    armScore k (entityRanks ids).1 id = roundedRank k ids id := by
  rw [armScore, entityRanks, (ranks_spec ids).2, roundedRank]
  split_ifs with h
  · rfl
  · rfl

lemma allIds_eq (primaryIds secondaryIds : List String) :
    allIds (entityRanks primaryIds) (entityRanks secondaryIds) =
      entities primaryIds secondaryIds := by
  have hmem : ∀ id, id ∈ (entityRanks primaryIds).1 ↔ id ∈ primaryIds := by
    intro id
    rw [← AList.lookup_isSome, entityRanks, (ranks_spec primaryIds).2]
    by_cases h : id ∈ primaryIds
    · simp [h]
    · simp [h]
  have hkeys : ∀ ids, (entityRanks ids).2 = seen ids :=
    fun ids => (ranks_spec ids).1
  rw [allIds, entities, seen_append, hkeys, hkeys]
  congr 1
  · apply filter_congr
    intro id _
    simp only [hmem]

/-- The winners are the best entities by their scores in doubles. -/
lemma winners_eq (k limit : ℕ)
    (h : RankedBy (roundedScore k primaryIds secondaryIds) (entities primaryIds secondaryIds) τ) :
    ((scoredIds k (entityRanks primaryIds) (entityRanks secondaryIds)).take limit).map Prod.fst =
      τ.take limit := by
  have hpairs : scoredIds k (entityRanks primaryIds) (entityRanks secondaryIds) =
      ((entities primaryIds secondaryIds).insertionSort fun a b =>
        roundedScore k primaryIds secondaryIds b ≤ roundedScore k primaryIds secondaryIds a).map
          fun id => (id, roundedScore k primaryIds secondaryIds id) := by
    rw [map_insertionSort _ (fun a b : String × ℚ => b.2 ≤ a.2) _ _ fun _ _ _ _ => Iff.rfl]
    rw [scoredIds, allIds_eq]
    simp only [armScore_eq]
    rfl
  rw [hpairs, map_take, List.map_map]
  have hid : (Prod.fst ∘ fun id => (id, roundedScore k primaryIds secondaryIds id)) = id := rfl
  rw [hid, List.map_id, h.unique (rankedBy_insertionSort (nodup_seen _))]

/-! ### Rows of both arms -/

lemma column_of_ids {b : RecordBatch} (h : extractIdColumnByName b name = .ok ids) :
    ∃ c, b.columnByName name = some c ∧ c.cells.map idText = ids := by
  unfold extractIdColumnByName at h
  split at h
  next => cases h
  next c hc =>
    split_ifs at h
    exact ⟨c, hc, Except.ok.inj h⟩

lemma length_of_ids {b : RecordBatch} (h : extractIdColumnByName b name = .ok ids) :
    ids.length = b.numRows := by
  obtain ⟨c, hc, rfl⟩ := column_of_ids h
  rw [length_map, length_of_columnByName hc]

lemma fields_ne_nil {b : RecordBatch} (h : extractIdColumnByName b name = .ok ids) :
    b.fields ≠ [] := by
  intro hnil
  obtain ⟨c, hc, -⟩ := column_of_ids h
  rw [columnByName, hnil] at hc
  cases hc

/-- Batches of one schema have the same id columns. -/
lemma exists_ids {b b' : RecordBatch} (hschema : b.schema = b'.schema)
    (h : extractIdColumnByName b name = .ok ids) :
    ∃ ids', extractIdColumnByName b' name = .ok ids' := by
  have htype := dataType_columnByName hschema name
  unfold extractIdColumnByName at h ⊢
  cases hb : b.columnByName name with
  | none =>
    rw [hb] at h
    cases h
  | some c =>
    rw [hb] at h htype
    obtain ⟨c', hc', hd⟩ := map_eq_some_iff.mp htype.symm
    rw [hc']
    dsimp only at h ⊢
    split_ifs at h with hutf8
    rw [if_pos (hd.trans hutf8)]
    exact ⟨_, rfl⟩

section Append

variable {b b' all : RecordBatch} {rows rows' : List ℕ}

lemma fields_of_append (h : b.append b' = .ok all) :
    List.Forall₂ (fun p field => field.1 = p.1.1 ∧ field.2.dataType = p.1.2.dataType ∧
      field.2.cells = p.1.2.cells ++ p.2.2.cells) (b.fields.zip b'.fields) all.fields := by
  obtain ⟨fields, hfields, hall⟩ := bind_eq_ok_iff.mp h
  rw [fields_of_tryNew hall]
  refine (mapM_eq_ok_iff.mp hfields).imp fun p field hp => ?_
  obtain ⟨c, hc, rfl⟩ := map_eq_ok hp
  unfold Column.append at hc
  split_ifs at hc
  cases hc
  exact ⟨rfl, rfl, rfl⟩

/-- The ids of two batches are the ids of their rows together. -/
lemma ids_of_append (hschema : b.schema = b'.schema) (h : b.append b' = .ok all)
    (hids : extractIdColumnByName b name = .ok ids)
    (hids' : extractIdColumnByName b' name = .ok secondaryIds) :
    ∃ col, all.columnByName name = some col ∧ col.cells.map idText = ids ++ secondaryIds := by
  obtain ⟨c, hc, rfl⟩ := column_of_ids hids
  obtain ⟨c', hc', rfl⟩ := column_of_ids hids'
  have hcolumns := fields_of_append h
  rw [columnByName] at hc hc' ⊢
  have hnames : b.fields.map Prod.fst = b'.fields.map Prod.fst := by
    have hnames := congrArg (List.map Prod.fst) hschema
    simpa [schema, Function.comp_def] using hnames
  generalize b.fields = fields at *
  generalize b'.fields = fields' at *
  generalize all.fields = fieldsOfAll at *
  induction fields generalizing fields' fieldsOfAll with
  | nil => cases hc
  | cons field fields ih =>
    cases fields' with
    | nil => cases hnames
    | cons field' fields' =>
      obtain ⟨hname, hnames⟩ := List.cons.inj hnames
      obtain ⟨fieldOfAll, fieldsOfAll, ⟨hnameOfAll, -, hcells⟩, hrest, rfl⟩ :=
        List.forall₂_cons_left_iff.mp hcolumns
      dsimp only at hname hnameOfAll hcells
      rw [List.find?_cons] at hc hc' ⊢
      rw [hnameOfAll]
      rw [← hname] at hc'
      by_cases heq : field.1 = name
      · simp only [heq, decide_true, map_some, Option.some.injEq] at hc hc' ⊢
        exact ⟨_, rfl, by rw [hcells, hc, hc', map_append]⟩
      · simp only [heq, decide_false] at hc hc' ⊢
        exact ih hc _ hc' hnames _ hrest

lemma forall_zip_of_schema (h : b.schema = b'.schema) :
    b.fields.length = b'.fields.length ∧ ∀ p ∈ b.fields.zip b'.fields,
      p.1.1 = p.2.1 ∧ p.1.2.dataType = p.2.2.dataType := by
  have hlen : b.fields.length = b'.fields.length := by
    have := congrArg List.length h
    simpa [schema] using this
  refine ⟨hlen, fun p hp => ?_⟩
  exact Prod.mk.inj ((map_eq_map_iff hlen).mp h p hp)

/-- The rows of the first batch come first. -/
lemma take_append_left (hschema : b.schema = b'.schema) (h : b.append b' = .ok all)
    (hrows : ∀ i ∈ rows, i < b.numRows) : b.take rows = all.take rows := by
  refine eq_of_fields ?_ rfl
  obtain ⟨hlen, -⟩ := forall_zip_of_schema hschema
  have hfirst : b.fields = (b.fields.zip b'.fields).map Prod.fst :=
    (map_fst_zip hlen.le).symm
  change b.fields.map (fun field => (field.1, field.2.take rows)) =
    all.fields.map fun field => (field.1, field.2.take rows)
  conv_lhs => rw [hfirst, List.map_map]
  refine (fields_of_append h).map_eq_of_mem fun p hp field ⟨hname, htype, hcells⟩ => ?_
  refine Prod.ext hname.symm (Column.eq_of_cells htype.symm ?_)
  have hplen := b.lengths _ (of_mem_zip hp).1
  simp only [Function.comp_apply, Column.cells_take]
  apply map_congr_left
  intro i hi
  rw [Column.cell, Column.cell, hcells, List.getElem?_append_left]
  rw [hplen]
  exact hrows i hi

/-- The rows of the second batch come after them. -/
lemma take_append_right (hschema : b.schema = b'.schema) (h : b.append b' = .ok all) :
    b'.take rows = all.take (rows.map (b.numRows + ·)) := by
  refine eq_of_fields ?_ (by simp)
  obtain ⟨hlen, hzip⟩ := forall_zip_of_schema hschema
  have hsecond : b'.fields = (b.fields.zip b'.fields).map Prod.snd :=
    (map_snd_zip hlen.ge).symm
  change b'.fields.map (fun field => (field.1, field.2.take rows)) =
    all.fields.map fun field => (field.1, field.2.take (rows.map (b.numRows + ·)))
  conv_lhs => rw [hsecond, List.map_map]
  refine (fields_of_append h).map_eq_of_mem fun p hp field ⟨hname, htype, hcells⟩ => ?_
  obtain ⟨hnames, htypes⟩ := hzip p hp
  refine Prod.ext (hnames.symm.trans hname.symm)
    (Column.eq_of_cells (htypes.symm.trans htype.symm) ?_)
  have hplen := b.lengths _ (of_mem_zip hp).1
  simp only [Function.comp_apply, Column.cells_take, List.map_map]
  apply map_congr_left
  intro i _
  rw [Function.comp_apply, Column.cell, Column.cell, hcells, ← hplen,
    List.getElem?_append_right (Nat.le_add_right _ _), Nat.add_sub_cancel_left]

lemma append_take (hne : all.fields ≠ []) :
    (all.take rows).append (all.take rows') = .ok (all.take (rows ++ rows')) := by
  have hfields : ((all.take rows).fields.zip (all.take rows').fields).mapM
      (fun p => (p.1.2.append p.2.2).map fun col => (p.1.1, col)) =
        (.ok (all.take (rows ++ rows')).fields : Except OmniError _) := by
    simp only [RecordBatch.take, zip_map']
    rw [mapM_eq_ok_iff, List.forall₂_map_left_iff, List.forall₂_map_right_iff,
      List.forall₂_same]
    intro field _
    have happend : (field.2.take rows).append (field.2.take rows') =
        .ok (field.2.take (rows ++ rows')) := by
      unfold Column.append
      rw [dif_pos (by simp)]
      exact congrArg Except.ok (Column.eq_of_cells rfl (by simp))
    dsimp only
    rw [happend]
    rfl
  rw [append, hfields, ok_bind]
  exact tryNew_of_lengths (by simpa [RecordBatch.take] using hne)
    (all.take (rows ++ rows')).lengths

lemma concatBatches_take (hne : all.fields ≠ []) (blocks : List (List ℕ)) :
    concatBatches (all.take rows) (blocks.map all.take) =
      .ok (all.take (rows ++ blocks.flatten)) := by
  unfold concatBatches
  induction blocks generalizing rows with
  | nil =>
    rw [flatten_nil, append_nil]
    rfl
  | cons block blocks ih =>
    rw [map_cons, foldlM_cons, append_take hne, ok_bind, ih, flatten_cons,
      append_assoc]

/-- The fused batch holds the rows of its entities. -/
lemma buildFusedBatch_eq (hschema : b.schema = b'.schema) (h : b.append b' = .ok all)
    (hne : all.fields ≠ []) (hprimary : primaryIds.length = b.numRows)
    {orderedIds : List String} (hids : ∀ id ∈ orderedIds, id ∈ entities primaryIds secondaryIds) :
    buildFusedBatch b (rowsById primaryIds) b' (rowsById secondaryIds) orderedIds =
      .ok (all.take (orderedIds.flatMap (entityRows primaryIds secondaryIds))) := by
  have hslices : orderedIds.filterMap
      (entitySlice b (rowsById primaryIds) b' (rowsById secondaryIds)) =
        (orderedIds.map (entityRows primaryIds secondaryIds)).map all.take := by
    rw [List.map_map, ← filterMap_eq_map]
    apply filterMap_congr
    intro id hid
    rw [entitySlice, lookup_rowsById, lookup_rowsById, Function.comp_apply, Function.comp_apply,
      entityRows]
    by_cases hmem : id ∈ primaryIds
    · rw [if_pos hmem, if_pos hmem]
      refine congrArg some (take_append_left hschema h fun i hi => ?_)
      rw [← hprimary]
      exact lt_of_mem_places hi
    · have hmem' := (mem_append.mp (mem_seen.mp (hids id hid))).resolve_left hmem
      rw [if_neg hmem, if_neg hmem, if_pos hmem', hprimary]
      exact congrArg some (take_append_right hschema h)
  rw [buildFusedBatch, hslices]
  cases orderedIds with
  | nil => exact congrArg Except.ok (take_append_left hschema h (by simp))
  | cons id orderedIds =>
    rw [map_cons, map_cons, flatMap_cons, flatMap_def]
    exact concatBatches_take hne _

lemma numRows_of_append (hne : all.fields ≠ []) (h : b.append b' = .ok all) :
    all.numRows = b.numRows + b'.numRows := by
  obtain ⟨field, hfield⟩ := exists_mem_of_ne_nil _ hne
  obtain ⟨p, hp, -, -, hcells⟩ := (fields_of_append h).exists_left hfield
  obtain ⟨hleft, hright⟩ := of_mem_zip hp
  rw [← all.lengths _ hfield, hcells, length_append, b.lengths _ hleft, b'.lengths _ hright]

lemma lt_of_mem_entityRows (hprimary : primaryIds.length = b.numRows)
    (hsecondary : secondaryIds.length = b'.numRows) (hall : all.numRows = b.numRows + b'.numRows)
    (h : i ∈ entityRows primaryIds secondaryIds id) : i < all.numRows := by
  rw [entityRows] at h
  split_ifs at h
  · have := lt_of_mem_places h
    omega
  · obtain ⟨j, hj, rfl⟩ := List.mem_map.mp h
    have := lt_of_mem_places hj
    omega

lemma slice_take (all : RecordBatch) (rows : List ℕ) (k : ℕ) :
    (all.take rows).slice (min rows.length k) = all.take (rows.take k) := by
  refine eq_of_fields ?_ (by simp [slice, min_comm])
  simp only [slice, RecordBatch.take, List.map_map]
  apply map_congr_left
  intro field _
  refine Prod.ext rfl (Column.eq_of_cells rfl ?_)
  simp only [Function.comp_apply, Column.cells_take]
  apply ext_getElem
  · simp [min_comm]
  · intro i hi hi'
    have hlt : i < rows.length := by
      rw [length_map, length_range] at hi
      omega
    simp [Column.cell_take _ _ hlt]

end Append

/-! ### The query -/

/-- The variable that a ranked expression searches. -/
def searchedVar : IRExpr → Option String
  | .nearest variable_ _ _ => some variable_
  | .bm25 (.propAccess variable_ _) _ => some variable_
  | _ => none

/-- The constant a query asks for: 60 if it gives none, and nothing if it cannot be used. -/
def givenConstant (k : Option IRExpr) (params : ParamMap) : Option ℕ :=
  match k with
  | none => some 60
  | some (.literal (.integer n)) => if 0 < n ∧ n < 2 ^ 32 then some n.toNat else none
  | some (.param name) =>
    match params.lookup name with
    | none | some .null => some 60
    | some (.integer n) => if 0 < n ∧ n < 2 ^ 32 then some n.toNat else none
    | some _ => none
  | some _ => none

/-- Results of the two searches: of one schema, with the same rows for an entity in both. -/
structure Arms (primaryVar secondaryVar : String) (primary secondary : RecordBatch)
    (primaryIds secondaryIds : List String) (all : RecordBatch) : Prop where
  idsOfPrimary : extractIdColumnByName primary (primaryVar ++ ".id") = .ok primaryIds
  idsOfSecondary : extractIdColumnByName secondary (secondaryVar ++ ".id") = .ok secondaryIds
  oneSchema : primary.schema = secondary.schema
  allRows : primary.append secondary = .ok all
  sameRows : ∀ id ∈ primaryIds, id ∈ secondaryIds →
    (places primaryIds id).map primary.row = (places secondaryIds id).map secondary.row

/-- `return { $v.id }` -/
def idOf (variable_ : String) : List IRProjection := [⟨.propAccess variable_ "id", none⟩]

variable {variable_ : String} {c : ℕ}

lemma projectReturn_idOf (arrow : Arrow) (params : ParamMap) {wide : RecordBatch} {col : Column}
    (h : wide.columnByName (variable_ ++ ".id") = some col) :
    ∃ b, projectReturn arrow wide (idOf variable_) params = .ok b ∧
      b.fields = [(variable_ ++ ".id", col)] := by
  have hname : variable_ ++ "." ++ "id" = variable_ ++ ".id" := by
    rw [String.append_assoc]
    rfl
  have hcolumn : projectColumn arrow wide params ⟨.propAccess variable_ "id", none⟩ =
      .ok (variable_ ++ ".id", col) := by
    simp only [projectColumn, evaluateProjection, hname, wideColumn, h]
    rfl
  have hmap : (idOf variable_).mapM (projectColumn arrow wide params) =
      .ok [(variable_ ++ ".id", col)] := by
    rw [idOf, mapM_cons, mapM_nil, hcolumn]
    rfl
  refine ⟨⟨[(variable_ ++ ".id", col)], col.cells.length, by simp⟩, ?_, rfl⟩
  rw [projectReturn, if_neg (by simp [idOf]), if_neg (by simp [idOf, isAggregate]), hmap,
    ok_bind]
  exact tryNew_of_lengths (by simp) (by simp)

section Fuses

variable {V : Type} (arrow : Arrow) (queryVec : String → String → IRExpr → Except OmniError V)
  (ir : QueryIR) (params : ParamMap)

/-- The query with another return clause, over the results of its searches. -/
def runFused (exprs : List IRProjection) (primary secondary : RecordBatch) :
    Except OmniError RecordBatch :=
  executeFusedQuery arrow queryVec { ir with returnExprs := exprs } params (some primary)
    (some secondary)

/-- Whatever a query returns of every row, over the results of its searches: it returns the first
rows of the entities by their exact scores, with the constant the query gives, and refuses a
constant that cannot be used. -/
def FusesAt (k : Option IRExpr) (limit : ℕ) (primary secondary : RecordBatch)
    (primaryIds secondaryIds : List String) (all : RecordBatch) : Prop :=
  ∀ exprs : List IRProjection, exprs.any isAggregate = false →
    match givenConstant k params with
    | none => ∃ e, runFused arrow queryVec ir params exprs primary secondary = .error e
    | some c => ∃ τ,
      RankedBy (fusedScore c primaryIds secondaryIds) (entities primaryIds secondaryIds) τ ∧
        runFused arrow queryVec ir params exprs primary secondary =
          projectReturn arrow
            (all.take ((τ.flatMap (entityRows primaryIds secondaryIds)).take limit)) exprs params

/-- The same whatever the searches find, each with the variable it is about. -/
def FusesExactly (a b : IRExpr) (k : Option IRExpr) (limit : ℕ) : Prop :=
  ∀ primaryVar secondaryVar, searchedVar a = some primaryVar → searchedVar b = some secondaryVar →
    ∀ primary secondary primaryIds secondaryIds all,
      Arms primaryVar secondaryVar primary secondary primaryIds secondaryIds all →
        FusesAt arrow queryVec ir params k limit primary secondary primaryIds secondaryIds all

variable {arrow queryVec ir params} {a b : IRExpr} {kExpr : Option IRExpr} {descending : Bool}
  {rest : List IROrdering} {limit : ℕ} {primaryVar secondaryVar : String}
  {primaryMode secondaryMode : ArmMode V} {primary secondary all : RecordBatch}
  {exprs : List IRProjection}

lemma var_of_extractSubSearchMode {expr : IRExpr} {mode : ArmMode V} {limit : Option ℕ}
    (hvar : searchedVar expr = some variable_)
    (h : extractSubSearchMode queryVec expr params limit = .ok mode) :
    mode.var = some variable_ := by
  cases expr with
  | nearest v property query =>
    cases hvar
    obtain ⟨vec, -, rfl⟩ := map_eq_ok h
    rfl
  | bm25 field query =>
    cases field with
    | propAccess v property =>
      cases hvar
      obtain ⟨search, hsearch, rfl⟩ := map_eq_ok h
      unfold extractBm25 at hsearch
      dsimp only at hsearch
      cases htext : resolveToString query params with
      | none =>
        rw [htext] at hsearch
        cases hsearch
      | some text =>
        rw [htext] at hsearch
        cases hsearch
        rfl
    | _ => cases hvar
  | _ => cases hvar

/-- A constant that can be used is the one the code takes. -/
lemma asU32_of_givenConstant (h : givenConstant kExpr params = some c) :
    (0 < c ∧ c < 2 ^ 32) ∧ asU32 ((kExpr.bind fun e => resolveToInt e params).getD 60) = c := by
  have hcast : ∀ n : ℤ, (if 0 < n ∧ n < 2 ^ 32 then some n.toNat else none) = some c →
      (0 < c ∧ c < 2 ^ 32) ∧ asU32 n = c := by
    intro n hn
    split_ifs at hn with hrange
    cases hn
    rw [asU32, Int.emod_eq_of_lt hrange.1.le hrange.2]
    exact ⟨by omega, rfl⟩
  cases kExpr with
  | none =>
    cases h
    exact ⟨by decide, rfl⟩
  | some e =>
    cases e with
    | literal l =>
      cases l with
      | integer n => exact hcast n h
      | _ => cases h
    | param name =>
      simp only [givenConstant] at h
      simp only [bind_some, resolveToInt]
      cases hlookup : params.lookup name with
      | none =>
        rw [hlookup] at h
        cases h
        exact ⟨by decide, rfl⟩
      | some l =>
        rw [hlookup] at h
        cases l with
        | null =>
          cases h
          exact ⟨by decide, rfl⟩
        | integer n => exact hcast n h
        | _ => cases h
    | _ => cases h

variable (horder : ir.orderBy = ⟨.rrf a b kExpr, descending⟩ :: rest)
  (hlimit : ir.limit = some limit)
  (hprimaryVar : searchedVar a = some primaryVar)
  (hprimary : extractSubSearchMode queryVec a params (some limit) = .ok primaryMode)
  (hsecondary : extractSubSearchMode queryVec b params (some limit) = .ok secondaryMode)

include horder hlimit hprimaryVar hprimary hsecondary in
/-- What a query returns: both rankings are over the variable of the primary search. -/
lemma runFused_eq (hplain : exprs.any isAggregate = false)
    (hids : extractIdColumnByName primary (primaryVar ++ ".id") = .ok primaryIds)
    (hids' : extractIdColumnByName secondary (primaryVar ++ ".id") = .ok secondaryIds)
    (hschema : primary.schema = secondary.schema) (hall : primary.append secondary = .ok all)
    (hτ : RankedBy (roundedScore (asU32 ((kExpr.bind fun e => resolveToInt e params).getD 60))
      primaryIds secondaryIds) (entities primaryIds secondaryIds) τ) :
    runFused arrow queryVec ir params exprs primary secondary =
      projectReturn arrow
        (all.take ((τ.flatMap (entityRows primaryIds secondaryIds)).take limit)) exprs params := by
  have hmode : extractSearchMode queryVec { ir with returnExprs := exprs } params =
      .ok { rrf := some ⟨primaryMode, secondaryMode,
        asU32 ((kExpr.bind fun e => resolveToInt e params).getD 60), limit⟩ } := by
    simp only [extractSearchMode, horder, hlimit, extractRrfMode, hprimary, hsecondary,
      ok_bind]
    rfl
  have hlenPrimary := length_of_ids hids
  have hlenSecondary := length_of_ids hids'
  have hne : all.fields ≠ [] := by
    intro hnil
    have hzip := fields_of_append hall
    rw [hnil, List.forall₂_nil_right_iff, zip_eq_nil_iff] at hzip
    rcases hzip with hzip | hzip
    · exact fields_ne_nil hids hzip
    · exact fields_ne_nil hids' hzip
  have hnumRows := numRows_of_append hne hall
  have hwinners : ∀ id ∈ τ.take limit, id ∈ entities primaryIds secondaryIds :=
    fun id hid => hτ.perm.mem_iff.mp (mem_of_mem_take hid)
  have hlt : ∀ l : List String, ∀ i ∈ l.flatMap (entityRows primaryIds secondaryIds),
      i < all.numRows := by
    intro l i hi
    obtain ⟨id, -, hi⟩ := mem_flatMap.mp hi
    exact lt_of_mem_entityRows hlenPrimary hlenSecondary hnumRows hi
  have hproject : ∀ {rows : List ℕ}, (∀ i ∈ rows, i < all.numRows) →
      projectReturn arrow (all.take rows) exprs params =
        (projectReturn arrow all exprs params).map fun b => b.take rows :=
    fun h => @projectReturn_take arrow all { ir with returnExprs := exprs } params hplain _ h
  simp only [runFused, executeFusedQuery, hmode, ok_bind, executeRrfQuery,
    var_of_extractSubSearchMode hprimaryVar hprimary, hids, hids', winners_eq _ _ hτ]
  rw [buildFusedBatch_eq hschema hall hne hlenPrimary hwinners, ok_bind,
    hproject (hlt _), hproject fun i hi => hlt τ i (mem_of_mem_take hi)]
  cases projectReturn arrow all exprs params with
  | error e => rfl
  | ok result =>
    refine congrArg Except.ok ?_
    dsimp only
    rw [numRows_take, slice_take, take_flatMap_take]
    intro id hid
    exact entityRows_ne_nil (hτ.perm.mem_iff.mp hid)

include horder hlimit hprimaryVar hprimary hsecondary in
/-- A query that gives a usable constant, and searches one variable or shows nothing, returns what
it promises where doubles rank what is shown as the exact scores do. -/
lemma fusesAt_of (hc : givenConstant kExpr params = some c)
    (hvars : limit = 0 ∨ primaryVar = secondaryVar)
    (harms : Arms primaryVar secondaryVar primary secondary primaryIds secondaryIds all)
    (hrounds : RoundsAsExact c limit primaryIds secondaryIds) :
    FusesAt arrow queryVec ir params kExpr limit primary secondary primaryIds secondaryIds all := by
  intro exprs hplain
  obtain ⟨-, hk⟩ := asU32_of_givenConstant hc
  have hexact : RankedBy (fusedScore c primaryIds secondaryIds)
      (entities primaryIds secondaryIds) _ := rankedBy_insertionSort (nodup_seen _)
  have hranked : ∀ ids', RankedBy (roundedScore c primaryIds ids') (entities primaryIds ids') _ :=
    fun ids' => rankedBy_insertionSort (nodup_seen _)
  have hrun : ∀ {ids'}, extractIdColumnByName secondary (primaryVar ++ ".id") = .ok ids' →
      runFused arrow queryVec ir params exprs primary secondary = projectReturn arrow
        (all.take (((_ : List String).flatMap (entityRows primaryIds ids')).take limit)) exprs
          params :=
    fun hids' => runFused_eq horder hlimit hprimaryVar hprimary hsecondary hplain
      harms.idsOfPrimary hids' harms.oneSchema harms.allRows (by rw [hk]; exact hranked _)
  rw [hc]
  refine ⟨_, hexact, ?_⟩
  rcases hvars with rfl | rfl
  · obtain ⟨ids', hids'⟩ := exists_ids harms.oneSchema harms.idsOfPrimary
    rw [hrun hids', take_zero, take_zero]
  · rw [hrun harms.idsOfSecondary,
      take_flatMap_eq fun _ => hrounds.getElem?_eq hexact (hranked secondaryIds)]

include horder hlimit hprimaryVar hprimary hsecondary in
/-- A query over one variable that returns what it promises shows entities that doubles rank as the
exact scores do: the returned ids tell them. -/
lemma roundsAsExact_of (hc : givenConstant kExpr params = some c)
    (harms : Arms primaryVar primaryVar primary secondary primaryIds secondaryIds all)
    (h : FusesAt arrow queryVec ir params kExpr limit primary secondary primaryIds secondaryIds
    all) :
    RoundsAsExact c limit primaryIds secondaryIds := by
  have hplain : (idOf primaryVar).any isAggregate = false := rfl
  obtain ⟨-, hk⟩ := asU32_of_givenConstant hc
  have hpromise := h _ hplain
  rw [hc] at hpromise
  obtain ⟨τ, hτ, hpromised⟩ := hpromise
  have hτ' : RankedBy (roundedScore c primaryIds secondaryIds)
      (entities primaryIds secondaryIds) _ := rankedBy_insertionSort (nodup_seen _)
  have hrun : runFused arrow queryVec ir params (idOf primaryVar) _ _ = _ :=
    runFused_eq horder hlimit hprimaryVar hprimary hsecondary hplain harms.idsOfPrimary
      harms.idsOfSecondary harms.oneSchema harms.allRows (by rw [hk]; exact hτ')
  obtain ⟨col, hcol, hids⟩ := ids_of_append harms.oneSchema harms.allRows harms.idsOfPrimary
    harms.idsOfSecondary
  have hlt : ∀ τ : List String,
      ∀ i ∈ (τ.flatMap (entityRows primaryIds secondaryIds)).take limit, i < all.numRows := by
    intro τ i hi
    obtain ⟨id, -, hi⟩ := mem_flatMap.mp (mem_of_mem_take hi)
    obtain ⟨hlt, -⟩ := List.getElem?_eq_some_iff.mp (getElem?_of_mem_entityRows hi)
    rwa [← hids, length_map, length_of_columnByName hcol] at hlt
  obtain ⟨b, hb, hfields⟩ := projectReturn_idOf arrow params hcol
  have htake : ∀ rows : List ℕ, (∀ i ∈ rows, i < all.numRows) →
      projectReturn arrow (all.take rows) (idOf primaryVar) params = .ok (b.take rows) := by
    intro rows hrows
    have htake := @projectReturn_take arrow all { ir with returnExprs := idOf primaryVar } params
      hplain rows hrows
    rwa [hb] at htake
  rw [hrun, htake _ (hlt _), htake _ (hlt _)] at hpromised
  have hcells := congrArg (fun b : RecordBatch => b.fields.map fun field => field.2.cells)
    (Except.ok.inj hpromised)
  simp only [RecordBatch.take, hfields, map_cons, map_nil, Column.cells_take,
    List.cons.injEq, and_true] at hcells
  have howner : ∀ id ∈ entities primaryIds secondaryIds,
      ∀ i ∈ entityRows primaryIds secondaryIds id, idText (col.cell i) = id := by
    intro id _ i hi
    have hget := getElem?_of_mem_entityRows hi
    rw [← hids, List.getElem?_map] at hget
    obtain ⟨cell, hcell, rfl⟩ := map_eq_some_iff.mp hget
    rw [Column.cell, hcell]
    rfl
  refine (shownAlike_iff (fun _ => entityRows_ne_nil) howner hτ hτ').mpr ?_
  have htexts := congrArg (fun cells : List Cell => cells.map idText) hcells
  simpa only [List.map_map, Function.comp_def] using htexts.symm

end Fuses

/-! ### Two searches of two variables -/

section Pairs

variable {primaryVar secondaryVar : String}

/-- A column of texts. -/
def textColumn (texts : List String) : Column where
  dataType := .utf8
  cells := texts.map fun s => some (.scalar (.utf8 s))
  holds value h := by
    obtain ⟨s, -, hs⟩ := List.mem_map.mp h
    cases hs
    trivial

/-- Rows that bind two variables. -/
def pairBatch (primaryVar secondaryVar : String) (pairs : List (String × String)) :
    RecordBatch where
  fields := [(primaryVar ++ ".id", textColumn (pairs.map Prod.fst)),
    (secondaryVar ++ ".id", textColumn (pairs.map Prod.snd))]
  numRows := pairs.length
  lengths := by simp [textColumn]

lemma append_pairBatch (pairs pairs' : List (String × String)) :
    (pairBatch primaryVar secondaryVar pairs).append (pairBatch primaryVar secondaryVar pairs') =
      .ok (pairBatch primaryVar secondaryVar (pairs ++ pairs')) := by
  have happend : ∀ texts texts',
      (textColumn texts).append (textColumn texts') = .ok (textColumn (texts ++ texts')) := by
    intro texts texts'
    unfold Column.append
    rw [dif_pos (by simp [textColumn])]
    exact congrArg Except.ok (Column.eq_of_cells rfl (by simp [textColumn]))
  have hfields : ((pairBatch primaryVar secondaryVar pairs).fields.zip
      (pairBatch primaryVar secondaryVar pairs').fields).mapM
        (fun p => (p.1.2.append p.2.2).map fun col => (p.1.1, col)) =
      (.ok (pairBatch primaryVar secondaryVar (pairs ++ pairs')).fields : Except OmniError _) := by
    simp only [pairBatch, zip_cons_cons, zip_nil_left, mapM_cons, mapM_nil,
      happend, map_append]
    rfl
  rw [append, hfields, ok_bind]
  exact tryNew_of_lengths (by simp [pairBatch])
    (pairBatch primaryVar secondaryVar (pairs ++ pairs')).lengths

lemma idText_textColumn (texts : List String) : (textColumn texts).cells.map idText = texts := by
  simp [textColumn, Function.comp_def, idText]

lemma columnByName_pairBatch (pairs : List (String × String)) :
    (pairBatch primaryVar secondaryVar pairs).columnByName (primaryVar ++ ".id") =
      some (textColumn (pairs.map Prod.fst)) := by
  simp [columnByName, pairBatch]

lemma primaryIds_pairBatch (pairs : List (String × String)) :
    extractIdColumnByName (pairBatch primaryVar secondaryVar pairs) (primaryVar ++ ".id") =
      .ok (pairs.map Prod.fst) := by
  rw [← idText_textColumn (pairs.map Prod.fst), extractIdColumnByName, columnByName_pairBatch]
  rfl

lemma secondaryIds_pairBatch (hne : primaryVar ≠ secondaryVar) (pairs : List (String × String)) :
    extractIdColumnByName (pairBatch primaryVar secondaryVar pairs) (secondaryVar ++ ".id") =
      .ok (pairs.map Prod.snd) := by
  have hname : primaryVar ++ ".id" ≠ secondaryVar ++ ".id" := by
    intro h
    exact hne (String.append_left_inj _ |>.mp h)
  rw [← idText_textColumn (pairs.map Prod.snd)]
  simp [extractIdColumnByName, columnByName, pairBatch, textColumn, hname]

variable {V : Type} {arrow : Arrow} {queryVec : String → String → IRExpr → Except OmniError V}
  {ir : QueryIR} {params : ParamMap} {a b : IRExpr} {kExpr : Option IRExpr} {descending : Bool}
  {rest : List IROrdering} {limit : ℕ} {primaryMode secondaryMode : ArmMode V}
  (horder : ir.orderBy = ⟨.rrf a b kExpr, descending⟩ :: rest)
  (hlimit : ir.limit = some limit)
  (hprimaryVar : searchedVar a = some primaryVar)
  (hsecondaryVar : searchedVar b = some secondaryVar)
  (hprimary : extractSubSearchMode queryVec a params (some limit) = .ok primaryMode)
  (hsecondary : extractSubSearchMode queryVec b params (some limit) = .ok secondaryMode)

/-- A query keeps its promises where the scores in doubles rank as the exact scores do. -/
def FusesWhereRounded (arrow : Arrow) (queryVec : String → String → IRExpr → Except OmniError V)
    (ir : QueryIR) (params : ParamMap) (primaryVar secondaryVar : String) (k : Option IRExpr)
    (limit : ℕ) : Prop :=
  ∀ primary secondary primaryIds secondaryIds all,
    Arms primaryVar secondaryVar primary secondary primaryIds secondaryIds all →
      (∀ c, givenConstant k params = some c → RoundsAsExact c limit primaryIds secondaryIds) →
        FusesAt arrow queryVec ir params k limit primary secondary primaryIds secondaryIds all

include horder hlimit hprimaryVar hprimary hsecondary in
/-- A constant that cannot be used is not refused. -/
lemma not_fuses_of_none (hk : givenConstant kExpr params = none) :
    ¬ FusesWhereRounded arrow queryVec ir params primaryVar secondaryVar kExpr limit := by
  intro h
  have hids : ∀ v, v = primaryVar ∨ v = secondaryVar →
      extractIdColumnByName (pairBatch primaryVar secondaryVar []) (v ++ ".id") = .ok [] := by
    intro v hv
    by_cases hvar : v = primaryVar
    · rw [hvar]
      exact primaryIds_pairBatch []
    · have hv := hv.resolve_left hvar
      rw [hv]
      exact secondaryIds_pairBatch (fun heq => hvar (hv.trans heq.symm)) []
  have harms : Arms primaryVar secondaryVar (pairBatch primaryVar secondaryVar [])
      (pairBatch primaryVar secondaryVar []) [] [] (pairBatch primaryVar secondaryVar []) :=
    ⟨hids _ (.inl rfl), hids _ (.inr rfl), rfl, append_pairBatch [] [], nofun⟩
  have hplain : (idOf primaryVar).any isAggregate = false := rfl
  have hrefused := h _ _ _ _ _ harms (by simp [hk]) _ hplain
  rw [hk] at hrefused
  obtain ⟨e, he⟩ := hrefused
  obtain ⟨col, hcol, -⟩ := column_of_ids (hids primaryVar (.inl rfl))
  obtain ⟨b, hb, -⟩ := projectReturn_idOf arrow params hcol
  have hτ : RankedBy (roundedScore (asU32 ((kExpr.bind fun e => resolveToInt e params).getD 60))
      [] []) (entities [] []) [] := ⟨List.Perm.refl _, List.Pairwise.nil⟩
  have hrun : runFused arrow queryVec ir params (idOf primaryVar) _ _ = _ :=
    runFused_eq horder hlimit hprimaryVar hprimary hsecondary hplain
      (hids _ (.inl rfl)) (hids _ (.inl rfl)) rfl (append_pairBatch [] []) hτ
  have htake := @projectReturn_take arrow (pairBatch primaryVar secondaryVar [])
    { ir with returnExprs := idOf primaryVar } params hplain [] (by simp)
  rw [hb] at htake
  rw [hrun, flatMap_nil, take_nil] at he
  cases htake.symm.trans he

variable {score : String → ℚ}

/-- The entities of two searches when the second one finds another entity. -/
lemma ranked_of_other (hq : score "q" = score "a") (hb : score "b" < score "a") :
    RankedBy score (entities ["a", "b"] ["q"]) ["a", "q", "b"] := by
  refine ⟨by decide, ?_⟩
  simp only [pairwise_cons, mem_cons, not_mem_nil, or_false, forall_eq_or_imp,
    forall_eq, Outranks, hq]
  exact ⟨⟨.inr ⟨trivial, by decide⟩, .inl hb⟩, .inl hb, fun _ h => h.elim, .nil⟩

/-- The same entities when the second search is read off the first variable. -/
lemma ranked_of_first (h : score "a" < score "b") :
    RankedBy score (entities ["a", "b"] ["b"]) ["b", "a"] := by
  refine ⟨by decide, ?_⟩
  simp only [pairwise_cons, mem_cons, not_mem_nil, or_false, forall_eq, Outranks]
  exact ⟨.inl h, fun _ h => h.elim, .nil⟩

/-- The shares of the first two ranks in doubles: their errors are far below their distance. -/
lemma roundedReciprocal_bounds (hc : c < 2 ^ 32) :
    0 < roundedReciprocal c 1 ∧
      roundedReciprocal c 1 + roundedReciprocal c 1 / 2 ^ 50 ≤ roundedReciprocal c 0 ∧
      roundedReciprocal c 0 ≤ 4 * roundedReciprocal c 1 := by
  have hshare : ∀ rank ≤ 1, roundedReciprocal c rank =
      nearest (1 / ((c : ℚ) + rank + 1)) := by
    intro rank hrank
    have hsum : nearest ((c : ℚ) + rank) = (c : ℚ) + rank := by
      exact_mod_cast nearest_natCast (n := c + rank) (by omega)
    have hnext : nearest ((c : ℚ) + rank + 1) = (c : ℚ) + rank + 1 := by
      exact_mod_cast nearest_natCast (n := c + rank + 1) (by omega)
    rw [roundedReciprocal, nearest_natCast (n := c) (by omega),
      nearest_natCast (n := rank) (by omega), hsum, hnext]
  have hcast : (c : ℚ) ≤ 2 ^ 32 := by exact_mod_cast hc.le
  set x : ℚ := 1 / ((c : ℚ) + 1)
  set y : ℚ := 1 / ((c : ℚ) + 2)
  have hx : roundedReciprocal c 0 = nearest x := by
    rw [hshare 0 (by omega)]
    simp [x]
  have hy : roundedReciprocal c 1 = nearest y := by
    rw [hshare 1 le_rfl, Nat.cast_one, add_assoc, one_add_one_eq_two]
  have hxpos : 0 < x := by positivity
  have hypos : 0 < y := by positivity
  have hdistance : y + y / 2 ^ 33 ≤ x := by
    have hxy : x - y = x * y := by
      simp only [x, y]
      field_simp
      ring
    have hlarge : 1 / 2 ^ 33 ≤ x := one_div_le_one_div_of_le (by positivity) (by linarith)
    nlinarith
  have hhalf : x ≤ 2 * y := by
    have hle : (c : ℚ) + 2 ≤ 2 * ((c : ℚ) + 1) := by
      have : (0 : ℚ) ≤ c := c.cast_nonneg
      linarith
    rw [← div_le_iff₀' two_pos]
    simp only [x, y]
    rw [div_div]
    exact one_div_le_one_div_of_le (by positivity) (by linarith)
  have hxerror := abs_le.mp (abs_nearest_sub_le hxpos)
  have hyerror := abs_le.mp (abs_nearest_sub_le hypos)
  norm_num at hxerror hyerror hdistance ⊢
  rw [hx, hy]
  refine ⟨?_, ?_, ?_⟩ <;> linarith

/-- Doubles rank two ranks of one search, and the first rank of another, as the exact scores do. -/
lemma scores_of_other (hc : c < 2 ^ 32) :
    RankedBy (fusedScore c ["a", "b"] ["q"]) (entities ["a", "b"] ["q"]) ["a", "q", "b"] ∧
      RankedBy (roundedScore c ["a", "b"] ["q"]) (entities ["a", "b"] ["q"]) ["a", "q", "b"] := by
  have hseen : seen ["a", "b"] = ["a", "b"] := by decide
  have hseen' : seen ["q"] = ["q"] := by decide
  obtain ⟨hpos, hlt, -⟩ := roundedReciprocal_bounds hc
  constructor
  · refine ranked_of_other ?_ ?_
    · simp [fusedScore, reciprocalRank, hseen, hseen']
    · have hlt : 1 / ((c : ℚ) + 2) < 1 / ((c : ℚ) + 1) :=
        one_div_lt_one_div_of_lt (by positivity) (by linarith)
      simpa [fusedScore, reciprocalRank, hseen, hseen'] using hlt
  · refine ranked_of_other ?_ ?_
    · simp [roundedScore, roundedRank, hseen, hseen']
    · simpa [roundedScore, roundedRank, hseen, hseen'] using nearest_lt_nearest hpos hlt

lemma rounded_of_first (hc : c < 2 ^ 32) :
    RankedBy (roundedScore c ["a", "b"] ["b"]) (entities ["a", "b"] ["b"]) ["b", "a"] := by
  have hseen : seen ["a", "b"] = ["a", "b"] := by decide
  have hseen' : seen ["b"] = ["b"] := by decide
  obtain ⟨hpos, hlt, hle⟩ := roundedReciprocal_bounds hc
  have hsum : nearest (roundedReciprocal c 0) <
      nearest (roundedReciprocal c 1 + roundedReciprocal c 0) := by
    refine nearest_lt_nearest ?_ ?_
    · exact lt_of_lt_of_le (by positivity) hlt
    · norm_num
      linarith
  refine ranked_of_first ?_
  simpa [roundedScore, roundedRank, hseen, hseen'] using hsum

/-- The rows of two searches of two variables. -/
lemma arms_pairBatch (hne : primaryVar ≠ secondaryVar) : Arms primaryVar secondaryVar
    (pairBatch primaryVar secondaryVar [("a", "q"), ("b", "q")])
    (pairBatch primaryVar secondaryVar [("b", "q")]) ["a", "b"] ["q"]
    (pairBatch primaryVar secondaryVar [("a", "q"), ("b", "q"), ("b", "q")]) :=
  ⟨primaryIds_pairBatch _, secondaryIds_pairBatch hne _, rfl, append_pairBatch _ _, by simp⟩

include horder hlimit hprimaryVar hprimary hsecondary in
/-- The ranks of the second search are taken over the variable of the first one. -/
lemma not_fusesAt_pairBatch (hc : givenConstant kExpr params = some c) (hlimitPos : limit ≠ 0)
    (hne : primaryVar ≠ secondaryVar) :
    ¬ FusesAt arrow queryVec ir params kExpr limit
      (pairBatch primaryVar secondaryVar [("a", "q"), ("b", "q")])
      (pairBatch primaryVar secondaryVar [("b", "q")]) ["a", "b"] ["q"]
      (pairBatch primaryVar secondaryVar [("a", "q"), ("b", "q"), ("b", "q")]) := by
  intro h
  obtain ⟨⟨-, hcLt⟩, hk⟩ := asU32_of_givenConstant hc
  have harms := arms_pairBatch hne
  have hplain : (idOf primaryVar).any isAggregate = false := rfl
  have hpromise := h _ hplain
  rw [hc] at hpromise
  obtain ⟨τ, hτ, hpromised⟩ := hpromise
  rw [hτ.unique (scores_of_other hcLt).1] at hpromised
  have hids : extractIdColumnByName (pairBatch primaryVar secondaryVar [("b", "q")])
      (primaryVar ++ ".id") = .ok ["b"] := primaryIds_pairBatch _
  have hrun : runFused arrow queryVec ir params (idOf primaryVar) _ _ = _ :=
    runFused_eq horder hlimit hprimaryVar hprimary hsecondary hplain harms.idsOfPrimary hids
      harms.oneSchema harms.allRows (by rw [hk]; exact rounded_of_first hcLt)
  obtain ⟨b, hb, hfields⟩ := projectReturn_idOf arrow params
    (@columnByName_pairBatch primaryVar secondaryVar [("a", "q"), ("b", "q"), ("b", "q")])
  have htake : ∀ rows : List ℕ, (∀ i ∈ rows, i < 3) →
      projectReturn arrow ((pairBatch primaryVar secondaryVar
        [("a", "q"), ("b", "q"), ("b", "q")]).take rows) (idOf primaryVar) params =
          .ok (b.take rows) := by
    intro rows hrows
    have := @projectReturn_take arrow (pairBatch primaryVar secondaryVar
      [("a", "q"), ("b", "q"), ("b", "q")]) { ir with returnExprs := idOf primaryVar } params
        hplain rows hrows
    rw [hb] at this
    exact this
  have hrows : ["b", "a"].flatMap (entityRows ["a", "b"] ["b"]) = [1, 0] := by decide
  have hrows' : ["a", "q", "b"].flatMap (entityRows ["a", "b"] ["q"]) = [0, 2, 1] := by decide
  obtain ⟨n, rfl⟩ := Nat.exists_eq_succ_of_ne_zero hlimitPos
  have hsmall : ∀ {rows : List ℕ} {n}, (∀ i ∈ rows, i < 3) → ∀ i ∈ rows.take n, i < 3 :=
    fun h i hi => h i (mem_of_mem_take hi)
  rw [hrun, hrows, hrows', htake _ (hsmall (by simp)), htake _ (hsmall (by simp))] at hpromised
  have hsame := congrArg (fun b : RecordBatch => b.fields) (Except.ok.inj hpromised)
  simp [RecordBatch.take, hfields, textColumn, Column.take, Column.cell] at hsame

end Pairs

/-! ### Queries -/

section Queries

/-- `nearest($d.embedding, $q)` -/
def nearestDoc : IRExpr := .nearest "d" "embedding" (.param "q")

/-- `bm25($v.title, "rust")` -/
def titleOf (variable_ : String) : IRExpr :=
  .bm25 (.propAccess variable_ "title") (.literal (.string "rust"))

/-- `order { rrf(nearest($d.embedding, $q), bm25($v.title, "rust")) desc } limit 2` -/
def hybrid (variable_ : String) : QueryIR where
  name := "hybrid"
  params := []
  pipeline := []
  returnExprs := idOf "d"
  orderBy := [⟨.rrf nearestDoc (titleOf variable_) none, true⟩]
  limit := some 2

/-- An embedding with one vector. -/
def oneVec (_ _ : String) (_ : IRExpr) : Except OmniError Unit := .ok ()

end Queries

end Omnigraph.Query
