import Omnigraph.Query.Partition

/-!
# When aggregation is exact

The rows of a group are those that agree on the key columns, and every row is in one group. The
other promises of an aggregate query, one result for every order of the rows and one schema with and
without rows, hold under conditions on its names, types and doubles.
-/

namespace Omnigraph.Query

open List Except Compiler

variable {arrow : Arrow} {wide : RecordBatch} {projections : List IRProjection} {params : ParamMap}
  {resolved : List Resolved}

/-! ### The promises -/

/-- What an aggregate query promises for one input. -/
structure Exactly (arrow : Arrow) (wide : RecordBatch) (projections : List IRProjection)
    (params : ParamMap) (resolved : List Resolved) : Prop where
  /-- Two rows are in one group if and only if they agree on the key columns. -/
  together : ∀ i < wide.numRows, ∀ j < wide.numRows,
    (∃ group ∈ groupIndices arrow (groupColumns resolved) wide.numRows, i ∈ group ∧ j ∈ group) ↔
      ∀ col ∈ groupColumns resolved, col.cell i = col.cell j
  /-- Every row is in one group, once. -/
  once : (groupIndices arrow (groupColumns resolved) wide.numRows).flatten.Perm
    (List.range wide.numRows)
  /-- Keys, counts, minima and maxima do not depend on the order of the rows. -/
  unordered : ∀ indices : List ℕ, indices.Perm (List.range wide.numRows) → ∀ out,
    aggregateReturn arrow wide projections params = .ok out →
      ∃ out', aggregateReturn arrow (wide.take indices) projections params = .ok out' ∧
        (out'.rows.map (stableCells projections)).Perm (out.rows.map (stableCells projections))
  /-- Without rows and keys the columns are those of an input with rows. -/
  oneSchema : wide.numRows = 0 → groupColumns resolved = [] → ∀ other : RecordBatch,
    other.schema = wide.schema → 0 < other.numRows → ∀ out out',
      aggregateReturn arrow wide projections params = .ok out →
        aggregateReturn arrow other projections params = .ok out' → out.schema = out'.schema

/-- What an aggregate query promises for one input, if its expressions can be evaluated. -/
def AggregatesExactly (arrow : Arrow) (wide : RecordBatch) (projections : List IRProjection)
    (params : ParamMap) : Prop :=
  ∀ resolved, projections.mapM (resolve arrow wide params) = .ok resolved →
    Exactly arrow wide projections params resolved

/-- Every column has a name of its own, and minima and maxima are doubles. -/
def NamedDoubles (projections : List IRProjection) (resolved : List Resolved) : Prop :=
  ∀ p ∈ projections.zip resolved, (p.1.asName = none → p.2.name = "?") ∧
    ∀ isMin, p.2.func = some (extremeFunc isMin) → p.2.column.dataType = .float64

/-- The condition under which the promises are kept, where the functions take the types of their
columns. -/
structure Settles (wide : RecordBatch) (projections : List IRProjection)
    (resolved : List Resolved) : Prop where
  named : wide.numRows = 0 → groupColumns resolved = [] → NamedDoubles projections resolved
  settled : SettledGroups resolved wide.numRows

/-! ### The empty result -/

variable (hresolved : projections.mapM (resolve arrow wide params) = .ok resolved)

include hresolved in
lemma aggregateReturn_zero (hzero : wide.numRows = 0) (hkeys : groupColumns resolved = []) :
    aggregateReturn arrow wide projections params = buildEmptyAggregateResult projections := by
  simp only [aggregateReturn, hresolved, ok_bind]
  rw [if_pos ⟨hzero, hkeys⟩]

/-- The field of a projection in the empty result. -/
def emptyField (proj : IRProjection) : String × DataType :=
  (proj.asName.getD "?", (emptyCell proj.expr).dataType)

lemma buildEmptyAggregateResult_eq (hne : projections ≠ []) :
    ∃ out, buildEmptyAggregateResult projections = .ok out := by
  refine ⟨_, RecordBatch.tryNew_of_lengths (n := 1) (by simpa using hne) fun field hfield => ?_⟩
  obtain ⟨proj, -, rfl⟩ := List.mem_map.mp hfield
  rfl

variable {out out' : RecordBatch} {proj : IRProjection} {r : Resolved} {indices : List ℕ}

lemma schema_buildEmptyAggregateResult (h : buildEmptyAggregateResult projections = .ok out) :
    out.schema = projections.map emptyField := by
  rw [RecordBatch.schema, RecordBatch.fields_of_tryNew h, List.map_map]
  rfl

lemma map_eq_map_iff {α β γ : Type*} {f : α → γ} {g : β → γ} {l : List α} {r : List β}
    (h : l.length = r.length) : l.map f = r.map g ↔ ∀ p ∈ l.zip r, f p.1 = g p.2 := by
  induction l generalizing r with
  | nil =>
    rw [length_eq_zero_iff.mp h.symm]
    simp
  | cons a l ih =>
    cases r with
    | nil => cases h
    | cons b r =>
      rw [map_cons, map_cons, List.cons.injEq, ih (Nat.succ.inj h)]
      simp

lemma func_of_resolve (h : resolve arrow wide params proj = .ok r) (hfunc : r.func ≠ none) :
    ∃ func arg, proj.expr = .aggregate func arg ∧ r.func = some func := by
  cases hexpr : proj.expr with
  | aggregate func arg =>
    simp only [resolve, hexpr] at h
    obtain ⟨p, -, rfl⟩ := map_eq_ok h
    exact ⟨func, arg, rfl, rfl⟩
  | _ =>
    simp only [resolve, hexpr] at h
    obtain ⟨p, -, rfl⟩ := map_eq_ok h
    exact absurd rfl hfunc

lemma name_of_resolve (h : resolve arrow wide params proj = .ok r) :
    proj.asName.getD "?" = r.name ↔ (proj.asName = none → r.name = "?") := by
  have hname : ∃ name, r.name = proj.asName.getD name := by
    cases hexpr : proj.expr <;> simp only [resolve, hexpr] at h <;>
      obtain ⟨p, -, rfl⟩ := map_eq_ok h <;> exact ⟨_, rfl⟩
  obtain ⟨name, hname⟩ := hname
  rw [hname]
  cases proj.asName with
  | none => simp [eq_comm]
  | some alias_ => simp

lemma resultType_eq_iff {func : AggFunc} (h : r.func = some func) (arg : IRExpr) :
    (emptyCell (.aggregate func arg)).dataType = r.resultType ↔
      ∀ isMin, r.func = some (extremeFunc isMin) → r.column.dataType = .float64 := by
  simp only [Resolved.resultType, h]
  cases func <;> simp [eq_comm, emptyCell, extremeFunc]

include hresolved in
/-- The empty result has the columns of a result with rows if and only if every column is named and
minima and maxima are doubles. -/
lemma map_emptyField_eq_iff (hkeys : groupColumns resolved = []) :
    projections.map emptyField = resolved.map (fun r => (r.name, r.resultType)) ↔
      NamedDoubles projections resolved := by
  obtain ⟨hlen, hzip⟩ := List.forall₂_iff_zip.mp (mapM_eq_ok_iff.mp hresolved)
  rw [map_eq_map_iff hlen]
  refine forall₂_congr fun p hp => ?_
  have hr : resolve arrow wide params p.1 = .ok p.2 := hzip hp
  have hfunc : p.2.func ≠ none := by
    intro hnone
    have hmem : p.2.column ∈ groupColumns resolved :=
      List.mem_map_of_mem (mem_filter.mpr ⟨(of_mem_zip hp).2, by simpa using hnone⟩)
    rw [hkeys] at hmem
    cases hmem
  obtain ⟨func, arg, hexpr, hsome⟩ := func_of_resolve hr hfunc
  rw [← name_of_resolve hr, ← resultType_eq_iff hsome arg, emptyField, Prod.mk.injEq, hexpr]

/-! ### Groups -/

lemma together (hrender : arrow.Renders) (cols : List Column) {numRows i j : ℕ}
    (hi : i < numRows) (hj : j < numRows) :
    (∃ group ∈ groupIndices arrow cols numRows, i ∈ group ∧ j ∈ group) ↔
      ∀ col ∈ cols, col.cell i = col.cell j := by
  have hne : ¬ (List.range numRows = [] ∧ cols = []) := by
    rintro ⟨h, -⟩
    have := range_eq_nil.mp h
    omega
  have hgroups : groupIndices arrow cols numRows =
      Grouped.groups (buildGroupKey arrow cols) (List.range numRows) := rowGroups_eq hne
  rw [hgroups, Grouped.mem_group_iff (mem_range.mpr hi) (mem_range.mpr hj),
    buildGroupKey_eq_iff hrender]

/-! ### Orders -/

lemma length_of_perm_range (h : indices.Perm (List.range wide.numRows)) :
    indices.length = wide.numRows := by
  rw [h.length_eq, length_range]

lemma lt_of_perm_range (h : indices.Perm (List.range wide.numRows)) :
    ∀ i ∈ indices, i < wide.numRows :=
  fun _ hi => mem_range.mp (h.mem_iff.mp hi)

variable (hrows : ¬ (wide.numRows = 0 ∧ groupColumns resolved = []))

include hrows hresolved in
/-- The result over reordered rows exists if the result does. -/
lemma exists_aggregateReturn_take (hout : aggregateReturn arrow wide projections params = .ok out)
    (hperm : indices.Perm (List.range wide.numRows)) :
    ∃ out', aggregateReturn arrow (wide.take indices) projections params = .ok out' := by
  obtain ⟨hsupported, -, -⟩ := aggregateReturn_spec hresolved hrows hout
  refine exists_aggregateReturn (mapM_resolve_take (lt_of_perm_range hperm) hresolved) ?_ ?_ ?_
  · intro hnil
    rw [map_eq_nil_iff] at hnil
    subst hnil
    have := mapM_eq_ok_iff.mp hresolved
    cases this
    rw [aggregateReturn, hresolved, ok_bind] at hout
    rw [if_neg hrows] at hout
    cases hout
  · intro r hr
    obtain ⟨s, hs, rfl⟩ := List.mem_map.mp hr
    exact hsupported s hs
  · rw [RecordBatch.numRows_take, groupColumns_take, length_of_perm_range hperm]
    simpa using hrows

include hrows hresolved in
lemma stableRows_take (hperm : indices.Perm (List.range wide.numRows))
    (hout' : aggregateReturn arrow (wide.take indices) projections params = .ok out') :
    out'.rows.map (stableCells projections) =
      (Grouped.seen (indices.map (buildGroupKey arrow (groupColumns resolved)))).map fun k =>
        (resolved.filter Resolved.isStable).map
          (groupCell arrow (rowsOf arrow resolved k indices)) := by
  have hne : ¬ (indices = [] ∧ groupColumns resolved = []) := by
    rintro ⟨rfl, hkeys⟩
    exact hrows ⟨by simpa using (length_of_perm_range hperm).symm, hkeys⟩
  exact stableRows_aggregateReturn hresolved hne
    (aggregateReturn_take (lt_of_perm_range hperm) hresolved hne hout')

include hrows hresolved in
lemma stableRows (hout : aggregateReturn arrow wide projections params = .ok out) :
    out.rows.map (stableCells projections) =
      (Grouped.seen ((List.range wide.numRows).map
        (buildGroupKey arrow (groupColumns resolved)))).map fun k =>
        (resolved.filter Resolved.isStable).map
          (groupCell arrow (rowsOf arrow resolved k (List.range wide.numRows))) :=
  stableRows_aggregateReturn hresolved (by simpa using hrows)
    (aggregateReturn_spec hresolved hrows hout).2.2

lemma unordered_of_settled (hrender : arrow.Renders)
    (hresolved : projections.mapM (resolve arrow wide params) = .ok resolved)
    (hrows : ¬ (wide.numRows = 0 ∧ groupColumns resolved = []))
    (hsettled : SettledGroups resolved wide.numRows)
    (hperm : indices.Perm (List.range wide.numRows))
    (hout : aggregateReturn arrow wide projections params = .ok out)
    (hout' : aggregateReturn arrow (wide.take indices) projections params = .ok out') :
    (out'.rows.map (stableCells projections)).Perm (out.rows.map (stableCells projections)) := by
  have hsupported := (aggregateReturn_spec hresolved hrows hout).1
  rw [stableRows hresolved hrows hout, stableRows_take hresolved hrows hperm hout']
  have hkeys := perm_seen (hperm.map (buildGroupKey arrow (groupColumns resolved)))
  refine (List.Perm.of_eq ?_).trans (hkeys.map _)
  apply map_congr_left
  intro k hk
  apply map_congr_left
  intro r hr
  obtain ⟨hr, hstable⟩ := mem_filter.mp hr
  exact groupCell_rowsOf hrender hsupported hsettled hperm
    (Grouped.mem_seen.mp (hkeys.mem_iff.mp hk)) hr hstable

include hrows hresolved in
/-- If the stable cells do not depend on the order of the rows, no cell of a group does. -/
lemma groupCell_of_unordered (hperm : indices.Perm (List.range wide.numRows))
    (hout : aggregateReturn arrow wide projections params = .ok out)
    (hout' : aggregateReturn arrow (wide.take indices) projections params = .ok out')
    (h : (out'.rows.map (stableCells projections)).Perm (out.rows.map (stableCells projections)))
    {k : String}
    (hk : k ∈ (List.range wide.numRows).map (buildGroupKey arrow (groupColumns resolved)))
    (hr : r ∈ resolved) (hstable : r.isStable = true) :
    groupCell arrow (rowsOf arrow resolved k indices) r =
      groupCell arrow (rowsOf arrow resolved k (List.range wide.numRows)) r := by
  rw [stableRows hresolved hrows hout, stableRows_take hresolved hrows hperm hout'] at h
  have hk' : k ∈ indices.map (buildGroupKey arrow (groupColumns resolved)) :=
    (hperm.map _).mem_iff.mpr hk
  -- the row of the key is the row of some key in the other order
  obtain ⟨k', hk'', hsame⟩ := List.mem_map.mp
    (h.mem_iff.mp (List.mem_map_of_mem (Grouped.mem_seen.mpr hk')))
  have hcells := map_inj_left.mp hsame
  have hne : ∀ {rows : List ℕ} {k : String},
      k ∈ rows.map (buildGroupKey arrow (groupColumns resolved)) →
        rowsOf arrow resolved k rows ≠ [] := by
    intro rows k hk
    obtain ⟨row, hrow, hkey⟩ := List.mem_map.mp hk
    exact ne_nil_of_mem (mem_filter.mpr ⟨hrow, by simpa using hkey⟩)
  have hkeys : k' = k := by
    rw [← key_headD (hne (Grouped.mem_seen.mp hk'')), ← key_headD (hne hk')]
    apply String.toList_inj.mp
    rw [toList_buildGroupKey, toList_buildGroupKey]
    apply flatMap_congr
    intro col hcol
    obtain ⟨s, hs, rfl⟩ := List.mem_map.mp hcol
    obtain ⟨hs, hnone⟩ := mem_filter.mp hs
    have hnone : s.func = none := of_decide_eq_true hnone
    have := hcells s (mem_filter.mpr ⟨hs, by simp [Resolved.isStable, hnone]⟩)
    simp only [groupCell, hnone, rowsOf] at this
    rw [this]
  subst hkeys
  exact (hcells r (mem_filter.mpr ⟨hr, hstable⟩)).symm

include hresolved in
lemma settled_of_unordered (hrender : arrow.Renders)
    (hexact : Exactly arrow wide projections params resolved)
    (hsupported : ∀ r ∈ resolved, r.Supported) : SettledGroups resolved wide.numRows := by
  intro r hr hfloat isMin hfunc row hrow
  have hstable : r.isStable = true := by
    cases isMin <;> simp [Resolved.isStable, hfunc, extremeFunc]
  have hrows : ¬ (wide.numRows = 0 ∧ groupColumns resolved = []) := by omega
  obtain ⟨out, hout⟩ := exists_aggregateReturn hresolved (ne_nil_of_mem hr) hsupported hrows
  rw [← rowsOf_eq_rowsLike hrender]
  apply settled_of_forall_perm
  intro rows' hperm'
  obtain ⟨indices, hperm, hrowsOf⟩ := exists_perm_rowsOf hperm'
  obtain ⟨out', hout', hunordered⟩ := hexact.unordered indices hperm out hout
  have hcell := groupCell_of_unordered hresolved hrows hperm hout hout' hunordered
    (List.mem_map_of_mem (mem_range.mpr hrow)) hr hstable
  rw [hrowsOf] at hcell
  simp only [groupCell, hfunc] at hcell
  cases isMin with
  | true => exact hcell
  | false => exact hcell

/-! ### The condition -/

include hresolved in
lemma named_of_exactly (hexact : Exactly arrow wide projections params resolved)
    (hsupported : ∀ r ∈ resolved, r.Supported) (hzero : wide.numRows = 0)
    (hkeys : groupColumns resolved = []) : NamedDoubles projections resolved := by
  by_cases hne : projections = []
  · subst hne
    intro p hp
    cases hp
  obtain ⟨out, hout⟩ := buildEmptyAggregateResult_eq hne
  obtain ⟨resolved', hresolved', halike⟩ :=
    mapM_resolve_schema wide.schema_nullRow.symm hresolved
  have hsupported' : ∀ r ∈ resolved', r.Supported := by
    intro r' hr'
    obtain ⟨r, hr, hlike⟩ := halike.exists_left hr'
    exact hlike.supported (hsupported r hr)
  have hne' : resolved' ≠ [] := by
    rintro rfl
    cases mapM_eq_ok_iff.mp hresolved'
    exact hne rfl
  have hrows : ¬ (wide.nullRow.numRows = 0 ∧ groupColumns resolved' = []) :=
    fun h => one_ne_zero h.1
  obtain ⟨out', hout'⟩ := exists_aggregateReturn hresolved' hne' hsupported' hrows
  have hschema := hexact.oneSchema hzero hkeys wide.nullRow wide.schema_nullRow Nat.one_pos out out'
    (by rw [aggregateReturn_zero hresolved hzero hkeys, hout]) hout'
  rw [schema_buildEmptyAggregateResult hout, (aggregateReturn_spec hresolved' hrows hout').2.1]
    at hschema
  rw [← map_emptyField_eq_iff hresolved hkeys, hschema]
  exact (halike.map_eq fun r r' hlike => by rw [hlike.name, hlike.resultType]).symm

/-- Settled groups keep the promises. -/
lemma exactly_of_settles (hrender : arrow.Renders)
    (hresolved : projections.mapM (resolve arrow wide params) = .ok resolved)
    (h : (∀ r ∈ resolved, r.Supported) → Settles wide projections resolved) :
    Exactly arrow wide projections params resolved := by
  refine ⟨fun i hi j hj => together hrender _ hi hj, ?_, ?_, ?_⟩
  · rw [groupIndices]
    split_ifs
    · simp
    · exact Grouped.flatten_groups_perm _
  · intro indices hperm out hout
    by_cases hrows : wide.numRows = 0 ∧ groupColumns resolved = []
    · -- there is one order of no rows
      refine ⟨out, ?_, List.Perm.refl _⟩
      rw [aggregateReturn_zero hresolved hrows.1 hrows.2] at hout
      have hlen := length_of_perm_range hperm
      rw [hrows.1] at hlen
      rw [aggregateReturn_zero (mapM_resolve_take (lt_of_perm_range hperm) hresolved) hlen
        (by rw [groupColumns_take, hrows.2]; rfl), hout]
    · obtain ⟨out', hout'⟩ := exists_aggregateReturn_take hresolved hrows hout hperm
      have hsupported := (aggregateReturn_spec hresolved hrows hout).1
      exact ⟨out', hout', unordered_of_settled hrender hresolved hrows (h hsupported).settled hperm
        hout hout'⟩
  · intro hzero hkeys other hschema hpos out out' hout hout'
    obtain ⟨resolved', hresolved', halike⟩ := mapM_resolve_schema hschema.symm hresolved
    have hrows : ¬ (other.numRows = 0 ∧ groupColumns resolved' = []) := by omega
    obtain ⟨hsupported', hschema', -⟩ := aggregateReturn_spec hresolved' hrows hout'
    have hsupported : ∀ r ∈ resolved, r.Supported := by
      intro r hr
      obtain ⟨r', hr', hlike⟩ := halike.exists_right hr
      exact Resolved.Alike.supported ⟨hlike.name.symm, hlike.func.symm, hlike.dataType.symm⟩
        (hsupported' r' hr')
    rw [aggregateReturn_zero hresolved hzero hkeys] at hout
    rw [schema_buildEmptyAggregateResult hout, hschema',
      (map_emptyField_eq_iff hresolved hkeys).mpr ((h hsupported).named hzero hkeys)]
    exact halike.map_eq fun r r' hlike => by rw [hlike.name, hlike.resultType]

/-- Aggregation keeps its promises if and only if, where the functions take the types of their
columns, an input without rows and keys has named columns and double extremes, and the doubles that
a minimum or maximum is taken of are settled. -/
theorem aggregatesExactly_iff (hrender : arrow.Renders) (wide : RecordBatch)
    (projections : List IRProjection) (params : ParamMap) :
    AggregatesExactly arrow wide projections params ↔
      ∀ resolved, projections.mapM (resolve arrow wide params) = .ok resolved →
        (∀ r ∈ resolved, r.Supported) → Settles wide projections resolved := by
  constructor
  · intro h resolved hresolved hsupported
    have hexact := h resolved hresolved
    exact ⟨named_of_exactly hresolved hexact hsupported,
      settled_of_unordered hresolved hrender hexact hsupported⟩
  · exact fun h resolved hresolved => exactly_of_settles hrender hresolved (h resolved hresolved)

/-! ### Inputs -/

section Inputs

def scalarText : Scalar → String
  | .utf8 s => s
  | .boolean b => toString b
  | .int i => toString i
  | .float bits => toString bits.toNat

/-- Texts of values that tell them apart. -/
def plainArrow : Arrow where
  display _ value := match value with
    | .scalar s => scalarText s
    | .list items => String.ofList (items.flatMap fun s => Framed.frame (s.map scalarText))
  parseDate32 _ := .error (.manifest "invalid Date literal")
  parseDate64 _ := .error (.manifest "invalid DateTime literal")
  ofInt i := i.toInt64.toUInt64
  add a b := a + b
  div a b := a / b

variable {t : DataType}

lemma scalarText_inj {s s' : Scalar} (hs : t.HoldsScalar s) (hs' : t.HoldsScalar s')
    (h : scalarText s = scalarText s') : s = s' :=
  DataType.scalar_inj (fun _ _ h => h) (by decide) (fun _ _ h => Digits.toString_int_injective h)
    (fun _ _ h => UInt64.toNat_inj.mp (Digits.toString_injective h)) hs hs' h

lemma plainArrow_renders : plainArrow.Renders := by
  intro t v w hv hw h
  refine DataType.value_inj (fun s s' hs hs' h => scalarText_inj hs hs' h)
    (fun item items items' hs hs' h => ?_) hv hw h
  have htexts : items.map (Option.map scalarText) = items'.map (Option.map scalarText) := by
    apply Framed.flatMap_frame_inj
    rw [flatMap_map, flatMap_map]
    exact String.ofList_injective h
  exact DataType.items_inj (fun s hnone => Option.some_ne_none _ hnone.symm)
    (fun s s' hs hs' h => scalarText_inj hs hs' (Option.some.inj h)) hs hs' htexts

/-- No rows of one integer column. -/
def noPeople : RecordBatch where
  fields := [("p.age", ⟨.int32, [], by simp⟩)]
  numRows := 0
  lengths := by simp

/-- `min($p.age) as youngest` -/
def youngestAge : List IRProjection :=
  [⟨.aggregate .min (.propAccess "p" "age"), some "youngest"⟩]

/-- Three people, two of one name. -/
def people : RecordBatch where
  fields := [
    ("p.name", ⟨.utf8, ["a", "b", "a"].map fun s => some (.scalar (.utf8 s)), by
      simp [DataType.Holds, DataType.HoldsScalar]⟩),
    ("p.age", ⟨.int32, [some (.scalar (.int 3)), none, some (.scalar (.int 5))], by
      simp [DataType.Holds, DataType.HoldsScalar]⟩)]
  numRows := 3
  lengths := by simp

/-- `$p.name, count($p.age) as n, min($p.age) as youngest` -/
def agesByName : List IRProjection :=
  [⟨.propAccess "p" "name", none⟩, ⟨.aggregate .count (.propAccess "p" "age"), some "n"⟩,
    ⟨.aggregate .min (.propAccess "p" "age"), some "youngest"⟩]

/-- Integers by text keep the promises. -/
theorem aggregatesExactly_agesByName : AggregatesExactly plainArrow people agesByName ∅ := by
  rw [aggregatesExactly_iff plainArrow_renders]
  intro resolved hresolved _
  cases hresolved
  refine ⟨nofun, fun r hr hfloat => ?_⟩
  rcases mem_cons.mp hr with rfl | hr
  · cases hfloat
  rcases mem_cons.mp hr with rfl | hr
  · cases hfloat
  · rw [mem_singleton.mp hr] at hfloat
    cases hfloat

/-- The least of no integers has the type of doubles, the least of some has not. -/
theorem not_aggregatesExactly_youngestAge :
    ¬ AggregatesExactly plainArrow noPeople youngestAge ∅ := by
  intro h
  have hexact := h _ rfl
  have := hexact.oneSchema rfl rfl noPeople.nullRow rfl Nat.one_pos _ _ rfl rfl
  cases this

end Inputs

end Omnigraph.Query
