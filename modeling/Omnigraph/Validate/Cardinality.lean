import Omnigraph.Validate.Edges

/-!
# Cardinality

The evaluator counts the edges of the sources a change affects, in the table the change leaves. It
sees an overwritten table as empty, so a source that loses all its edges to an overwrite is not
counted, and it replaces by id where the overwrite writes every row as it is.
-/

namespace Omnigraph

open List Emission

/-! ### Counting -/

def Cardinality.Admits (card : Cardinality) (n : ℕ) : Prop :=
  card.min ≤ n ∧ ∀ m ∈ card.max, n ≤ m

instance (card : Cardinality) (n : ℕ) : Decidable (card.Admits n) :=
  inferInstanceAs (Decidable (_ ∧ ∀ m ∈ card.max, n ≤ m))

/-- The edges that start in a node. -/
def outgoing (edges : List Edge) (src : String) : Finset Edge :=
  (edges.filter fun e => e.src = src).toFinset

/-- How many edges start in a node. Edges are told apart by their ids. -/
def degree (edges : List Edge) (src : String) : ℕ := ((outgoing edges src).image Edge.id).card

variable {e : Edge} {edges : List Edge} {src id : String} {u : Unit}

lemma mem_outgoing : e ∈ outgoing edges src ↔ e ∈ edges ∧ e.src = src := by
  simp [outgoing]

lemma mem_idsPerSrc {edges : List (String × String)} :
    id ∈ ((idsPerSrc edges).lookup src).getD ∅ ↔ (id, src) ∈ edges := by
  induction edges using List.reverseRecOn with
  | nil => simp [idsPerSrc]
  | append_singleton edges edge ih =>
    have hstep : idsPerSrc (edges ++ [edge]) = (idsPerSrc edges).insert edge.2
        (insert edge.1 (((idsPerSrc edges).lookup edge.2).getD ∅)) := by
      rw [idsPerSrc, foldl_append]
      rfl
    rw [hstep, HashMap.lookup_insert_ite, mem_append, mem_singleton, ← ih]
    by_cases hsrc : src = edge.2
    · subst hsrc
      rw [if_pos rfl, Option.getD_some, Finset.mem_insert, or_comm]
      simp [Prod.ext_iff]
    · rw [if_neg hsrc]
      simp [Prod.ext_iff, hsrc]

/-- The count of a source is the size of its id set. -/
lemma quiet_checkCount_iff {edgeTable : String} {edgeType : EdgeType}
    {perSrc : HashMap String (Finset String)} :
    Quiet (fun _ => True) (checkCount edgeTable edgeType perSrc src) u ↔
      edgeType.cardinality.Admits (((perSrc.lookup src).getD ∅).card % 2 ^ 32) := by
  have hcount : ((perSrc.lookup src).map Finset.card).getD 0 =
      ((perSrc.lookup src).getD ∅).card := by
    cases perSrc.lookup src with
    | none => rfl
    | some ids => rfl
  unfold checkCount Cardinality.Admits
  rw [hcount]
  generalize ((perSrc.lookup src).getD ∅).card % 2 ^ 32 = count
  rw [quiet_bind_iff]
  simp only [checkMin, quiet_emitIf_iff, not_true_eq_false, imp_false, not_lt]
  cases hmax : edgeType.cardinality.max with
  | none => simp [checkMax, hmax]
  | some max => simp [checkMax, hmax, and_comm]

/-! ### The sources a change affects -/

section Affected

variable {seen delta : List Edge} {deletedIds : List String}

/-- The sources the evaluator counts: those of the rows that win, and those of the committed rows
whose ids the change deletes or writes. -/
def Affected (seen delta : List Edge) (deletedIds : List String) (src : String) : Prop :=
  (∃ e, Keyed.IsLast Edge.id delta e ∧ e.src = src) ∨
    ∃ e ∈ seen, e.src = src ∧ (e.id ∈ deletedIds ∨ ∃ r ∈ delta, r.id = e.id)

/-- The winning source of each id. -/
abbrev srcById (delta : List Edge) : HashMap String String :=
  HashMap.insertAll Prod.fst Prod.snd ∅ (delta.map fun e => (e.id, e.src))

lemma lookup_srcById :
    (srcById delta).lookup id = some src ↔
      ∃ e, Keyed.IsLast Edge.id delta e ∧ e.id = id ∧ e.src = src := by
  have hmap : srcById delta = HashMap.insertAll Edge.id Edge.src ∅ delta := by
    rw [srcById, HashMap.insertAll, HashMap.insertAll, foldl_map]
  rw [hmap, HashMap.lookup_insertAll_iff]
  simp

lemma mem_entries_srcById :
    (id, src) ∈ (srcById delta).entries.map (fun entry => (entry.1, entry.2)) ↔
      ∃ e, Keyed.IsLast Edge.id delta e ∧ e.id = id ∧ e.src = src := by
  rw [← lookup_srcById, HashMap.lookup_eq_some_iff_mem]
  constructor
  · intro h
    obtain ⟨entry, hentry, heq⟩ := List.mem_map.mp h
    cases heq
    exact hentry
  · intro h
    exact List.mem_map.mpr ⟨_, h, rfl⟩

lemma mem_keys_srcById : id ∈ (srcById delta).keys ↔ ∃ r ∈ delta, r.id = id := by
  show id ∈ srcById delta ↔ _
  rw [HashMap.mem_iff_exists_lookup]
  simp only [lookup_srcById]
  constructor
  · rintro ⟨src, e, hlast, hid, -⟩
    exact ⟨e, hlast.mem, hid⟩
  · rintro ⟨r, hr, rfl⟩
    obtain ⟨e, hlast, hid⟩ := @Keyed.exists_isLast _ _ Edge.id _ _ hr
    exact ⟨e.src, e, hlast, hid, rfl⟩

/-- The sources that are counted are the affected ones that are not deleted. -/
lemma mem_affectedSrcs {deleted : List String} {src : String} :
    src ∈ affectedSrcs (srcById delta)
        ((seen.filter fun e => e.id ∈ deletedIds).map (fun e => (e.id, e.src)) ++
          (seen.filter fun e => e.id ∈ (srcById delta).keys).map fun e => (e.id, e.src)) deleted ↔
      Affected seen delta deletedIds src ∧ src ∉ deleted := by
  have hnew : src ∈ (srcById delta).entries.map (fun entry => entry.2) ↔
      ∃ e, Keyed.IsLast Edge.id delta e ∧ e.src = src := by
    constructor
    · intro h
      obtain ⟨entry, hentry, rfl⟩ := List.mem_map.mp h
      obtain ⟨e, hlast, -, hsrc⟩ := mem_entries_srcById.mp (List.mem_map.mpr ⟨entry, hentry, rfl⟩)
      exact ⟨e, hlast, hsrc⟩
    · rintro ⟨e, hlast, rfl⟩
      obtain ⟨entry, hentry, heq⟩ :=
        List.mem_map.mp (mem_entries_srcById.mpr ⟨e, hlast, rfl, rfl⟩)
      exact List.mem_map.mpr ⟨entry, hentry, congrArg Prod.snd heq⟩
  rw [affectedSrcs, mem_filter, mem_dedup, mem_append, hnew, decide_eq_true_iff,
    Affected]
  refine and_congr_left fun _ => or_congr_right ?_
  simp only [map_append, List.map_map, mem_append, List.mem_map, mem_filter,
    decide_eq_true_iff, mem_keys_srcById, Function.comp_apply]
  constructor
  · rintro (⟨e, ⟨he, hid⟩, rfl⟩ | ⟨e, ⟨he, hid⟩, rfl⟩)
    · exact ⟨e, he, rfl, .inl hid⟩
    · exact ⟨e, he, rfl, .inr hid⟩
  · rintro ⟨e, he, rfl, hid | hid⟩
    · exact .inl ⟨e, ⟨he, hid⟩, rfl⟩
    · exact .inr ⟨e, ⟨he, hid⟩, rfl⟩

end Affected

section Evaluate

variable {edgeTable : String} {edgeType : EdgeType} {change : TableChange}
  {changeset : ChangeSet} {committed : CommittedState} {seen delta : List Edge}

/-- The ids counted for an affected source are those of its edges in the table the change
leaves. -/
lemma counted_eq {deletedIds affected : List String} (hsrc : src ∈ affected) :
    ((idsPerSrc (((seen.filter fun e => e.src ∈ affected).map fun e => (e.id, e.src)).filter
        (fun edge => ¬ (edge.1 ∈ deletedIds ∨ edge.1 ∈ (srcById delta).keys)) ++
          (srcById delta).entries.map fun entry => (entry.1, entry.2))).lookup src).getD ∅ =
      (outgoing (resultingEdges false seen delta deletedIds) src).image Edge.id := by
  ext id
  rw [mem_idsPerSrc, mem_append, mem_entries_srcById]
  simp only [mem_filter, List.mem_map, decide_eq_true_iff, mem_keys_srcById, Finset.mem_image,
    mem_outgoing, mem_resultingEdges, not_or, not_exists, not_and]
  constructor
  · rintro (⟨⟨e, ⟨he, -⟩, heq⟩, hkeep, hnew⟩ | ⟨e, hlast, rfl, rfl⟩)
    · cases heq
      exact ⟨e, ⟨.inr ⟨he, hkeep, fun r hr h => hnew r hr h⟩, rfl⟩, rfl⟩
    · exact ⟨e, ⟨.inl hlast, rfl⟩, rfl⟩
  · rintro ⟨e, ⟨hlast | ⟨he, hkeep, hnew⟩, rfl⟩, rfl⟩
    · exact .inr ⟨e, hlast, rfl, rfl⟩
    · exact .inl ⟨⟨e, ⟨he, hsrc⟩, rfl⟩, hkeep, hnew⟩

/-- Without a violation, every affected source is within the bounds in the table the change leaves
of what the evaluator sees. -/
theorem quiet_evaluateCardinality_iff
    (hseen : ViewsEdges (committed.openCardinality edgeTable) seen)
    (hdelta : change.HoldsEdges delta) :
    Quiet (fun _ => True) (evaluateCardinality edgeTable edgeType change changeset committed) u ↔
      (edgeType.cardinality.min = 0 ∧ edgeType.cardinality.max = none) ∨
        ∀ src, Affected seen delta change.deletedIds src →
          src ∉ changeDeletedIds changeset (nodeKey edgeType.fromType) →
          edgeType.cardinality.Admits
            (degree (resultingEdges false seen delta change.deletedIds) src % 2 ^ 32) := by
  unfold evaluateCardinality
  split_ifs with hdefault
  · simp [hdefault]
  rw [or_iff_right hdefault]
  simp only [quiet_bind_iff, quiet_lift_iff, hdelta.deltaEdgeSrc,
    committedEdges_eq hseen fun _ hbatch => hbatch.ids,
    Except.ok.injEq, exists_eq_left']
  have hmem := fun src => @mem_affectedSrcs seen delta change.deletedIds
    (changeDeletedIds changeset (nodeKey edgeType.fromType)) src
  generalize affectedSrcs (srcById delta) _ _ = affected at hmem ⊢
  unfold checkAffected
  split_ifs with hempty
  · simp only [quiet_pure_iff, true_iff]
    intro src haff hnot
    have := (hmem src).mpr ⟨haff, hnot⟩
    rw [hempty] at this
    cases this
  · rw [quiet_bind_iff]
    simp only [committedEdges_eq hseen fun _ hbatch =>
      hbatch.srcs, quiet_lift_iff, Except.ok.injEq, exists_eq_left',
      quiet_forM_iff, quiet_checkCount_iff]
    constructor
    · intro h src haff hnot
      have hsrc := (hmem src).mpr ⟨haff, hnot⟩
      have := h src hsrc
      rwa [counted_eq hsrc] at this
    · intro h src hsrc
      obtain ⟨haff, hnot⟩ := (hmem src).mp hsrc
      rw [counted_eq hsrc]
      exact h src haff hnot

end Evaluate

/-! ### Soundness -/

/-- Every source that is not deleted and whose edges change is within the bounds. -/
def CardinalityHolds (card : Cardinality) (committed result : List Edge)
    (deletedNodes : List String) : Prop :=
  ∀ src ∉ deletedNodes, outgoing committed src ≠ outgoing result src →
    card.Admits (degree result src)

/-- A row of the source has an id that ends up with another source. -/
def Reassigned (delta : List Edge) (src : String) : Prop :=
  ∃ e ∈ delta, e.src = src ∧ ∃ r, Keyed.IsLast Edge.id delta r ∧ r.id = e.id ∧ r.src ≠ src

/-- The evaluator counts what will be there. -/
structure CountsAsWritten (overwrites : Bool) (card : Cardinality) (committed delta : List Edge)
    (deletedIds deletedNodes : List String) : Prop where
  /-- An overwrite leaves no source without edges, unless that is allowed. -/
  vacated : overwrites = true → card.min = 0 ∨
    ∀ e ∈ committed, e.src ∉ deletedNodes → ∃ r ∈ delta, r.src = e.src
  /-- Where an overwrite lists an id under several sources, the rows it writes are within the
  bounds. -/
  reassigned : overwrites = true → ∀ src ∉ deletedNodes,
    outgoing committed src ≠ outgoing delta src → Reassigned delta src →
      card.Admits (degree delta src)
  /-- The counts fit in 32 bits. -/
  counted : card.max ≠ none → ∀ src ∉ deletedNodes,
    outgoing committed src ≠ outgoing (resultingEdges overwrites committed delta deletedIds) src →
      degree (resultingEdges overwrites committed delta deletedIds) src < 2 ^ 32

section Sound

variable {card : Cardinality} {committed delta : List Edge} {deletedIds deletedNodes : List String}
  {overwrites : Bool}

variable {n : ℕ}

lemma Cardinality.admits_of_default (h : card.min = 0 ∧ card.max = none) : card.Admits n := by
  refine ⟨h.1 ▸ Nat.zero_le n, fun m hm => ?_⟩
  rw [h.2] at hm
  cases hm

/-- A count cast to 32 bits decides the bounds if it fits where there is an upper one. -/
lemma Cardinality.admits_of_mod (h : card.Admits (n % 2 ^ 32))
    (hfits : card.max ≠ none → n < 2 ^ 32) : card.Admits n := by
  cases hmax : card.max with
  | none => exact ⟨h.1.trans (Nat.mod_le _ _), by simp [hmax]⟩
  | some m => rwa [Nat.mod_eq_of_lt (hfits (by simp [hmax]))] at h

lemma outgoing_ne_of_mem {edges' : List Edge} (he : e ∈ edges)
    (hnone : ∀ r ∈ edges', r.src ≠ e.src) :
    outgoing edges e.src ≠ outgoing edges' e.src := by
  intro heq
  have hmem := mem_outgoing.mpr ⟨he, rfl⟩
  rw [heq] at hmem
  obtain ⟨hmem', hsrc⟩ := mem_outgoing.mp hmem
  exact hnone e hmem' hsrc

lemma degree_eq_zero (h : ∀ e ∈ edges, e.src ≠ src) : degree edges src = 0 := by
  have : outgoing edges src = ∅ := by
    ext e
    simp only [mem_outgoing, Finset.notMem_empty, iff_false, not_and]
    exact h e
  rw [degree, this]
  rfl

lemma CardinalityHolds.countsAsWritten (h : CardinalityHolds card committed
    (resultingEdges overwrites committed delta deletedIds) deletedNodes) :
    CountsAsWritten overwrites card committed delta deletedIds deletedNodes := by
  refine ⟨?_, ?_, ?_⟩
  · rintro rfl
    rw [or_iff_not_imp_left]
    intro hmin e he hnot
    by_contra hno
    push Not at hno
    have hadmits := (h e.src hnot (outgoing_ne_of_mem he hno)).1
    rw [show resultingEdges true committed delta deletedIds = delta from rfl,
      degree_eq_zero hno] at hadmits
    exact hmin (Nat.le_zero.mp hadmits)
  · rintro rfl src hnot hne -
    exact h src hnot hne
  · intro hmax src hnot hne
    obtain ⟨m, hm⟩ := Option.ne_none_iff_exists'.mp hmax
    exact ((h src hnot hne).2 m hm).trans_lt (card.max_lt m hm)

/-- A change that replaces by id affects every source whose edges it changes. -/
lemma affected_of_changed
    (h : outgoing committed src ≠ outgoing (resultingEdges false committed delta deletedIds) src) :
    Affected committed delta deletedIds src := by
  by_contra hno
  simp only [Affected, not_or, not_exists, not_and] at hno
  obtain ⟨hnew, hold⟩ := hno
  apply h
  ext e
  rw [mem_outgoing, mem_outgoing, mem_resultingEdges]
  constructor
  · rintro ⟨he, hsrc⟩
    obtain ⟨hkeep, hwrite⟩ := hold e he hsrc
    exact ⟨.inr ⟨he, hkeep, hwrite⟩, hsrc⟩
  · rintro ⟨hlast | ⟨he, -⟩, hsrc⟩
    · exact absurd hsrc (hnew e hlast)
    · exact ⟨he, hsrc⟩

/-- Without reassigned ids, what the evaluator counts for an overwrite is what is written. -/
lemma degree_eq_of_not_reassigned (h : ¬ Reassigned delta src) :
    degree (resultingEdges false [] delta deletedIds) src = degree delta src := by
  have himage : (outgoing (resultingEdges false [] delta deletedIds) src).image Edge.id =
      (outgoing delta src).image Edge.id := by
    ext id
    simp only [Finset.mem_image, mem_outgoing, mem_resultingEdges, not_mem_nil, false_and,
      or_false]
    constructor
    · rintro ⟨e, ⟨hlast, hsrc⟩, rfl⟩
      exact ⟨e, ⟨hlast.mem, hsrc⟩, rfl⟩
    · rintro ⟨e, ⟨he, hsrc⟩, rfl⟩
      obtain ⟨r, hlast, hid⟩ := @Keyed.exists_isLast _ _ Edge.id _ _ he
      refine ⟨r, ⟨hlast, ?_⟩, hid⟩
      by_contra hne
      exact h ⟨e, he, hsrc, r, hlast, hid, hne⟩
  rw [degree, degree, himage]

variable {surface : WriteSurface} {edgeTable : String} {edgeType : EdgeType} {change : TableChange}
  {changeset : ChangeSet}

/-- Counts of the written table without a violation are within the bounds. -/
lemma CountsAsWritten.cardinalityHolds
    (h : CountsAsWritten surface.overwrites edgeType.cardinality committed delta change.deletedIds
      (changeDeletedIds changeset (nodeKey edgeType.fromType)))
    (hopens : surface.Opens edgeTable) (hcommitted : ViewsEdges (surface.table edgeTable) committed)
    (hchange : changeset.lookup edgeTable = some change) (hdelta : change.HoldsEdges delta)
    (hquiet : Quiet (fun _ => True) (evaluateCardinality edgeTable edgeType change changeset
      (surface.committedState changeset)) ()) :
    CardinalityHolds edgeType.cardinality committed
      (resultingEdges surface.overwrites committed delta change.deletedIds)
      (changeDeletedIds changeset (nodeKey edgeType.fromType)) := by
  intro src hnot hne
  cases hoverwrites : surface.overwrites with
  | false =>
    rw [hoverwrites] at h hne
    rw [← WriteSurface.openCardinality_of_keeps hopens hoverwrites] at hcommitted
    rcases (quiet_evaluateCardinality_iff hcommitted hdelta).mp hquiet with hdefault | hall
    · exact Cardinality.admits_of_default hdefault
    · exact Cardinality.admits_of_mod (hall src (affected_of_changed hne) hnot)
        fun hmax => h.counted hmax src hnot hne
  | true =>
    rw [hoverwrites] at h hne
    have hseen : ViewsEdges ((surface.committedState changeset).openCardinality edgeTable) [] := by
      rw [WriteSurface.openCardinality_of_overwrites (HashMap.mem_of_lookup hchange) hoverwrites]
      rfl
    show edgeType.cardinality.Admits (degree delta src)
    by_cases hre : Reassigned delta src
    · exact h.reassigned rfl src hnot hne hre
    rcases (quiet_evaluateCardinality_iff hseen hdelta).mp hquiet with hdefault | hall
    · exact Cardinality.admits_of_default hdefault
    by_cases hrow : ∃ e ∈ delta, e.src = src
    · obtain ⟨e, he, rfl⟩ := hrow
      obtain ⟨r, hlast, hid⟩ := @Keyed.exists_isLast _ _ Edge.id _ _ he
      have hsrc : r.src = e.src := by
        by_contra hother
        exact hre ⟨e, he, rfl, r, hlast, hid, hother⟩
      have hadmits := hall e.src (.inl ⟨r, hlast, hsrc⟩) hnot
      rw [degree_eq_of_not_reassigned hre] at hadmits
      exact Cardinality.admits_of_mod hadmits fun hmax => h.counted hmax e.src hnot hne
    · -- the overwrite leaves the source without edges
      push Not at hrow
      obtain ⟨e, he, rfl⟩ : ∃ e ∈ committed, e.src = src := by
        by_contra hno
        push Not at hno
        apply hne
        ext e
        rw [mem_outgoing, mem_outgoing]
        exact ⟨fun h => absurd h.2 (hno e h.1), fun h => absurd h.2 (hrow e h.1)⟩
      rw [degree_eq_zero hrow]
      rcases h.vacated rfl with hmin | hkept
      · exact ⟨hmin.le, fun m _ => Nat.zero_le m⟩
      · obtain ⟨r, hr, hsrc⟩ := hkept e he hnot
        exact absurd hsrc (hrow r hr)

/-- For every surface, committed edge table and change: if the evaluator emits no violation, then
every source whose edges change is within the bounds exactly if the evaluator counts what will be
there. Apart from counts of 2^32 and more it does, except under an overwrite. -/
theorem cardinality_sound_iff (hopens : surface.Opens edgeTable)
    (hcommitted : ViewsEdges (surface.table edgeTable) committed)
    (hchange : changeset.lookup edgeTable = some change) (hdelta : change.HoldsEdges delta)
    (hquiet : Quiet (fun _ => True) (evaluateCardinality edgeTable edgeType change changeset
      (surface.committedState changeset)) ()) :
    CardinalityHolds edgeType.cardinality committed
        (resultingEdges surface.overwrites committed delta change.deletedIds)
        (changeDeletedIds changeset (nodeKey edgeType.fromType)) ↔
      CountsAsWritten surface.overwrites edgeType.cardinality committed delta change.deletedIds
        (changeDeletedIds changeset (nodeKey edgeType.fromType)) :=
  ⟨CardinalityHolds.countsAsWritten,
    fun h => h.cardinalityHolds hopens hcommitted hchange hdelta hquiet⟩

end Sound

/-! Everybody knows somebody: an edge type with at least one edge for each source that has any. -/

def knows : EdgeType where
  name := "Knows"
  fromType := "Person"
  toType := "Person"
  cardinality := ⟨1, none, by decide, fun _ h => absurd h (Option.not_mem_none _)⟩
  uniqueConstraints := []

/-- A committed edge. -/
def aliceKnowsBob : Edge := ⟨"k1", "alice", "bob"⟩

def knowsSnapshot : Snapshot := AList.singleton "edge:Knows" (edgeBatch [aliceKnowsBob])

/-- A change to the edges alone. -/
def knowsChange (delta : List Edge) (deletedIds : List String) : TableChange :=
  ⟨[], [edgeBatch delta], deletedIds⟩

def knowsChangeset (change : TableChange) : ChangeSet := AList.singleton "edge:Knows" change

theorem cardinality_sound_merged :
    CardinalityHolds knows.cardinality [aliceKnowsBob]
      (resultingEdges false [aliceKnowsBob] [⟨"k1", "alice", "carol"⟩] []) [] := by
  apply (@cardinality_sound_iff [aliceKnowsBob] [⟨"k1", "alice", "carol"⟩]
    (.load knowsSnapshot .merge) "edge:Knows" knows (knowsChange [⟨"k1", "alice", "carol"⟩] [])
    (knowsChangeset (knowsChange [⟨"k1", "alice", "carol"⟩] [])) trivial
    (holdsEdges_edgeBatch _) rfl ⟨_, .cons (holdsEdges_edgeBatch _) .nil, flatten_singleton⟩
    (by decide +kernel)).mpr
  refine ⟨?_, ?_, ?_⟩
  · intro h
    cases h
  · intro h
    cases h
  · intro h
    exact absurd rfl h

/-- An overwrite replaces the only edge of one source by an edge of another. The ids it removes are
recorded as deleted, no violation is emitted, and the first source is left without an edge. -/
theorem overwrite_leaves_source_without_edges :
    overwriteRemovedIds knowsSnapshot "edge:Knows" (knowsChange [⟨"k2", "carol", "bob"⟩] []) =
        .ok ["k1"] ∧
      Quiet (fun _ => True) (evaluateCardinality "edge:Knows" knows
        (knowsChange [⟨"k2", "carol", "bob"⟩] ["k1"])
        (knowsChangeset (knowsChange [⟨"k2", "carol", "bob"⟩] ["k1"]))
        (.load knowsSnapshot .overwrite
          (knowsChangeset (knowsChange [⟨"k2", "carol", "bob"⟩] ["k1"])))) () ∧
      ¬ CardinalityHolds knows.cardinality [aliceKnowsBob]
        (resultingEdges true [aliceKnowsBob] [⟨"k2", "carol", "bob"⟩] ["k1"]) [] := by
  refine ⟨by decide +kernel, by decide +kernel, fun h => ?_⟩
  have := h "alice" (by simp) (by decide)
  revert this
  decide

end Omnigraph
