import Omnigraph.Error
import Omnigraph.Lib.Bfs

/-!
# The commit graph and its merge bases

Graph commits form a directed graph through their parent and merged-parent links. The merge base
of two heads is chosen among their common ancestors by the sum of the two shortest link distances,
a larger manifest version breaking ties.

Distance is not ancestry: a merged-parent link can put an old commit closer to both heads than the
newest commit they share. `mergeBase_exact_iff_outranked` says which histories are safe.
-/

namespace Omnigraph

structure GraphCommit where
  graphCommitId : String
  manifestBranch : Option String
  manifestVersion : ℕ
  parentCommitId : Option String
  mergedParentCommitId : Option String
  actorId : Option String
  createdAt : ℤ
deriving DecidableEq, Repr

/-- `u64::MAX`; manifest versions are `u64`, so subtracting one from it is exact. -/
def u64Max : ℕ := 2 ^ 64 - 1

abbrev CommitMap := HashMap String GraphCommit

/-! ### The code -/

def GraphCommit.parents (commit : GraphCommit) : List String :=
  commit.parentCommitId.toList ++ commit.mergedParentCommitId.toList

/-- The links out of an id; none when the commit itself is not in the map. -/
def parentIds (commits : CommitMap) (id : String) : List String :=
  match commits.lookup id with
  | some commit => commit.parents
  | none => []

/-- Link distances from `startId`. The loop runs once for the start and at most once for each of
the two links of every commit. -/
def ancestorDistances (startId : String) (commits : CommitMap) : HashMap String ℕ :=
  (Bfs.run (parentIds commits) (2 * commits.keys.length + 1) (Bfs.State.init startId)).distances

def insertCommits (commits : CommitMap) (list : List GraphCommit) : CommitMap :=
  list.foldl (fun m commit => m.insert commit.graphCommitId commit) commits

/-- The two captured projections in one map. -/
def commitMap (sourceCommits targetCommits : List GraphCommit) : CommitMap :=
  insertCommits (insertCommits ∅ sourceCommits) targetCommits

/-- The key by which common ancestors are compared, paired with the commit. -/
def scoredAncestor (commits : CommitMap) (targetDistances : HashMap String ℕ)
    (entry : Sigma fun _ : String => ℕ) : Option ((ℕ ×ₗ ℕ) × GraphCommit) :=
  (targetDistances.lookup entry.1).bind fun targetDistance =>
    (commits.lookup entry.1).map fun commit =>
      (toLex (entry.2 + targetDistance, u64Max - commit.manifestVersion), commit)

/-- `order` is the order in which the map of source distances happens to be walked. -/
def mergeBaseFromCommits (order : IterOrder (Sigma fun _ : String => ℕ))
    (sourceCommits targetCommits : List GraphCommit)
    (sourceCommitId targetCommitId : String) : Option GraphCommit :=
  let commits := commitMap sourceCommits targetCommits
  if sourceCommitId ∉ commits ∨ targetCommitId ∉ commits then none
  else
    let sourceDistances := ancestorDistances sourceCommitId commits
    let targetDistances := ancestorDistances targetCommitId commits
    let scored := (order.walk sourceDistances.entries).filterMap
      (scoredAncestor commits targetDistances)
    (scored.argmin Prod.fst).map Prod.snd

inductive MergeOutcome
  | alreadyUpToDate
  | fastForward
  | merged

/-- The route a branch merge takes from the two captured heads. -/
def branchMergeRoute (order : IterOrder (Sigma fun _ : String => ℕ))
    (sourceCommits targetCommits : List GraphCommit)
    (sourceHeadCommitId targetHeadCommitId : String) : Except OmniError MergeOutcome :=
  match mergeBaseFromCommits order sourceCommits targetCommits sourceHeadCommitId
      targetHeadCommitId with
  | none => .error
      (.manifest "captured branch commits are unavailable or have no common ancestor")
  | some baseCommit =>
    if sourceHeadCommitId = targetHeadCommitId ∨
        baseCommit.graphCommitId = sourceHeadCommitId then .ok .alreadyUpToDate
    else if baseCommit.graphCommitId = targetHeadCommitId then .ok .fastForward
    else .ok .merged

/-! ### Ancestry -/

/-- `a` is reached from `d` by zero or more links. -/
def IsAncestor (commits : CommitMap) (a d : String) : Prop :=
  Relation.ReflTransGen (fun child parent => parent ∈ parentIds commits child) d a

/-- `a` is reached from `d` by one or more links. -/
def IsProperAncestor (commits : CommitMap) (a d : String) : Prop :=
  Relation.TransGen (fun child parent => parent ∈ parentIds commits child) d a

/-- No commit is its own proper ancestor. -/
def Acyclic (commits : CommitMap) : Prop :=
  ∀ id, ¬ IsProperAncestor commits id id

/-- A commit of the map that is an ancestor of both heads. -/
structure IsCommonAncestor (commits : CommitMap) (s t a : String) : Prop where
  mem : a ∈ commits
  source : IsAncestor commits a s
  target : IsAncestor commits a t

/-- A common ancestor below another one. -/
def IsShadowed (commits : CommitMap) (s t a : String) : Prop :=
  ∃ b, IsCommonAncestor commits s t b ∧ b ≠ a ∧ IsProperAncestor commits a b

/-- The merge base as a merge needs it: absent only without a common ancestor, otherwise a common
ancestor that no other one descends from; in particular the older head itself when one head is an
ancestor of the other, and then the merge takes the short route. -/
structure MergeBaseExact (order : IterOrder (Sigma fun _ : String => ℕ))
    (sourceCommits targetCommits : List GraphCommit) (s t : String) : Prop where
  absent : mergeBaseFromCommits order sourceCommits targetCommits s t = none →
    ∀ a, ¬ IsCommonAncestor (commitMap sourceCommits targetCommits) s t a
  found : ∀ c, mergeBaseFromCommits order sourceCommits targetCommits s t = some c →
    (commitMap sourceCommits targetCommits).lookup c.graphCommitId = some c ∧
    IsCommonAncestor (commitMap sourceCommits targetCommits) s t c.graphCommitId ∧
    ¬ IsShadowed (commitMap sourceCommits targetCommits) s t c.graphCommitId
  targetBehind : IsAncestor (commitMap sourceCommits targetCommits) t s →
    (mergeBaseFromCommits order sourceCommits targetCommits s t).map
      GraphCommit.graphCommitId = some t ∧
    (s ≠ t → branchMergeRoute order sourceCommits targetCommits s t = .ok .fastForward)
  sourceBehind : IsAncestor (commitMap sourceCommits targetCommits) s t →
    (mergeBaseFromCommits order sourceCommits targetCommits s t).map
      GraphCommit.graphCommitId = some s ∧
    branchMergeRoute order sourceCommits targetCommits s t = .ok .alreadyUpToDate

/-- The rank of a common ancestor: the sum of its shortest link distances from the two heads, then
`u64::MAX` less its manifest version. -/
def HasRank (commits : CommitMap) (s t a : String) (rank : ℕ ×ₗ ℕ) : Prop :=
  ∃ d e c, Bfs.IsDist (parentIds commits) s a d ∧ Bfs.IsDist (parentIds commits) t a e ∧
    commits.lookup a = some c ∧ rank = toLex (d + e, u64Max - c.manifestVersion)

/-- Every common ancestor below another one is ranked strictly behind some common ancestor. -/
def ShadowedAreOutranked (commits : CommitMap) (s t : String) : Prop :=
  ∀ a, IsCommonAncestor commits s t a → IsShadowed commits s t a →
    ∃ c rank rank', IsCommonAncestor commits s t c ∧ HasRank commits s t c rank ∧
      HasRank commits s t a rank' ∧ rank < rank'

/-! ### The maps the code builds -/

variable {commits : CommitMap} {a d : String} {c : GraphCommit}
  {order : IterOrder (Sigma fun _ : String => ℕ)} {rank : ℕ ×ₗ ℕ}

lemma insertCommits_lookup_id (h : ∀ id c, commits.lookup id = some c → c.graphCommitId = id)
    (list : List GraphCommit) :
    ∀ id c, (insertCommits commits list).lookup id = some c → c.graphCommitId = id := by
  induction list generalizing commits with
  | nil => exact h
  | cons commit list ih =>
    apply ih
    intro id c hc
    rw [HashMap.lookup_insert_ite] at hc
    split_ifs at hc with hid
    · cases hc; exact hid.symm
    · exact h id c hc

/-- Every commit is stored under its own id. -/
lemma commitMap_lookup_id (sourceCommits targetCommits : List GraphCommit) :
    ∀ id c, (commitMap sourceCommits targetCommits).lookup id = some c → c.graphCommitId = id :=
  insertCommits_lookup_id (insertCommits_lookup_id (by simp) _) _

lemma GraphCommit.length_parents_le (commit : GraphCommit) : commit.parents.length ≤ 2 := by
  unfold GraphCommit.parents
  cases commit.parentCommitId <;> cases commit.mergedParentCommitId <;> simp

lemma sum_length_parentIds_le (commits : CommitMap) :
    ∑ id ∈ commits.keys.toFinset, (parentIds commits id).length ≤ 2 * commits.keys.length := by
  have hle : ∀ id ∈ commits.keys.toFinset, (parentIds commits id).length ≤ 2 := by
    intro id _
    unfold parentIds
    cases commits.lookup id with
    | none => simp
    | some commit => exact commit.length_parents_le
  calc ∑ id ∈ commits.keys.toFinset, (parentIds commits id).length
      ≤ commits.keys.toFinset.card • 2 := Finset.sum_le_card_nsmul _ _ _ hle
    _ ≤ 2 * commits.keys.length := by
      have := commits.keys.toFinset_card_le
      rw [smul_eq_mul]
      omega

lemma parentIds_eq_nil (commits : CommitMap) (id : String)
    (h : id ∉ commits.keys.toFinset) : parentIds commits id = [] := by
  rw [List.mem_toFinset, ← AList.mem_keys, ← AList.lookup_eq_none] at h
  simp [parentIds, h]

/-- The loop of `ancestorDistances` ends, and it records exactly the link distances. -/
theorem ancestorDistances_lookup_iff (startId : String) (commits : CommitMap) (id : String)
    (d : ℕ) : (ancestorDistances startId commits).lookup id = some d ↔
      Bfs.IsDist (parentIds commits) startId id d := by
  apply Bfs.run_init_lookup_iff (parentIds_eq_nil commits)
  have := sum_length_parentIds_le commits
  omega

/-- The walked entries, scored, are the common ancestors with their ranks. -/
lemma mem_scored_iff (hid : ∀ id c, commits.lookup id = some c → c.graphCommitId = id)
    (order : IterOrder (Sigma fun _ : String => ℕ)) (s t : String) (rank : ℕ ×ₗ ℕ)
    (c : GraphCommit) :
    (rank, c) ∈ (order.walk (ancestorDistances s commits).entries).filterMap
        (scoredAncestor commits (ancestorDistances t commits)) ↔
      HasRank commits s t c.graphCommitId rank ∧ commits.lookup c.graphCommitId = some c := by
  rw [List.mem_filterMap]
  constructor
  · rintro ⟨⟨id, d⟩, hmem, hscore⟩
    rw [IterOrder.mem_walk, ← HashMap.lookup_eq_some_iff_mem,
      ancestorDistances_lookup_iff] at hmem
    simp only [scoredAncestor, Option.bind_eq_some_iff, Option.map_eq_some_iff,
      Prod.mk.injEq] at hscore
    obtain ⟨e, he, c', hc', rfl, rfl⟩ := hscore
    rw [ancestorDistances_lookup_iff] at he
    obtain rfl := hid id c' hc'
    exact ⟨⟨d, e, c', hmem, he, hc', rfl⟩, hc'⟩
  · rintro ⟨⟨d, e, c', hd, he, hc', rfl⟩, hc⟩
    rw [hc] at hc'
    cases hc'
    refine ⟨⟨c.graphCommitId, d⟩, ?_, ?_⟩
    · rw [IterOrder.mem_walk, ← HashMap.lookup_eq_some_iff_mem, ancestorDistances_lookup_iff]
      exact hd
    · simp only [scoredAncestor, Option.bind_eq_some_iff, Option.map_eq_some_iff,
        Prod.mk.injEq]
      exact ⟨e, (ancestorDistances_lookup_iff _ _ _ _).mpr he, c, hc, rfl, rfl⟩

lemma isCommonAncestor_iff_exists_rank {s t : String} :
    IsCommonAncestor commits s t a ↔ ∃ rank, HasRank commits s t a rank := by
  constructor
  · rintro ⟨hmem, hs, ht⟩
    obtain ⟨c, hc⟩ := HashMap.mem_iff_exists_lookup.mp hmem
    obtain ⟨d, hd⟩ := Bfs.exists_isDist_iff.mpr hs
    obtain ⟨e, he⟩ := Bfs.exists_isDist_iff.mpr ht
    exact ⟨_, d, e, c, hd, he, hc, rfl⟩
  · rintro ⟨_, d, e, c, hd, he, hc, rfl⟩
    exact ⟨HashMap.mem_of_lookup hc, Bfs.exists_isDist_iff.mp ⟨d, hd⟩,
      Bfs.exists_isDist_iff.mp ⟨e, he⟩⟩

lemma HasRank.unique {commits : CommitMap} {s t a : String} {r r' : ℕ ×ₗ ℕ}
    (h : HasRank commits s t a r) (h' : HasRank commits s t a r') : r = r' := by
  obtain ⟨d, e, c, hd, he, hc, rfl⟩ := h
  obtain ⟨d', e', c', hd', he', hc', rfl⟩ := h'
  rw [hd.unique hd', he.unique he']
  rw [hc] at hc'
  cases hc'
  rfl

/-! ### Which histories give an exact merge base -/

section MergeBase

variable {sourceCommits targetCommits : List GraphCommit} {s t : String}

/-- The commit returned is a common ancestor of least rank. -/
lemma mergeBase_eq_some (h : mergeBaseFromCommits order sourceCommits targetCommits s t = some c) :
    (commitMap sourceCommits targetCommits).lookup c.graphCommitId = some c ∧
      ∃ rank, HasRank (commitMap sourceCommits targetCommits) s t c.graphCommitId rank ∧
        ∀ b rank', HasRank (commitMap sourceCommits targetCommits) s t b rank' →
          rank ≤ rank' := by
  simp only [mergeBaseFromCommits] at h
  split_ifs at h
  obtain ⟨⟨rank, c'⟩, hmin, rfl⟩ := Option.map_eq_some_iff.mp h
  have hid := commitMap_lookup_id sourceCommits targetCommits
  obtain ⟨hrank, hlook⟩ := (mem_scored_iff hid order s t rank c').mp (List.argmin_mem hmin)
  refine ⟨hlook, rank, hrank, fun b rank' hb => ?_⟩
  obtain ⟨d, e, cb, hd, he, hcb, hr⟩ := hb
  obtain rfl := hid b cb hcb
  have hmem := (mem_scored_iff hid order s t rank' cb).mpr ⟨⟨d, e, cb, hd, he, hcb, hr⟩, hcb⟩
  exact List.le_of_mem_argmin hmem hmin

variable (hs : s ∈ commitMap sourceCommits targetCommits)

variable (ht : t ∈ commitMap sourceCommits targetCommits)

include ht hs in
lemma mergeBase_eq_none (h : mergeBaseFromCommits order sourceCommits targetCommits s t = none)
    (a : String) : ¬ IsCommonAncestor (commitMap sourceCommits targetCommits) s t a := by
  intro ha
  obtain ⟨rank, d, e, c, hd, he, hc, hr⟩ := isCommonAncestor_iff_exists_rank.mp ha
  have hid := commitMap_lookup_id sourceCommits targetCommits
  obtain rfl := hid a c hc
  have hmem := (mem_scored_iff hid order s t rank c).mpr ⟨⟨d, e, c, hd, he, hc, hr⟩, hc⟩
  simp only [mergeBaseFromCommits, hs, ht, not_true_eq_false, or_self, if_false,
    Option.map_eq_none_iff, List.argmin_eq_none] at h
  rw [h] at hmem
  exact List.not_mem_nil hmem

lemma argmin_cons_of_le {α β : Type*} [LinearOrder β] {f : α → β} {a : α} {l : List α}
    (h : ∀ x ∈ l, f a ≤ f x) : (a :: l).argmin f = some a := by
  rw [List.argmin_cons]
  cases hl : l.argmin f with
  | none => rfl
  | some x => exact if_neg (not_lt.mpr (h x (List.argmin_mem hl)))

/-- Walk the entry `e` first, whatever else is there. -/
def entryFirst (e : Sigma fun _ : String => ℕ) : IterOrder (Sigma fun _ : String => ℕ) where
  walk l := if e ∈ l then e :: l.erase e else l
  perm l := by
    split_ifs with he
    · exact (List.perm_cons_erase he).symm
    · exact List.Perm.refl l

include ht hs in
/-- Any common ancestor of least rank is returned under some walk of the distance map. -/
lemma exists_order_mergeBase (ha : HasRank (commitMap sourceCommits targetCommits) s t a rank)
    (hmin : ∀ b rank', HasRank (commitMap sourceCommits targetCommits) s t b rank' → rank ≤ rank') :
    ∃ order c, mergeBaseFromCommits order sourceCommits targetCommits s t = some c ∧
      c.graphCommitId = a := by
  obtain ⟨d, e, c, hd, he, hc, rfl⟩ := ha
  have hid := commitMap_lookup_id sourceCommits targetCommits
  obtain rfl := hid a c hc
  refine ⟨entryFirst ⟨c.graphCommitId, d⟩, c, ?_, rfl⟩
  have hentry : (⟨c.graphCommitId, d⟩ : Sigma fun _ : String => ℕ) ∈
      (ancestorDistances s (commitMap sourceCommits targetCommits)).entries := by
    rw [← HashMap.lookup_eq_some_iff_mem, ancestorDistances_lookup_iff]
    exact hd
  have hscore : scoredAncestor (commitMap sourceCommits targetCommits)
      (ancestorDistances t (commitMap sourceCommits targetCommits)) ⟨c.graphCommitId, d⟩ =
        some (toLex (d + e, u64Max - c.manifestVersion), c) := by
    simp [scoredAncestor, (ancestorDistances_lookup_iff _ _ _ _).mpr he, hc]
  simp only [mergeBaseFromCommits, hs, ht, not_true_eq_false, or_self, if_false]
  -- the chosen entry heads the scored list and nothing after it is strictly smaller
  have hsmall : ∀ x ∈ ((ancestorDistances s (commitMap sourceCommits targetCommits)).entries.erase
      ⟨c.graphCommitId, d⟩).filterMap (scoredAncestor (commitMap sourceCommits targetCommits)
        (ancestorDistances t (commitMap sourceCommits targetCommits))),
      toLex (d + e, u64Max - c.manifestVersion) ≤ x.1 := by
    rintro ⟨rank', b⟩ hx
    have hx' := ((List.erase_sublist ..).filterMap _).subset hx
    have := ((mem_scored_iff hid (IterOrder.stored _) s t rank' b).mp hx').1
    exact hmin _ _ this
  rw [show (entryFirst ⟨c.graphCommitId, d⟩).walk
      (ancestorDistances s (commitMap sourceCommits targetCommits)).entries = _ from
        if_pos hentry, List.filterMap_cons_some hscore, argmin_cons_of_le hsmall]
  rfl

/-- An unshadowed common ancestor is the older head, when one head is an ancestor of the other. -/
lemma eq_of_not_shadowed {s t b : String} (hb : IsCommonAncestor commits s t b)
    (hab : IsAncestor commits a b) (hsh : ¬ IsShadowed commits s t a) : a = b := by
  by_contra hne
  exact hsh ⟨b, hb, fun h => hne h.symm, 
    (Relation.reflTransGen_iff_eq_or_transGen.mp hab).resolve_left hne⟩

include ht hs in
/-- If all shadowed ancestors are outranked, the merge base is exact. -/
lemma mergeBaseExact_of_outranked
    (h : ShadowedAreOutranked (commitMap sourceCommits targetCommits) s t) :
    MergeBaseExact order sourceCommits targetCommits s t := by
  have hfound : ∀ c, mergeBaseFromCommits order sourceCommits targetCommits s t = some c →
      (commitMap sourceCommits targetCommits).lookup c.graphCommitId = some c ∧
      IsCommonAncestor (commitMap sourceCommits targetCommits) s t c.graphCommitId ∧
      ¬ IsShadowed (commitMap sourceCommits targetCommits) s t c.graphCommitId := by
    intro c hc
    obtain ⟨hlook, rank, hrank, hmin⟩ := mergeBase_eq_some hc
    have hanc := isCommonAncestor_iff_exists_rank.mpr ⟨rank, hrank⟩
    refine ⟨hlook, hanc, fun hsh => ?_⟩
    obtain ⟨b, r, r', -, hb, ha, hlt⟩ := h _ hanc hsh
    rw [ha.unique hrank] at hlt
    exact absurd (hmin b r hb) (not_le.mpr hlt)
  have hsome : ∀ a, IsCommonAncestor (commitMap sourceCommits targetCommits) s t a →
      ∃ c, mergeBaseFromCommits order sourceCommits targetCommits s t = some c := by
    intro a ha
    cases hc : mergeBaseFromCommits order sourceCommits targetCommits s t with
    | none => exact absurd ha (mergeBase_eq_none hs ht hc a)
    | some c => exact ⟨c, rfl⟩
  refine ⟨mergeBase_eq_none hs ht, hfound, fun hts => ?_, fun hst => ?_⟩
  · have htt : IsCommonAncestor (commitMap sourceCommits targetCommits) s t t := ⟨ht, hts, .refl⟩
    obtain ⟨c, hc⟩ := hsome t htt
    obtain ⟨-, hanc, hsh⟩ := hfound c hc
    have hct : c.graphCommitId = t := eq_of_not_shadowed htt hanc.target hsh
    refine ⟨by simp [hc, hct], fun hne => ?_⟩
    simp [branchMergeRoute, hc, hct, hne, Ne.symm hne]
  · have hss : IsCommonAncestor (commitMap sourceCommits targetCommits) s t s := ⟨hs, .refl, hst⟩
    obtain ⟨c, hc⟩ := hsome s hss
    obtain ⟨-, hanc, hsh⟩ := hfound c hc
    have hcs : c.graphCommitId = s := eq_of_not_shadowed hss hanc.source hsh
    exact ⟨by simp [hc, hcs], by simp [branchMergeRoute, hc, hcs]⟩

end MergeBase

/-- Whatever the walk of the distance map, the merge base is exact if and only if every common
ancestor below another one is outranked. -/
theorem mergeBase_exact_iff_outranked (sourceCommits targetCommits : List GraphCommit)
    (s t : String) (hs : s ∈ commitMap sourceCommits targetCommits)
    (ht : t ∈ commitMap sourceCommits targetCommits) :
    (∀ order, MergeBaseExact order sourceCommits targetCommits s t) ↔
      ShadowedAreOutranked (commitMap sourceCommits targetCommits) s t := by
  constructor
  · intro h a ha hsh
    by_contra hcon
    push Not at hcon
    obtain ⟨rank, hrank⟩ := isCommonAncestor_iff_exists_rank.mp ha
    have hmin : ∀ b rank', HasRank (commitMap sourceCommits targetCommits) s t b rank' →
        rank ≤ rank' := fun b rank' hb =>
      hcon b rank' rank (isCommonAncestor_iff_exists_rank.mpr ⟨rank', hb⟩) hb hrank
    obtain ⟨order, c, hc, rfl⟩ := exists_order_mergeBase hs ht hrank hmin
    exact ((h order).found c hc).2.2 hsh
  · intro h order
    exact mergeBaseExact_of_outranked hs ht h

/-! ### Which histories give one merge base -/

/-- No two common ancestors share the least rank. -/
def LeastRankUnique (commits : CommitMap) (s t : String) : Prop :=
  ∀ a b rank, HasRank commits s t a rank → HasRank commits s t b rank →
    (∀ c rank', HasRank commits s t c rank' → rank ≤ rank') → a = b

section Determinism

variable {sourceCommits targetCommits sourceCommits' targetCommits' : List GraphCommit}
  {s t : String}

lemma lookup_insertCommits {list : List GraphCommit}
    (h : Keyed.Functional GraphCommit.graphCommitId list) {id : String} :
    (insertCommits commits list).lookup id = some c ↔
      (c ∈ list ∧ c.graphCommitId = id) ∨
        ((∀ b ∈ list, b.graphCommitId ≠ id) ∧ commits.lookup id = some c) := by
  have hinsert : insertCommits commits list =
      HashMap.insertAll GraphCommit.graphCommitId (fun commit => commit) commits list := rfl
  rw [hinsert, HashMap.lookup_insertAll fun a ha b hb hid => h a ha b hb hid]
  refine or_congr_left ⟨?_, ?_⟩
  · rintro ⟨b, hb, hid, rfl⟩
    exact ⟨hb, hid⟩
  · rintro ⟨hc, hid⟩
    exact ⟨c, hc, hid, rfl⟩

/-- The order of the two lists does not matter to the map. -/
lemma lookup_commitMap_of_perm (hsource : Keyed.Functional GraphCommit.graphCommitId sourceCommits)
    (htarget : Keyed.Functional GraphCommit.graphCommitId targetCommits)
    (hs : sourceCommits'.Perm sourceCommits) (ht : targetCommits'.Perm targetCommits)
    (id : String) :
    (commitMap sourceCommits' targetCommits').lookup id =
      (commitMap sourceCommits targetCommits).lookup id := by
  have hsource' : Keyed.Functional GraphCommit.graphCommitId sourceCommits' := fun a ha b hb =>
    hsource a (hs.mem_iff.mp ha) b (hs.mem_iff.mp hb)
  have htarget' : Keyed.Functional GraphCommit.graphCommitId targetCommits' := fun a ha b hb =>
    htarget a (ht.mem_iff.mp ha) b (ht.mem_iff.mp hb)
  apply Option.ext
  intro c
  rw [commitMap, commitMap, lookup_insertCommits htarget', lookup_insertCommits htarget,
    lookup_insertCommits hsource', lookup_insertCommits hsource]
  simp only [hs.mem_iff, ht.mem_iff]

lemma hasRank_congr {commits' : CommitMap} (h : ∀ id, commits'.lookup id = commits.lookup id) :
    HasRank commits' s t a rank ↔ HasRank commits s t a rank := by
  have hparents : parentIds commits' = parentIds commits := by
    funext id
    rw [parentIds, parentIds, h id]
  unfold HasRank
  rw [hparents, h a]

/-- Only commits of the map have ancestors there. -/
lemma mem_of_isAncestor (hmem : a ∈ commits) (h : IsAncestor commits a d) : d ∈ commits := by
  rcases Relation.ReflTransGen.cases_head h with rfl | ⟨p, hp, -⟩
  · exact hmem
  · by_contra hd
    rw [← AList.lookup_eq_none] at hd
    simp [parentIds, hd] at hp

/-- A merge base of unique least rank is found in every order. -/
lemma mergeBase_of_leastRankUnique {order' : IterOrder (Sigma fun _ : String => ℕ)}
    (hunique : LeastRankUnique (commitMap sourceCommits targetCommits) s t)
    (hlookup : ∀ id, (commitMap sourceCommits' targetCommits').lookup id =
      (commitMap sourceCommits targetCommits).lookup id) :
    mergeBaseFromCommits order' sourceCommits' targetCommits' s t =
      mergeBaseFromCommits order sourceCommits targetCommits s t := by
  have hmem : ∀ id, id ∈ commitMap sourceCommits' targetCommits' ↔
      id ∈ commitMap sourceCommits targetCommits := by
    intro id
    rw [HashMap.mem_iff_exists_lookup, HashMap.mem_iff_exists_lookup, hlookup id]
  by_cases hin : s ∉ commitMap sourceCommits targetCommits ∨
      t ∉ commitMap sourceCommits targetCommits
  · simp only [mergeBaseFromCommits, hmem, hin, if_true]
  · push Not at hin
    cases hbase' : mergeBaseFromCommits order' sourceCommits' targetCommits' s t with
    | none =>
      cases hbase : mergeBaseFromCommits order sourceCommits targetCommits s t with
      | none => rfl
      | some c =>
        obtain ⟨-, rank, hrank, -⟩ := mergeBase_eq_some hbase
        rw [← hasRank_congr hlookup] at hrank
        exact absurd (isCommonAncestor_iff_exists_rank.mpr ⟨rank, hrank⟩)
          (mergeBase_eq_none ((hmem s).mpr hin.1) ((hmem t).mpr hin.2) hbase' _)
    | some c' =>
      obtain ⟨hc', rank', hrank', hmin'⟩ := mergeBase_eq_some hbase'
      simp only [hasRank_congr hlookup] at hrank' hmin'
      cases hbase : mergeBaseFromCommits order sourceCommits targetCommits s t with
      | none =>
        exact absurd (isCommonAncestor_iff_exists_rank.mpr ⟨rank', hrank'⟩)
          (mergeBase_eq_none hin.1 hin.2 hbase _)
      | some c =>
        obtain ⟨hc, rank, hrank, hmin⟩ := mergeBase_eq_some hbase
        obtain rfl : rank' = rank := le_antisymm (hmin' _ _ hrank) (hmin _ _ hrank')
        have hid := hunique _ _ _ hrank' hrank hmin'
        rw [hlookup, hid, hc] at hc'
        exact hc'.symm

/-- The merge base is the same for every order of the two lists and every walk of the distance map
if and only if no two common ancestors share the least rank. -/
theorem mergeBase_deterministic_iff
    (hsource : Keyed.Functional GraphCommit.graphCommitId sourceCommits)
    (htarget : Keyed.Functional GraphCommit.graphCommitId targetCommits) :
    (∀ order order' sourceCommits' targetCommits', sourceCommits'.Perm sourceCommits →
      targetCommits'.Perm targetCommits →
      mergeBaseFromCommits order' sourceCommits' targetCommits' s t =
        mergeBaseFromCommits order sourceCommits targetCommits s t) ↔
      LeastRankUnique (commitMap sourceCommits targetCommits) s t := by
  constructor
  · intro h a b rank ha hb hmin
    have hcommon := isCommonAncestor_iff_exists_rank.mpr ⟨rank, ha⟩
    have hs := mem_of_isAncestor hcommon.mem hcommon.source
    have ht := mem_of_isAncestor hcommon.mem hcommon.target
    obtain ⟨order, c, hc, rfl⟩ := exists_order_mergeBase hs ht ha hmin
    obtain ⟨order', c', hc', rfl⟩ := exists_order_mergeBase hs ht hb hmin
    have hsame := h order order' _ _ (List.Perm.refl _) (List.Perm.refl _)
    rw [hc, hc'] at hsame
    cases hsame
    rfl
  · intro h order order' sourceCommits' targetCommits' hs ht
    exact mergeBase_of_leastRankUnique h (lookup_commitMap_of_perm hsource htarget hs ht)

end Determinism

lemma acyclic_of_rank (rank : String → ℕ)
    (h : ∀ id ∈ commits.keys, ∀ p ∈ parentIds commits id, rank p < rank id) : Acyclic commits := by
  have hstep : ∀ id p, p ∈ parentIds commits id → rank p < rank id := by
    intro id p hp
    by_cases hid : id ∈ commits.keys
    · exact h id hid p hp
    · rw [parentIds_eq_nil commits id (by simpa using hid)] at hp
      exact absurd hp List.not_mem_nil
  have htrans : ∀ {a d}, IsProperAncestor commits a d → rank a < rank d := by
    intro a d had
    induction had with
    | single hp => exact hstep _ _ hp
    | tail _ hp ih => exact (hstep _ _ hp).trans ih
  exact fun id hid => absurd (htrans hid) (lt_irrefl _)

/-- A commit on `branch` with the given links. -/
def linkedCommit (id : String) (branch : Option String) (version : ℕ)
    (parent mergedParent : Option String) : GraphCommit :=
  ⟨id, branch, version, parent, mergedParent, none, 0⟩

/-- Main publishes `root` and `head`; `topic`, forked at `head`, adds two commits; `review`, forked
at `root`, then merges `topic`. -/
def reviewHistory : List GraphCommit :=
  [linkedCommit "root" none 1 none none,
   linkedCommit "head" none 2 (some "root") none,
   linkedCommit "topic-1" (some "topic") 3 (some "head") none,
   linkedCommit "topic-2" (some "topic") 4 (some "topic-1") none,
   linkedCommit "review-1" (some "review") 2 (some "root") (some "topic-2")]

/-- Merging `review` into main: main's head is an ancestor of `review-1`, three links away, but the
root, one link from either head, is returned in its place and the fast-forward is missed. -/
theorem mergeBase_misses_fastForward :
    Acyclic (commitMap reviewHistory reviewHistory) ∧
    "review-1" ∈ commitMap reviewHistory reviewHistory ∧
    "head" ∈ commitMap reviewHistory reviewHistory ∧
    IsAncestor (commitMap reviewHistory reviewHistory) "head" "review-1" ∧
    mergeBaseFromCommits (IterOrder.stored _) reviewHistory reviewHistory "review-1" "head" =
      some (linkedCommit "root" none 1 none none) ∧
    ¬ MergeBaseExact (IterOrder.stored _) reviewHistory reviewHistory "review-1" "head" := by
  have hbase : mergeBaseFromCommits (IterOrder.stored _) reviewHistory reviewHistory "review-1"
      "head" = some (linkedCommit "root" none 1 none none) := by decide
  have hanc : IsAncestor (commitMap reviewHistory reviewHistory) "head" "review-1" := by
    have h1 : "topic-2" ∈ parentIds (commitMap reviewHistory reviewHistory) "review-1" := by decide
    have h2 : "topic-1" ∈ parentIds (commitMap reviewHistory reviewHistory) "topic-2" := by decide
    have h3 : "head" ∈ parentIds (commitMap reviewHistory reviewHistory) "topic-1" := by decide
    exact ((Relation.ReflTransGen.single h1).tail h2).tail h3
  refine ⟨acyclic_of_rank (fun id => ["root", "head", "topic-1", "topic-2"].idxOf id) (by decide),
    by decide, by decide, hanc, hbase, fun h => ?_⟩
  have := (h.targetBehind hanc).1
  rw [hbase] at this
  exact absurd this (by decide)

/-- The equivalence at a linear history. -/
theorem mergeBase_exact_iff_outranked_linear :
    (∀ order, MergeBaseExact order
        [linkedCommit "root" none 1 none none, linkedCommit "head" none 2 (some "root") none]
        [linkedCommit "root" none 1 none none] "head" "root") ↔
      ShadowedAreOutranked (commitMap
        [linkedCommit "root" none 1 none none, linkedCommit "head" none 2 (some "root") none]
        [linkedCommit "root" none 1 none none]) "head" "root" :=
  mergeBase_exact_iff_outranked _ _ "head" "root" (by decide) (by decide)

/-- Main and `topic`, both forked at `root`, publish one commit each; then each of them merges the
other's, through a branch that still stands there. -/
def crissCross : List GraphCommit :=
  [linkedCommit "root" none 1 none none,
   linkedCommit "main-1" none 2 (some "root") none,
   linkedCommit "topic-1" (some "topic") 2 (some "root") none,
   linkedCommit "main-2" none 3 (some "main-1") (some "topic-1"),
   linkedCommit "topic-2" (some "topic") 3 (some "topic-1") (some "main-1")]

/-- The two first commits tie, and the walk of the distance map decides between them. -/
theorem mergeBase_depends_on_walk :
    mergeBaseFromCommits (entryFirst ⟨"main-1", 1⟩) crissCross crissCross "main-2" "topic-2" =
      some (linkedCommit "main-1" none 2 (some "root") none) ∧
    mergeBaseFromCommits (entryFirst ⟨"topic-1", 1⟩) crissCross crissCross "main-2" "topic-2" =
      some (linkedCommit "topic-1" (some "topic") 2 (some "root") none) := by
  decide

/-- The equivalence at a linear history. -/
theorem mergeBase_deterministic_iff_linear :
    (∀ order order' sourceCommits' targetCommits', sourceCommits'.Perm
        [linkedCommit "root" none 1 none none, linkedCommit "head" none 2 (some "root") none] →
      targetCommits'.Perm [linkedCommit "root" none 1 none none] →
      mergeBaseFromCommits order' sourceCommits' targetCommits' "head" "root" =
        mergeBaseFromCommits order
          [linkedCommit "root" none 1 none none, linkedCommit "head" none 2 (some "root") none]
          [linkedCommit "root" none 1 none none] "head" "root") ↔
      LeastRankUnique (commitMap
        [linkedCommit "root" none 1 none none, linkedCommit "head" none 2 (some "root") none]
        [linkedCommit "root" none 1 none none]) "head" "root" :=
  mergeBase_deterministic_iff (Keyed.functional_of_nodup (by decide))
    (Keyed.functional_of_nodup (by decide))

end Omnigraph
