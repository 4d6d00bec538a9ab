import Omnigraph.Manifest.Fold
import Omnigraph.Manifest.Race

/-!
# The history of a branch under racing publishers

Every batch with a graph commit writes the head row of the branch, so of two such batches built on
one version the second is refused and built again. The commits that land therefore form one chain:
each has the commit before it as its parent, and a greater manifest version.
-/

namespace Omnigraph

open List GraphCommit

/-! ### The head of a list of commits -/

section Head

variable {a b c : GraphLineageRow} {rows : List GraphLineageRow}

lemma GraphCommit.HeadLe.refl (a : GraphLineageRow) : a.HeadLe a :=
  .inr ⟨rfl, .inr ⟨rfl, le_refl _⟩⟩

lemma GraphCommit.HeadLe.trans (h : a.HeadLe b) (h' : b.HeadLe c) : a.HeadLe c := by
  rcases h with h | ⟨hver, h | ⟨hat, hid⟩⟩ <;> rcases h' with h' | ⟨hver', h' | ⟨hat', hid'⟩⟩
  · exact .inl (h.trans h')
  · exact .inl (hver' ▸ h)
  · exact .inl (hver' ▸ h)
  · exact .inl (hver ▸ h')
  · exact .inr ⟨hver.trans hver', .inl (h.trans h')⟩
  · exact .inr ⟨hver.trans hver', .inl (hat' ▸ h)⟩
  · exact .inl (hver ▸ h')
  · exact .inr ⟨hver.trans hver', .inl (hat ▸ h')⟩
  · exact .inr ⟨hver.trans hver', .inr ⟨hat.trans hat', hid.trans hid'⟩⟩

lemma GraphCommit.HeadLe.of_not (h : ¬ a.HeadLe b) : b.HeadLe a := by
  simp only [GraphCommit.HeadLe, not_or, not_and, not_lt] at h
  obtain ⟨hver, h⟩ := h
  rcases Nat.lt_or_eq_of_le hver with hlt | heq
  · exact .inl hlt
  obtain ⟨hat, h⟩ := h heq.symm
  rcases Int.lt_or_eq_of_le hat with hlt | hateq
  · exact .inr ⟨heq, .inl hlt⟩
  · exact .inr ⟨heq, .inr ⟨hateq, le_of_lt (not_le.mp (h hateq.symm))⟩⟩

/-- Commits that do not precede each other have one id. -/
lemma GraphCommit.HeadLe.antisymm_id (h : a.HeadLe b) (h' : b.HeadLe a) :
    a.graphCommitId = b.graphCommitId := by
  rcases h with h | ⟨hver, h | ⟨hat, hid⟩⟩ <;> rcases h' with h' | ⟨hver', h' | ⟨hat', hid'⟩⟩
  all_goals first
    | exact le_antisymm hid hid'
    | omega

/-- `c` belongs to the commits and none of them comes after it. -/
def IsHeadOf (commits : GraphLineageRow → Prop) (c : GraphLineageRow) : Prop :=
  commits c ∧ ∀ r, commits r → r.HeadLe c

lemma headLineageRow_append (rows : List GraphLineageRow) (row : GraphLineageRow) :
    headLineageRow (rows ++ [row]) =
      match headLineageRow rows with
      | none => some row
      | some best => if best.HeadLe row then some row else some best := by
  rw [headLineageRow, foldl_append]
  rfl

theorem headLineageRow_spec (rows : List GraphLineageRow) :
    match headLineageRow rows with
    | none => rows = []
    | some c => IsHeadOf (· ∈ rows) c := by
  induction rows using List.reverseRecOn with
  | nil => rfl
  | append_singleton rows row ih =>
    rw [headLineageRow_append]
    cases hhead : headLineageRow rows with
    | none =>
      rw [hhead] at ih
      subst ih
      exact ⟨by simp, by simp [GraphCommit.HeadLe.refl]⟩
    | some best =>
      rw [hhead] at ih
      show match (if best.HeadLe row then some row else some best) with
        | none => _
        | some c => _
      split_ifs with hle
      · refine ⟨by simp, fun r hr => ?_⟩
        rcases mem_append.mp hr with hr | hr
        · exact (ih.2 r hr).trans hle
        · rw [mem_singleton.mp hr]
          exact GraphCommit.HeadLe.refl row
      · refine ⟨mem_append_left _ ih.1, fun r hr => ?_⟩
        rcases mem_append.mp hr with hr | hr
        · exact ih.2 r hr
        · rw [mem_singleton.mp hr]
          exact GraphCommit.HeadLe.of_not hle

/-- The end of a chain is the head of the commits. -/
def EndsInHead (commits : GraphLineageRow → Prop) (chain : List GraphLineageRow) : Prop :=
  (∀ c, chain.getLast? = some c → IsHeadOf commits c) ∧
    (chain.getLast? = none → ∀ c, ¬ commits c)

/-- Whatever the order in which the commits are listed, their head is the end of the chain. -/
lemma EndsInHead.head_id {commits : GraphLineageRow → Prop} {chain : List GraphLineageRow}
    (h : EndsInHead commits chain) (hrows : ∀ c, c ∈ rows ↔ commits c) :
    (headLineageRow rows).map graphCommitId =
      chain.getLast?.map graphCommitId := by
  have hspec := headLineageRow_spec rows
  cases hhead : headLineageRow rows with
  | none =>
    rw [hhead] at hspec
    cases hlast : chain.getLast? with
    | none => rfl
    | some c =>
      have := (hrows c).mpr (h.1 c hlast).1
      rw [hspec] at this
      cases this
  | some best =>
    rw [hhead] at hspec
    have hbest := (hrows best).mp hspec.1
    cases hlast : chain.getLast? with
    | none => exact absurd hbest (h.2 hlast best)
    | some c =>
      obtain ⟨hc, hmax⟩ := h.1 c hlast
      have hid := (hmax best hbest).antisymm_id (hspec.2 c ((hrows c).mpr hc))
      rw [Option.map_some, Option.map_some, hid]

end Head

/-! ### The commit rows of a manifest -/

section CommitRows

variable {codecs : MetadataCodecs} {m : Manifest}

def decodedCommit (codecs : MetadataCodecs) (row : ManifestRow) : Option GraphLineageRow :=
  match decodeRow codecs true (row, 0) with
  | .ok (.lineage commit) => some commit
  | _ => none

/-- The commits a manifest records. -/
def commitRows (codecs : MetadataCodecs) (m : Manifest) : List GraphLineageRow :=
  m.rows.filterMap (decodedCommit codecs)

lemma decodedCommit_eq_some_iff {row : ManifestRow} {c : GraphLineageRow} :
    decodedCommit codecs row = some c ↔ Decodes codecs true row (.lineage c) := by
  unfold decodedCommit Decodes
  split
  · rename_i commit heq
    rw [heq]
    simp
  · rename_i hne
    simp only [reduceCtorEq, false_iff]
    exact hne c

lemma mem_commitRows {c : GraphLineageRow} :
    c ∈ commitRows codecs m ↔ Holds codecs true m.rows (.lineage c) := by
  simp only [commitRows, mem_filterMap, decodedCommit_eq_some_iff, Holds]

/-- No two commit rows have one id. -/
lemma nodup_commitRows (codecs : MetadataCodecs) (m : Manifest) :
    ((commitRows codecs m).map graphCommitId).Nodup := by
  have hsub : ∀ rows : List ManifestRow,
      ((rows.filterMap (decodedCommit codecs)).map graphCommitId).Sublist
        (rows.map ManifestRow.objectId) := by
    intro rows
    induction rows with
    | nil => exact List.Sublist.refl _
    | cons row rows ih =>
      cases hdec : decodedCommit codecs row with
      | none =>
        rw [filterMap_cons_none hdec]
        exact ih.cons _
      | some c =>
        rw [filterMap_cons_some hdec, map_cons, map_cons,
          (decodedCommit_eq_some_iff.mp hdec).objectId_eq rfl]
        exact ih.cons_cons _
  exact m.nodup.sublist (hsub m.rows)

variable {state : LoadedPublishState} {registrations : List TableRegistration}
  {changes : List ManifestChange} {lineage : Option LineageIntent} {rows : List PendingVersionRow}

/-- The ids of a manifest's commits are ULIDs. -/
def UlidCommits (codecs : MetadataCodecs) (m : Manifest) : Prop :=
  ∀ c ∈ commitRows codecs m, ':' ∉ c.graphCommitId.toList

lemma IsBatch.ulidCommits (h : IsBatch codecs state registrations changes lineage rows)
    (hulid : UlidCommits codecs m) : UlidCommits codecs (m.publish rows) := by
  intro c hc
  obtain ⟨q, hq, hdec⟩ := mem_commitRows.mp hc
  rcases h.mem_publish.mp hq with ⟨row, hrow, rfl⟩ | ⟨hq, -⟩
  · obtain ⟨item, hdec', hwrites⟩ := hrow.decodes h.accepted
    cases hdec.unique hdec'
    obtain ⟨-, i, -, rfl⟩ := hwrites
    exact i.ulid
  · exact hulid c (mem_commitRows.mpr ⟨q, hq, hdec⟩)

/-- A batch adds the commit of its intent. -/
lemma IsBatch.mem_commitRows_publish
    (h : IsBatch codecs state registrations changes lineage rows) (hulid : UlidCommits codecs m)
    (hnew : ∀ i, lineage = some i → ∀ c ∈ commitRows codecs m,
      c.graphCommitId ≠ i.graphCommitId) {c : GraphLineageRow} :
    c ∈ commitRows codecs (m.publish rows) ↔
      c ∈ commitRows codecs m ∨ ∃ i, lineage = some i ∧ i.commitAt state = c := by
  constructor
  · intro hc
    have hcolon := h.ulidCommits hulid c hc
    rw [mem_commitRows, h.holds_publish (by simp) (by rintro _ ⟨⟩; exact hcolon)] at hc
    rcases hc with ⟨-, hwrites⟩ | ⟨hold, -⟩
    · exact .inr hwrites
    · exact .inl (mem_commitRows.mpr hold)
  · rintro (hc | ⟨i, hi, rfl⟩)
    · have hcolon := hulid c hc
      rw [mem_commitRows, h.holds_publish (by simp) (by rintro _ ⟨⟩; exact hcolon)]
      refine .inr ⟨mem_commitRows.mp hc, ?_⟩
      rintro ⟨i, hi, hid⟩
      exact hnew i hi c hc hid.symm
    · rw [mem_commitRows, h.holds_publish (by simp) (by rintro _ ⟨⟩; exact i.ulid)]
      exact .inl ⟨rfl, i, hi, rfl⟩

end CommitRows

/-! ### What the racing publishers keep -/

/-- The publisher works on the branch whose head row has this key. -/
structure OnBranch (key : String) (request : PublishRequest) : Prop where
  publisher : request.publisherBranch.getD mainBranchHeadKey = key
  lineage : ∀ i, request.lineage = some i → i.headKey = key

/-- The branch as the publishers find it: its commits have ULIDs and versions up to the current one,
and its head row, if it has one, names the head of its commits. -/
structure Settled (codecs : MetadataCodecs) (key : String) (store : Store) : Prop where
  ulid : UlidCommits codecs store.manifest
  past : ∀ c ∈ commitRows codecs store.manifest, c.manifestVersion ≤ store.version
  head : ∀ id, Holds codecs true store.manifest.rows (.head key id) →
    ∃ c, IsHeadOf (· ∈ commitRows codecs store.manifest) c ∧ c.graphCommitId = id

/-- Commit ids are minted once: no two publishers share one, and none is in the manifest yet. -/
structure MintedOnce {P : Type} (codecs : MetadataCodecs) (request : P → PublishRequest)
    (store : Store) : Prop where
  distinct : ∀ p q i j, (request p).lineage = some i → (request q).lineage = some j →
    i.graphCommitId = j.graphCommitId → p = q
  fresh : ∀ p i, (request p).lineage = some i → ∀ c ∈ commitRows codecs store.manifest,
    c.graphCommitId ≠ i.graphCommitId

/-- The commit the branch had before anyone published. -/
def Store.inherited (codecs : MetadataCodecs) (store : Store) : Option GraphLineageRow :=
  headLineageRow (commitRows codecs store.manifest)

/-- The inherited head and the commits that have landed since. -/
def chainSince {P : Type} (codecs : MetadataCodecs) (start : Store)
    (published : List (P × GraphLineageRow)) : List GraphLineageRow :=
  (start.inherited codecs).toList ++ published.map Prod.snd

/-- `b` is published on top of `a`. -/
def OnTopOf (a b : GraphLineageRow) : Prop :=
  b.parentCommitId = some a.graphCommitId ∧ a.manifestVersion < b.manifestVersion

/-- A precondition on the head pins the parent: the head it names, or the inherited head when it
asks for a branch without a head row. -/
def PinsParent (codecs : MetadataCodecs) (start : Store) (request : PublishRequest)
    (parent : Option String) : Prop :=
  ∀ expected, request.precondition = .exactGraphHead expected →
    match expected.headCommitId with
    | some head => parent = some head
    | none => parent = (start.inherited codecs).map graphCommitId

/-- The object id of the branch's head row. -/
def headId (key : String) : String := "graph_head:" ++ key

/-- The commits that have landed on the branch, and the store they left. -/
structure LinearHistory {P : Type} (codecs : MetadataCodecs) (key : String) (start store : Store)
    (published : List (P × GraphLineageRow)) : Prop where
  rows : ∀ c, c ∈ commitRows codecs store.manifest ↔
    c ∈ commitRows codecs start.manifest ∨ c ∈ published.map Prod.snd
  ulid : UlidCommits codecs store.manifest
  past : ∀ c ∈ commitRows codecs store.manifest, c.manifestVersion ≤ store.version
  chain : (chainSince codecs start published).IsChain OnTopOf
  ends : EndsInHead (· ∈ commitRows codecs store.manifest) (chainSince codecs start published)
  head : ∀ id, Holds codecs true store.manifest.rows (.head key id) →
    ∃ c, (chainSince codecs start published).getLast? = some c ∧ c.graphCommitId = id
  headed : published ≠ [] → ∃ id, Holds codecs true store.manifest.rows (.head key id)

/-- What a publisher that has loaded knows of the store. What it read of the lineage stays current
for as long as nobody writes the head row. -/
structure Observed (codecs : MetadataCodecs) (key : String) (start store : Store)
    (dataset : DatasetRead) (state : LoadedPublishState) : Prop where
  loaded : ∃ m : Manifest, LoadHolds codecs m.rows state
  version : state.datasetVersion = dataset.version
  behind : state.datasetVersion ≤ store.version
  past : ∀ c ∈ state.lineageRows, c.manifestVersion ≤ state.datasetVersion
  current : (∀ write ∈ store.log, state.datasetVersion < write.1 → write.2 ≠ headId key) →
    ∀ c, c ∈ state.lineageRows ↔ c ∈ commitRows codecs store.manifest
  head : ∀ id, state.graphHeads.lookup key = some id →
    (headLineageRow state.lineageRows).map graphCommitId = some id
  headless : state.graphHeads.lookup key = none →
    (headLineageRow state.lineageRows).map graphCommitId =
      (start.inherited codecs).map graphCommitId

section History

variable {P : Type} {codecs : MetadataCodecs} {key : String} {start store : Store}
  {published : List (P × GraphLineageRow)} {dataset : DatasetRead} {state : LoadedPublishState}
  {request : PublishRequest} {registrations : List TableRegistration} {batch : PreparedPublish}
  {orders : WalkOrders}

lemma Settled.linearHistory (h : Settled codecs key start) :
    LinearHistory codecs key start start ([] : List (P × GraphLineageRow)) := by
  have hspec := headLineageRow_spec (commitRows codecs start.manifest)
  have hends : EndsInHead (· ∈ commitRows codecs start.manifest)
      (chainSince codecs start ([] : List (P × GraphLineageRow))) := by
    unfold EndsInHead chainSince Store.inherited
    cases hhead : headLineageRow (commitRows codecs start.manifest) with
    | none =>
      rw [hhead] at hspec
      refine ⟨fun c hc => (nomatch hc), fun _ c => ?_⟩
      rw [hspec]
      exact not_mem_nil
    | some best =>
      rw [hhead] at hspec
      refine ⟨fun c hc => ?_, fun hnone => (nomatch hnone)⟩
      cases hc
      exact hspec
  refine ⟨by simp, h.ulid, h.past, ?_, hends, ?_, fun hne => absurd rfl hne⟩
  · unfold chainSince
    cases start.inherited codecs with
    | none => exact .nil
    | some best => exact .singleton best
  · intro id hid
    obtain ⟨c, ⟨hc, hmax⟩, rfl⟩ := h.head id hid
    cases hlast : (chainSince codecs start ([] : List (P × GraphLineageRow))).getLast? with
    | none => exact absurd hc (hends.2 hlast c)
    | some best =>
      obtain ⟨hbest, hbestMax⟩ := hends.1 best hlast
      exact ⟨best, rfl, (hmax best hbest).antisymm_id (hbestMax c hc)⟩

variable (h : LinearHistory codecs key start store published)

include h in
/-- The branch a run leaves is settled again. -/
lemma LinearHistory.settled : Settled codecs key store := by
  refine ⟨h.ulid, h.past, fun id hid => ?_⟩
  obtain ⟨c, hlast, hc⟩ := h.head id hid
  exact ⟨c, h.ends.1 c hlast, hc⟩

include h in
/-- What an attempt loads is the state of the history. -/
lemma LinearHistory.observed (hload : LoadHolds codecs store.manifest.rows state)
    (hversion : state.datasetVersion = dataset.version) (hstore : dataset.version = store.version) :
    Observed codecs key start store dataset state := by
  have hrows : ∀ c, c ∈ state.lineageRows ↔ c ∈ commitRows codecs store.manifest :=
    fun c => (hload.lineage c).trans mem_commitRows.symm
  have hend := h.ends.head_id hrows
  refine ⟨⟨_, hload⟩, hversion, (hversion.trans hstore).le, ?_, fun _ => hrows, ?_, ?_⟩
  · intro c hc
    rw [hversion, hstore]
    exact h.past c ((hrows c).mp hc)
  · intro id hid
    obtain ⟨c, hlast, rfl⟩ := h.head id ((hload.heads key id).mp hid)
    rw [hend, hlast, Option.map_some]
  · intro hnone
    have hempty : published = [] := by
      by_contra hne
      obtain ⟨id, hid⟩ := h.headed hne
      rw [(hload.heads key id).mpr hid] at hnone
      cases hnone
    rw [hend, chainSince, hempty, map_nil, append_nil]
    cases start.inherited codecs with
    | none => rfl
    | some best => rfl

/-! ### A batch lands -/

variable {i : LineageIntent}

lemma headId_mem
    (hbatch : IsBatch codecs state registrations request.changes request.lineage batch.rows)
    (hon : OnBranch key request) (hi : request.lineage = some i) :
    headId key ∈ batch.rows.map PendingVersionRow.objectId := by
  refine List.mem_map.mpr ⟨_, (hbatch.mem_iff _).mpr (.head i hi), ?_⟩
  show "graph_head:" ++ i.headKey = headId key
  rw [hon.lineage i hi, headId]

lemma Observed.rows_of_free (h : Observed codecs key start store dataset state)
    (hbatch : IsBatch codecs state registrations request.changes request.lineage batch.rows)
    (hon : OnBranch key request) (hi : request.lineage = some i)
    (hfree : ¬ store.Contended dataset.version batch.rows) (c : GraphLineageRow) :
    c ∈ state.lineageRows ↔ c ∈ commitRows codecs store.manifest := by
  refine h.current (fun write hwrite hlt heq => ?_) c
  refine hfree ⟨write, hwrite, h.version ▸ hlt, ?_⟩
  rw [heq]
  exact headId_mem hbatch hon hi

include h in
/-- A batch without a commit leaves the history as it is. -/
lemma LinearHistory.land_none
    (hbatch : IsBatch codecs state registrations request.changes request.lineage batch.rows)
    (hi : request.lineage = none) :
    LinearHistory codecs key start (store.land batch.rows) published := by
  have hrows : ∀ c, c ∈ commitRows codecs (store.manifest.publish batch.rows) ↔
      c ∈ commitRows codecs store.manifest := by
    intro c
    rw [hbatch.mem_commitRows_publish h.ulid (by simp [hi])]
    simp [hi]
  have hhead : ∀ id, Holds codecs true (store.manifest.publish batch.rows).rows (.head key id) ↔
      Holds codecs true store.manifest.rows (.head key id) := by
    intro id
    rw [hbatch.holds_publish (by simp) (by simp)]
    simp [Writes, Replaces, hi]
  refine ⟨fun c => (hrows c).trans (h.rows c), hbatch.ulidCommits h.ulid, ?_, h.chain, ?_, ?_, ?_⟩
  · intro c hc
    exact Nat.le_succ_of_le (h.past c ((hrows c).mp hc))
  · have hcommits : (· ∈ commitRows codecs (store.land batch.rows).manifest) =
        (· ∈ commitRows codecs store.manifest) := funext fun c => propext (hrows c)
    rw [hcommits]
    exact h.ends
  · exact fun id hid => h.head id ((hhead id).mp hid)
  · intro hne
    obtain ⟨id, hid⟩ := h.headed hne
    exact ⟨id, (hhead id).mpr hid⟩

include h in
/-- A batch with a commit puts it at the end of the chain. -/
lemma LinearHistory.land_some (hsnap : Observed codecs key start store dataset state)
    (hbatch : IsBatch codecs state registrations request.changes request.lineage batch.rows)
    (hon : OnBranch key request) (hi : request.lineage = some i)
    (hfree : ¬ store.Contended dataset.version batch.rows)
    (hnew : ∀ c ∈ commitRows codecs store.manifest, c.graphCommitId ≠ i.graphCommitId) (p : P) :
    LinearHistory codecs key start (store.land batch.rows)
      (published ++ [(p, i.commitAt state)]) := by
  have hcurrent := hsnap.rows_of_free hbatch hon hi hfree
  have hkey := hon.lineage i hi
  have hrows : ∀ c, c ∈ commitRows codecs (store.manifest.publish batch.rows) ↔
      c ∈ commitRows codecs store.manifest ∨ c = i.commitAt state := by
    intro c
    rw [hbatch.mem_commitRows_publish h.ulid (fun j hj => by cases hi.symm.trans hj; exact hnew)]
    simp [hi, eq_comm]
  have hhead : ∀ id, Holds codecs true (store.manifest.publish batch.rows).rows (.head key id) ↔
      i.graphCommitId = id := by
    intro id
    rw [hbatch.holds_publish (by simp) (by simp)]
    simp [Writes, Replaces, hi, hkey]
  have hchain : chainSince codecs start (published ++ [(p, i.commitAt state)]) =
      chainSince codecs start published ++ [i.commitAt state] := by
    simp [chainSince]
  -- every earlier commit was read, so its version is at most the one the batch is based on
  have hearlier : ∀ c ∈ commitRows codecs store.manifest,
      c.manifestVersion < (i.commitAt state).manifestVersion :=
    fun c hc => Nat.lt_succ_of_le (hsnap.past c ((hcurrent c).mpr hc))
  refine ⟨?_, hbatch.ulidCommits h.ulid, ?_, ?_, ?_, ?_, ?_⟩
  · intro c
    refine (hrows c).trans ?_
    rw [h.rows, List.map_append, List.mem_append, or_assoc]
    simp
  · intro c hc
    rcases (hrows c).mp hc with hc | rfl
    · exact Nat.le_succ_of_le (h.past c hc)
    · exact Nat.succ_le_succ hsnap.behind
  · rw [hchain]
    refine List.isChain_append.mpr ⟨h.chain, .singleton _, ?_⟩
    intro last hlast c hc
    cases hc
    refine ⟨?_, hearlier last (h.ends.1 last hlast).1⟩
    show (headLineageRow state.lineageRows).map graphCommitId = _
    rw [h.ends.head_id hcurrent, Option.mem_def.mp hlast, Option.map_some]
  · rw [hchain]
    refine ⟨fun c hc => ?_, fun hnone => by simp at hnone⟩
    rw [List.getLast?_append_of_ne_nil _ (by simp)] at hc
    cases hc
    refine ⟨(hrows _).mpr (.inr rfl), fun r hr => ?_⟩
    rcases (hrows r).mp hr with hr | rfl
    · exact .inl (hearlier r hr)
    · exact .refl _
  · intro id hid
    refine ⟨i.commitAt state, ?_, (hhead id).mp hid⟩
    rw [hchain, List.getLast?_append_of_ne_nil _ (by simp)]
    rfl
  · exact fun _ => ⟨i.graphCommitId, (hhead _).mpr rfl⟩

/-- What another publisher has loaded, after a batch lands. -/
lemma Observed.land (h : Observed codecs key start store dataset state)
    (hhistory : LinearHistory codecs key start store published) {state' : LoadedPublishState}
    (hbatch : IsBatch codecs state' registrations request.changes request.lineage batch.rows)
    (hon : OnBranch key request) :
    Observed codecs key start (store.land batch.rows) dataset state := by
  refine ⟨h.loaded, h.version, Nat.le_succ_of_le h.behind, h.past, ?_, h.head, h.headless⟩
  intro hquiet c
  cases hi : request.lineage with
  | none =>
    have hrows := @IsBatch.mem_commitRows_publish _ _ _ _ _ _ _ hbatch hhistory.ulid
      (by simp [hi]) c
    refine (h.current ?_ c).trans (hrows.trans (by simp [hi])).symm
    exact fun write hwrite => hquiet write (mem_append_left _ hwrite)
  | some i =>
    obtain ⟨row, hrow, hid⟩ := List.mem_map.mp (headId_mem hbatch hon hi)
    have hlogged : (store.version + 1, row.objectId) ∈ (store.land batch.rows).log :=
      mem_append_right _ (List.mem_map.mpr ⟨row, hrow, rfl⟩)
    exact absurd hid (hquiet _ hlogged (Nat.lt_succ_of_le h.behind))

/-- What an accepted precondition has compared. -/
lemma checkPublishPrecondition_exact {publisherBranch : Option String}
    {expected : GraphHeadExpectation}
    (h : checkPublishPrecondition publisherBranch state (.exactGraphHead expected) = .ok ()) :
    expected.branch.getD mainBranchHeadKey = publisherBranch.getD mainBranchHeadKey ∧
      state.graphHeads.lookup (expected.branch.getD mainBranchHeadKey) =
        expected.headCommitId := by
  simp only [checkPublishPrecondition] at h
  cases hident : state.branchIdentifier with
  | refNotFound =>
    rw [hident] at h
    split_ifs at h
  | failed message =>
    rw [hident] at h
    split_ifs at h
  | found actual =>
    rw [hident] at h
    dsimp only at h
    split_ifs at h with hbranch hactual hhead
    refine ⟨?_, not_not.mp hhead⟩
    rw [← not_not.mp hbranch]
    cases expected.branch with
    | none => rfl
    | some b =>
      by_cases hb : b = "main"
      · subst hb
        rfl
      · rw [Option.filter_some, if_pos (decide_eq_true hb)]

/-- An accepted precondition on the head is one on the parent. -/
lemma Observed.pinsParent (h : Observed codecs key start store dataset state)
    (hon : OnBranch key request)
    (hcheck : checkPublishPrecondition request.publisherBranch state request.precondition =
    .ok ()) :
    PinsParent codecs start request (i.commitAt state).parentCommitId := by
  intro expected hexpected
  rw [hexpected] at hcheck
  obtain ⟨hkey, hhead⟩ := checkPublishPrecondition_exact hcheck
  rw [hkey, hon.publisher] at hhead
  cases hwanted : expected.headCommitId with
  | none => exact h.headless (hhead.trans hwanted)
  | some id => exact h.head id (hhead.trans hwanted)

end History

end Omnigraph
