import Mathlib.Data.List.ReduceOption
import Omnigraph.Merge.Publish

/-!
# Which merges can be published

The publisher takes a version of a table once, or a second time from another branch with as many
rows. Writing the difference onto the target makes new versions, so it is always taken. A pointer
or a fork is taken when the target's manifest has not recorded the source's version. But a source
that moved without changing a row, onto a target that would have had to advance, republishes the
version the target shows already, and that is refused.
-/

namespace Omnigraph

open List Option Except

variable {codecs : MetadataCodecs} {m : Manifest} {loaded : LoadedPublishState}

/-! ### What the target's manifest records -/

/-- The entries are those the manifest shows, and it holds no later version of them. -/
structure ShownBy (loaded : LoadedPublishState) (entries : List SubTableEntry) : Prop where
  bound : ∀ e ∈ entries, ∃ registration, loaded.registeredTables.lookup e.identity =
    some registration ∧ registration.tableKey = e.tableKey
  recorded : ∀ e ∈ entries, ∃ raw, loaded.existingVersions.lookup (e.identity, e.tableVersion) =
    some raw ∧ raw.rowCount = e.rowCount ∧ raw.tableBranch = e.tableBranch
  latest : ∀ e ∈ entries, ∀ version existing,
    loaded.existingVersions.lookup (e.identity, version) = some existing →
    version ≤ e.tableVersion

lemma ReadShows.shownBy {registrations : HashMap TableIdentity TableRegistration}
    {versions : List SubTableEntry} {tombstones : List (TableIdentity × ℕ)} {state : ManifestState}
    (h : ReadShows codecs m.rows registrations versions tombstones state)
    (hload : LoadHolds codecs m.rows loaded) : ShownBy loaded state.entries := by
  refine ⟨fun e he => ?_, fun e he => ?_, fun e he version existing hex => ?_⟩ <;>
    obtain ⟨raw, registration, hlive, hreg, rfl⟩ := (h.shows.mem_iff e).mp he
  · refine ⟨registration, ?_, rfl⟩
    exact (hload.registrations _ _).mpr ((h.registration_iff _ _).mp hreg)
  · refine ⟨raw, ?_, rfl, rfl⟩
    exact (hload.versions _ _).mpr ⟨rfl, (h.version_iff raw).mp hlive.mem⟩
  · obtain ⟨hkey, hholds⟩ := (hload.versions _ _).mp hex
    obtain ⟨hid, rfl⟩ := Prod.mk.inj hkey
    exact hlive.latest existing ((h.version_iff existing).mpr hholds) hid

variable {identity : TableIdentity}

lemma LoadHolds.registration_valid (h : LoadHolds codecs m.rows loaded)
    {registration : TableRegistration}
    (hreg : loaded.registeredTables.lookup identity = some registration) :
    identity.Valid ∧ registration.tableKey ≠ "" := by
  obtain ⟨rfl, row, hrow, hdecodes⟩ := (h.registrations _ _).mp hreg
  obtain ⟨-, hid, -, -, -, hpath⟩ := decodes_registration_iff.mp hdecodes
  refine ⟨hid.2.2, ?_⟩
  intro hempty
  rw [hempty] at hpath
  cases hpath

/-- The manifest takes this version of the table from the branch. -/
structure Takes (loaded : LoadedPublishState) (identity : TableIdentity) (tableKey : String)
    (version : ℕ) (branch : Option String) (rowCount : ℕ) : Prop where
  registered : ∃ registration, loaded.registeredTables.lookup identity = some registration ∧
    registration.tableKey = tableKey
  inRange : version < 2 ^ 63
  handoff : ∀ existing, loaded.existingVersions.lookup (identity, version) = some existing →
    existing.rowCount = rowCount ∧ existing.tableBranch ≠ branch

lemma updateAccepted_iff_takes (h : LoadHolds codecs m.rows loaded) {update : SubTableUpdate} :
    UpdateAccepted loaded.registeredTables loaded.existingVersions update ↔
      Takes loaded update.identity update.tableKey update.tableVersion update.tableBranch
        update.rowCount := by
  constructor
  · exact fun hacc => ⟨hacc.bound, hacc.inRange, hacc.handoff⟩
  · intro htakes
    obtain ⟨registration, hlook, hkey⟩ := htakes.registered
    obtain ⟨hvalid, hnamed⟩ := h.registration_valid hlook
    exact ⟨hvalid, hkey ▸ hnamed, htakes.inRange, htakes.registered, htakes.handoff⟩

variable {branch : Option String} {e : SubTableEntry} {entries : List SubTableEntry} {rowCount : ℕ}

/-- A version beyond the one shown is new. -/
lemma ShownBy.takes_later (h : ShownBy loaded entries) (he : e ∈ entries) {count : ℕ}
    (hpos : 0 < count) :
    Takes loaded e.identity e.tableKey (e.tableVersion + count) branch rowCount ↔
      e.tableVersion + count < 2 ^ 63 := by
  refine ⟨Takes.inRange, fun hrange => ⟨h.bound e he, hrange, fun existing hex => ?_⟩⟩
  have := h.latest e he _ existing hex
  omega

/-- The version shown is taken again only from another branch. -/
lemma ShownBy.takes_shown (h : ShownBy loaded entries) (he : e ∈ entries) :
    Takes loaded e.identity e.tableKey e.tableVersion branch rowCount ↔
      e.tableVersion < 2 ^ 63 ∧ e.rowCount = rowCount ∧ e.tableBranch ≠ branch := by
  obtain ⟨raw, hraw, hcount, hbranch⟩ := h.recorded e he
  constructor
  · intro htakes
    obtain ⟨hrows, hother⟩ := htakes.handoff raw hraw
    exact ⟨htakes.inRange, hcount ▸ hrows, hbranch ▸ hother⟩
  · rintro ⟨hrange, hrows, hother⟩
    refine ⟨h.bound e he, hrange, fun existing hex => ?_⟩
    rw [hraw] at hex
    cases hex
    exact ⟨hcount.trans hrows, hbranch.symm ▸ hother⟩

/-! ### When a merge is publishable -/

/-- The candidate writes rows onto the target. -/
def CandidateTableState.Writes {R : Type} : CandidateTableState R → Prop
  | .adoptSourceState _ => False
  | _ => True

namespace BranchMerge

variable {R : Type} (merge : BranchMerge R)

/-- Source and target show different states of the table, and the source moved it. -/
def TakesPart (tableKey : String) : Prop :=
  ¬ sameManifestState (merge.source.entry tableKey) (merge.target.entry tableKey) ∧
    ¬ sameManifestState (merge.base.entry tableKey) (merge.source.entry tableKey)

/-- The target has not moved the table. -/
def FastForwards (tableKey : String) : Prop :=
  sameManifestState (merge.base.entry tableKey) (merge.target.entry tableKey) = true

def signatureAt (snapshot : ManifestSnapshot) (tableKey id : String) : Option String :=
  (tableOf merge.storage.view (streamedRows (merge.scanned tableKey snapshot)) id).map
    merge.storage.view.rowSignature

/-- The source is known to have only inserted rows, or some row of it looks different from the
base's. -/
def ChangesRows (tableKey : String) : Prop :=
  (∃ proven, merge.tryProvenPureInsertAdopt tableKey = .ok (some proven)) ∨
    ∃ id, merge.signatureAt merge.source tableKey id ≠ merge.signatureAt merge.base tableKey id

/-- The conditions, table by table, under which the manifest takes the updates of a merge. -/
structure Publishable (loaded : LoadedPublishState) : Prop where
  /-- A pointer to a version of main is new to the target. -/
  pointer : ∀ key s, merge.TakesPart key → merge.FastForwards key →
    merge.source.entry key = some s → s.tableBranch = none →
    Takes loaded s.identity key s.tableVersion none s.rowCount
  /-- A forked version is new to the target. -/
  fork : ∀ key s branch, merge.TakesPart key → merge.FastForwards key →
    merge.source.entry key = some s → s.tableBranch ≠ none → merge.targetActive = some branch →
    (merge.target.entry key).bind SubTableEntry.tableBranch ≠ some branch →
    Takes loaded s.identity key s.tableVersion (some branch) s.rowCount
  /-- A target that has to advance has something to write. -/
  changed : ∀ key s t, merge.TakesPart key → merge.FastForwards key →
    merge.source.entry key = some s → merge.target.entry key = some t →
    adoptAdvancesHead merge.targetActive s (some t) = true →
    merge.ChangesRows key ∨
      (t.tableVersion < 2 ^ 63 ∧ t.rowCount = s.rowCount ∧ t.tableBranch ≠ merge.targetActive)
  /-- A table that main lacks is new to it. -/
  fresh : ∀ key s, merge.TakesPart key → merge.FastForwards key →
    merge.source.entry key = some s → merge.target.entry key = none →
    adoptAdvancesHead merge.targetActive s none = true → ¬ merge.ChangesRows key →
    Takes loaded s.identity key s.tableVersion none s.rowCount
  /-- The versions the merge writes are still signed 64-bit numbers. -/
  room : ∀ candidates conflicts, merge.classifyTables = .ok (candidates, conflicts) →
    ∀ c ∈ candidates, ∀ t planned, merge.target.entry c.1 = some t →
    planMergeTransactions c.1 c.2 t.tableVersion = .ok planned →
    t.tableVersion + planned.length < 2 ^ 63

/-! ### What a candidate says of its table -/

variable {merge} {tableKey : String}

lemma ManifestSnapshot.entry_eq_some {snapshot : ManifestSnapshot}
    (h : snapshot.entry tableKey = some e) : e ∈ snapshot.entries ∧ e.tableKey = tableKey :=
  ⟨mem_of_find?_eq_some h, by simpa using List.find?_some h⟩

variable {target : Option SubTableEntry} {candidate : CandidateTableState R} {s : SubTableEntry}
  {planned : List ℕ}

lemma ensureMergeIdentityCompatible_target {base : Option TableIdentity} {source : TableIdentity}
    {u : Unit}
    (h : ensureMergeIdentityCompatible tableKey base (some source) (identityOf target) = .ok u) :
    ∀ t, target = some t → t.identity = source := by
  rintro t rfl
  unfold ensureMergeIdentityCompatible at h
  cases base with
  | none =>
    simp only [identityOf, map_some, reduceOption_cons_of_none,
      reduceOption_cons_of_some, reduceOption_nil] at h
    split at h
    · cases h
    · rename_i hfind
      simpa using hfind
  | some b =>
    simp only [identityOf, map_some, reduceOption_cons_of_some,
      reduceOption_nil] at h
    split at h
    · cases h
    · rename_i hfind
      simp only [List.find?_eq_none, mem_cons, not_mem_nil, or_false,
        forall_eq_or_imp, forall_eq, decide_eq_true_eq, not_not] at hfind
      exact hfind.2.trans hfind.1.symm

/-- Nothing is staged exactly when every id looks the same in base and source. -/
lemma nothing_adopted_iff {view : RowView R} {base source : List R}
    (hb : MergeJoin.Ascending view.rowIdAt base) (hs : MergeJoin.Ascending view.rowIdAt source) :
    ((adoptVisits view base source).filterMap insertOf = [] ∧
      (adoptVisits view base source).filterMap (updateOf view) = [] ∧
      (adoptVisits view base source).filterMap goneOf = []) ↔
    ∀ id, (tableOf view source id).map view.rowSignature =
      (tableOf view base id).map view.rowSignature := by
  simp only [eq_nil_iff_forall_not_mem, mem_inserts_iff hb hs, mem_updates_iff hb hs,
    mem_gone_iff hb hs]
  constructor
  · rintro ⟨hinserts, hupdates, hgone⟩ id
    cases hsrc : tableOf view source id with
    | none =>
      cases hbase : tableOf view base id with
      | none => rfl
      | some b => exact absurd ⟨by simp [hbase], hsrc⟩ (hgone id)
    | some r =>
      obtain ⟨-, rfl⟩ := (tableOf_eq_some hs).mp hsrc
      cases hbase : tableOf view base (view.rowIdAt r) with
      | none => exact absurd ⟨hbase, hsrc⟩ (hinserts r)
      | some b =>
        by_contra hne
        exact hupdates r ⟨hsrc, b, hbase, fun heq => hne (by simp [heq])⟩
  · intro hsame
    refine ⟨fun r ⟨hbase, hsrc⟩ => ?_, fun r ⟨hsrc, b, hbase, hne⟩ => ?_,
      fun id ⟨hbase, hsrc⟩ => ?_⟩
    · have := hsame (view.rowIdAt r)
      rw [hbase, hsrc] at this
      cases this
    · have := hsame (view.rowIdAt r)
      rw [hbase, hsrc] at this
      exact hne (Option.some.inj this)
    · have := hsame id
      rw [hsrc] at this
      exact hbase (map_eq_none_iff.mp this.symm)

lemma ascending_scanned (snapshot : ManifestSnapshot) :
    MergeJoin.Ascending merge.storage.view.rowIdAt
    (streamedRows (merge.scanned tableKey snapshot)) := by
  unfold scanned
  cases snapshot.entry tableKey with
  | none => exact List.Pairwise.nil
  | some entry => exact merge.storage.ascending entry

lemma delta_eq_none_iff {delta : Option (AdoptDelta R)}
    (h : computeAdoptDelta merge.storage.view merge.storage.rows
      (merge.scanned tableKey merge.base) (merge.scanned tableKey merge.source) = .ok delta) :
    delta = none ↔ ∀ id, merge.signatureAt merge.source tableKey id =
      merge.signatureAt merge.base tableKey id := by
  have hstages := (computeAdoptDelta_ensures merge.storage.rows (ascending_scanned merge.base)
    (ascending_scanned merge.source)).value h
  rw [hstages.none_iff]
  exact nothing_adopted_iff (ascending_scanned merge.base) (ascending_scanned merge.source)

/-- An adopted table is written when the target has to advance and there is something to write. -/
lemma classifyAdopt_ok (hsource : merge.source.entry tableKey = some s)
    (h : merge.classifyAdopt tableKey = .ok candidate) :
    candidate.Writes ↔
      adoptAdvancesHead merge.targetActive s (merge.target.entry tableKey) = true ∧
        merge.ChangesRows tableKey := by
  simp only [classifyAdopt, hsource, bind_eq_ok_iff] at h
  obtain ⟨-, -, h⟩ := h
  split_ifs at h with hadvances
  · simp only [bind_eq_ok_iff] at h
    obtain ⟨proven, hproven, h⟩ := h
    cases proven with
    | some proven =>
      cases h
      exact ⟨fun _ => ⟨hadvances, .inl ⟨proven, hproven⟩⟩, fun _ => trivial⟩
    | none =>
      simp only [classifyGeneralAdopt, bind_eq_ok_iff] at h
      obtain ⟨delta, hdelta, h⟩ := h
      have hnone := delta_eq_none_iff hdelta
      have hchanges : merge.ChangesRows tableKey ↔ delta ≠ none := by
        rw [ChangesRows, hproven, ne_eq, hnone, not_forall, or_iff_right]
        rintro ⟨_, heq⟩
        cases heq
      rw [hchanges]
      cases delta with
      | some delta =>
        cases h
        exact ⟨fun _ => ⟨hadvances, by simp⟩, fun _ => trivial⟩
      | none =>
        cases h
        exact ⟨False.elim, fun hcontra => absurd rfl hcontra.2⟩
  · simp only [classifyGeneralAdopt, bind_eq_ok_iff] at h
    obtain ⟨delta, -, h⟩ := h
    cases h
    exact ⟨False.elim, fun hcontra => absurd hcontra.1 hadvances⟩

lemma planMergeTransactions_length {first : ℕ}
    (h : planMergeTransactions tableKey candidate first = .ok planned) :
    candidate.Writes ∧ 0 < planned.length := by
  simp only [planMergeTransactions, bind_eq_ok_iff] at h
  obtain ⟨count, hcount, h⟩ := h
  split_ifs at h with hzero
  cases h
  refine ⟨?_, by simpa using Nat.pos_of_ne_zero hzero⟩
  cases candidate with
  | adoptSourceState delta =>
    cases hcount
    exact absurd rfl hzero
  | _ => trivial

/-- The update of a candidate. -/
inductive Updates (merge : BranchMerge R) (tableKey : String) (candidate : CandidateTableState R)
    (s : SubTableEntry) : SubTableUpdate → Prop
  | adopted (points : ¬ candidate.Writes) : Updates merge tableKey candidate s
      (merge.adoptedUpdate tableKey s (merge.target.entry tableKey))
  | written {t : SubTableEntry} {planned : List ℕ} (writes : candidate.Writes)
    (target : merge.target.entry tableKey = some t)
    (plan : planMergeTransactions tableKey candidate t.tableVersion = .ok planned) :
    Updates merge tableKey candidate s (merge.writtenUpdate tableKey s.identity t planned)

variable {u : SubTableUpdate}

lemma publishWritten_ok (h : merge.publishWritten tableKey identity candidate = .ok u) :
    ∃ t planned, merge.target.entry tableKey = some t ∧
      planMergeTransactions tableKey candidate t.tableVersion = .ok planned ∧
      u = merge.writtenUpdate tableKey identity t planned := by
  unfold publishWritten at h
  cases htarget : merge.target.entry tableKey with
  | none =>
    rw [htarget] at h
    cases h
  | some t =>
    rw [htarget] at h
    have hrun : (planMergeTransactions tableKey candidate t.tableVersion >>= fun planned =>
        return merge.writtenUpdate tableKey identity t planned) = .ok u := by
      cases candidate with
      | adoptPureInserts proven =>
        dsimp only at h
        split_ifs at h
        exact h
      | _ => exact h
    obtain ⟨planned, hplan, heq⟩ := bind_eq_ok_iff.mp hrun
    cases heq
    exact ⟨t, planned, rfl, hplan, rfl⟩

lemma publishCandidate_ok (h : merge.publishCandidate (tableKey, candidate) = .ok u) :
    ∃ s, merge.source.entry tableKey = some s ∧
      (∀ t, merge.target.entry tableKey = some t → t.identity = s.identity) ∧
      merge.Updates tableKey candidate s u := by
  unfold publishCandidate at h
  cases hsource : merge.source.entry tableKey with
  | none =>
    rw [hsource] at h
    cases h
  | some s =>
    rw [hsource] at h
    simp only [bind_eq_ok_iff] at h
    obtain ⟨_, hcompat, h⟩ := h
    refine ⟨s, rfl, ensureMergeIdentityCompatible_target hcompat, ?_⟩
    have hwritten : ∀ {c : CandidateTableState R}, c.Writes →
        merge.publishWritten tableKey s.identity c = .ok u → merge.Updates tableKey c s u := by
      intro c hwrites hpublish
      obtain ⟨t, planned, htarget, hplan, rfl⟩ := publishWritten_ok hpublish
      exact .written hwrites htarget hplan
    cases candidate with
    | adoptSourceState delta =>
      obtain ⟨_, -, heq⟩ := bind_eq_ok_iff.mp h
      cases heq
      exact .adopted id
    | adoptPureInserts proven => exact hwritten trivial h
    | adoptWithDelta delta => exact hwritten trivial h
    | rewriteMerged staged => exact hwritten trivial h

/-! ### All candidates -/

/-- What classifying a table gives. -/
def ClassifiedAs (merge : BranchMerge R) (tableKey : String)
    (candidate : Option (CandidateTableState R)) : Prop :=
  (∀ c ∈ candidate, merge.TakesPart tableKey ∧
      (¬ merge.FastForwards tableKey → c.Writes)) ∧
    (merge.TakesPart tableKey → merge.FastForwards tableKey →
      ∃ c, candidate = some c ∧ merge.classifyAdopt tableKey = .ok c)

variable {conflicts : List MergeConflict}

lemma classifyTable_ok {candidate : Option (CandidateTableState R)}
    {conflicts' : List MergeConflict}
    (h : merge.classifyTable tableKey conflicts = .ok (candidate, conflicts')) :
    merge.ClassifiedAs tableKey candidate := by
  unfold classifyTable at h
  dsimp only at h
  split_ifs at h with hsame hff
  · cases h
    refine ⟨by simp, fun hpart => absurd hsame ?_⟩
    rw [not_or]
    exact hpart
  · simp only [bind_eq_ok_iff] at h
    obtain ⟨-, -, c, hadopt, heq⟩ := h
    cases heq
    refine ⟨fun c' hc' => ?_, fun _ _ => ⟨c, rfl, hadopt⟩⟩
    exact ⟨not_or.mp hsame, fun hnot => absurd hff hnot⟩
  · simp only [bind_eq_ok_iff] at h
    obtain ⟨-, -, ⟨staged, conflicts''⟩, -, heq⟩ := h
    cases heq
    refine ⟨fun c hc => ⟨not_or.mp hsame, fun _ => ?_⟩, fun _ hff' => absurd hff' hff⟩
    obtain ⟨result, -, rfl⟩ := Option.mem_map.mp hc
    trivial

/-- The candidates are the tables that take part, each once. -/
structure Candidates (merge : BranchMerge R) (keys : List String)
    (candidates : List (String × CandidateTableState R)) : Prop where
  sublist : (candidates.map Prod.fst).Sublist keys
  classified : ∀ c ∈ candidates, merge.ClassifiedAs c.1 (some c.2)
  complete : ∀ key ∈ keys, merge.TakesPart key → merge.FastForwards key →
    ∃ c, (key, c) ∈ candidates

variable {candidates : List (String × CandidateTableState R)} {updates : List SubTableUpdate}

/-- Classifying the tables gives the candidates. -/
lemma classifyTables_ok (h : merge.classifyTables = .ok (candidates, conflicts)) :
    merge.Candidates merge.orderedTableKeys candidates := by
  refine (Ensures.foldlM (E := fun _ => True)
    (fun keys acc => merge.Candidates keys acc.1) ?_ ?_).value h
  · exact ⟨.slnil, by simp, by simp⟩
  · intro pre key post acc _ hacc
    refine Ensures.of_ok fun acc' hstep => ?_
    simp only [bind_eq_ok_iff] at hstep
    obtain ⟨⟨candidate, conflicts⟩, hclassify, heq⟩ := hstep
    cases heq
    have hkey := classifyTable_ok hclassify
    refine ⟨?_, ?_, ?_⟩
    · rw [map_append]
      refine hacc.sublist.append ?_
      cases candidate with
      | none => exact nil_sublist _
      | some c => exact List.Sublist.refl _
    · intro c hc
      rcases mem_append.mp hc with hc | hc
      · exact hacc.classified c hc
      · obtain ⟨state, rfl, rfl⟩ : ∃ state, candidate = some state ∧ (key, state) = c := by
          simpa using hc
        exact hkey
    · intro key' hkey' hpart hff
      rcases mem_append.mp hkey' with hkey' | hkey'
      · obtain ⟨c, hc⟩ := hacc.complete key' hkey' hpart hff
        exact ⟨c, mem_append_left _ hc⟩
      · rw [mem_singleton.mp hkey'] at hpart hff ⊢
        obtain ⟨c, rfl, -⟩ := hkey.2 hpart hff
        exact ⟨c, by simp⟩

lemma mem_orderedTableKeys (h : merge.source.entry tableKey = some s) :
    tableKey ∈ merge.orderedTableKeys := by
  obtain ⟨hmem, rfl⟩ := ManifestSnapshot.entry_eq_some h
  rw [orderedTableKeys, mem_insertionSort, mem_dedup]
  exact List.mem_map_of_mem (mem_append_left _ (mem_append_right _ hmem))

lemma nodup_orderedTableKeys : merge.orderedTableKeys.Nodup :=
  (perm_insertionSort _ _).nodup_iff.mpr (nodup_dedup _)

/-- No two updates are for one table. -/
lemma nodup_updates (hnodup : (candidates.map Prod.fst).Nodup)
    (h : candidates.mapM merge.publishCandidate = .ok updates) :
    (updates.map SubTableUpdate.identityVersion).Nodup := by
  have hid : updates.map (fun u => some u.identity) =
      candidates.map fun c => (merge.source.entry c.1).map SubTableEntry.identity := by
    refine map_mapM h ?_
    rintro ⟨key, c⟩ u hu
    obtain ⟨s, hsource, -, hupdate⟩ := publishCandidate_ok hu
    rw [hsource]
    cases hupdate with
    | adopted =>
      simp only [adoptedUpdate]
      split
      · rfl
      · rfl
      · split <;> rfl
    | written => rfl
  have hsome : ∀ c ∈ candidates, ∃ s, merge.source.entry c.1 = some s := by
    rintro ⟨key, c⟩ hc
    obtain ⟨u, hu⟩ := exists_mapM_eq_ok_iff.mp ⟨updates, h⟩ (key, c) hc
    obtain ⟨s, hsource, -⟩ := publishCandidate_ok hu
    exact ⟨s, hsource⟩
  have hidentities : (updates.map fun u => some u.identity).Nodup := by
    rw [hid]
    refine List.Nodup.map_on ?_ (List.Nodup.of_map _ hnodup)
    intro c hc c' hc' heq
    obtain ⟨s, hs⟩ := hsome c hc
    obtain ⟨s', hs'⟩ := hsome c' hc'
    rw [hs, hs'] at heq
    obtain ⟨hmem, hkey⟩ := ManifestSnapshot.entry_eq_some hs
    obtain ⟨hmem', hkey'⟩ := ManifestSnapshot.entry_eq_some hs'
    have hentry := inj_on_of_nodup_map merge.source.nodup hmem hmem' (Option.some.inj heq)
    have hfst : c.1 = c'.1 := by rw [← hkey, ← hkey', hentry]
    exact inj_on_of_nodup_map hnodup hc hc' hfst
  refine List.Nodup.of_map (fun key => some key.1) ?_
  rw [List.map_map]
  exact hidentities

/-! ### What the manifest takes -/

/-- The manifest takes the update. -/
def TakesUpdate (loaded : LoadedPublishState) (u : SubTableUpdate) : Prop :=
  Takes loaded u.identity u.tableKey u.tableVersion u.tableBranch u.rowCount

lemma takes_pointer (hbranch : s.tableBranch = none) :
    TakesUpdate loaded (merge.adoptedUpdate tableKey s target) ↔
      Takes loaded s.identity tableKey s.tableVersion none s.rowCount := by
  simp only [TakesUpdate, adoptedUpdate, hbranch]

lemma takes_fork {branch : String} (hbranch : s.tableBranch ≠ none)
    (hactive : merge.targetActive = some branch)
    (hother : target.bind SubTableEntry.tableBranch ≠ some branch) :
    TakesUpdate loaded (merge.adoptedUpdate tableKey s target) ↔
      Takes loaded s.identity tableKey s.tableVersion (some branch) s.rowCount := by
  obtain ⟨sourceBranch, hsome⟩ := ne_none_iff_exists'.mp hbranch
  have hfilter : (target.filter fun entry => entry.tableBranch = some branch) = none := by
    cases target with
    | none => rfl
    | some t => simpa using hother
  simp only [TakesUpdate, adoptedUpdate, hsome, hactive, hfilter]

lemma advances_branch (h : adoptAdvancesHead merge.targetActive s target = true) :
    (∃ branch, s.tableBranch = some branch) ∧ (∀ active, merge.targetActive = some active →
      target.bind SubTableEntry.tableBranch = some active) := by
  unfold adoptAdvancesHead at h
  split at h
  · rename_i branch hactive hbranch
    exact ⟨⟨branch, hbranch⟩, fun active heq => by rw [hactive] at heq; cases heq⟩
  · rename_i active branch hactive hbranch
    refine ⟨⟨branch, hbranch⟩, fun active' heq => ?_⟩
    rw [hactive] at heq
    cases heq
    simpa using h
  · cases h

variable {t : SubTableEntry}

variable (hshown : ShownBy loaded merge.target.entries)

include hshown in
/-- Without a row to write, the version shown is published again. -/
lemma takes_shown (htarget : merge.target.entry tableKey = some t) (hid : t.identity = s.identity)
    (h : adoptAdvancesHead merge.targetActive s (some t) = true) :
    TakesUpdate loaded (merge.adoptedUpdate tableKey s (some t)) ↔
      t.tableVersion < 2 ^ 63 ∧ t.rowCount = s.rowCount ∧ t.tableBranch ≠ merge.targetActive := by
  obtain ⟨hmem, hkey⟩ := ManifestSnapshot.entry_eq_some htarget
  obtain ⟨⟨branch, hbranch⟩, howner⟩ := advances_branch h
  rw [← hshown.takes_shown hmem, hid, hkey]
  cases hactive : merge.targetActive with
  | none => simp only [TakesUpdate, adoptedUpdate, hbranch, hactive, getD_some]
  | some active =>
    have hfilter : ((some t).filter fun entry => entry.tableBranch = some active) = some t := by
      simpa using howner active hactive
    simp only [TakesUpdate, adoptedUpdate, hbranch, hactive, hfilter]

lemma takes_fresh (h : adoptAdvancesHead merge.targetActive s none = true) :
    TakesUpdate loaded (merge.adoptedUpdate tableKey s none) ↔
      Takes loaded s.identity tableKey s.tableVersion none s.rowCount := by
  obtain ⟨⟨branch, hbranch⟩, howner⟩ := advances_branch h
  cases hactive : merge.targetActive with
  | none => simp only [TakesUpdate, adoptedUpdate, hbranch, hactive, getD_none]
  | some active => exact absurd (howner active hactive) (by simp)

include hshown in
lemma takes_written (htarget : merge.target.entry tableKey = some t) (hid : t.identity = s.identity)
    (hpos : 0 < planned.length) :
    TakesUpdate loaded (merge.writtenUpdate tableKey s.identity t planned) ↔
      t.tableVersion + planned.length < 2 ^ 63 := by
  obtain ⟨hmem, hkey⟩ := ManifestSnapshot.entry_eq_some htarget
  simp only [TakesUpdate, writtenUpdate, ← hid, ← hkey]
  exact hshown.takes_later hmem hpos

/-- The adopted tables, where nothing is written. -/
lemma Publishable.takes_adopted (h : merge.Publishable loaded)
    (hshown : ShownBy loaded merge.target.entries) (hpart : merge.TakesPart tableKey)
    (hff : merge.FastForwards tableKey) (hsource : merge.source.entry tableKey = some s)
    (hid : ∀ t, merge.target.entry tableKey = some t → t.identity = s.identity)
    (hadopt : merge.classifyAdopt tableKey = .ok candidate) (hpoints : ¬ candidate.Writes) :
    TakesUpdate loaded (merge.adoptedUpdate tableKey s (merge.target.entry tableKey)) := by
  rw [classifyAdopt_ok hsource hadopt, not_and] at hpoints
  cases hadvances : adoptAdvancesHead merge.targetActive s (merge.target.entry tableKey) with
  | true =>
    cases htarget : merge.target.entry tableKey with
    | none =>
      rw [htarget] at hadvances
      exact (takes_fresh hadvances).mpr
        (h.fresh tableKey s hpart hff hsource htarget hadvances (hpoints (htarget ▸ hadvances)))
    | some t =>
      have hunchanged := hpoints hadvances
      rw [htarget] at hadvances
      refine (takes_shown hshown htarget (hid t htarget) hadvances).mpr ?_
      exact (h.changed tableKey s t hpart hff hsource htarget hadvances).resolve_left hunchanged
  | false =>
    cases hbranch : s.tableBranch with
    | none => exact (takes_pointer hbranch).mpr (h.pointer tableKey s hpart hff hsource hbranch)
    | some branch =>
      have hne : s.tableBranch ≠ none := by simp [hbranch]
      cases hactive : merge.targetActive with
      | none =>
        simp [adoptAdvancesHead, hactive, hbranch] at hadvances
      | some active =>
        have hother :
            (merge.target.entry tableKey).bind SubTableEntry.tableBranch ≠ some active := by
          simpa [adoptAdvancesHead, hactive, hbranch] using hadvances
        exact (takes_fork hne hactive hother).mpr
          (h.fork tableKey s active hpart hff hsource hne hactive hother)

/-- A table that is only adopted is in the batch with the update its entries give. -/
lemma Candidates.adopted_update (h : merge.Candidates merge.orderedTableKeys candidates)
    (hupdates : candidates.mapM merge.publishCandidate = .ok updates)
    (hpart : merge.TakesPart tableKey) (hff : merge.FastForwards tableKey)
    (hsource : merge.source.entry tableKey = some s)
    (hpoints : ¬ (adoptAdvancesHead merge.targetActive s (merge.target.entry tableKey) = true ∧
      merge.ChangesRows tableKey)) :
    (∀ t, merge.target.entry tableKey = some t → t.identity = s.identity) ∧
      merge.adoptedUpdate tableKey s (merge.target.entry tableKey) ∈ updates := by
  obtain ⟨c, hc⟩ := h.complete tableKey (mem_orderedTableKeys hsource) hpart hff
  obtain ⟨u, hu⟩ := exists_mapM_eq_ok_iff.mp ⟨updates, hupdates⟩ _ hc
  obtain ⟨_, heq, hadopt⟩ := (h.classified _ hc).2 hpart hff
  cases heq
  obtain ⟨s', hsource', hid, hupdate⟩ := publishCandidate_ok hu
  rw [hsource] at hsource'
  cases hsource'
  refine ⟨hid, (mem_mapM hupdates).mpr ⟨_, hc, ?_⟩⟩
  cases hupdate with
  | adopted => exact hu
  | written hwrites => exact absurd ((classifyAdopt_ok hsource hadopt).mp hwrites) hpoints

include hshown in
/-- Where the publisher takes every update, the merge is publishable. -/
lemma publishable_of_takes (hclassify : merge.classifyTables = .ok (candidates, conflicts))
    (hupdates : candidates.mapM merge.publishCandidate = .ok updates)
    (h : ∀ u ∈ updates, TakesUpdate loaded u) : merge.Publishable loaded := by
  have hcands := classifyTables_ok hclassify
  have hadopted : ∀ {key s}, merge.TakesPart key → merge.FastForwards key →
      merge.source.entry key = some s →
      ¬ (adoptAdvancesHead merge.targetActive s (merge.target.entry key) = true ∧
        merge.ChangesRows key) →
      TakesUpdate loaded (merge.adoptedUpdate key s (merge.target.entry key)) :=
    fun hpart hff hsource hpoints =>
      h _ (hcands.adopted_update hupdates hpart hff hsource hpoints).2
  refine ⟨?_, ?_, ?_, ?_, ?_⟩
  · intro key s hpart hff hsource hbranch
    refine (takes_pointer hbranch).mp (hadopted hpart hff hsource fun hwrites => ?_)
    obtain ⟨⟨branch, hsome⟩, -⟩ := advances_branch hwrites.1
    rw [hbranch] at hsome
    cases hsome
  · intro key s branch hpart hff hsource hbranch hactive hother
    refine (takes_fork hbranch hactive hother).mp (hadopted hpart hff hsource fun hwrites => ?_)
    exact hother ((advances_branch hwrites.1).2 branch hactive)
  · intro key s t hpart hff hsource htarget hadvances
    by_cases hchanges : merge.ChangesRows key
    · exact .inl hchanges
    · right
      have hpoints : ¬ (adoptAdvancesHead merge.targetActive s (merge.target.entry key) = true ∧
          merge.ChangesRows key) := fun hwrites => hchanges hwrites.2
      obtain ⟨hid, hmem⟩ := hcands.adopted_update hupdates hpart hff hsource hpoints
      refine (takes_shown hshown htarget (hid t htarget) hadvances).mp ?_
      rw [htarget] at hmem
      exact h _ hmem
  · intro key s hpart hff hsource htarget hadvances hchanges
    refine (takes_fresh hadvances).mp ?_
    have htakes := hadopted hpart hff hsource fun hwrites => hchanges hwrites.2
    rwa [htarget] at htakes
  · intro candidates' conflicts' hclassify' c hc t planned htarget hplan
    rw [hclassify] at hclassify'
    cases hclassify'
    obtain ⟨hwrites, hpos⟩ := planMergeTransactions_length hplan
    obtain ⟨u, hu⟩ := exists_mapM_eq_ok_iff.mp ⟨updates, hupdates⟩ c hc
    have htakes := h u ((mem_mapM hupdates).mpr ⟨c, hc, hu⟩)
    obtain ⟨s, -, hid, hupdate⟩ := publishCandidate_ok hu
    cases hupdate with
    | adopted hpoints => exact absurd hwrites hpoints
    | written _ htarget' hplan' =>
      rw [htarget] at htarget'
      cases htarget'
      rw [hplan] at hplan'
      cases hplan'
      exact (takes_written hshown htarget (hid t htarget) hpos).mp htakes

lemma Publishable.takes (h : merge.Publishable loaded)
    (hshown : ShownBy loaded merge.target.entries)
    (hclassify : merge.classifyTables = .ok (candidates, conflicts))
    (hupdates : candidates.mapM merge.publishCandidate = .ok updates) :
    ∀ u ∈ updates, TakesUpdate loaded u := by
  intro u hu
  obtain ⟨⟨key, c⟩, hc, hpublish⟩ := (mem_mapM hupdates).mp hu
  obtain ⟨s, hsource, hid, hupdate⟩ := publishCandidate_ok hpublish
  obtain ⟨hpart, hadopt⟩ := (classifyTables_ok hclassify).classified _ hc
  obtain ⟨hpart, hthreeWay⟩ := hpart c rfl
  cases hupdate with
  | adopted hpoints =>
    have hff : merge.FastForwards key := by
      by_contra hnot
      exact hpoints (hthreeWay hnot)
    obtain ⟨_, heq, hadopt⟩ := hadopt hpart hff
    cases heq
    exact h.takes_adopted hshown hpart hff hsource hid hadopt hpoints
  | written _ htarget hplan =>
    refine (takes_written hshown htarget (hid _ htarget)
      (planMergeTransactions_length hplan).2).mpr ?_
    exact h.room candidates conflicts hclassify _ hc _ _ htarget hplan

end BranchMerge

/-- The updates of a merge without conflicts and violations are accepted by the target's manifest,
as the merge read it, if and only if the merge is publishable. -/
theorem branchMergeUpdates_accepted_iff {R : Type} {merge : BranchMerge R} {dataset : DatasetRead}
    {order : IterOrder (Sigma fun _ : TableIdentity => SubTableEntry)} {version : ℕ}
    {updates : List SubTableUpdate} (hrows : dataset.batches.flatten.Perm m.rows)
    (hload : loadPublishState codecs dataset = .ok loaded)
    (hread : readManifestState order codecs version dataset.batches =
      .ok merge.target.toManifestState)
    (h : merge.branchMergeUpdates = .ok updates) :
    (∃ rows, buildPendingRows codecs (updates.map .update) loaded.registeredTables
        loaded.existingVersions loaded.existingTombstones = .ok rows) ↔
      merge.Publishable loaded := by
  have hholds := loadPublishState_holds hrows hload
  obtain ⟨registrations, versions, tombstones, hshows⟩ := readManifestState_shows hrows hread
  have hshown : ShownBy loaded merge.target.entries := hshows.shownBy hholds
  simp only [BranchMerge.branchMergeUpdates, bind_eq_ok_iff] at h
  obtain ⟨⟨candidates, conflicts⟩, hclassify, h⟩ := h
  dsimp only at h
  split_ifs at h
  obtain ⟨-, -, hupdates⟩ := bind_eq_ok_iff.mp h
  have hnodup := BranchMerge.nodup_updates
    ((BranchMerge.classifyTables_ok hclassify).sublist.nodup BranchMerge.nodup_orderedTableKeys)
    hupdates
  rw [buildPendingRows_updates_iff, and_iff_left hnodup]
  simp only [updateAccepted_iff_takes hholds]
  exact ⟨BranchMerge.publishable_of_takes hshown hclassify hupdates,
    fun hpub => hpub.takes hshown hclassify hupdates⟩

/-! ### A topic branch merged into main -/

/-- What the manifest of main shows. -/
def mainState : ManifestState :=
  (readManifestState (.stored _) jsonCodecs 4 [personManifest.rows]).toOption.getD ⟨0, [], ∅⟩

/-- The topic branch at a version of its own, with as many rows as main. -/
def topicEntry (version : ℕ) : SubTableEntry :=
  ⟨personIdentity, "node:Person", "nodes/0000000000000001-0000000000000001", version,
    some "topic", 3, ⟨"v.manifest", none, none, none⟩⟩

/-- Version 4 of the topic branch has the rows of main again, version 5 has others. -/
def topicStorage : MergeStorage String where
  view := idView
  rows := smallRows
  scan entry := if entry.tableVersion = 5 then [["a", "b", "d"]] else [["a", "b", "c"]]
  ascending entry := by
    split_ifs
    · exact (by decide : ["a", "b", "d"].Pairwise fun a b => a < b)
    · exact (by decide : ["a", "b", "c"].Pairwise fun a b => a < b)
  provenChunks _ _ := .ok none
  forkMetadata _ _ := ⟨"v.manifest", none, none, none⟩
  tableState _ _ _ := (3, ⟨"v.manifest", none, none, none⟩)
  validate _ := .ok ()

def topicMerge (version : ℕ) : BranchMerge String where
  storage := topicStorage
  targetActive := none
  base := ⟨mainState, by decide +kernel⟩
  source := ⟨⟨6, [topicEntry version], ∅⟩, by simp⟩
  target := ⟨mainState, by decide +kernel⟩

/-- The merge reads main as its manifest shows it. -/
lemma topicMerge_read (version : ℕ) :
    readManifestState (.stored _) jsonCodecs 4 (datasetOf personManifest).batches =
      .ok (topicMerge version).target.toManifestState := by
  obtain ⟨state, hstate⟩ := exists_eq_ok
    (x := readManifestState (.stored _) jsonCodecs 4 [personManifest.rows]) (by decide +kernel)
  have hmain : mainState = state := by
    rw [mainState, hstate]
    rfl
  simp only [topicMerge, hmain]
  exact hstate

/-- The updates of a merge, offered to a manifest. -/
def offerUpdates (m : Manifest) (merge : BranchMerge String) :
    Except OmniError (List PendingVersionRow) := do
  let loaded ← loadPublishState jsonCodecs (datasetOf m)
  let updates ← merge.branchMergeUpdates
  buildPendingRows jsonCodecs (updates.map .update) loaded.registeredTables
    loaded.existingVersions loaded.existingTombstones

lemma offerUpdates_eq_ok_iff {m : Manifest} {merge : BranchMerge String}
    {rows : List PendingVersionRow} :
    offerUpdates m merge = .ok rows ↔
      ∃ loaded, loadPublishState jsonCodecs (datasetOf m) = .ok loaded ∧
        ∃ updates, merge.branchMergeUpdates = .ok updates ∧
          buildPendingRows jsonCodecs (updates.map .update) loaded.registeredTables
            loaded.existingVersions loaded.existingTombstones = .ok rows := by
  simp only [offerUpdates, bind_eq_ok_iff]

/-- The topic branch changed a row: main gets new versions. -/
theorem branchMergeUpdates_accepted_topic : ∃ loaded updates rows,
    loadPublishState jsonCodecs (datasetOf personManifest) = .ok loaded ∧
      (topicMerge 5).branchMergeUpdates = .ok updates ∧
      buildPendingRows jsonCodecs (updates.map .update) loaded.registeredTables
        loaded.existingVersions loaded.existingTombstones = .ok rows ∧
      (topicMerge 5).Publishable loaded := by
  obtain ⟨rows, h⟩ := exists_eq_ok (x := offerUpdates personManifest (topicMerge 5))
    (by decide +kernel)
  obtain ⟨loaded, hload, updates, hupdates, hrows⟩ := offerUpdates_eq_ok_iff.mp h
  refine ⟨loaded, updates, rows, hload, hupdates, hrows, ?_⟩
  have hbatches : (datasetOf personManifest).batches.flatten.Perm personManifest.rows := by
    simp [datasetOf]
  exact (branchMergeUpdates_accepted_iff hbatches hload (topicMerge_read 5) hupdates).mp
    ⟨rows, hrows⟩

/-- The topic branch inserted a row and deleted it again. The merge finds no difference, publishes
the version of main once more, and main refuses it. -/
theorem branchMergeUpdates_refused : ∃ loaded updates,
    loadPublishState jsonCodecs (datasetOf personManifest) = .ok loaded ∧
      readManifestState (.stored _) jsonCodecs 4 (datasetOf personManifest).batches =
        .ok (topicMerge 4).target.toManifestState ∧
      (topicMerge 4).branchMergeUpdates = .ok updates ∧
      ¬ ∃ rows, buildPendingRows jsonCodecs (updates.map .update) loaded.registeredTables
        loaded.existingVersions loaded.existingTombstones = .ok rows := by
  obtain ⟨loaded, hload⟩ := exists_eq_ok
    (x := loadPublishState jsonCodecs (datasetOf personManifest)) (by decide +kernel)
  obtain ⟨updates, hupdates⟩ := exists_eq_ok (x := (topicMerge 4).branchMergeUpdates)
    (by decide +kernel)
  refine ⟨loaded, updates, hload, topicMerge_read 4, hupdates, ?_⟩
  rintro ⟨rows, hrows⟩
  have hrefused : (offerUpdates personManifest (topicMerge 4)).isOk = false := by decide +kernel
  have haccepted : offerUpdates personManifest (topicMerge 4) = .ok rows :=
    offerUpdates_eq_ok_iff.mpr ⟨loaded, hload, updates, hupdates, hrows⟩
  rw [haccepted] at hrefused
  cases hrefused

end Omnigraph
