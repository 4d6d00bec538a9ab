import Omnigraph.Manifest.Reading

/-!
# The visible state of a manifest

Assembling keeps, for each identity, its latest version unless a tombstone at or above it seals it.
The result depends only on which registrations, versions and tombstones there are: neither their
order nor the order in which maps are walked is visible in it.
-/

namespace Omnigraph

open List Except SubTableEntry

/-- The latest version of its identity, above every tombstone of it. -/
structure IsLive (versions : List SubTableEntry) (tombstones : List (TableIdentity × ℕ))
    (raw : SubTableEntry) : Prop where
  mem : raw ∈ versions
  latest : ∀ other ∈ versions, other.identity = raw.identity →
    other.tableVersion ≤ raw.tableVersion
  unsealed : ∀ t ∈ tombstones, t.1 = raw.identity → t.2 < raw.tableVersion

/-- Identity and version, which name a version row. -/
def SubTableEntry.identityVersion (entry : SubTableEntry) : TableIdentity × ℕ :=
  (entry.identity, entry.tableVersion)

/-- An entry under the alias and path of its registration. -/
def SubTableEntry.boundTo (entry : SubTableEntry) (registration : TableRegistration) :
    SubTableEntry :=
  { entry with tableKey := registration.tableKey, tablePath := registration.tablePath }

section Assemble

variable {order : IterOrder (Sigma fun _ : TableIdentity => SubTableEntry)} {version : ℕ}
  {registrations : HashMap TableIdentity TableRegistration} {versions : List SubTableEntry}
  {tombstones : List (TableIdentity × ℕ)} {graphHeads : HashMap String String}

variable {entry : SubTableEntry}

lemma isVisible_tombstoneMap_iff :
    isVisible (tombstoneMap tombstones) entry = true ↔
      ∀ t ∈ tombstones, t.1 = entry.identity → t.2 < entry.tableVersion := by
  have hmax : HashMap.HoldsMax Prod.fst Prod.snd id tombstones (tombstoneMap tombstones) :=
    HashMap.maxBy_holdsMax tombstones
  unfold isVisible
  cases hlook : (tombstoneMap tombstones).lookup entry.identity with
  | none =>
    simp only [true_iff]
    intro t ht hid
    exact absurd hid ((hmax.none_iff _).mp hlook t ht)
  | some sealedAt =>
    obtain ⟨⟨s, hs, hsid, rfl⟩, hle⟩ := hmax.some_spec _ _ hlook
    simp only [decide_eq_true_eq]
    constructor
    · exact fun hlt t ht hid => Nat.lt_of_le_of_lt (hle t ht hid) hlt
    · exact fun hall => hall s hs hsid

/-- The entries assembling keeps, in the order it happens to meet them. -/
def liveEntries (order : IterOrder (Sigma fun _ : TableIdentity => SubTableEntry))
    (versions : List SubTableEntry) (tombstones : List (TableIdentity × ℕ)) :
    List SubTableEntry :=
  ((order.walk (latestVersions versions).entries).map Sigma.snd).filter
    (isVisible (tombstoneMap tombstones))

lemma latestVersions_holdsMax (versions : List SubTableEntry) :
    HashMap.HoldsMax identity id tableVersion versions
      (latestVersions versions) := HashMap.maxBy_holdsMax versions

variable {raw : SubTableEntry}

variable (hfun : Keyed.Functional identityVersion versions)

include hfun in
lemma mem_liveEntries :
    raw ∈ liveEntries order versions tombstones ↔ IsLive versions tombstones raw := by
  have hmax := latestVersions_holdsMax versions
  simp only [liveEntries, mem_filter, List.mem_map, IterOrder.mem_walk,
    isVisible_tombstoneMap_iff]
  constructor
  · rintro ⟨⟨⟨identity, entry⟩, hentry, rfl⟩, hunsealed⟩
    have hlook := HashMap.lookup_eq_some_iff_mem.mpr hentry
    obtain ⟨⟨a, ha, rfl, rfl⟩, hle⟩ := hmax.some_spec _ _ hlook
    exact ⟨ha, hle, hunsealed⟩
  · intro hlive
    refine ⟨⟨⟨raw.identity, raw⟩, ?_, rfl⟩, hlive.unsealed⟩
    apply HashMap.lookup_eq_some_iff_mem.mp
    cases hlook : (latestVersions versions).lookup raw.identity with
    | none => exact absurd rfl ((hmax.none_iff _).mp hlook raw hlive.mem)
    | some kept =>
      -- the kept entry ranks as high as `raw`, and no two entries share identity and version
      obtain ⟨⟨a, ha, hid, rfl⟩, hle⟩ := hmax.some_spec _ _ hlook
      have hver : a.tableVersion = raw.tableVersion :=
        Nat.le_antisymm (hlive.latest a ha hid) (hle raw hlive.mem rfl)
      have := hfun a ha raw hlive.mem (Prod.ext hid hver)
      rw [this]
      rfl

lemma liveEntries_nodup : ((liveEntries order versions tombstones).map
    identity).Nodup := by
  have hkeys : ((order.walk (latestVersions versions).entries).map Sigma.fst).Nodup :=
    ((order.perm _).map Sigma.fst).nodup_iff.mpr (latestVersions versions).nodupKeys
  have hid : ∀ s ∈ order.walk (latestVersions versions).entries, s.2.identity = s.1 := by
    intro s hs
    have hlook := HashMap.lookup_eq_some_iff_mem.mpr ((order.mem_walk _ _).mp hs)
    obtain ⟨⟨a, -, hkey, hval⟩, -⟩ := (latestVersions_holdsMax versions).some_spec _ _ hlook
    rw [← hval]
    exact hkey
  have hmap : ((order.walk (latestVersions versions).entries).map Sigma.snd).map
      identity = (order.walk (latestVersions versions).entries).map Sigma.fst := by
    rw [List.map_map]
    exact map_congr_left hid
  exact (hmap ▸ hkeys).sublist (filter_sublist.map identity)

lemma bindEntry_eq_ok_iff :
    bindEntry registrations raw = .ok entry ↔
      ∃ registration, registrations.lookup raw.identity = some registration ∧
        entry = raw.boundTo registration := by
  unfold bindEntry
  cases registrations.lookup raw.identity with
  | none => simp
  | some registration => simp [boundTo, eq_comm]

/-- Entries under one alias have one identity. -/
def Unambiguous (entries : List SubTableEntry) : Prop :=
  ∀ a ∈ entries, ∀ b ∈ entries, a.tableKey = b.tableKey → a.identity = b.identity

/-- The aliases checked so far. -/
structure AliasesHold (entries : List SubTableEntry) (aliases : HashMap String TableIdentity) :
    Prop where
  unambiguous : Unambiguous entries
  lookup : ∀ key identity, aliases.lookup key = some identity ↔
    ∃ entry ∈ entries, entry.tableKey = key ∧ entry.identity = identity

variable {entries : List SubTableEntry}

/-- A new name leads to its own table. -/
lemma AliasesHold.insert {aliases : HashMap String TableIdentity} (h : AliasesHold entries aliases)
    (hnew : ∀ e ∈ entries, e.tableKey = entry.tableKey → e.identity = entry.identity) :
    AliasesHold (entries ++ [entry]) (aliases.insert entry.tableKey entry.identity) := by
  constructor
  · intro a ha b hb hkey
    rcases mem_append.mp ha with ha | ha <;> rcases mem_append.mp hb with hb | hb
    · exact h.unambiguous a ha b hb hkey
    · rw [mem_singleton.mp hb] at hkey ⊢
      exact hnew a ha hkey
    · rw [mem_singleton.mp ha] at hkey ⊢
      exact (hnew b hb hkey.symm).symm
    · rw [mem_singleton.mp ha, mem_singleton.mp hb]
  · intro key identity
    rw [HashMap.lookup_insert_ite]
    split_ifs with hkey'
    · subst hkey'
      constructor
      · intro heq
        cases heq
        exact ⟨entry, by simp, rfl, rfl⟩
      · rintro ⟨e, he, hkey, rfl⟩
        rcases mem_append.mp he with he | he
        · rw [hnew e he hkey]
        · rw [mem_singleton.mp he]
    · rw [h.lookup]
      constructor
      · rintro ⟨e, he, hrest⟩
        exact ⟨e, by simp [he], hrest⟩
      · rintro ⟨e, he, hkey, hid⟩
        rcases mem_append.mp he with he | he
        · exact ⟨e, he, hkey, hid⟩
        · rw [mem_singleton.mp he] at hkey
          exact absurd hkey.symm hkey'

lemma checkAliases_ensures (entries : List SubTableEntry) :
    Ensures (checkAliases entries) (AliasesHold entries) (fun _ => ¬ Unambiguous entries) := by
  refine Ensures.foldlM AliasesHold ⟨by simp [Unambiguous], by simp⟩ ?_
  intro pre entry post aliases hsplit hacc
  cases hlook : aliases.lookup entry.tableKey with
  | none =>
    refine hacc.insert ?_
    intro e he hkey
    have := (hacc.lookup entry.tableKey e.identity).mpr ⟨e, he, hkey, rfl⟩
    rw [hlook] at this
    cases this
  | some existing =>
    obtain ⟨e, he, hkey, rfl⟩ := (hacc.lookup _ _).mp hlook
    refine Ensures.ite (fun hne => ?_) (fun heq => ?_)
    · intro hun
      exact hne (hun e (by simp [hsplit, he]) entry (by simp [hsplit]) hkey)
    · rw [not_not] at heq
      refine hacc.insert fun e' he' hkey' => ?_
      rw [← heq]
      exact hacc.unambiguous e' he' e he (hkey'.trans hkey.symm)

lemma checkAliases_eq_ok_iff :
    (∃ aliases, checkAliases entries = .ok aliases) ↔ Unambiguous entries := by
  have h := checkAliases_ensures entries
  cases hres : checkAliases entries with
  | ok aliases =>
    rw [hres] at h
    simpa using h.unambiguous
  | error e =>
    rw [hres] at h
    simpa using h

/-- The state shows exactly the live entries under their registrations, in alias order. -/
structure Shows (registrations : HashMap TableIdentity TableRegistration)
    (versions : List SubTableEntry) (tombstones : List (TableIdentity × ℕ))
    (entries : List SubTableEntry) : Prop where
  mem_iff : ∀ entry, entry ∈ entries ↔ ∃ raw registration, IsLive versions tombstones raw ∧
    registrations.lookup raw.identity = some registration ∧ entry = raw.boundTo registration
  registered : ∀ raw, IsLive versions tombstones raw →
    ∃ registration, registrations.lookup raw.identity = some registration
  unambiguous : Unambiguous entries
  nodup : (entries.map identity).Nodup
  sorted : entries.Pairwise fun a b => a.tableKey ≤ b.tableKey

variable {registrations' : HashMap TableIdentity TableRegistration}
  {tombstones' : List (TableIdentity × ℕ)} {versions' : List SubTableEntry}

variable (h : Shows registrations versions tombstones entries)

include h in
/-- Two sorted lists that show the same live entries are the same list. -/
lemma Shows.entries_eq {entries' : List SubTableEntry}
    (h' : Shows registrations' versions' tombstones' entries')
    (hmem : ∀ entry, entry ∈ entries ↔ entry ∈ entries') : entries = entries' := by
  apply List.Perm.eq_of_pairwise _ h.sorted h'.sorted
  · rw [perm_ext_iff_of_nodup (List.Nodup.of_map _ h.nodup) (List.Nodup.of_map _ h'.nodup)]
    exact hmem
  · intro a b ha hb hab hba
    have hid := h.unambiguous a ha b ((hmem b).mpr hb) (le_antisymm hab hba)
    exact inj_on_of_nodup_map h.nodup ha ((hmem b).mpr hb) hid

include hfun in
/-- What is assembled shows exactly the live entries. -/
lemma assemble_eq_ok {state : ManifestState}
    (h : assembleManifestState order version registrations versions tombstones graphHeads =
      .ok state) :
    Shows registrations versions tombstones state.entries ∧ state.version = version ∧
      state.graphHeads = graphHeads := by
  obtain ⟨entries, hentries, htail⟩ := bind_eq_ok_iff.mp h
  obtain ⟨aliases, haliases, hstate⟩ := bind_eq_ok_iff.mp htail
  cases hstate
  have hmem : ∀ entry, entry ∈ entries ↔ ∃ raw registration, IsLive versions tombstones raw ∧
      registrations.lookup raw.identity = some registration ∧
      entry = raw.boundTo registration := by
    intro entry
    rw [mem_mapM hentries]
    simp only [bindEntry_eq_ok_iff]
    exact exists_congr fun raw =>
      (and_congr_left fun _ => mem_liveEntries hfun).trans exists_and_left.symm
  have hids : entries.map identity =
      (liveEntries order versions tombstones).map identity := by
    refine map_mapM hentries ?_
    intro raw entry hok
    obtain ⟨registration, -, rfl⟩ := bindEntry_eq_ok_iff.mp hok
    rfl
  have hun : Unambiguous entries := checkAliases_eq_ok_iff.mp ⟨aliases, haliases⟩
  refine ⟨⟨fun entry => (mem_insertionSort _).trans (hmem entry), ?_, ?_, ?_, ?_⟩, rfl, rfl⟩
  · intro raw hlive
    obtain ⟨entry, hok⟩ := exists_mapM_eq_ok_iff.mp ⟨entries, hentries⟩ raw
      ((mem_liveEntries hfun).mpr hlive)
    obtain ⟨registration, hreg, -⟩ := bindEntry_eq_ok_iff.mp hok
    exact ⟨registration, hreg⟩
  · intro a ha b hb
    exact hun a ((mem_insertionSort _).mp ha) b ((mem_insertionSort _).mp hb)
  · rw [((perm_insertionSort _ _).map identity).nodup_iff, hids]
    exact liveEntries_nodup
  · exact pairwise_insertionSort _ _

include h hfun in
/-- Assembling succeeds when every live entry is registered and no alias is bound twice. -/
lemma assemble_of_shows :
    assembleManifestState order version registrations versions tombstones graphHeads =
      .ok ⟨version, entries, graphHeads⟩ := by
  obtain ⟨bound, hbound⟩ : ∃ r, (liveEntries order versions tombstones).mapM
      (bindEntry registrations) = .ok r := by
    apply exists_mapM_eq_ok_iff.mpr
    intro raw hraw
    obtain ⟨registration, hreg⟩ := h.registered raw ((mem_liveEntries hfun).mp hraw)
    exact ⟨_, bindEntry_eq_ok_iff.mpr ⟨registration, hreg, rfl⟩⟩
  have hmem : ∀ entry, entry ∈ bound ↔ entry ∈ entries := by
    intro entry
    rw [mem_mapM hbound, h.mem_iff]
    simp only [bindEntry_eq_ok_iff]
    exact exists_congr fun raw =>
      (and_congr_left fun _ => mem_liveEntries hfun).trans exists_and_left.symm
  obtain ⟨aliases, haliases⟩ : ∃ aliases, checkAliases bound = .ok aliases := by
    apply checkAliases_eq_ok_iff.mpr
    intro a ha b hb
    exact h.unambiguous a ((hmem a).mp ha) b ((hmem b).mp hb)
  have hok : assembleManifestState order version registrations versions tombstones graphHeads =
      .ok ⟨version, bound.insertionSort fun a b => a.tableKey ≤ b.tableKey, graphHeads⟩ :=
    bind_eq_ok_iff.mpr ⟨bound, hbound,
      bind_eq_ok_iff.mpr ⟨aliases, haliases, rfl⟩⟩
  have hentries : (bound.insertionSort fun a b => a.tableKey ≤ b.tableKey) = entries :=
    (assemble_eq_ok hfun hok).1.entries_eq h fun entry =>
      (mem_insertionSort _).trans (hmem entry)
  rw [hok, hentries]

include h in
/-- `Shows` depends only on what there is. -/
lemma Shows.congr
    (hreg : ∀ identity, registrations.lookup identity = registrations'.lookup identity)
    (hver : ∀ entry, entry ∈ versions ↔ entry ∈ versions')
    (htomb : ∀ t, t ∈ tombstones ↔ t ∈ tombstones') :
    Shows registrations' versions' tombstones' entries := by
  have hlive : ∀ raw, IsLive versions tombstones raw ↔ IsLive versions' tombstones' raw := by
    intro raw
    constructor
    · intro hl
      exact ⟨(hver _).mp hl.mem, fun o ho => hl.latest o ((hver _).mpr ho),
        fun t ht => hl.unsealed t ((htomb t).mpr ht)⟩
    · intro hl
      exact ⟨(hver _).mpr hl.mem, fun o ho => hl.latest o ((hver _).mp ho),
        fun t ht => hl.unsealed t ((htomb t).mp ht)⟩
  refine ⟨?_, ?_, h.unambiguous, h.nodup, h.sorted⟩
  · intro entry
    rw [h.mem_iff]
    simp only [hlive, hreg]
  · intro raw hraw
    rw [← hreg]
    exact h.registered raw ((hlive raw).mpr hraw)

end Assemble

end Omnigraph
