import Omnigraph.Manifest.Publisher

/-!
# The pending rows of a batch

An accepted batch writes one row for each binding it changes and one row for each update and each
tombstone. The first pass leaves the registrations that an update of the same batch is checked
against; the second pass accepts a change by what is registered and what the manifest already
holds.
-/

namespace Omnigraph

open List Ensures SubTableUpdate ManifestChange

variable {codecs : MetadataCodecs} {known : HashMap TableIdentity TableRegistration}
  {existingVersions : HashMap (TableIdentity × ℕ) SubTableEntry}
  {existingTombstones : HashMap (TableIdentity × ℕ) Unit} {changes : List ManifestChange}

/-! ### The first pass -/

/-- The registrations after those of a batch. -/
def bindAll (known : HashMap TableIdentity TableRegistration)
    (registrations : List TableRegistration) : HashMap TableIdentity TableRegistration :=
  HashMap.insertAll TableRegistration.identity id known registrations

/-- A rename that gives the table another alias. -/
def TableRename.ChangesKey (rename : TableRename) : Prop :=
  rename.tableKey ≠ rename.expectedTableKey

/-- Where a changed binding comes from: a new registration, or a rename of a known one. -/
def BindingOrigin (known : HashMap TableIdentity TableRegistration)
    (changes : List ManifestChange) (registration : TableRegistration) : Prop :=
  (known.lookup registration.identity = none ∧
      registerTable registration ∈ changes) ∨
    ∃ rename, renameTable rename ∈ changes ∧ rename.ChangesKey ∧
      rename.identity = registration.identity ∧ rename.tableKey = registration.tableKey ∧
      ∃ old, known.lookup registration.identity = some old ∧
        old.tableKey = rename.expectedTableKey ∧ old.tablePath = registration.tablePath

variable {changes' : List ManifestChange} {registration : TableRegistration}

lemma BindingOrigin.mono (h : BindingOrigin known changes registration)
    (hsub : changes ⊆ changes') :
    BindingOrigin known changes' registration := by
  rcases h with ⟨hnew, hmem⟩ | ⟨rename, hmem, hrest⟩
  · exact .inl ⟨hnew, hsub hmem⟩
  · exact .inr ⟨rename, hsub hmem, hrest⟩

/-- The first pass after `changes`, which changed the bindings of `registrations`. -/
structure BindingsHold (known : HashMap TableIdentity TableRegistration)
    (changes : List ManifestChange) (registrations : List TableRegistration)
    (pass : BindingPass) : Prop where
  rows : pass.rows = registrations.map bindingRow
  tables : pass.knownTables = bindAll known registrations
  changed : ∀ registration ∈ registrations, registration.identity ∈ pass.bindingChanges
  nodup : (registrations.map TableRegistration.identity).Nodup
  canonical : ∀ registration ∈ registrations, registration.identity.Valid ∧
    tablePathForIdentity registration.tableKey registration.identity = .ok registration.tablePath
  origin : ∀ registration ∈ registrations, BindingOrigin known changes registration
  renamed : ∀ rename, renameTable rename ∈ changes → rename.ChangesKey →
    ∃ registration ∈ registrations, registration.identity = rename.identity

section FirstPass

variable {registrations : List TableRegistration} {pass : BindingPass} {change : ManifestChange}

lemma BindingsHold.empty : BindingsHold known [] [] ⟨known, ∅, []⟩ := by
  constructor <;> simp [bindAll, HashMap.insertAll]

variable (h : BindingsHold known changes registrations pass)

include h in
/-- A change that leaves the bindings as they are. -/
lemma BindingsHold.skip {pass' : BindingPass} (hrows : pass'.rows = pass.rows)
    (hknown : pass'.knownTables = pass.knownTables)
    (hchanged : ∀ identity ∈ pass.bindingChanges, identity ∈ pass'.bindingChanges)
    (hkeep : ∀ rename, change = .renameTable rename → ¬ rename.ChangesKey) :
    BindingsHold known (changes ++ [change]) registrations pass' := by
  refine ⟨hrows.trans h.rows, hknown.trans h.tables,
    fun reg hreg => hchanged _ (h.changed reg hreg),
    h.nodup, h.canonical, fun reg hreg => (h.origin reg hreg).mono (by simp), ?_⟩
  intro rename hmem hkey
  rcases mem_append.mp hmem with hmem | hmem
  · exact h.renamed rename hmem hkey
  · exact absurd hkey (hkeep rename (mem_singleton.mp hmem).symm)

include h in
/-- A change that gives `registration` its binding. -/
lemma BindingsHold.bind (hnew : registration.identity ∉ pass.bindingChanges)
    (hvalid : registration.identity.Valid)
    (hpath : tablePathForIdentity registration.tableKey registration.identity =
      .ok registration.tablePath) (horigin : BindingOrigin known (changes ++ [change]) registration)
    (hrename : ∀ rename, change = .renameTable rename → registration.identity = rename.identity) :
    BindingsHold known (changes ++ [change]) (registrations ++ [registration])
      ⟨pass.knownTables.insert registration.identity registration,
        pass.bindingChanges.insert registration.identity (),
        pass.rows ++ [bindingRow registration]⟩ := by
  have hmem : ∀ {r : TableRegistration}, r ∈ registrations ++ [registration] →
      r ∈ registrations ∨ r = registration := by simp
  constructor
  · simp [h.rows]
  · simp [h.tables, bindAll, HashMap.insertAll]
  · intro reg hreg
    rw [AList.mem_insert]
    rcases hmem hreg with hreg | rfl
    · exact .inr (h.changed reg hreg)
    · exact .inl rfl
  · rw [map_append, map_singleton]
    refine h.nodup.append (nodup_singleton _) ?_
    intro identity hid heq
    obtain ⟨reg, hreg, rfl⟩ := List.mem_map.mp hid
    rw [mem_singleton] at heq
    exact hnew (heq ▸ h.changed reg hreg)
  · intro reg hreg
    rcases hmem hreg with hreg | rfl
    · exact h.canonical reg hreg
    · exact ⟨hvalid, hpath⟩
  · intro reg hreg
    rcases hmem hreg with hreg | rfl
    · exact (h.origin reg hreg).mono (by simp)
    · exact horigin
  · intro rename hren hkey
    rcases mem_append.mp hren with hren | hren
    · obtain ⟨reg, hreg, hid⟩ := h.renamed rename hren hkey
      exact ⟨reg, by simp [hreg], hid⟩
    · exact ⟨registration, by simp, hrename rename (mem_singleton.mp hren).symm⟩

include h in
/-- A binding the batch has not touched is the one the manifest has. -/
lemma BindingsHold.lookup_of_notMem {identity : TableIdentity}
    (hid : identity ∉ pass.bindingChanges) :
    pass.knownTables.lookup identity = known.lookup identity := by
  apply Option.ext
  intro reg
  rw [h.tables, bindAll, HashMap.lookup_insertAll]
  · constructor
    · rintro (⟨r, hr, rfl, -⟩ | ⟨-, hlook⟩)
      · exact absurd (h.changed r hr) hid
      · exact hlook
    · exact fun hlook => .inr ⟨fun r hr heq => hid (heq ▸ h.changed r hr), hlook⟩
  · intro a ha b hb heq
    exact inj_on_of_nodup_map h.nodup ha hb heq

include h in
lemma BindingPass.register_ensures (registration : TableRegistration) :
    Ensures (pass.register registration)
      (fun pass' =>
        ∃ regs, BindingsHold known (changes ++ [.registerTable registration]) regs pass')
      (fun _ => True) := by
  have hnorename : ∀ rename, registerTable registration ≠ .renameTable rename :=
    fun rename heq => by cases heq
  unfold BindingPass.register
  refine bind (of_ok fun _ => TableIdentity.validate_eq_ok_iff.mp)
    fun _ hvalid => ?_
  refine bind (of_ok fun _ hpath => hpath) fun canonicalPath hpath => ?_
  refine ite (fun _ => trivial) fun heq => ?_
  rw [not_not] at heq
  subst heq
  cases hlook : pass.knownTables.lookup registration.identity with
  | some existing =>
    refine ite (fun _ => ?_) fun _ => trivial
    exact ⟨registrations, h.skip rfl rfl (fun _ hid => hid)
      fun rename heq => absurd heq (hnorename rename)⟩
  | none =>
    refine ite (fun _ => trivial) fun hnew => ?_
    refine ⟨_, h.bind hnew hvalid hpath (.inl ⟨?_, by simp⟩)
      fun rename heq => absurd heq (hnorename rename)⟩
    rw [← h.lookup_of_notMem hnew, hlook]

include h in
lemma BindingPass.rename_ensures (rename : TableRename) :
    Ensures (pass.rename existingVersions existingTombstones rename)
      (fun pass' => ∃ regs, BindingsHold known (changes ++ [.renameTable rename]) regs pass')
      (fun _ => True) := by
  unfold BindingPass.rename
  refine bind (of_ok fun _ => TableIdentity.validate_eq_ok_iff.mp)
    fun _ hvalid => ?_
  refine ite (fun _ => trivial) fun hnew => ?_
  cases hlook : pass.knownTables.lookup rename.identity with
  | none => trivial
  | some existing =>
    refine ite (fun _ => trivial) fun _ => ?_
    refine ite (fun _ => trivial) fun hsame => ?_
    refine bind (of_ok fun _ hpath => hpath) fun canonicalPath hpath => ?_
    refine ite (fun _ => trivial) fun heq => ?_
    rw [not_or, not_not, not_not] at hsame
    rw [not_not] at heq
    subst heq
    refine ite (fun hkey => ?_) fun hkey => ?_
    · refine ⟨registrations, h.skip rfl rfl (fun _ hid => AList.mem_insert _ |>.mpr (.inr hid)) ?_⟩
      intro rename' heq hchanges
      cases heq
      exact hchanges hkey
    · have horigin : BindingOrigin known (changes ++ [.renameTable rename])
          ⟨rename.identity, rename.tableKey, rename.tablePath⟩ :=
        .inr ⟨rename, by simp, hkey, rfl, rfl, existing,
          (h.lookup_of_notMem hnew).symm.trans hlook, hsame.1, hsame.2⟩
      refine ⟨_, h.bind hnew hvalid hpath horigin ?_⟩
      intro rename' heq
      cases heq
      rfl

include h in
lemma BindingPass.apply_ensures (change : ManifestChange) :
    Ensures (pass.apply existingVersions existingTombstones change)
      (fun pass' => ∃ regs, BindingsHold known (changes ++ [change]) regs pass')
      (fun _ => True) := by
  cases change with
  | registerTable registration => exact BindingPass.register_ensures h registration
  | renameTable rename => exact BindingPass.rename_ensures h rename
  | update update =>
    exact ⟨registrations, h.skip rfl rfl (fun _ hid => hid) fun rename heq => by cases heq⟩
  | tombstone tombstone =>
    exact ⟨registrations, h.skip rfl rfl (fun _ hid => hid) fun rename heq => by cases heq⟩

theorem bindingPass_holds {bound : BindingPass}
    (h : changes.foldlM (BindingPass.apply existingVersions existingTombstones) ⟨known, ∅, []⟩ =
      .ok bound) : ∃ registrations, BindingsHold known changes registrations bound := by
  have hrun := foldlM (E := fun _ : OmniError => True) (l := changes)
    (f := BindingPass.apply existingVersions existingTombstones)
    (fun pre pass => ∃ registrations, BindingsHold known pre registrations pass)
    ⟨[], BindingsHold.empty⟩
    fun _ change _ _ _ ⟨_, hpass⟩ => BindingPass.apply_ensures hpass change
  exact hrun.value h

end FirstPass

/-! ### The second pass -/

def ManifestChange.update? : ManifestChange → Option SubTableUpdate
  | .update u => some u
  | _ => none

def ManifestChange.tombstone? : ManifestChange → Option TableTombstone
  | .tombstone t => some t
  | _ => none

/-- The row the second pass writes for a change. -/
def ManifestChange.versionRow (codecs : MetadataCodecs) : ManifestChange → Option PendingVersionRow
  | .update u => some (updateRow codecs u)
  | .tombstone t => some (tombstoneRow t)
  | _ => none

def SubTableUpdate.identityVersion (update : SubTableUpdate) : TableIdentity × ℕ :=
  (update.identity, update.tableVersion)

/-- What the second pass asks of an update, apart from the other updates of the batch. -/
structure UpdateAccepted (known : HashMap TableIdentity TableRegistration)
    (existingVersions : HashMap (TableIdentity × ℕ) SubTableEntry) (update : SubTableUpdate) :
    Prop where
  valid : update.identity.Valid
  named : update.tableKey ≠ ""
  inRange : update.tableVersion < 2 ^ 63
  bound : ∃ registration, known.lookup update.identity = some registration ∧
    registration.tableKey = update.tableKey
  handoff : ∀ existing, existingVersions.lookup update.identityVersion = some existing →
    existing.rowCount = update.rowCount ∧ existing.tableBranch ≠ update.tableBranch

structure TombstoneAccepted (known : HashMap TableIdentity TableRegistration)
    (existingTombstones : HashMap (TableIdentity × ℕ) Unit) (tombstone : TableTombstone) :
    Prop where
  valid : tombstone.identity.Valid
  bound : ∃ registration, known.lookup tombstone.identity = some registration ∧
    registration.tableKey = tombstone.tableKey
  fresh : (tombstone.identity, tombstone.tombstoneVersion) ∉ existingTombstones

structure AllAccepted (known : HashMap TableIdentity TableRegistration)
    (existingVersions : HashMap (TableIdentity × ℕ) SubTableEntry)
    (existingTombstones : HashMap (TableIdentity × ℕ) Unit) (changes : List ManifestChange) :
    Prop where
  updates : ∀ update, ManifestChange.update update ∈ changes →
    UpdateAccepted known existingVersions update
  nodup : ((changes.filterMap update?).map identityVersion).Nodup
  tombstones : ∀ tombstone, ManifestChange.tombstone tombstone ∈ changes →
    TombstoneAccepted known existingTombstones tombstone

structure VersionsHold (codecs : MetadataCodecs) (known : HashMap TableIdentity TableRegistration)
    (existingVersions : HashMap (TableIdentity × ℕ) SubTableEntry)
    (existingTombstones : HashMap (TableIdentity × ℕ) Unit) (start : List PendingVersionRow)
    (changes : List ManifestChange) (pass : VersionPass) : Prop where
  rows : pass.rows = start ++ changes.filterMap (versionRow codecs)
  requests : ∀ key, key ∈ pass.requestVersions ↔
    key ∈ (changes.filterMap update?).map identityVersion
  accepted : AllAccepted known existingVersions existingTombstones changes

section SecondPass

variable {start : List PendingVersionRow} {pass : VersionPass}

lemma AllAccepted.of_append
    (h : AllAccepted known existingVersions existingTombstones (changes ++ changes')) :
    AllAccepted known existingVersions existingTombstones changes := by
  refine ⟨fun u hu => h.updates u (by simp [hu]), ?_, fun t ht => h.tombstones t (by simp [ht])⟩
  have := h.nodup
  rw [filterMap_append, map_append] at this
  exact this.of_append_left

lemma parseNamespaceVersionRequest_eq {update : SubTableUpdate} :
    Ensures (parseNamespaceVersionRequest update)
      (fun request => request = update ∧ update.tableKey ≠ "" ∧ update.tableVersion < 2 ^ 63)
      (fun _ => ¬ (update.tableKey ≠ "" ∧ update.tableVersion < 2 ^ 63)) := by
  unfold parseNamespaceVersionRequest
  refine ite (fun hempty => fun h => h.1 hempty) fun hnamed => ?_
  refine ite (fun hbig => fun h => Nat.not_le.mpr h.2 hbig) fun hsmall => ?_
  exact ⟨rfl, hnamed, Nat.not_le.mp hsmall⟩

lemma VersionPass.update_ensures (update : SubTableUpdate) :
    Ensures (pass.update codecs known existingVersions update)
      (fun pass' => UpdateAccepted known existingVersions update ∧
        update.identityVersion ∉ pass.requestVersions ∧
        pass' = ⟨pass.requestVersions.insert update.identityVersion (),
          pass.rows ++ [updateRow codecs update]⟩)
      (fun _ => ¬ (UpdateAccepted known existingVersions update ∧
        update.identityVersion ∉ pass.requestVersions)) := by
  unfold VersionPass.update
  by_cases hvalid : update.identity.Valid
  swap
  · rw [TableIdentity.validate, if_neg hvalid]
    exact fun h => hvalid h.1.valid
  rw [TableIdentity.validate, if_pos hvalid, Except.ok_bind]
  have hparse := @parseNamespaceVersionRequest_eq update
  cases hreq : parseNamespaceVersionRequest update with
  | error e =>
    rw [hreq] at hparse
    exact fun h => hparse ⟨h.1.named, h.1.inRange⟩
  | ok request =>
    rw [hreq] at hparse
    obtain ⟨rfl, hnamed, hrange⟩ := hparse
    dsimp only
    cases hlook : known.lookup request.identity with
    | none =>
      intro h
      obtain ⟨reg, hreg, -⟩ := h.1.bound
      rw [hlook] at hreg
      cases hreg
    | some registration =>
      refine ite (fun hkey => ?_) fun hkey => ?_
      · intro h
        obtain ⟨reg, hreg, heq⟩ := h.1.bound
        rw [hlook] at hreg
        cases hreg
        exact hkey heq
      refine ite (fun hdup => fun h => h.2 hdup) fun hnew => ?_
      rw [not_not] at hkey
      have haccepted : (∀ existing,
          existingVersions.lookup request.identityVersion = some existing →
          existing.rowCount = request.rowCount ∧ existing.tableBranch ≠ request.tableBranch) →
          UpdateAccepted known existingVersions request :=
        fun hhandoff => ⟨hvalid, hnamed, hrange, ⟨registration, hlook, hkey⟩, hhandoff⟩
      cases hex : existingVersions.lookup (request.identity, request.tableVersion) with
      | none =>
        refine ⟨haccepted fun existing h => ?_, hnew, rfl⟩
        rw [identityVersion, hex] at h
        cases h
      | some existing =>
        refine ite (fun hhandoff => ?_) fun hhandoff => ?_
        · rw [decide_eq_true_eq] at hhandoff
          refine ⟨haccepted fun existing' h => ?_, hnew, rfl⟩
          rw [identityVersion, hex] at h
          cases h
          exact hhandoff
        · intro h
          exact hhandoff (decide_eq_true (h.1.handoff existing hex))

lemma VersionPass.seal_ensures (tombstone : TableTombstone) :
    Ensures (pass.seal known existingTombstones tombstone)
      (fun pass' => TombstoneAccepted known existingTombstones tombstone ∧
        pass' = { pass with rows := pass.rows ++ [tombstoneRow tombstone] })
      (fun _ => ¬ TombstoneAccepted known existingTombstones tombstone) := by
  unfold VersionPass.seal
  by_cases hvalid : tombstone.identity.Valid
  swap
  · rw [TableIdentity.validate, if_neg hvalid]
    exact fun h => hvalid h.valid
  rw [TableIdentity.validate, if_pos hvalid, Except.ok_bind]
  cases hlook : known.lookup tombstone.identity with
  | none =>
    intro h
    obtain ⟨reg, hreg, -⟩ := h.bound
    rw [hlook] at hreg
    cases hreg
  | some registration =>
    refine ite (fun hkey => ?_) fun hkey => ?_
    · intro h
      obtain ⟨reg, hreg, heq⟩ := h.bound
      rw [hlook] at hreg
      cases hreg
      exact hkey heq
    refine ite (fun hdup => fun h => h.fresh hdup) fun hnew => ?_
    rw [not_not] at hkey
    exact ⟨⟨hvalid, ⟨registration, hlook, hkey⟩, hnew⟩, rfl⟩

lemma VersionsHold.empty :
    VersionsHold codecs known existingVersions existingTombstones start [] ⟨∅, start⟩ := by
  refine ⟨by simp, by simp, ⟨by simp, by simp, by simp⟩⟩

/-- A change the second pass has nothing to do for. -/
lemma VersionsHold.skip
    (h : VersionsHold codecs known existingVersions existingTombstones start changes pass)
    {change : ManifestChange} (hupdate : change.update? = none)
    (htombstone : change.tombstone? = none) :
    VersionsHold codecs known existingVersions existingTombstones start (changes ++ [change])
      pass := by
  have hother : ∀ {change' : ManifestChange}, change' ∈ changes ++ [change] →
      change' ∈ changes ∨ change' = change := by simp
  have hrow : change.versionRow codecs = none := by
    cases change <;> simp_all [update?, tombstone?,
      versionRow]
  refine ⟨by simp [h.rows, filterMap_append, hrow],
    by simp [h.requests, filterMap_append, hupdate], ⟨?_, ?_, ?_⟩⟩
  · intro u hu
    rcases hother hu with hu | rfl
    · exact h.accepted.updates u hu
    · cases hupdate
  · simpa [filterMap_append, hupdate] using h.accepted.nodup
  · intro t ht
    rcases hother ht with ht | rfl
    · exact h.accepted.tombstones t ht
    · cases htombstone

/-- A change that the pass refuses is not acceptable after those before it. -/
lemma VersionPass.apply_ensures
    (h : VersionsHold codecs known existingVersions existingTombstones start changes pass)
    (change : ManifestChange) :
    Ensures (pass.apply codecs known existingVersions existingTombstones change)
      (VersionsHold codecs known existingVersions existingTombstones start (changes ++ [change]))
      (fun _ => ¬ AllAccepted known existingVersions existingTombstones (changes ++ [change])) := by
  cases change with
  | registerTable registration => exact h.skip rfl rfl
  | renameTable rename => exact h.skip rfl rfl
  | update update =>
    have hnodup : ((changes ++ [ManifestChange.update update]).filterMap update?).map
        identityVersion = (changes.filterMap update?).map
          identityVersion ++ [update.identityVersion] := by
      simp [filterMap_append, update?]
    refine (VersionPass.update_ensures update).mono ?_ ?_
    · rintro pass' ⟨hacc, hnew, rfl⟩
      refine ⟨by simp [h.rows, filterMap_append, versionRow], ?_, ⟨?_, ?_, ?_⟩⟩
      · intro key
        rw [AList.mem_insert, hnodup, h.requests]
        simp [or_comm]
      · intro u hu
        rcases mem_append.mp hu with hu | hu
        · exact h.accepted.updates u hu
        · cases mem_singleton.mp hu
          exact hacc
      · rw [hnodup]
        refine h.accepted.nodup.append (nodup_singleton _) ?_
        intro key hkey heq
        rw [mem_singleton.mp heq, ← h.requests] at hkey
        exact hnew hkey
      · intro t ht
        rcases mem_append.mp ht with ht | ht
        · exact h.accepted.tombstones t ht
        · cases mem_singleton.mp ht
    · intro _ hreject hall
      apply hreject
      refine ⟨hall.updates update (by simp), ?_⟩
      have := hall.nodup
      rw [hnodup, nodup_append] at this
      rw [h.requests]
      exact fun hmem => this.2.2 _ hmem _ (mem_singleton_self _) rfl
  | tombstone tombstone =>
    refine (VersionPass.seal_ensures tombstone).mono ?_ ?_
    · rintro pass' ⟨hacc, rfl⟩
      refine ⟨by simp [h.rows, filterMap_append, versionRow],
        by simp [h.requests, filterMap_append, update?], ⟨?_, ?_, ?_⟩⟩
      · intro u hu
        rcases mem_append.mp hu with hu | hu
        · exact h.accepted.updates u hu
        · cases mem_singleton.mp hu
      · rw [filterMap_append]
        simpa [filterMap_cons, update?] using h.accepted.nodup
      · intro t ht
        rcases mem_append.mp ht with ht | ht
        · exact h.accepted.tombstones t ht
        · cases mem_singleton.mp ht
          exact hacc
    · exact fun _ hreject hall => hreject (hall.tombstones tombstone (by simp))

/-- The second pass succeeds exactly on batches whose updates and tombstones are all accepted. -/
theorem versionPass_ensures :
    Ensures (changes.foldlM
        (VersionPass.apply codecs known existingVersions existingTombstones) ⟨∅, start⟩)
      (VersionsHold codecs known existingVersions existingTombstones start changes)
      (fun _ => ¬ AllAccepted known existingVersions existingTombstones changes) := by
  refine foldlM (VersionsHold codecs known existingVersions existingTombstones start)
    VersionsHold.empty ?_
  intro pre change post pass hsplit hpass
  refine (VersionPass.apply_ensures hpass change).mono (fun _ h => h) ?_
  intro _ hreject hall
  apply hreject
  rw [hsplit, append_cons] at hall
  exact hall.of_append

end SecondPass

/-! ### The batch -/

/-- An accepted batch: the bindings it changes, and every update and tombstone accepted under the
bindings it leaves. -/
structure BatchAccepted (known : HashMap TableIdentity TableRegistration)
    (existingVersions : HashMap (TableIdentity × ℕ) SubTableEntry)
    (existingTombstones : HashMap (TableIdentity × ℕ) Unit) (changes : List ManifestChange)
    (registrations : List TableRegistration) : Prop where
  nodup : (registrations.map TableRegistration.identity).Nodup
  canonical : ∀ registration ∈ registrations, registration.identity.Valid ∧
    tablePathForIdentity registration.tableKey registration.identity = .ok registration.tablePath
  origin : ∀ registration ∈ registrations, BindingOrigin known changes registration
  renamed : ∀ rename, renameTable rename ∈ changes → rename.ChangesKey →
    ∃ registration ∈ registrations, registration.identity = rename.identity
  accepted : AllAccepted (bindAll known registrations) existingVersions existingTombstones changes

/-- The rows of a batch, by what they are for. -/
def batchRows (codecs : MetadataCodecs) (registrations : List TableRegistration)
    (changes : List ManifestChange) : List PendingVersionRow :=
  registrations.map bindingRow ++ changes.filterMap (versionRow codecs)

theorem buildPendingRows_eq_ok {rows : List PendingVersionRow}
    (h : buildPendingRows codecs changes known existingVersions existingTombstones = .ok rows) :
    ∃ registrations,
      BatchAccepted known existingVersions existingTombstones changes registrations ∧
        rows = batchRows codecs registrations changes := by
  obtain ⟨bound, hbound, htail⟩ := Except.bind_eq_ok_iff.mp h
  obtain ⟨pass, hpass, hrows⟩ := Except.bind_eq_ok_iff.mp htail
  cases hrows
  obtain ⟨registrations, hfirst⟩ := bindingPass_holds hbound
  have hsecond := versionPass_ensures.value hpass
  refine ⟨registrations, ⟨hfirst.nodup, hfirst.canonical, hfirst.origin, hfirst.renamed, ?_⟩, ?_⟩
  · rw [← hfirst.tables]
    exact hsecond.accepted
  · rw [hsecond.rows, hfirst.rows, batchRows]

/-- A batch of updates alone. -/
theorem buildPendingRows_updates_iff {updates : List SubTableUpdate} :
    (∃ rows, buildPendingRows codecs (updates.map .update) known existingVersions
        existingTombstones = .ok rows) ↔
      (∀ update ∈ updates, UpdateAccepted known existingVersions update) ∧
        (updates.map identityVersion).Nodup := by
  have hfirst : ∀ (updates : List SubTableUpdate) (pass : BindingPass),
      (updates.map ManifestChange.update).foldlM
        (BindingPass.apply existingVersions existingTombstones) pass = .ok pass := by
    intro updates pass
    induction updates with
    | nil => rfl
    | cons update updates ih => exact ih
  have hall : AllAccepted known existingVersions existingTombstones (updates.map .update) ↔
      (∀ update ∈ updates, UpdateAccepted known existingVersions update) ∧
        (updates.map identityVersion).Nodup := by
    have hmap : (updates.map ManifestChange.update).filterMap update? = updates := by
      rw [filterMap_map]
      exact filterMap_some
    constructor
    · exact fun h => ⟨fun u hu => h.updates u (List.mem_map_of_mem hu), hmap ▸ h.nodup⟩
    · rintro ⟨hacc, hnodup⟩
      refine ⟨?_, hmap.symm ▸ hnodup, ?_⟩
      · intro u hu
        obtain ⟨u', hu', heq⟩ := List.mem_map.mp hu
        cases heq
        exact hacc u hu'
      · intro t ht
        obtain ⟨u', -, heq⟩ := List.mem_map.mp ht
        cases heq
  rw [← hall]
  have hsecond := @versionPass_ensures codecs known existingVersions existingTombstones
    (updates.map .update) []
  rw [buildPendingRows, hfirst]
  show (∃ rows, ((updates.map .update).foldlM
    (VersionPass.apply codecs known existingVersions existingTombstones) ⟨∅, []⟩ >>=
      fun pass => pure pass.rows) = .ok rows) ↔ _
  cases hpass : (updates.map .update).foldlM
      (VersionPass.apply codecs known existingVersions existingTombstones) ⟨∅, []⟩ with
  | ok pass =>
    rw [hpass] at hsecond
    exact ⟨fun _ => hsecond.accepted, fun _ => ⟨pass.rows, rfl⟩⟩
  | error e =>
    rw [hpass] at hsecond
    refine ⟨?_, fun h => absurd h hsecond⟩
    rintro ⟨_, h⟩
    cases h

end Omnigraph
