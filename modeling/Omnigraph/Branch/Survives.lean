import Omnigraph.Branch.Recoverable
import Omnigraph.Lib.Result

/-!
# Runs of branch controls

One writer calls the controls one after the other. Each call may meet faults and may stop anywhere,
and the next one starts from what it left.
-/

namespace Omnigraph.BranchControl

open Except AList

variable (encodeIdentifier : VersionMapping → String) (mint : ℕ → String)
  (checkValidBranch : String → Except OmniError Unit)

/-! ### Creating -/

variable {e : OmniError}

section Create

variable {encodeIdentifier} {mint} {checkValidBranch} {call : CreateCall} {parent : VersionMapping}
  {s t : Storage}

/-- The branch is absent, or it is the one asked for and its tree is there. -/
def CreatedOrAbsent (mint : ℕ → String) (call : CreateCall) (parent : VersionMapping)
    (contents : Option BranchContents) (tree : Tree) : Prop :=
  contents = none ∨ tree = .cloned ∧ ∃ minted,
    contents = some (createdContents mint call.source call.sourceVersion parent minted)

/-- What a create leaves wherever it stops. -/
abbrev CreateLeaves (mint : ℕ → String) (call : CreateCall) (parent : VersionMapping) :
    Storage → Storage → Prop :=
  Leaves call.branch (CreatedOrAbsent mint call parent)

lemma Gone.createLeaves (h : Gone call.branch s t) : CreateLeaves mint call parent s t :=
  h.mono fun _ _ habsent => .inl habsent

/-- The ref of a created branch. -/
def Created (mint : ℕ → String) (call : CreateCall) (parent : VersionMapping) (t : Storage) :
    Prop :=
  ∃ minted, t.refs.lookup call.branch =
    some (createdContents mint call.source call.sourceVersion parent minted)

/-- What a create returns, and what it leaves then. -/
def CreateReturns (mint : ℕ → String) (call : CreateCall) (parent : VersionMapping) (s : Storage)
    (r : Except OmniError BranchCreateOutcome) (t : Storage) : Prop :=
  CreateLeaves mint call parent s t ∧ (r = .ok .created → Created mint call parent t) ∧
    r ≠ .ok .refAlreadyExists

lemma CreateReturns.fail (h : CreateLeaves mint call parent s t) :
    CreateReturns mint call parent s (.error e) t :=
  ⟨h, (fun heq => by cases heq), fun heq => by cases heq⟩

lemma CreateReturns.created (h : CreateLeaves mint call parent s t)
    (hcreated : Created mint call parent t) :
    CreateReturns mint call parent s (.ok .created) t :=
  ⟨h, fun _ => hcreated, fun heq => by cases heq⟩

lemma Gone.putRef (h : Gone call.branch s t) (htree : t.trees call.branch = .cloned) :
    CreateLeaves mint call parent s
      (putRef mint call.source call.branch call.sourceVersion parent t) where
  others name hname := (lookup_insert_ne hname).trans (h.others name hname)
  trees := h.trees
  own := .inr ⟨htree, t.minted, lookup_insert t.refs⟩

lemma created_putRef : Created mint call parent
    (putRef mint call.source call.branch call.sourceVersion parent t) :=
  ⟨t.minted, lookup_insert t.refs⟩

/-- A native create leaves its branch absent or created, and created if it succeeds. -/
lemma holds_nativeCreate (h : Gone call.branch s t) :
    Holds (nativeCreate mint call.source call.branch call.sourceVersion parent)
      (CreateLeaves mint call parent s)
      (fun r u => CreateLeaves mint call parent s u ∧
        ∃ result, r = .ok result ∧ (result = .ok () → Created mint call parent u)) t := by
  refine holds_bind (holds_read fun _ => ?_)
  simp only [if_neg h.notMem]
  split
  · exact holds_pure ⟨h.createLeaves, _, rfl, fun heq => by cases heq⟩
  · have hbegun := h.setTree .incomplete
    have hcloned := hbegun.setTree .cloned
    have hput : CreateLeaves mint call parent s _ := hcloned.putRef (by simp [Storage.setTree])
    have herror : ∀ (u : Storage) (error : NativeError), CreateLeaves mint call parent s u →
        CreateLeaves mint call parent s u ∧ ∃ result,
          (.ok (.error error) : Except OmniError (Except NativeError Unit)) = .ok result ∧
            (result = .ok () → Created mint call parent u) :=
      fun u error hu => ⟨hu, _, rfl, fun heq => by cases heq⟩
    refine holds_nativeSteps_cons hbegun.createLeaves (fun error => herror _ error h.createLeaves)
      (fun error => herror _ error hbegun.createLeaves) ?_
    refine holds_nativeSteps_cons hcloned.createLeaves
      (fun error => herror _ error hbegun.createLeaves)
      (fun error => herror _ error hcloned.createLeaves) ?_
    refine holds_nativeSteps_cons hput (fun error => herror _ error hcloned.createLeaves)
      (fun error => herror _ error hput) ?_
    exact holds_nativeSteps_nil ⟨hput, _, rfl, fun _ => created_putRef⟩

/-- The classifier asks for another attempt only when the branch is absent, and reports a branch
only when it is the one asked for. -/
lemma holds_classifyCreate (error : NativeError) (h : CreateLeaves mint call parent s t) :
    Holds (classifyCreate encodeIdentifier call parent error) (CreateLeaves mint call parent s)
      (fun r u => CreateLeaves mint call parent s u ∧ (r = .ok none → Gone call.branch s u) ∧
        (∀ outcome, r = .ok (some outcome) → outcome = .created ∧ Created mint call parent u))
      t := by
  have hfail : ∀ (u : Storage) (e : OmniError), CreateLeaves mint call parent s u →
      CreateLeaves mint call parent s u ∧
        ((.error e : Except OmniError (Option BranchCreateOutcome)) = .ok none →
          Gone call.branch s u) ∧
        ∀ outcome, (.error e : Except OmniError (Option BranchCreateOutcome)) = .ok (some outcome) →
          outcome = .created ∧ Created mint call parent u :=
    fun u e hu => ⟨hu, (fun heq => by cases heq), fun _ heq => by cases heq⟩
  refine holds_bind (holds_read fun _ => ?_)
  rcases h.own with habsent | ⟨-, minted, hcreated⟩
  · have hgone : Gone call.branch s t := h.gone (lookup_eq_none.mp habsent)
    simp only [habsent]
    refine holds_bind (holds_attempt ((holds_reclaim hgone).mono
      (fun _ hu => hu.createLeaves) ?_))
    rintro (e | reclaimed) u ⟨hu, hreclaimed⟩
    · exact holds_fail (hfail u _ hu.createLeaves)
    · cases reclaimed with
      | false => exact absurd rfl hreclaimed
      | true => exact holds_pure ⟨hu.createLeaves, fun _ => hu, fun _ heq => by cases heq⟩
  · simp only [hcreated]
    split
    · refine holds_bind (holds_read fun _ => ?_)
      split
      · next hopened =>
        refine holds_pure ⟨h, (fun heq => by cases heq), ?_⟩
        rintro outcome ⟨⟩
        exact ⟨rfl, minted, hcreated⟩
      · next hopened => exact hfail t _ h
    · exact holds_fail (hfail t _ h)

/-- What holds of one attempt holds of all of them, by induction on how many are left. -/
lemma holds_createAttempts (attempts : ℕ) (h : Gone call.branch s t) :
    Holds (createAttempts encodeIdentifier mint call parent attempts)
      (CreateLeaves mint call parent s) (CreateReturns mint call parent s) t := by
  induction attempts generalizing t with
  | zero => exact holds_fail (.fail h.createLeaves)
  | succ attempts ih =>
    refine holds_bind ((holds_nativeCreate h).mono (fun _ hu => hu) ?_)
    rintro r u ⟨hu, result, rfl, hcreated⟩
    cases result with
    | ok _ => exact holds_pure (.created hu (hcreated rfl))
    | error error =>
      refine holds_bind ((holds_classifyCreate error hu).mono (fun _ hv => hv) ?_)
      rintro (e | _ | outcome) v ⟨hv, hagain, houtcome⟩
      · exact .fail hv
      · show Holds (if attempts = 0 then _ else _) _ _ v
        split
        · exact holds_fail (.fail hv)
        · exact ih (hagain rfl)
      · obtain ⟨rfl, hmade⟩ := houtcome outcome rfl
        exact holds_pure (.created hv hmade)

variable {refs : HashMap String BranchContents}

/-- A create is admitted when the source is at the version asked for, its branch is there, and no
other live name shares a path with the new one. -/
lemma admitCreate_eq_some_iff :
    admitCreate checkValidBranch call refs = .ok (some parent) ↔
      checkValidBranch call.branch = .ok () ∧ call.source.version = call.sourceVersion ∧
        call.source.identifier refs = .ok parent ∧ call.branch ∉ refs ∧
        pathCollision refs call.branch = none := by
  simp only [admitCreate, bind_eq_ok_iff]
  constructor
  · rintro ⟨_, hvalid, h⟩
    split at h
    · cases h
    · next hversion =>
      simp only [bind_eq_ok_iff] at h
      obtain ⟨identifier, hidentifier, h⟩ := h
      split at h
      · cases h
      · next habsent =>
        split at h
        · cases h
        · next hcollision =>
          cases h
          exact ⟨hvalid, not_not.mp hversion, hidentifier, habsent, hcollision⟩
  · rintro ⟨hvalid, hversion, hidentifier, habsent, hcollision⟩
    refine ⟨(), hvalid, ?_⟩
    rw [if_neg (not_not.mpr hversion)]
    refine bind_ok hidentifier ?_
    rw [if_neg habsent, hcollision]

/-- A ref that is there already is found once the source is. -/
lemma admitCreate_eq_none_iff :
    admitCreate checkValidBranch call refs = .ok none ↔
      checkValidBranch call.branch = .ok () ∧ call.source.version = call.sourceVersion ∧
        (∃ parent, call.source.identifier refs = .ok parent) ∧ call.branch ∈ refs := by
  simp only [admitCreate, bind_eq_ok_iff]
  constructor
  · rintro ⟨_, hvalid, h⟩
    split at h
    · cases h
    · next hversion =>
      simp only [bind_eq_ok_iff] at h
      obtain ⟨identifier, hidentifier, h⟩ := h
      split at h
      · next hlive => exact ⟨hvalid, not_not.mp hversion, ⟨identifier, hidentifier⟩, hlive⟩
      · split at h
        · cases h
        · cases h
  · rintro ⟨hvalid, hversion, ⟨identifier, hidentifier⟩, hlive⟩
    refine ⟨(), hvalid, ?_⟩
    rw [if_neg (not_not.mpr hversion)]
    refine bind_ok hidentifier ?_
    rw [if_pos hlive]

/-- A create that passes its checks. -/
lemma holds_create (h : admitCreate checkValidBranch call s.refs = .ok (some parent)) :
    Holds (createBranchRecoverably encodeIdentifier mint checkValidBranch call)
      (CreateLeaves mint call parent s) (CreateReturns mint call parent s) s := by
  have hgone : Gone call.branch s s := gone_refl (admitCreate_eq_some_iff.mp h).2.2.2.1
  refine holds_bind (holds_read fun _ => ?_)
  simp only [h]
  refine holds_bind ((holds_reclaim hgone).mono (fun _ hu => hu.createLeaves) ?_)
  rintro (e | reclaimed) u ⟨hu, hreclaimed⟩
  · exact .fail hu.createLeaves
  · cases reclaimed with
    | false => exact absurd rfl hreclaimed
    | true => exact holds_createAttempts 2 hu

lemma clean_reclaim {branch : String} (habsent : branch ∉ s.refs)
    (hchild : pathDescendant s.refs branch = none) :
    Clean (reclaimRefAbsentTree branch) (fun r t => r = .ok true ∧ branch ∉ t.refs ∧
      t.trees branch = .absent) s := by
  refine clean_bind (clean_read ?_)
  simp only [if_neg habsent, hchild]
  refine clean_bind (clean_bind (clean_nativeSteps (clean_pure (clean_pure ⟨rfl, ?_, ?_⟩))))
  · simp [removeTree, Storage.setDirectory, eraseRef, habsent]
  · by_cases htree : s.trees branch = .absent
    · simp [removeTree, Storage.setDirectory, eraseRef, inDirectory, htree]
    · simp [removeTree, Storage.setDirectory, eraseRef, inDirectory, htree]

lemma clean_createAttempts {attempts : ℕ} (habsent : call.branch ∉ s.refs)
    (htree : s.trees call.branch = .absent) :
    Clean (createAttempts encodeIdentifier mint call parent (attempts + 1))
      (fun r _ => r = .ok .created) s := by
  refine clean_bind (clean_bind (clean_read ?_))
  simp only [if_neg habsent, htree, ne_eq, not_true_eq_false, if_false]
  exact clean_nativeSteps (clean_pure rfl)

lemma pathDescendant_of_pathCollision {branch : String} (h : pathCollision refs branch = none) :
    pathDescendant refs branch = none := by
  rw [pathDescendant_eq_none_iff]
  intro name hname
  by_cases hself : name = branch
  · rw [hself, isNested_self]
  · by_cases hmain : name = "main"
    · rw [hmain, isNested_main]
    · exact (pathCollision_eq_none_iff.mp h name hname hself hmain).1

lemma clean_create (h : admitCreate checkValidBranch call s.refs = .ok (some parent)) :
    Clean (createBranchRecoverably encodeIdentifier mint checkValidBranch call)
      (fun r _ => r = .ok .created) s := by
  obtain ⟨-, -, -, habsent, hcollision⟩ := admitCreate_eq_some_iff.mp h
  have hreclaim := clean_reclaim habsent (pathDescendant_of_pathCollision hcollision)
  refine clean_bind (clean_read ?_)
  simp only [h]
  refine clean_bind (hreclaim.mono ?_)
  rintro r t ⟨rfl, hgone, htree⟩
  exact clean_createAttempts hgone htree

lemma clean_create_existing (h : admitCreate checkValidBranch call s.refs = .ok none) :
    Clean (createBranchRecoverably encodeIdentifier mint checkValidBranch call)
      (fun r _ => r = .ok .refAlreadyExists) s := by
  refine clean_bind (clean_read ?_)
  simp only [h]
  exact clean_pure rfl

end Create

/-! ### Deleting -/

section Delete

variable {encodeIdentifier} {call : DeleteCall} {s t : Storage}

/-- The ref is gone, or nothing was done to the branch. -/
abbrev DeleteLeaves (branch : String) (s : Storage) : Storage → Prop :=
  Leaves branch (fun contents tree =>
    contents = none ∨ contents = s.refs.lookup branch ∧ tree = s.trees branch) s

lemma Gone.deleteLeaves {branch : String} (h : Gone branch s t) : DeleteLeaves branch s t :=
  h.mono fun _ _ habsent => .inl habsent

lemma deleteLeaves_refl (branch : String) (s : Storage) : DeleteLeaves branch s s where
  others _ _ := rfl
  trees _ _ _ := rfl
  own := .inr ⟨rfl, rfl⟩

/-- A ref that is there is the expected one, and no live ref is below it. -/
def DeleteAdmitted (call : DeleteCall) (refs : HashMap String BranchContents) : Prop :=
  ∀ contents, refs.lookup call.branch = some contents →
    contents.identifier = call.expected ∧ pathDescendant refs call.branch = none

/-- What a delete returns, and what it leaves then. -/
def DeleteReturns (call : DeleteCall) (s : Storage) (r : Except OmniError Unit) (t : Storage) :
    Prop :=
  DeleteLeaves call.branch s t ∧ (r = .ok () → Gone call.branch s t)

lemma DeleteReturns.fail (h : DeleteLeaves call.branch s t) : DeleteReturns call s (.error e) t :=
  ⟨h, fun heq => by cases heq⟩

lemma DeleteReturns.done (h : Gone call.branch s t) {r : Except OmniError Unit} :
    DeleteReturns call s r t :=
  ⟨h.deleteLeaves, fun _ => h⟩

/-- Once the ref is gone the delete succeeds, whether its tree can be reclaimed or not. -/
lemma holds_reclaimDeleted {branch : String} (h : Gone branch s t) :
    Holds (reclaimDeleted encodeIdentifier branch) (Gone branch s)
      (fun r u => Gone branch s u ∧ r = .ok ()) t := by
  refine holds_bind (holds_attempt ((holds_reclaim h).mono (fun _ hu => hu) ?_))
  rintro (e | reclaimed) u ⟨hu, hreclaimed⟩
  · exact holds_pure ⟨hu, rfl⟩
  · cases reclaimed with
    | false => exact absurd rfl hreclaimed
    | true => exact holds_pure ⟨hu, rfl⟩

lemma holds_classifyDelete (error : NativeError) (h : DeleteLeaves call.branch s t) :
    Holds (classifyDelete encodeIdentifier call error) (DeleteLeaves call.branch s)
      (DeleteReturns call s) t := by
  refine holds_bind (holds_read fun _ => ?_)
  cases hown : t.refs.lookup call.branch with
  | none =>
    have hgone : Gone call.branch s t := h.gone (lookup_eq_none.mp hown)
    exact (holds_reclaimDeleted hgone).mono (fun _ hu => hu.deleteLeaves) fun _ _ hu => .done hu.1
  | some contents =>
    show Holds (if _ then _ else _) _ _ t
    split
    · exact holds_fail (.fail h)
    · exact holds_fail (.fail h)

lemma holds_nativeDelete (hchild : pathDescendant s.refs call.branch = none) :
    Holds (nativeDelete call.branch) (DeleteLeaves call.branch s)
      (fun r t => DeleteLeaves call.branch s t ∧
        ∃ result, r = .ok result ∧ (result = .ok () → Gone call.branch s t)) s := by
  have hrefl := deleteLeaves_refl call.branch s
  have hnested := pathDescendant_eq_none_iff.mp hchild
  refine holds_bind (holds_read fun _ => ?_)
  cases s.refs.lookup call.branch with
  | none => exact holds_pure ⟨hrefl, _, rfl, fun heq => by cases heq⟩
  | some contents =>
    have herase : Gone call.branch s (eraseRef call.branch s) := hrefl.eraseRef
    refine holds_nativeSteps_cons herase.deleteLeaves
      (fun _ => ⟨hrefl, _, rfl, fun heq => by cases heq⟩)
      (fun _ => ⟨herase.deleteLeaves, _, rfl, fun heq => by cases heq⟩) ?_
    refine (holds_removeTree herase hnested).mono (fun _ hu => hu.deleteLeaves) ?_
    rintro r u ⟨hu, result, rfl⟩
    exact ⟨hu.deleteLeaves, result, rfl, fun _ => hu⟩

lemma holds_delete_absent (habsent : call.branch ∉ s.refs) :
    Holds (deleteBranchRecoverably encodeIdentifier call) (Gone call.branch s)
      (fun r t => Gone call.branch s t ∧ r = .ok ()) s := by
  refine holds_bind (holds_read fun _ => ?_)
  simp only [lookup_eq_none.mpr habsent]
  exact holds_reclaimDeleted (gone_refl habsent)

/-- A delete that passes its checks. -/
lemma holds_delete (h : DeleteAdmitted call s.refs) :
    Holds (deleteBranchRecoverably encodeIdentifier call) (DeleteLeaves call.branch s)
      (DeleteReturns call s) s := by
  cases hown : s.refs.lookup call.branch with
  | none =>
    refine (holds_delete_absent (lookup_eq_none.mp hown)).mono ?_ ?_
    · exact fun _ hu => hu.deleteLeaves
    · exact fun _ _ hu => .done hu.1
  | some contents =>
    obtain ⟨hexpected, hchild⟩ := h contents hown
    refine holds_bind (holds_read fun _ => ?_)
    simp only [hown, hexpected, ne_eq, not_true_eq_false, if_false, hchild]
    refine holds_bind ((holds_nativeDelete hchild).mono (fun _ hu => hu) ?_)
    rintro r u ⟨hu, result, rfl, hdone⟩
    cases result with
    | ok _ => exact holds_pure (.done (hdone rfl))
    | error error => exact holds_classifyDelete error hu

lemma clean_delete {contents : BranchContents} (h : DeleteAdmitted call s.refs)
    (hown : s.refs.lookup call.branch = some contents) :
    Clean (deleteBranchRecoverably encodeIdentifier call)
      (fun r t => r = .ok () ∧ call.branch ∉ t.refs) s := by
  obtain ⟨hexpected, hchild⟩ := h contents hown
  refine clean_bind (clean_read ?_)
  simp only [hown, hexpected, ne_eq, not_true_eq_false, if_false, hchild]
  refine clean_bind (clean_bind (clean_read ?_))
  simp only [hown]
  refine clean_nativeSteps (clean_pure ⟨rfl, ?_⟩)
  simp [removeTree, Storage.setDirectory, eraseRef]

end Delete

/-! ### Runs -/

/-- The storages a call may leave: the one it starts from, those it passes through and its last. -/
def leftovers {α : Type} (m : Control α) (s : Storage) (faults : List (Option Fault)) :
    List Storage :=
  s :: ((m ⟨s, faults⟩).trace ++ [(m ⟨s, faults⟩).final]).map World.storage

/-- What the calls of one writer lead to from a repository without branches, where every call may
meet any faults and may stop anywhere. -/
inductive Reachable : Storage → Prop
  | fresh (trees : String → Tree) (minted : ℕ) : Reachable ⟨∅, trees, minted⟩
  | create {s t : Storage} (call : CreateCall) (faults : List (Option Fault)) : Reachable s →
      t ∈ leftovers (createBranchRecoverably encodeIdentifier mint checkValidBranch call) s faults →
      Reachable t
  | delete {s t : Storage} (call : DeleteCall) (faults : List (Option Fault)) : Reachable s →
      t ∈ leftovers (deleteBranchRecoverably encodeIdentifier call) s faults → Reachable t

/-- No live branch name lies under another one, `main` aside. -/
def PathsDisjoint (s : Storage) : Prop :=
  ∀ a ∈ s.refs, ∀ b ∈ s.refs, a ≠ "main" → b ≠ "main" → isNested a b = false

/-- The tree of every live ref is there. -/
def TreesKept (s : Storage) : Prop := ∀ name ∈ s.refs, s.trees name = .cloned

/-- What a create that meets `faults` at `s` promises: a branch it reports as created extends the
identifier of its source by one entry, no ref goes, and unless its checks refuse it, it succeeds
when it is run again from wherever it stopped. -/
structure CreateSurvives (create : Control BranchCreateOutcome) (call : CreateCall) (s : Storage)
    (faults : List (Option Fault)) : Prop where
  created : (create ⟨s, faults⟩).result = .ok .created →
    ∃ parent uuid contents, call.source.identifier s.refs = .ok parent ∧
      (create ⟨s, faults⟩).final.storage.refs.lookup call.branch = some contents ∧
      contents.identifier = parent ++ [(call.sourceVersion, uuid)]
  keeps : ∀ t ∈ leftovers create s faults, ∀ name contents,
    s.refs.lookup name = some contents → t.refs.lookup name = some contents
  rerun : (∃ error, admitCreate checkValidBranch call s.refs = .error error ∧
      create ⟨s, faults⟩ = ⟨[], ⟨s, faults⟩, .error error⟩) ∨
    ∀ t ∈ leftovers create s faults, (create ⟨t, []⟩).result = .ok .created ∨
      (create ⟨t, []⟩).result = .ok .refAlreadyExists ∧ call.branch ∈ t.refs

/-- What a delete that meets `faults` at `s` promises: no ref is left when it succeeds, only the
ref it expects goes, and unless its checks refuse it, it succeeds when it is run again. -/
structure DeleteSurvives (delete : Control Unit) (call : DeleteCall) (s : Storage)
    (faults : List (Option Fault)) : Prop where
  deleted : (delete ⟨s, faults⟩).result = .ok () →
    call.branch ∉ (delete ⟨s, faults⟩).final.storage.refs
  keeps : ∀ t ∈ leftovers delete s faults, ∀ name contents, s.refs.lookup name = some contents →
    name ≠ call.branch ∨ contents.identifier ≠ call.expected → t.refs.lookup name = some contents
  rerun : (¬ DeleteAdmitted call s.refs ∧
      ∃ error, delete ⟨s, faults⟩ = ⟨[], ⟨s, faults⟩, .error error⟩) ∨
    ∀ t ∈ leftovers delete s faults, (delete ⟨t, []⟩).result = .ok () ∧
      call.branch ∉ (delete ⟨t, []⟩).final.storage.refs

section Runs

variable {encodeIdentifier} {mint} {checkValidBranch} {s t : Storage}
  {faults : List (Option Fault)}

variable {α : Type} {m : Control α}

/-- What holds at every stop and at the end holds of every storage a call leaves. -/
lemma Holds.leftovers {C : Storage → Prop} {Q : Except OmniError α → Storage → Prop}
    (h : Holds m C Q s) (hs : C s) (hQ : ∀ r t, Q r t → C t) (ht : t ∈ leftovers m s faults) :
    C t := by
  simp only [BranchControl.leftovers, List.map_append, List.map_cons, List.map_nil,
    List.mem_cons, List.mem_append, List.mem_map, List.not_mem_nil, or_false] at ht
  rcases ht with rfl | ⟨w, hw, rfl⟩ | rfl
  · exact hs
  · exact (h faults).1 w hw
  · exact hQ _ _ (h faults).2

lemma final_mem_leftovers (m : Control α) :
    (m ⟨s, faults⟩).final.storage ∈ leftovers m s faults := by
  simp [BranchControl.leftovers]

lemma leftovers_of_refused {r : Except OmniError α} (h : m ⟨s, faults⟩ = ⟨[], ⟨s, faults⟩, r⟩)
    (ht : t ∈ leftovers m s faults) : t = s := by
  simpa [BranchControl.leftovers, h] using ht

lemma create_eq_of_error {call : CreateCall} {error : OmniError}
    (h : admitCreate checkValidBranch call s.refs = .error error) :
    createBranchRecoverably encodeIdentifier mint checkValidBranch call ⟨s, faults⟩ =
      ⟨[], ⟨s, faults⟩, .error error⟩ := by
  rw [createBranchRecoverably, Durable.read_bind_apply, h]

lemma create_eq_of_none {call : CreateCall}
    (h : admitCreate checkValidBranch call s.refs = .ok none) :
    createBranchRecoverably encodeIdentifier mint checkValidBranch call ⟨s, faults⟩ =
      ⟨[], ⟨s, faults⟩, .ok .refAlreadyExists⟩ := by
  rw [createBranchRecoverably, Durable.read_bind_apply, h]
  rfl

/-- What a create leaves: nothing changes unless its checks admit it. -/
lemma create_leaves {call : CreateCall} (ht : t ∈ leftovers
      (createBranchRecoverably encodeIdentifier mint checkValidBranch call) s faults) :
    t = s ∨ ∃ parent, admitCreate checkValidBranch call s.refs = .ok (some parent) ∧
      CreateLeaves mint call parent s t := by
  cases hadmitted : admitCreate checkValidBranch call s.refs with
  | error error => exact .inl (leftovers_of_refused (create_eq_of_error hadmitted) ht)
  | ok parent =>
    cases parent with
    | none => exact .inl (leftovers_of_refused (create_eq_of_none hadmitted) ht)
    | some parent =>
      have habsent := (admitCreate_eq_some_iff.mp hadmitted).2.2.2.1
      refine .inr ⟨parent, rfl, ?_⟩
      exact (holds_create hadmitted).leftovers (gone_refl habsent).createLeaves
        (fun _ _ h => h.1) ht

lemma delete_eq_of_refused {call : DeleteCall} (h : ¬ DeleteAdmitted call s.refs) :
    ∃ error, deleteBranchRecoverably encodeIdentifier call ⟨s, faults⟩ =
      ⟨[], ⟨s, faults⟩, .error error⟩ := by
  simp only [DeleteAdmitted, not_forall] at h
  obtain ⟨contents, hown, h⟩ := h
  simp only [deleteBranchRecoverably, listBranchContents, Durable.read_bind_apply, hown]
  by_cases hexpected : contents.identifier = call.expected
  · rw [if_neg (not_not.mpr hexpected)]
    cases hchild : pathDescendant s.refs call.branch with
    | none => exact absurd ⟨hexpected, hchild⟩ h
    | some child => exact ⟨_, rfl⟩
  · rw [if_pos hexpected]
    exact ⟨_, rfl⟩

lemma delete_leaves {call : DeleteCall}
    (ht : t ∈ leftovers (deleteBranchRecoverably encodeIdentifier call) s faults) :
    t = s ∨ DeleteAdmitted call s.refs ∧ DeleteLeaves call.branch s t := by
  by_cases hadmitted : DeleteAdmitted call s.refs
  · exact .inr ⟨hadmitted, (holds_delete hadmitted).leftovers (deleteLeaves_refl _ s)
      (fun _ _ h => h.1) ht⟩
  · have hrefused : ∃ error, deleteBranchRecoverably encodeIdentifier call ⟨s, faults⟩ =
        ⟨[], ⟨s, faults⟩, .error error⟩ := delete_eq_of_refused hadmitted
    obtain ⟨error, hrefused⟩ := hrefused
    exact .inl (leftovers_of_refused hrefused ht)

/-! ### Invariants -/

section Invariants

variable {branch : String} {Own : Option BranchContents → Tree → Prop}

lemma Leaves.pathsDisjoint (h : Leaves branch Own s t) (hs : PathsDisjoint s)
    (hbranch : branch ∈ t.refs → branch ≠ "main" → ∀ name ∈ s.refs, name ≠ branch →
      name ≠ "main" → isNested branch name = false ∧ isNested name branch = false) :
    PathsDisjoint t := by
  intro a ha b hb hamain hbmain
  by_cases haself : a = branch
  · by_cases hbself : b = branch
    · rw [haself, hbself, isNested_self]
    · rw [haself] at ha hamain ⊢
      exact (hbranch ha hamain b ((h.mem_iff hbself).mp hb) hbself hbmain).1
  · have haold := (h.mem_iff haself).mp ha
    by_cases hbself : b = branch
    · rw [hbself] at hb hbmain ⊢
      exact (hbranch hb hbmain a haold haself hamain).2
    · exact hs a haold b ((h.mem_iff hbself).mp hb) hamain hbmain

lemma Leaves.treesKept (h : Leaves branch Own s t) (hs : TreesKept s)
    (hbranch : branch ∈ t.refs → t.trees branch = .cloned) : TreesKept t := by
  intro name hname
  by_cases hself : name = branch
  · rw [hself] at hname ⊢
    exact hbranch hname
  · have hold := (h.mem_iff hself).mp hname
    rw [h.trees name hold hself, hs name hold]

end Invariants

/-- The invariant of the run: names are disjoint as paths and the trees of live refs are there. -/
theorem Reachable.sound (h : Reachable encodeIdentifier mint checkValidBranch s) :
    PathsDisjoint s ∧ TreesKept s := by
  induction h with
  | fresh trees minted => exact ⟨fun _ ha => by simp at ha, fun _ ha => by simp at ha⟩
  | create call faults _ ht ih =>
    rcases create_leaves ht with rfl | ⟨parent, hadmitted, hleaves⟩
    · exact ih
    · obtain ⟨-, -, -, -, hcollision⟩ := admitCreate_eq_some_iff.mp hadmitted
      refine ⟨hleaves.pathsDisjoint ih.1 fun _ _ => pathCollision_eq_none_iff.mp hcollision,
        hleaves.treesKept ih.2 fun hlive => ?_⟩
      rcases hleaves.own with habsent | ⟨htree, -⟩
      · exact absurd hlive (lookup_eq_none.mp habsent)
      · exact htree
  | delete call faults _ ht ih =>
    rcases delete_leaves ht with rfl | ⟨-, hleaves⟩
    · exact ih
    · have hlive : ∀ {t : Storage}, call.branch ∈ t.refs → t.refs.lookup call.branch ≠ none :=
        fun hmem habsent => lookup_eq_none.mp habsent hmem
      refine ⟨hleaves.pathsDisjoint ih.1 fun hmem hmain name hname _ hname' => ?_,
        hleaves.treesKept ih.2 fun hmem => ?_⟩
      · rcases hleaves.own with habsent | ⟨hsame, -⟩
        · exact absurd habsent (hlive hmem)
        · have hold := lookup_isSome.mp (hsame ▸ lookup_isSome.mpr hmem)
          exact ⟨ih.1 _ hold _ hname hmain hname', ih.1 _ hname _ hold hname' hmain⟩
      · rcases hleaves.own with habsent | ⟨hsame, htree⟩
        · exact absurd habsent (hlive hmem)
        · have hold := lookup_isSome.mp (hsame ▸ lookup_isSome.mpr hmem)
          rw [htree, ih.2 _ hold]

/-! ### Running again -/

lemma identifier_eq_ok {source : Source} {parent : VersionMapping}
    (h : source.identifier s.refs = .ok parent)
    (hkeeps : ∀ name contents, s.refs.lookup name = some contents →
      t.refs.lookup name = some contents) : source.identifier t.refs = .ok parent := by
  unfold Source.identifier at h ⊢
  cases hbranch : source.branch.filter fun branch => branch ≠ "main" with
  | none =>
    rw [hbranch] at h
    exact h
  | some branch =>
    rw [hbranch] at h
    simp only at h ⊢
    cases hlookup : s.refs.lookup branch with
    | none =>
      rw [hlookup] at h
      cases h
    | some contents =>
      rw [hlookup] at h
      rw [hkeeps branch contents hlookup, h]

lemma CreateLeaves.keeps {call : CreateCall} {parent : VersionMapping}
    (h : CreateLeaves mint call parent s t) (habsent : call.branch ∉ s.refs) (name : String)
    (contents : BranchContents) (hlookup : s.refs.lookup name = some contents) :
    t.refs.lookup name = some contents := by
  by_cases hself : name = call.branch
  · rw [hself, lookup_eq_none.mpr habsent] at hlookup
    cases hlookup
  · rw [h.others name hself, hlookup]

/-- The checks of a create that is run again admit it, or find the ref it wrote. -/
lemma create_rerun {call : CreateCall} {parent : VersionMapping}
    (hadmitted : admitCreate checkValidBranch call s.refs = .ok (some parent))
    (h : CreateLeaves mint call parent s t) :
    (createBranchRecoverably encodeIdentifier mint checkValidBranch call ⟨t, []⟩).result =
        .ok .created ∨
      (createBranchRecoverably encodeIdentifier mint checkValidBranch call ⟨t, []⟩).result =
        .ok .refAlreadyExists ∧ call.branch ∈ t.refs := by
  obtain ⟨hvalid, hversion, hidentifier, habsent, hcollision⟩ :=
    admitCreate_eq_some_iff.mp hadmitted
  have hsource := identifier_eq_ok hidentifier (h.keeps habsent)
  by_cases hlive : call.branch ∈ t.refs
  · have hagain := admitCreate_eq_none_iff.mpr ⟨hvalid, hversion, ⟨parent, hsource⟩, hlive⟩
    exact .inr ⟨(clean_create_existing hagain).2.2, hlive⟩
  · have hpaths : pathCollision t.refs call.branch = none := by
      rw [pathCollision_eq_none_iff] at hcollision ⊢
      intro name hname hself
      exact hcollision name ((h.mem_iff hself).mp hname) hself
    have hagain := admitCreate_eq_some_iff.mpr ⟨hvalid, hversion, hsource, hlive, hpaths⟩
    exact .inl (clean_create hagain).2.2

/-- A create survives a fault at any of its steps. -/
lemma create_survives (call : CreateCall) (s : Storage) (faults : List (Option Fault)) :
    CreateSurvives checkValidBranch
      (createBranchRecoverably encodeIdentifier mint checkValidBranch call) call s faults where
  created hcreated := by
    cases hadmitted : admitCreate checkValidBranch call s.refs with
    | error error =>
      rw [create_eq_of_error hadmitted] at hcreated
      cases hcreated
    | ok admitted =>
      cases admitted with
      | none =>
        rw [create_eq_of_none hadmitted] at hcreated
        cases hcreated
      | some parent =>
        obtain ⟨minted, hlookup⟩ := (holds_create hadmitted faults).2.2.1 hcreated
        exact ⟨parent, mint minted, _, (admitCreate_eq_some_iff.mp hadmitted).2.2.1, hlookup, rfl⟩
  keeps t ht := by
    rcases create_leaves ht with rfl | ⟨parent, hadmitted, hleaves⟩
    · exact fun _ _ hlookup => hlookup
    · exact hleaves.keeps (admitCreate_eq_some_iff.mp hadmitted).2.2.2.1
  rerun := by
    cases hadmitted : admitCreate checkValidBranch call s.refs with
    | error error => exact .inl ⟨error, rfl, create_eq_of_error hadmitted⟩
    | ok admitted =>
      refine .inr fun t ht => ?_
      rcases create_leaves ht with rfl | ⟨parent, hparent, hleaves⟩
      · cases admitted with
        | none =>
          exact .inr
            ⟨(clean_create_existing hadmitted).2.2, (admitCreate_eq_none_iff.mp hadmitted).2.2.2⟩
        | some parent => exact .inl (clean_create hadmitted).2.2
      · exact create_rerun hparent hleaves

lemma DeleteLeaves.admitted {call : DeleteCall} (h : DeleteLeaves call.branch s t)
    (hadmitted : DeleteAdmitted call s.refs) : DeleteAdmitted call t.refs := by
  intro contents hlookup
  have hold : s.refs.lookup call.branch = some contents := by
    rcases h.own with habsent | ⟨hsame, -⟩
    · rw [habsent] at hlookup
      cases hlookup
    · rw [← hsame, hlookup]
  obtain ⟨hexpected, hchild⟩ := hadmitted contents hold
  refine ⟨hexpected, pathDescendant_eq_none_iff.mpr fun name hname => ?_⟩
  by_cases hself : name = call.branch
  · rw [hself, isNested_self]
  · exact pathDescendant_eq_none_iff.mp hchild name ((h.mem_iff hself).mp hname)

lemma delete_rerun {call : DeleteCall} (hadmitted : DeleteAdmitted call t.refs) :
    (deleteBranchRecoverably encodeIdentifier call ⟨t, []⟩).result = .ok () ∧
      call.branch ∉ (deleteBranchRecoverably encodeIdentifier call ⟨t, []⟩).final.storage.refs := by
  cases hlookup : t.refs.lookup call.branch with
  | none =>
    have hrun : Holds (deleteBranchRecoverably encodeIdentifier call) _ _ t :=
      holds_delete_absent (lookup_eq_none.mp hlookup)
    exact ⟨(hrun []).2.2, (hrun []).2.1.notMem⟩
  | some contents => exact (clean_delete hadmitted hlookup).2.2

lemma delete_survives (call : DeleteCall) (s : Storage) (faults : List (Option Fault)) :
    DeleteSurvives (deleteBranchRecoverably encodeIdentifier call) call s faults where
  deleted hdone := by
    by_cases hadmitted : DeleteAdmitted call s.refs
    · exact ((holds_delete hadmitted faults).2.2 hdone).notMem
    · obtain ⟨error, hrefused⟩ := delete_eq_of_refused hadmitted
      rw [hrefused] at hdone
      cases hdone
  keeps t ht name contents hlookup hother := by
    rcases delete_leaves ht with rfl | ⟨hadmitted, hleaves⟩
    · exact hlookup
    · by_cases hself : name = call.branch
      · rcases hother with hne | hidentifier
        · exact absurd hself hne
        · exact absurd (hadmitted contents (hself ▸ hlookup)).1 hidentifier
      · rw [hleaves.others name hself, hlookup]
  rerun := by
    by_cases hadmitted : DeleteAdmitted call s.refs
    · refine .inr fun t ht => delete_rerun ?_
      rcases delete_leaves ht with rfl | ⟨-, hleaves⟩
      · exact hadmitted
      · exact DeleteLeaves.admitted hleaves hadmitted
    · exact .inl ⟨hadmitted, delete_eq_of_refused hadmitted⟩

/-- In every storage the calls of one writer lead to, live names are disjoint as paths and live
trees are there; and every call from there keeps its promises. -/
theorem branchControl_survives (h : Reachable encodeIdentifier mint checkValidBranch s) :
    PathsDisjoint s ∧ TreesKept s ∧
      (∀ call faults, CreateSurvives checkValidBranch
        (createBranchRecoverably encodeIdentifier mint checkValidBranch call) call s faults) ∧
      ∀ call faults, DeleteSurvives (deleteBranchRecoverably encodeIdentifier call) call s faults :=
  ⟨h.sound.1, h.sound.2, fun call faults => create_survives call s faults,
    fun call faults => delete_survives call s faults⟩

def createOf (branch : String) : Control BranchCreateOutcome :=
  createBranchRecoverably (fun _ => "") toString (fun _ => .ok ()) ⟨⟨none, 1⟩, branch, 1⟩

/-- A storage with the branch `release`. -/
def released : Storage := (createOf "release" ⟨⟨∅, fun _ => .absent, 0⟩, []⟩).final.storage

/-- The ref write reports an error before it takes effect, in both attempts. -/
def timeouts : List (Option Fault) :=
  [none, none, none, none, none, some ⟨false, ⟨false, "timed out"⟩⟩, none, none, none, none, none,
    some ⟨false, ⟨false, "timed out"⟩⟩, some ⟨false, ⟨false, "timed out"⟩⟩]

def interruptedCreate : Outcome World OmniError BranchCreateOutcome :=
  createOf "dev" ⟨released, timeouts⟩

/-- What it leaves is a clone without a ref. The other branch stays, and a rerun creates `dev`. -/
theorem branchControl_survives_interruptedCreate :
    interruptedCreate.final.storage.trees "dev" = .cloned ∧
      "dev" ∉ interruptedCreate.final.storage.refs ∧
      "release" ∈ interruptedCreate.final.storage.refs ∧
      (createOf "dev" ⟨interruptedCreate.final.storage, []⟩).result = .ok .created := by
  have hreleased : Reachable (fun _ => "") toString (fun _ => .ok ()) released :=
    .create ⟨⟨none, 1⟩, "release", 1⟩ [] (.fresh (fun _ => .absent) 0) (final_mem_leftovers _)
  have h := (branchControl_survives hreleased).2.2.1 ⟨⟨none, 1⟩, "dev", 1⟩ timeouts
  have habsent : "dev" ∉ interruptedCreate.final.storage.refs := by decide +kernel
  obtain ⟨contents, hcontents⟩ := lookup_isSome.mpr
    (by decide +kernel : "release" ∈ released.refs) |> Option.isSome_iff_exists.mp
  have hkept := h.keeps _ (final_mem_leftovers _) "release" contents hcontents
  refine ⟨by decide +kernel, habsent, HashMap.mem_of_lookup hkept, ?_⟩
  rcases h.rerun with ⟨e, hrefused, -⟩ | hrerun
  · cases hrefused
  · exact (hrerun _ (final_mem_leftovers _)).resolve_right fun hsome => habsent hsome.2

end Runs

end Omnigraph.BranchControl
