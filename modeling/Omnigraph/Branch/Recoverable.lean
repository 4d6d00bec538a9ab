import Omnigraph.Branch.Control

/-!
# Branch control survives faults and stops

Whatever the native steps report and wherever the process stops, the names of the live refs stay
disjoint as paths, the trees of live refs stay, and a ref is removed only by a delete that expects
its identifier. A call that was interrupted succeeds when it is run again without faults.
-/

namespace Omnigraph.BranchControl

open Durable

/-! ### Triples over all faults -/

/-- From a storage, and whatever the native steps report, the program leaves storages with `C`
wherever it stops, and its result and last storage satisfy `Q`. -/
def Holds {α : Type} (m : Control α) (C : Storage → Prop) (Q : Except OmniError α → Storage → Prop)
    (s : Storage) : Prop :=
  ∀ faults, m.wp (fun w => C w.storage) (fun r w => Q r w.storage) ⟨s, faults⟩

/-- Without faults, the program gives a result and a storage with `Q`. -/
def Clean {α : Type} (m : Control α) (Q : Except OmniError α → Storage → Prop) (s : Storage) :
    Prop :=
  m.wp (fun _ => True) (fun r w => w.faults = [] ∧ Q r w.storage) ⟨s, []⟩

section Rules

variable {α β : Type} {m : Control α} {f : α → Control β} {C C' : Storage → Prop}
  {Q Q' : Except OmniError α → Storage → Prop} {s : Storage}

lemma Holds.mono (h : Holds m C Q s) (hC : ∀ t, C t → C' t) (hQ : ∀ r t, Q r t → Q' r t) :
    Holds m C' Q' s :=
  fun faults => wp_mono (h faults) (fun _ => hC _) fun r _ => hQ r _

variable {a : α} {g : World → Except OmniError α}

lemma holds_pure (h : Q (.ok a) s) : Holds (pure a) C Q s := fun _ => wp_pure.mpr h

lemma holds_fail {e : OmniError} (h : Q (.error e) s) : Holds (Durable.fail e) C Q s :=
  fun _ => wp_fail.mpr h

lemma holds_read (h : ∀ faults, Q (g ⟨s, faults⟩) s) :
    Holds (Durable.read g) C Q s := fun faults => wp_read.mpr (h faults)

lemma holds_bind {Q : Except OmniError β → Storage → Prop}
    (h : Holds m C (fun r t => match r with
      | .ok a => Holds (f a) C Q t
      | .error e => Q (.error e) t) s) : Holds (m >>= f) C Q s := by
  intro faults
  rw [wp_bind]
  refine wp_mono (h faults) (fun _ hw => hw) ?_
  rintro (e | a) w hw
  · exact hw
  · exact hw w.faults

lemma holds_attempt {Q : Except OmniError (Except OmniError α) → Storage → Prop}
    (h : Holds m C (fun r t => Q (.ok r) t) s) : Holds (attempt m) C Q s := h

/-- A native step takes effect or not, and reports an error or not. -/
lemma holds_nativeStep {f : Storage → Storage}
    {Q : Except OmniError (Except NativeError Unit) → Storage → Prop} (hC : C (f s))
    (hok : Q (.ok (.ok ())) (f s)) (hbefore : ∀ error, Q (.ok (.error error)) s)
    (hafter : ∀ error, Q (.ok (.error error)) (f s)) : Holds (nativeStep f) C Q s := by
  intro faults
  rcases faults with _ | ⟨_ | ⟨_ | _, error⟩, faults⟩
  · exact ⟨by simpa [nativeStep] using hC, hok⟩
  · exact ⟨by simpa [nativeStep] using hC, hok⟩
  · exact ⟨by simp [nativeStep], hbefore error⟩
  · exact ⟨by simpa [nativeStep] using hC, hafter error⟩

lemma holds_nativeSteps_nil {Q : Except OmniError (Except NativeError Unit) → Storage → Prop}
    (h : Q (.ok (.ok ())) s) : Holds (nativeSteps []) C Q s := holds_pure h

lemma holds_nativeSteps_cons {g : Storage → Storage} {gs : List (Storage → Storage)}
    {Q : Except OmniError (Except NativeError Unit) → Storage → Prop} (hC : C (g s))
    (hbefore : ∀ error, Q (.ok (.error error)) s)
    (hafter : ∀ error, Q (.ok (.error error)) (g s))
    (hrest : Holds (nativeSteps gs) C Q (g s)) : Holds (nativeSteps (g :: gs)) C Q s :=
  holds_bind (holds_nativeStep hC hrest (fun error => holds_pure (hbefore error))
    fun error => holds_pure (hafter error))

/-! ### Rules without faults -/

lemma Clean.mono (h : Clean m Q s) (hQ : ∀ r t, Q r t → Q' r t) : Clean m Q' s :=
  wp_mono h (fun _ hw => hw) fun r _ hw => ⟨hw.1, hQ r _ hw.2⟩

lemma clean_pure (h : Q (.ok a) s) : Clean (pure a) Q s := wp_pure.mpr ⟨rfl, h⟩

lemma clean_read (h : Q (g ⟨s, []⟩) s) :
    Clean (Durable.read g) Q s := wp_read.mpr ⟨rfl, h⟩

lemma clean_bind {Q : Except OmniError β → Storage → Prop}
    (h : Clean m (fun r t => match r with
      | .ok a => Clean (f a) Q t
      | .error e => Q (.error e) t) s) : Clean (m >>= f) Q s := by
  unfold Clean
  rw [wp_bind]
  refine wp_mono h (fun _ hw => hw) ?_
  rintro (e | a) ⟨t, faults⟩ ⟨hfaults, hw⟩
  · exact ⟨hfaults, hw⟩
  · cases hfaults
    exact hw

lemma clean_nativeSteps {fs : List (Storage → Storage)}
    {Q : Except OmniError (Except NativeError Unit) → Storage → Prop}
    (h : Q (.ok (.ok ())) (fs.foldl (fun t f => f t) s)) : Clean (nativeSteps fs) Q s := by
  induction fs generalizing s with
  | nil => exact clean_pure h
  | cons g gs ih => exact clean_bind ⟨by simp [nativeStep], rfl, ih h⟩

end Rules

/-! ### Paths -/

section Paths

variable {refs : HashMap String BranchContents} {branch : String}

lemma pathDescendant_eq_none_iff :
    pathDescendant refs branch = none ↔ ∀ name ∈ refs, isNested branch name = false := by
  simp [pathDescendant, List.min?_eq_none_iff, AList.mem_keys]

lemma pathCollision_eq_none_iff :
    pathCollision refs branch = none ↔ ∀ name ∈ refs, name ≠ branch → name ≠ "main" →
      isNested branch name = false ∧ isNested name branch = false := by
  simp [pathCollision, List.min?_eq_none_iff, AList.mem_keys]

lemma isNested_self (branch : String) : isNested branch branch = false := by
  rw [← Bool.not_eq_true, isNested, List.isPrefixOf_iff_prefix]
  intro h
  have hlength := h.length_le
  simp at hlength

lemma isNested_main (branch : String) : isNested branch "main" = false := by
  rw [← Bool.not_eq_true, isNested, List.isPrefixOf_iff_prefix]
  intro h
  have hslash : '/' ∈ "main".toList := h.subset (by simp)
  exact absurd hslash (by decide)

end Paths

/-! ### What a call leaves -/

section Leaves

variable {s t : Storage} {branch : String} {Own Own' : Option BranchContents → Tree → Prop}

/-- The refs of other branches and the trees of those that are live are the same; the ref and the
tree of the branch itself satisfy `Own`. -/
structure Leaves (branch : String) (Own : Option BranchContents → Tree → Prop) (s t : Storage) :
    Prop where
  others : ∀ name ≠ branch, t.refs.lookup name = s.refs.lookup name
  trees : ∀ name ∈ s.refs, name ≠ branch → t.trees name = s.trees name
  own : Own (t.refs.lookup branch) (t.trees branch)

/-- The ref of the branch is absent. -/
abbrev Gone (branch : String) : Storage → Storage → Prop :=
  Leaves branch fun contents _ => contents = none

variable (h : Leaves branch Own s t)

include h in
lemma Leaves.mono (hOwn : ∀ contents tree, Own contents tree → Own' contents tree) :
    Leaves branch Own' s t where
  others := h.others
  trees := h.trees
  own := hOwn _ _ h.own

include h in
lemma Leaves.mem_iff {name : String} (hname : name ≠ branch) : name ∈ t.refs ↔ name ∈ s.refs := by
  rw [← AList.lookup_isSome, ← AList.lookup_isSome, h.others name hname]

include h in
lemma Leaves.gone (habsent : branch ∉ t.refs) : Gone branch s t where
  others := h.others
  trees := h.trees
  own := AList.lookup_eq_none.mpr habsent

lemma Gone.notMem (h : Gone branch s t) : branch ∉ t.refs := AList.lookup_eq_none.mp h.own

lemma gone_refl (habsent : branch ∉ s.refs) : Gone branch s s where
  others _ _ := rfl
  trees _ _ _ := rfl
  own := AList.lookup_eq_none.mpr habsent

include h in
lemma Leaves.eraseRef : Gone branch s (eraseRef branch t) where
  others name hname := by rw [BranchControl.eraseRef, AList.lookup_erase_ne hname, h.others _ hname]
  trees := h.trees
  own := AList.lookup_erase branch t.refs

lemma Gone.setDirectory (h : Gone branch s t)
    (hnested : ∀ name ∈ s.refs, isNested branch name = false) (tree : Tree) :
    Gone branch s (t.setDirectory branch tree) where
  others := h.others
  trees name hname hne := by
    have hout : inDirectory branch name = false := by simp [inDirectory, hne, hnested name hname]
    simp [Storage.setDirectory, hout, h.trees name hname hne]
  own := h.own

lemma Gone.setTree (h : Gone branch s t) (tree : Tree) : Gone branch s (t.setTree branch tree) where
  others := h.others
  trees name hname hne := by simp [Storage.setTree, hne, h.trees name hname hne]
  own := h.own

/-- Removing a directory without a live ref below it. -/
lemma holds_removeTree (h : Gone branch s t)
    (hnested : ∀ name ∈ s.refs, isNested branch name = false) :
    Holds (nativeSteps (removeTree branch)) (Gone branch s)
      (fun r u => Gone branch s u ∧ ∃ result, r = .ok result) t := by
  have hfirst := h.setDirectory hnested .incomplete
  have hlast := hfirst.setDirectory hnested .absent
  refine holds_nativeSteps_cons hfirst (fun _ => ⟨h, _, rfl⟩) (fun _ => ⟨hfirst, _, rfl⟩) ?_
  refine holds_nativeSteps_cons hlast (fun _ => ⟨hfirst, _, rfl⟩) (fun _ => ⟨hlast, _, rfl⟩) ?_
  exact holds_nativeSteps_nil ⟨hlast, _, rfl⟩

lemma Gone.nested (h : Gone branch s t) (hchild : pathDescendant t.refs branch = none) :
    ∀ name ∈ s.refs, isNested branch name = false := by
  intro name hname
  by_cases hne : name = branch
  · rw [hne, isNested_self]
  · exact pathDescendant_eq_none_iff.mp hchild name ((h.mem_iff hne).mpr hname)

/-- Reclaiming touches neither refs nor the trees of live refs. -/
lemma holds_reclaim (h : Gone branch s t) :
    Holds (reclaimRefAbsentTree branch) (Gone branch s)
      (fun r u => Gone branch s u ∧ r ≠ .ok false) t := by
  refine holds_bind (holds_read fun _ => ?_)
  simp only [if_neg h.notMem]
  cases hchild : pathDescendant t.refs branch with
  | some child => exact holds_fail ⟨h, by simp⟩
  | none =>
    have herase := h.eraseRef
    have hsteps : Holds (nativeForceDelete branch) (Gone branch s)
        (fun r u => Gone branch s u ∧ ∃ result, r = .ok result) t :=
      holds_nativeSteps_cons herase (fun _ => ⟨h, _, rfl⟩) (fun _ => ⟨herase, _, rfl⟩)
        (holds_removeTree herase (h.nested hchild))
    refine holds_bind (holds_bind (hsteps.mono (fun _ hu => hu) ?_))
    rintro r u ⟨hu, result, rfl⟩
    cases result with
    | ok _ => exact holds_pure (holds_pure ⟨hu, by simp⟩)
    | error error =>
      show Holds (if error.missing then _ else _) _ _ u
      split
      · exact holds_pure (holds_pure ⟨hu, by simp⟩)
      · exact holds_fail ⟨hu, by simp⟩

end Leaves

end Omnigraph.BranchControl
