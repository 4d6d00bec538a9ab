import Omnigraph.Merge.PureInsert

/-!
# Table histories

The versions of a table on its branches. A commit adds a version to a branch, and what it does to
the fragments is up to its operation. A fork starts a branch with the versions up to one of its
parent. A certificate is attached to a staged transaction after the ids of its batch were found
absent from the version it read; the commit may be rebased, but not onto a version that has gained
one of these ids.
-/

namespace Omnigraph.PureInsert

open List

variable {R : Type}

/-! ### Versions -/

structure Version (R : Type) where
  fragments : List (Fragment R)
  transaction : Transaction R

def Version.rows (version : Version R) : List R := version.fragments.flatMap Fragment.rows

/-- The versions of a branch, those of its ancestors included: version `v` is the `v`-th one. -/
abbrev Lineage (R : Type) := List (Version R)

/-- The rows of a version. -/
def Lineage.rowsAt (lineage : Lineage R) (version : ℕ) : List R :=
  ((lineage[version - 1]?).map Version.rows).getD []

def Lineage.rows (lineage : Lineage R) : List R := Lineage.rowsAt lineage lineage.length

/-- A commit numbers its new fragments. -/
def renumber (start : ℕ) (fragments : List (Fragment R)) : List (Fragment R) :=
  fragments.zipIdx.map fun p => { p.1 with id := start + p.2 }

def nextFragmentId (fragments : List (Fragment R)) : ℕ :=
  (fragments.map fun fragment => fragment.id + 1).foldl max 0

/-- The fragments without some, and with others replaced. -/
def replaceFragments (removed : List ℕ) (updated fragments : List (Fragment R)) :
    List (Fragment R) :=
  (fragments.filter fun fragment => fragment.id ∉ removed).map fun fragment =>
    (updated.find? fun other => other.id = fragment.id).getD fragment

/-- The fragments of the version a commit adds. -/
def applyOperation (lineage : Lineage R) (operation : Operation R) : List (Fragment R) :=
  let fragments := ((lineage.getLast?).map Version.fragments).getD []
  let added := renumber (nextFragmentId fragments)
  match operation with
  | .append new => fragments ++ added new
  | .delete updated deleted => replaceFragments deleted updated fragments
  | .overwrite new => added new
  | .createIndex => fragments
  | .rewrite groups =>
    replaceFragments (groups.flatMap Prod.fst) [] fragments ++ added (groups.flatMap Prod.snd)
  | .restore version => ((lineage[version - 1]?).map Version.fragments).getD []
  | .update operation =>
    replaceFragments operation.removedFragmentIds operation.updatedFragments fragments ++
      added operation.newFragments

/-! ### Commits -/

/-- How a certificate comes about: a batch with distinct ids, all of them absent from the version
that was read, is staged as the new fragments of a transaction, and the transaction is certified. -/
structure Staged (rowId : R → String) (lineage : Lineage R) (staged certified : Transaction R)
    (batch : List R) : Prop where
  written : ∀ operation, staged.operation = .update operation →
    operation.newFragments.flatMap Fragment.rows = batch
  nodup : (batch.map rowId).Nodup
  absent : ∀ row ∈ batch, rowId row ∉ (lineage.rowsAt staged.readVersion).map rowId
  certify : ∃ idFieldId preorder context, certifyInsertAbsence staged staged.readVersion idFieldId
    preorder (batch.map rowId) context = .ok certified

/-- A transaction that may be committed. A certified one may be rebased onto the last version,
unless that has gained one of the keys of its filter since the version that was read. -/
def Commits (rowId : R → String) (lineage : Lineage R) (transaction : Transaction R) : Prop :=
  hasInsertAbsenceCertificate transaction = true →
    ∃ staged certified batch readVersion, Staged rowId lineage staged certified batch ∧
      transaction = { certified with readVersion := readVersion } ∧
      ∀ operation filter, transaction.operation = .update operation →
        operation.insertedRowsFilter = some filter → ∀ key ∈ filter.keys,
          key ∉ (lineage.rowsAt staged.readVersion).map rowId → key ∉ lineage.rows.map rowId

/-! ### Branches -/

abbrev Branches (R : Type) := HashMap BranchIdentifier (Lineage R)

/-- The first version of a branch of its own. -/
def firstVersion (identifier : BranchIdentifier) : ℕ := (identifier.getLast?.map Prod.fst).getD 1

/-- What commits and forks lead to. A table starts on `main` with one version. -/
inductive Reachable (rowId : R → String) : Branches R → Prop
  | create (version : Version R) : Reachable rowId ((∅ : Branches R).insert [] [version])
  | commit {branches : Branches R} {identifier : BranchIdentifier} {lineage : Lineage R}
      (transaction : Transaction R) : Reachable rowId branches →
      branches.lookup identifier = some lineage → Commits rowId lineage transaction →
      Reachable rowId (branches.insert identifier
        (lineage ++ [⟨applyOperation lineage transaction.operation, transaction⟩]))
  | fork {branches : Branches R} {identifier : BranchIdentifier} {lineage : Lineage R}
      (version : ℕ) (uuid : String) : Reachable rowId branches →
      branches.lookup identifier = some lineage → firstVersion identifier ≤ version →
      version ≤ lineage.length → identifier ++ [(version, uuid)] ∉ branches →
      Reachable rowId (branches.insert (identifier ++ [(version, uuid)]) (lineage.take version))

/-! ### Invariants -/

/-- Every version but the first was committed over the ones before it. -/
def Lineage.Committed (rowId : R → String) (lineage : Lineage R) : Prop :=
  ∀ i version, 0 < i → lineage[i]? = some version →
    version.fragments = applyOperation (lineage.take i) version.transaction.operation ∧
      Commits rowId (lineage.take i) version.transaction

lemma Lineage.Committed.take {rowId : R → String} {lineage : Lineage R}
    (h : lineage.Committed rowId) (n : ℕ) : Lineage.Committed rowId (lineage.take n) := by
  intro i version hi hversion
  have hlt : i < n := by
    by_contra hge
    rw [List.getElem?_take_eq_none (not_lt.mp hge)] at hversion
    cases hversion
  rw [List.getElem?_take_of_lt hlt] at hversion
  rw [take_take, min_eq_left hlt.le]
  exact h i version hi hversion

variable {transaction : Transaction R}

lemma Lineage.Committed.concat {rowId : R → String} {lineage : Lineage R}
    (h : lineage.Committed rowId) (hcommits : Commits rowId lineage transaction) :
    Lineage.Committed rowId
      (lineage ++ [⟨applyOperation lineage transaction.operation, transaction⟩]) := by
  intro i version hi hversion
  rcases Nat.lt_trichotomy i lineage.length with hlt | rfl | hgt
  · rw [List.getElem?_append_left hlt] at hversion
    rw [take_append_of_le_length hlt.le]
    exact h i version hi hversion
  · rw [List.getElem?_concat_length] at hversion
    cases hversion
    rw [take_left]
    exact ⟨rfl, hcommits⟩
  · rw [List.getElem?_eq_none (by simp; omega)] at hversion
    cases hversion

/-- A branch shares the versions of its ancestors up to where it leaves them. -/
structure Branches.Sound (rowId : R → String) (branches : Branches R) : Prop where
  committed : ∀ identifier lineage, branches.lookup identifier = some lineage →
    lineage.Committed rowId ∧ firstVersion identifier ≤ lineage.length
  closed : ∀ identifier entry, identifier ++ [entry] ∈ branches → identifier ∈ branches
  shared : ∀ ancestor version uuid rest lineage older,
    branches.lookup (ancestor ++ (version, uuid) :: rest) = some lineage →
    branches.lookup ancestor = some older →
      version ≤ older.length ∧ version ≤ firstVersion (ancestor ++ (version, uuid) :: rest) ∧
        lineage.take version = older.take version

section Sound

variable {rowId : R → String} {branches : Branches R} {identifier : BranchIdentifier}
  {lineage : Lineage R}

lemma Branches.Sound.ancestor_mem (h : branches.Sound rowId) {ancestor rest : BranchIdentifier}
    (hmem : ancestor ++ rest ∈ branches) : ancestor ∈ branches := by
  induction rest using List.reverseRecOn with
  | nil => rwa [append_nil] at hmem
  | append_singleton rest entry ih =>
    rw [← append_assoc] at hmem
    exact ih (h.closed _ entry hmem)

lemma sound_create (rowId : R → String) (version : Version R) :
    Branches.Sound rowId ((∅ : Branches R).insert [] [version]) where
  committed identifier lineage hlookup := by
    rw [HashMap.lookup_insert_ite] at hlookup
    split at hlookup
    · next heq =>
      cases hlookup
      subst heq
      refine ⟨fun i other hi hother => ?_, le_rfl⟩
      rw [List.getElem?_eq_none (by simp; omega)] at hother
      cases hother
    · simp at hlookup
  closed identifier entry hmem := by
    rcases AList.mem_insert _ |>.mp hmem with heq | hempty
    · simp at heq
    · simp at hempty
  shared ancestor v uuid rest lineage older hlookup _ := by
    rw [HashMap.lookup_insert_ite, if_neg (by simp)] at hlookup
    simp at hlookup

/-- A commit extends the history of its branch only. -/
lemma Branches.Sound.commit (h : branches.Sound rowId)
    (hlookup : branches.lookup identifier = some lineage)
    (hcommits : Commits rowId lineage transaction) :
    Branches.Sound rowId (branches.insert identifier
      (lineage ++ [⟨applyOperation lineage transaction.operation, transaction⟩])) where
  committed other lineage' hother := by
    rw [HashMap.lookup_insert_ite] at hother
    split at hother
    · next heq =>
      cases hother
      subst heq
      obtain ⟨hcommitted, hfirst⟩ := h.committed _ lineage hlookup
      refine ⟨hcommitted.concat hcommits, ?_⟩
      rw [length_append]
      omega
    · exact h.committed other lineage' hother
  closed other entry hmem := by
    rw [AList.mem_insert] at hmem ⊢
    rcases hmem with heq | hmem
    · exact .inr (h.closed other entry (heq ▸ HashMap.mem_of_lookup hlookup))
    · exact .inr (h.closed other entry hmem)
  shared ancestor version uuid rest lineage' older hbranch holder := by
    rw [HashMap.lookup_insert_ite] at hbranch holder
    split at hbranch
    · next heq =>
      have hne : ancestor ≠ identifier := by
        intro hsame
        have hlength := congrArg List.length (hsame.trans heq.symm)
        simp at hlength
      rw [if_neg hne] at holder
      cases hbranch
      rw [← heq] at hlookup
      obtain ⟨hle, hfirst, hshared⟩ := h.shared _ _ _ _ _ _ hlookup holder
      have hlength := (h.committed _ _ hlookup).2
      refine ⟨hle, hfirst, ?_⟩
      rw [take_append_of_le_length (hfirst.trans hlength), hshared]
    · split at holder
      · next heq =>
        cases holder
        subst heq
        obtain ⟨hle, hfirst, hshared⟩ := h.shared _ _ _ _ _ _ hbranch hlookup
        refine ⟨?_, hfirst, ?_⟩
        · rw [length_append]
          omega
        · rw [take_append_of_le_length hle, hshared]
      · exact h.shared _ _ _ _ _ _ hbranch holder

lemma firstVersion_concat (identifier : BranchIdentifier) (version : ℕ) (uuid : String) :
    firstVersion (identifier ++ [(version, uuid)]) = version := by
  simp [firstVersion]

/-- A new branch starts with the history of the version it forks from. -/
lemma Branches.Sound.fork (h : branches.Sound rowId) {version : ℕ} {uuid : String}
    (hlookup : branches.lookup identifier = some lineage)
    (hfirst : firstVersion identifier ≤ version) (hversion : version ≤ lineage.length)
    (hnew : identifier ++ [(version, uuid)] ∉ branches) :
    Branches.Sound rowId
      (branches.insert (identifier ++ [(version, uuid)]) (lineage.take version)) where
  committed other lineage' hother := by
    rw [HashMap.lookup_insert_ite] at hother
    split at hother
    · next heq =>
      cases hother
      subst heq
      refine ⟨(h.committed _ lineage hlookup).1.take version, ?_⟩
      rw [firstVersion_concat, length_take]
      exact le_min le_rfl hversion
    · exact h.committed other lineage' hother
  closed other entry hmem := by
    rw [AList.mem_insert] at hmem ⊢
    rcases hmem with heq | hmem
    · obtain ⟨rfl, -⟩ := append_inj' heq rfl
      exact .inr (HashMap.mem_of_lookup hlookup)
    · exact .inr (h.closed other entry hmem)
  shared ancestor v u rest lineage' older hbranch holder := by
    rw [HashMap.lookup_insert_ite] at hbranch holder
    -- a branch below the new one would need the new one
    have hne : ancestor ≠ identifier ++ [(version, uuid)] ∨
        ancestor ++ (v, u) :: rest = identifier ++ [(version, uuid)] := by
      by_contra hnot
      push Not at hnot
      rw [if_neg hnot.2] at hbranch
      rw [hnot.1] at hbranch
      exact hnew (h.ancestor_mem (HashMap.mem_of_lookup hbranch))
    split at hbranch
    · next heq =>
      cases hbranch
      have hself : ancestor ≠ identifier ++ [(version, uuid)] := by
        intro hsame
        have hlength := congrArg List.length (hsame.trans heq.symm)
        simp at hlength
      rw [if_neg hself] at holder
      rw [heq, firstVersion_concat]
      cases rest using List.reverseRecOn with
      | nil =>
        obtain ⟨rfl, hentry⟩ := append_inj' heq rfl
        cases hentry
        rw [hlookup] at holder
        cases holder
        exact ⟨hversion, le_rfl, by rw [take_take, min_self]⟩
      | append_singleton rest entry =>
        have hprefix : ancestor ++ (v, u) :: rest = identifier := by
          rw [← cons_append, ← append_assoc] at heq
          exact (append_inj' heq rfl).1
        rw [← hprefix] at hlookup hfirst
        obtain ⟨hle, hv, hshared⟩ := h.shared _ _ _ _ _ _ hlookup holder
        refine ⟨hle, hv.trans hfirst, ?_⟩
        rw [take_take, min_eq_left (hv.trans hfirst), hshared]
    · next hother =>
      rcases hne with hne | heq
      · rw [if_neg hne] at holder
        exact h.shared _ _ _ _ _ _ hbranch holder
      · exact absurd heq hother

/-- Commits and forks keep what branches share. -/
theorem Reachable.sound (h : Reachable rowId branches) : branches.Sound rowId := by
  induction h with
  | create version => exact sound_create rowId version
  | commit transaction _ hlookup hcommits ih => exact ih.commit hlookup hcommits
  | fork version uuid _ hlookup hfirst hversion hnew ih =>
    exact ih.fork hlookup hfirst hversion hnew

end Sound

end Omnigraph.PureInsert
