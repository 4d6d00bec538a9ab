import Omnigraph.Cluster.Moves

/-!
# What the operations on graphs leave of roots and sidecars

Creates and schema applies remove no root, and write sidecars under ids they draw. A delete writes
its sidecar before it removes an object, so wherever a run stops, a root that is gone has the
sidecar of its delete.
-/

namespace Omnigraph.Cluster

open List Option Durable BTreeMap

variable {hasher : Hasher} {engine : Engine} {store : ClusterStore} {env : Env}
  {desired : DesiredCluster}

/-! ### Roots -/

/-- Whether anything is left of a root: on a local disk the directory, in an object store an
object. -/
def rootPresent (store : ClusterStore) (w : World) (graphUri : String) : Bool :=
  match store.kind with
  | .localFiles => decide (graphUri ∈ w.roots)
  | .s3 => (w.roots.lookup graphUri).any fun root => root.files ≠ [] || root.nested ≠ []

variable {graphUri : String} {root : GraphRoot}

lemma rootPresent_congr {w t : World} (h : t.roots.lookup graphUri = w.roots.lookup graphUri) :
    rootPresent store t graphUri = rootPresent store w graphUri := by
  unfold rootPresent
  rw [h]
  cases store.kind with
  | localFiles =>
    have hmem : graphUri ∈ t.roots ↔ graphUri ∈ w.roots := by
      rw [mem_iff_exists, mem_iff_exists, h]
    exact decide_eq_decide.mpr hmem
  | s3 => rfl

/-- Writing a root that has all the objects it had removes no root. -/
lemma rootPresent_insert {w : World}
    (hfiles : ∀ old ∈ w.roots.lookup graphUri, old.files ≠ [] → root.files ≠ [])
    (hnested : ∀ old ∈ w.roots.lookup graphUri, old.nested ≠ [] → root.nested ≠ []) {other : String}
    (h : rootPresent store w other = true) :
    rootPresent store { w with roots := w.roots.insert graphUri root } other = true := by
  by_cases hother : other = graphUri
  · subst hother
    unfold rootPresent at h ⊢
    cases hkind : store.kind with
    | localFiles => exact decide_eq_true (mem_insert.mpr (.inl rfl))
    | s3 =>
      rw [hkind] at h
      obtain ⟨old, hold, hobjects⟩ := (Option.any_eq_true _ _).mp h
      dsimp only
      rw [lookup_insert_self, any_some]
      simp only [Bool.or_eq_true, decide_eq_true_eq] at hobjects ⊢
      exact hobjects.imp (hfiles old hold) (hnested old hold)
  · rwa [rootPresent_congr (lookup_insert_ne _ _ hother)]

/-! ### Operations that remove nothing -/

/-- The file of a sidecar that the run draws. -/
def Drawn (env : Env) (file : String) : Prop :=
  ∃ kind graphId, file = env.operationId kind graphId

/-- No root is removed, and the sidecars that were there stay as they are. -/
structure Grows (store : ClusterStore) (env : Env) (w t : World) : Prop where
  sidecars : ∀ file, ¬ Drawn env file → t.sidecars.lookup file = w.sidecars.lookup file
  roots : ∀ graphUri, rootPresent store w graphUri = true → rootPresent store t graphUri = true

instance : IsPreorder World (Grows store env) where
  refl _ := ⟨fun _ _ => rfl, fun _ h => h⟩
  trans _ _ _ h h' := ⟨fun file hfile => (h'.sidecars file hfile).trans (h.sidecars file hfile),
    fun uri huri => h'.roots uri (h.roots uri huri)⟩

lemma Grows.refl (w : World) : Grows store env w w := Std.Refl.refl w

variable {u : World} {sidecar : RecoverySidecar}

lemma Grows.trans {w t : World} (h : Grows store env w t) (h' : Grows store env t u) :
    Grows store env w u := IsTrans.trans _ _ _ h h'

lemma grows_of_roots {w t : World} (hsidecars : t.sidecars = w.sidecars)
    (hroots : t.roots = w.roots) : Grows store env w t := by
  refine ⟨fun _ _ => by rw [hsidecars], fun graphUri h => ?_⟩
  rwa [rootPresent_congr (congrArg (lookup · graphUri) hroots)]

lemma grows_writeSidecar {w : World} (h : Drawn env sidecar.operationId) : Grows store env w
      { w with sidecars := w.sidecars.insert sidecar.operationId sidecar } := by
  refine ⟨fun file hfile => lookup_insert_ne _ _ ?_, fun graphUri hroot => ?_⟩
  · rintro rfl
    exact hfile h
  · rwa [rootPresent_congr rfl]

lemma grows_deleteSidecar {operationId : String} (h : Drawn env operationId) :
    Keeps (Grows store env) (deleteSidecar operationId : Apply Unit) := by
  refine keeps_write fun w => ⟨fun file hfile => lookup_erase_ne _ ?_, fun _ hroot => ?_⟩
  · rintro rfl
    exact hfile h
  · rwa [rootPresent_congr rfl]

/-- The root is as it was, or it was written with all the nested objects it had. -/
def Rewrote (graphUri : String) (w t : World) : Prop :=
  t = w ∨ ∃ root : GraphRoot,
    (∀ old ∈ w.roots.lookup graphUri, old.nested ≠ [] → root.nested ≠ []) ∧
      t = { w with roots := w.roots.insert graphUri root }

lemma Rewrote.setRoot {w t : World} (h : Rewrote graphUri w t)
    (hnested : ∀ old ∈ w.roots.lookup graphUri, old.nested ≠ [] → root.nested ≠ []) :
    Rewrote graphUri w { t with roots := t.roots.insert graphUri root } := by
  rcases h with rfl | ⟨begun, -, rfl⟩
  · exact .inr ⟨root, hnested, rfl⟩
  · refine .inr ⟨root, hnested, ?_⟩
    dsimp only
    congr 1
    ext1 other
    simp only [lookup_insert]
    split_ifs <;> rfl

/-- No root is removed when one without schema files is written. -/
lemma Rewrote.grows {w t : World} (h : Rewrote graphUri w t)
    (hfiles : ∀ old ∈ w.roots.lookup graphUri, old.files = []) : Grows store env w t := by
  rcases h with rfl | ⟨root, hnested, rfl⟩
  · exact .refl t
  · exact ⟨fun _ _ => rfl, fun _ h => rootPresent_insert
      (fun old hold hne => absurd (hfiles old hold) hne) hnested h⟩

/-- Making a graph removes nothing. -/
lemma grows_initGraph (graphId source : String) :
    Keeps (Grows store env) (initGraph store env graphId source) := by
  intro w
  rw [initGraph, wp_bind, wp_read, then_ok]
  split
  · rw [wp_pure]
    exact ⟨⟨_, rfl⟩, .refl w⟩
  · next hfiles =>
    have hnone : ∀ old ∈ w.roots.lookup (store.graphRoot graphId), old.files = [] := by
      intro old hold
      by_contra hne
      exact hfiles (by rw [mem_def.mp hold]; simpa using hne)
    set leftover := ((w.roots.lookup (store.graphRoot graphId)).map GraphRoot.nested).getD []
      with hleftover
    have hnested : ∀ files more schema, ∀ old ∈ w.roots.lookup (store.graphRoot graphId),
        old.nested ≠ [] → (GraphRoot.mk files (leftover ++ more) schema).nested ≠ [] := by
      intro _ more _ old hold hne hnil
      dsimp only at hnil
      rw [hleftover, mem_def.mp hold, map_some, getD_some] at hnil
      exact hne (append_eq_nil_iff.mp hnil).1
    have hbegin : (beginGraph store env graphId source leftover).wp (Grows store env w)
        (fun r t => r = .ok () ∧ Rewrote (store.graphRoot graphId) w t) w := by
      unfold beginGraph
      split
      · next objects _ =>
        have hbegun := (show Rewrote (store.graphRoot graphId) w w from .inl rfl).setRoot
          (hnested objects.1 objects.2
            (if !env.ok (.initGraph graphId) && env.movedOnFailure graphId then some source
              else none))
        rw [Cluster.setRoot, wp_write]
        exact ⟨hbegun.grows hnone, rfl, hbegun⟩
      · rw [wp_pure]
        exact ⟨rfl, .inl rfl⟩
    rw [wp_bind]
    refine wp_mono hbegin (fun _ h => h) ?_
    rintro r t ⟨rfl, ht⟩
    rw [then_ok]
    split
    · have hset : Grows store env w _ :=
        (ht.setRoot (hnested ["_schema.pg"] (env.nestedObjects graphId) (some source))).grows hnone
      rw [wp_bind, Cluster.setRoot, wp_write, then_ok, wp_pure]
      exact ⟨hset, ⟨true, rfl⟩, hset⟩
    · rw [wp_pure]
      exact ⟨⟨false, rfl⟩, ht.grows hnone⟩

lemma grows_moveSchema (graphUri source : String) :
    Keeps (Grows store env) (moveSchema graphUri source) := by
  refine keeps_write fun w => ?_
  split
  · next root hroot =>
    refine ⟨fun _ _ => rfl, fun _ h => rootPresent_insert ?_ ?_ h⟩
    · intro old hold
      cases hroot.symm.trans hold
      exact fun h => h
    · intro old hold
      cases hroot.symm.trans hold
      exact fun h => h
  · exact .refl w

lemma grows_applySchema (live source : String) (sidecar : RecoverySidecar) :
    Keeps (Grows store env) (applySchema engine env live source sidecar) := by
  unfold applySchema
  split_ifs
  · exact keeps_pure ()
  · exact grows_moveSchema _ _
  · exact grows_moveSchema _ _
  · exact keeps_pure ()

lemma grows_writePayloads (changes : List PlanChange) :
    Keeps (Grows store env) (writePayloads hasher env desired changes) := by
  refine keeps_foldlM ?_ []
  intro diagnostics change _
  refine Keeps.bind ?_ fun _ => keeps_pure _
  unfold writePayload
  dsimp only
  split
  · exact keeps_pure []
  · split
    · exact keeps_pure []
    · split_ifs
      · exact keeps_pure _
      · refine (keeps_read _).bind fun present => ?_
        split_ifs
        · exact keeps_pure []
        · exact keeps_pure _
        · exact Keeps.bind (keeps_write fun w => grows_of_roots rfl rfl) fun _ => keeps_pure []
        · exact keeps_pure _

/-- The sidecars that an operation lists for cleaning besides the ones listed before are its own,
and not the one of a delete. -/
def Completes (env : Env) (moves moves' : GraphMoves) : Prop :=
  ∀ operationId ∈ moves'.completedSidecars, operationId ∈ moves.completedSidecars ∨
    ∃ kind graphId, kind ≠ .graphDelete ∧ operationId = env.operationId kind graphId

variable {moves moves' : GraphMoves}

variable (h : moves'.completedSidecars = moves.completedSidecars)

include h in
lemma completes_of_eq : Completes env moves moves' := by
  intro operationId hmem
  exact .inl (h ▸ hmem)

include h in
lemma completes_completed {kind : RecoverySidecarKind} (hkind : kind ≠ .graphDelete)
    (graphId : String) : Completes env moves (moves'.completed (env.operationId kind graphId)) := by
  intro operationId hmem
  rcases mem_append.mp hmem with hold | hnew
  · exact .inl (h ▸ hold)
  · exact .inr ⟨kind, graphId, hkind, mem_singleton.mp hnew⟩

/-- The program does not fail and removes nothing. -/
def GrowsBy (store : ClusterStore) (env : Env) (moves : GraphMoves) (m : Apply GraphMoves) :
    Prop :=
  ∀ w, m.wp (Grows store env w) (fun r t => ∃ moves', r = .ok moves' ∧
    Completes env moves moves' ∧ Grows store env w t) w

include h in
lemma growsBy_pure : GrowsBy store env moves (pure moves') := by
  intro w
  rw [wp_pure]
  exact ⟨moves', rfl, completes_of_eq h, .refl w⟩

/-- After a step that removes nothing. -/
lemma growsBy_bind {α : Type} {m : Apply α} {f : α → Apply GraphMoves}
    (hm : Keeps (Grows store env) m) (hf : ∀ a, GrowsBy store env moves (f a)) :
    GrowsBy store env moves (m >>= f) := by
  intro w
  rw [wp_bind]
  refine wp_mono (hm w) (fun _ h => h) ?_
  rintro r t ⟨⟨a, rfl⟩, ht⟩
  rw [then_ok]
  refine wp_mono (hf a t) (fun u hu => ht.trans hu) ?_
  rintro r u ⟨moves', rfl, hcompletes, hu⟩
  exact ⟨moves', rfl, hcompletes, ht.trans hu⟩

lemma grows_newSidecar (kind : RecoverySidecarKind) (graphId digest : String)
    (approvalId : Option String) : Keeps (Grows store env)
      (writeRecoverySidecar (newSidecar store env kind graphId digest approvalId)) :=
  keeps_write fun _ => grows_writeSidecar ⟨kind, graphId, rfl⟩

lemma growsBy_createGraph (moves : GraphMoves) (graphId : String) :
    GrowsBy store env moves (createGraph hasher store env desired moves graphId) := by
  unfold createGraph
  split
  · exact growsBy_pure rfl
  · split
    · exact growsBy_pure rfl
    · next graph _ =>
      split
      · refine growsBy_bind (grows_newSidecar _ _ _ _) fun _ => ?_
        split
        · exact growsBy_bind (keeps_attempt (grows_deleteSidecar ⟨_, _, rfl⟩) _)
            fun _ => growsBy_pure rfl
        · next source _ =>
          refine growsBy_bind (grows_initGraph graph.id source) fun created => ?_
          split
          · intro w
            rw [wp_pure]
            exact ⟨_, rfl, completes_completed (completed_pinSidecar _) (by decide) _, .refl w⟩
          · exact growsBy_pure rfl
      · exact growsBy_pure rfl

lemma grows_dropUnmoved (recorded : Option String) (h : Drawn env sidecar.operationId)
    (moves : GraphMoves) (w : World) :
    (dropUnmoved hasher env recorded sidecar moves).wp (Grows store env w)
      (fun r t => ∃ moves', r = .ok moves' ∧
        moves'.completedSidecars = moves.completedSidecars ∧ Grows store env w t) w := by
  rw [dropUnmoved, wp_bind, wp_read, then_ok]
  split
  · rw [wp_pure]
    exact ⟨moves, rfl, rfl, .refl w⟩
  · split
    · rw [wp_bind]
      refine wp_mono (grows_deleteSidecar h w) (fun _ h => h) ?_
      rintro r t ⟨⟨_, rfl⟩, ht⟩
      rw [then_ok, wp_pure]
      exact ⟨moves, rfl, rfl, ht⟩
    · rw [wp_pure]
      exact ⟨_, rfl, rfl, .refl w⟩

lemma growsBy_updateSchema (resources : Resources) (moves : GraphMoves) (graphId : String) :
    GrowsBy store env moves
      (updateSchema hasher engine store env desired resources moves graphId) := by
  unfold updateSchema
  split
  · exact growsBy_pure rfl
  · split
    · exact growsBy_pure rfl
    · next graph _ =>
      refine growsBy_bind (keeps_read _) fun opened => ?_
      unfold updateOpened
      dsimp only
      split
      · exact growsBy_pure rfl
      · exact growsBy_pure rfl
      · split_ifs
        · exact growsBy_pure rfl
        · exact growsBy_pure rfl
        · refine growsBy_bind (grows_newSidecar _ _ _ _) fun _ => ?_
          refine growsBy_bind (grows_applySchema _ _ _) fun _ => ?_
          split
          · intro w
            rw [wp_pure]
            exact ⟨_, rfl, completes_completed (completed_pinSidecar _) (by decide) _, .refl w⟩
          · intro w
            rw [wp_bind]
            refine wp_mono (grows_dropUnmoved _ ⟨_, _, rfl⟩ moves w) (fun _ h => h) ?_
            rintro r t ⟨moves', rfl, hcompleted, ht⟩
            rw [then_ok, wp_pure]
            exact ⟨_, rfl, completes_of_eq hcompleted, ht⟩

lemma growsBy_foldlM {f : GraphMoves → String → Apply GraphMoves}
    (hf : ∀ moves graphId, GrowsBy store env moves (f moves graphId)) (graphIds : List String)
    (moves : GraphMoves) : GrowsBy store env moves (graphIds.foldlM f moves) := by
  induction graphIds generalizing moves with
  | nil => exact growsBy_pure rfl
  | cons graphId graphIds ih =>
    intro w
    rw [wp_foldlM_cons]
    refine wp_mono (hf moves graphId w) (fun _ h => h) ?_
    rintro r t ⟨moves', rfl, hcompletes, ht⟩
    rw [then_ok]
    refine wp_mono (ih moves' t) (fun u hu => ht.trans hu) ?_
    rintro r u ⟨moves'', rfl, hcompletes', hu⟩
    refine ⟨moves'', rfl, fun operationId hmem => ?_, ht.trans hu⟩
    rcases hcompletes' operationId hmem with hold | hnew
    · exact hcompletes operationId hold
    · exact .inr hnew

/-! ### Deletes -/

/-- Ids that are drawn are new, and different for different operations. -/
structure Draws (env : Env) (w : World) : Prop where
  fresh : ∀ kind graphId, env.operationId kind graphId ∉ w.sidecars
  inj : ∀ kind kind' graphId graphId', env.operationId kind graphId =
    env.operationId kind' graphId' → kind = kind' ∧ graphId = graphId'

/-- The sidecar of the delete of a graph. -/
def deleteSidecarOf (store : ClusterStore) (env : Env) (desired : DesiredCluster)
    (approvals : List ApprovalArtifact) (graphId : String) : RecoverySidecar :=
  newSidecar store env .graphDelete graphId "" (consumableApproval desired approvals graphId)

/-- The sidecar of the delete of a graph is there. -/
def Pinned (store : ClusterStore) (env : Env) (desired : DesiredCluster)
    (approvals : List ApprovalArtifact) (t : World) (graphId : String) : Prop :=
  t.sidecars.lookup (env.operationId .graphDelete graphId) =
    some (deleteSidecarOf store env desired approvals graphId)

/-- Only the roots of these graphs are removed, and their sidecars are there. -/
structure Fences (store : ClusterStore) (env : Env) (desired : DesiredCluster)
    (approvals : List ApprovalArtifact) (done : List String) (w t : World) : Prop where
  sidecars : ∀ file, t.sidecars.lookup file = w.sidecars.lookup file ∨ ∃ graphId ∈ done,
    file = env.operationId .graphDelete graphId ∧ Pinned store env desired approvals t graphId
  roots : ∀ graphUri, rootPresent store w graphUri = true → rootPresent store t graphUri = true ∨
    ∃ graphId ∈ done, graphUri = store.graphRoot graphId ∧
      Pinned store env desired approvals t graphId

section Deletes

variable {approvals : List ApprovalArtifact} {done : List String} {graphId : String} {w t : World}

lemma fences_refl : Fences store env desired approvals done w w :=
  ⟨fun _ => .inl rfl, fun _ h => .inl h⟩

variable {done' : List String}

variable
  (hinj : ∀ kind kind' graphId graphId', env.operationId kind graphId =
  env.operationId kind' graphId' → kind = kind' ∧ graphId = graphId')

include hinj in
lemma Fences.pinned (h : Fences store env desired approvals done' t u)
    (hpinned : Pinned store env desired approvals t graphId) :
    Pinned store env desired approvals u graphId := by
  rcases h.sidecars (env.operationId .graphDelete graphId) with hsame | ⟨other, -, heq, hother⟩
  · exact hsame.trans hpinned
  · rw [(hinj _ _ _ _ heq).2]
    exact hother

include hinj in
lemma Fences.trans (h : Fences store env desired approvals done w t)
    (h' : Fences store env desired approvals done' t u) :
    Fences store env desired approvals (done ++ done') w u := by
  constructor
  · intro file
    rcases h'.sidecars file with hsame | ⟨graphId, hmem, hfile, hpinned⟩
    · rcases h.sidecars file with hsame' | ⟨graphId, hmem, rfl, hpinned⟩
      · exact .inl (hsame.trans hsame')
      · exact .inr ⟨graphId, mem_append_left _ hmem, rfl, h'.pinned hinj hpinned⟩
    · exact .inr ⟨graphId, mem_append_right _ hmem, hfile, hpinned⟩
  · intro graphUri hpresent
    rcases h.roots graphUri hpresent with hpresent | ⟨graphId, hmem, huri, hpinned⟩
    · rcases h'.roots graphUri hpresent with hpresent | ⟨graphId, hmem, huri, hpinned⟩
      · exact .inl hpresent
      · exact .inr ⟨graphId, mem_append_right _ hmem, huri, hpinned⟩
    · exact .inr ⟨graphId, mem_append_left _ hmem, huri, h'.pinned hinj hpinned⟩

/-- Nothing but one root changed. -/
structure OnlyRoot (graphUri : String) (w t : World) : Prop where
  sidecars : t.sidecars = w.sidecars
  roots : ∀ other, other ≠ graphUri → t.roots.lookup other = w.roots.lookup other

instance (graphUri : String) : IsPreorder World (OnlyRoot graphUri) where
  refl _ := ⟨rfl, fun _ _ => rfl⟩
  trans _ _ _ h h' := ⟨h'.sidecars.trans h.sidecars,
    fun other hother => (h'.roots other hother).trans (h.roots other hother)⟩

lemma onlyRoot_deleteGraphRoot (graphId : String) :
    Keeps (OnlyRoot (store.graphRoot graphId)) (deleteGraphRoot store env graphId) := by
  have hremove : ∀ objects, Keeps (OnlyRoot (store.graphRoot graphId))
      (removeObjects env graphId (store.graphRoot graphId) objects) := by
    intro objects
    refine keeps_forM fun object _ => keeps_write fun w => ?_
    split
    · exact ⟨rfl, fun other hother => lookup_insert_ne _ _ hother⟩
    · exact Std.Refl.refl w
  refine (keeps_read _).bind fun root => ?_
  split_ifs
  · refine (hremove _).bind fun _ => ?_
    refine Keeps.bind (keeps_write fun w => ?_) fun _ => keeps_pure true
    exact ⟨rfl, fun other hother => lookup_erase_ne _ hother⟩
  · exact (hremove _).bind fun _ => keeps_pure false

/-- Once the sidecar of a graph is written, nothing but its root changes. -/
lemma fences_of_onlyRoot (h : OnlyRoot (store.graphRoot graphId)
    { w with
      sidecars := w.sidecars.insert (env.operationId .graphDelete graphId)
        (deleteSidecarOf store env desired approvals graphId) } t) :
    Fences store env desired approvals [graphId] w t := by
  have hpinned : Pinned store env desired approvals t graphId := by
    rw [Pinned, h.sidecars]
    exact lookup_insert_self _ _ _
  constructor
  · intro file
    by_cases hfile : file = env.operationId .graphDelete graphId
    · exact .inr ⟨graphId, mem_singleton.mpr rfl, hfile, hpinned⟩
    · rw [h.sidecars]
      exact .inl (lookup_insert_ne _ _ hfile)
  · intro graphUri hpresent
    by_cases huri : graphUri = store.graphRoot graphId
    · exact .inr ⟨graphId, mem_singleton.mpr rfl, huri, hpinned⟩
    · left
      rw [rootPresent_congr (h.roots graphUri huri)]
      rwa [rootPresent_congr rfl] at hpresent

/-- The sidecars of deletes that are listed for cleaning are the ones of the graphs that are
recorded as removed. -/
structure Records (env : Env) (desired : DesiredCluster) (approvals : List ApprovalArtifact)
    (deletes deletes' : Deletes) : Prop where
  kept : ∀ deleted ∈ deletes.executed, deleted ∈ deletes'.executed
  completed : ∀ operationId ∈ deletes'.moves.completedSidecars,
    operationId ∈ deletes.moves.completedSidecars ∨ ∃ graphId,
      (graphId, consumableApproval desired approvals graphId) ∈ deletes'.executed ∧
        operationId = env.operationId .graphDelete graphId

variable {deletes deletes' : Deletes}

lemma Records.trans {deletes'' : Deletes} (h : Records env desired approvals deletes deletes')
    (h' : Records env desired approvals deletes' deletes'') :
    Records env desired approvals deletes deletes'' := by
  refine ⟨fun deleted hmem => h'.kept deleted (h.kept deleted hmem), fun operationId hmem => ?_⟩
  rcases h'.completed operationId hmem with hold | hnew
  · rcases h.completed operationId hold with hold | ⟨graphId, hexecuted, heq⟩
    · exact .inl hold
    · exact .inr ⟨graphId, h'.kept _ hexecuted, heq⟩
  · exact .inr hnew

lemma records_of_eq (hexecuted : deletes'.executed = deletes.executed)
    (hcompleted : deletes'.moves.completedSidecars = deletes.moves.completedSidecars) :
    Records env desired approvals deletes deletes' :=
  ⟨fun _ h => hexecuted ▸ h, fun _ h => .inl (hcompleted ▸ h)⟩

lemma fences_deleteGraph (deletes : Deletes) (graphId : String) (w : World) :
    (deleteGraph store env desired approvals deletes graphId).wp
      (Fences store env desired approvals [graphId] w)
      (fun r t => ∃ deletes', r = .ok deletes' ∧ Records env desired approvals deletes deletes' ∧
        Fences store env desired approvals [graphId] w t) w := by
  unfold deleteGraph
  split_ifs
  · rw [wp_pure]
    exact ⟨_, rfl, records_of_eq rfl rfl, fences_refl⟩
  · rw [wp_pure]
    exact ⟨_, rfl, records_of_eq rfl rfl, fences_refl⟩
  · rw [wp_pure]
    exact ⟨_, rfl, records_of_eq rfl rfl, fences_refl⟩
  · rw [deleteFenced, wp_bind, writeRecoverySidecar, wp_write, then_ok, wp_bind]
    refine ⟨fences_of_onlyRoot (Std.Refl.refl _), ?_⟩
    refine wp_mono (onlyRoot_deleteGraphRoot graphId _) (fun t ht => fences_of_onlyRoot ht) ?_
    rintro r t ⟨⟨removed, rfl⟩, ht⟩
    rw [then_ok]
    split
    · rw [wp_pure]
      refine ⟨_, rfl, ⟨fun _ h => mem_append_left _ h, fun operationId hmem => ?_⟩,
        fences_of_onlyRoot ht⟩
      rcases mem_append.mp hmem with hold | hnew
      · exact .inl hold
      · exact .inr ⟨graphId, mem_append_right _ (mem_singleton.mpr rfl),
          mem_singleton.mp hnew⟩
    · rw [wp_pure]
      exact ⟨_, rfl, records_of_eq rfl rfl, fences_of_onlyRoot ht⟩

lemma Fences.mono (h : Fences store env desired approvals done w t)
    (hsub : ∀ graphId ∈ done, graphId ∈ done') : Fences store env desired approvals done' w t := by
  refine ⟨fun file => (h.sidecars file).imp_right ?_,
    fun uri huri => (h.roots uri huri).imp_right ?_⟩
  · rintro ⟨graphId, hmem, hrest⟩
    exact ⟨graphId, hsub graphId hmem, hrest⟩
  · rintro ⟨graphId, hmem, hrest⟩
    exact ⟨graphId, hsub graphId hmem, hrest⟩

include hinj in
lemma fences_foldlM (graphIds : List String) (deletes : Deletes) (w : World) :
    (graphIds.foldlM (deleteGraph store env desired approvals) deletes).wp
      (Fences store env desired approvals graphIds w)
      (fun r t => ∃ deletes', r = .ok deletes' ∧ Records env desired approvals deletes deletes' ∧
        Fences store env desired approvals graphIds w t) w := by
  induction graphIds generalizing deletes w with
  | nil =>
    rw [wp_foldlM_nil]
    exact ⟨deletes, rfl, records_of_eq rfl rfl, fences_refl⟩
  | cons graphId graphIds ih =>
    rw [wp_foldlM_cons]
    refine wp_mono (fences_deleteGraph deletes graphId w) (fun t ht => ht.mono (by simp)) ?_
    rintro r t ⟨deletes', rfl, hrecords, ht⟩
    rw [then_ok]
    refine wp_mono (ih deletes' t) (fun u hu => ht.trans hinj hu) ?_
    rintro r u ⟨deletes'', rfl, hrecords', hu⟩
    exact ⟨deletes'', rfl, hrecords.trans hrecords', ht.trans hinj hu⟩

end Deletes

/-! ### All operations -/

/-- The delete of the graph is applied. -/
def DeleteApplied (changes : List PlanChange) (graphId : String) : Prop :=
  ∃ change ∈ changes, change.disposition = some .applied ∧ change.operation = .delete ∧
    change.resource = graphAddress graphId

/-- Wherever the operations stop, the sidecars from before are there, and a root that is gone is one
of a graph whose delete is applied and has its sidecar. -/
structure Fenced (store : ClusterStore) (env : Env) (desired : DesiredCluster) (planned : Planned)
    (w t : World) : Prop where
  sidecars : ∀ file, ¬ Drawn env file → t.sidecars.lookup file = w.sidecars.lookup file
  removed : ∀ graphUri, rootPresent store w graphUri = true →
    rootPresent store t graphUri = false → ∃ graphId, DeleteApplied planned.changes graphId ∧
      graphUri = store.graphRoot graphId ∧ Pinned store env desired planned.approvals t graphId

lemma Grows.fenced {planned : Planned} {w t : World} (h : Grows store env w t) :
    Fenced store env desired planned w t := by
  refine ⟨h.sidecars, fun graphUri hpresent hgone => ?_⟩
  rw [h.roots graphUri hpresent] at hgone
  cases hgone

/-- The sidecars that are listed for cleaning, of operations that are not deletes or of deletes that
are recorded. -/
def CompletesRecorded (env : Env) (desired : DesiredCluster) (planned : Planned)
    (deletes : Deletes) : Prop :=
  ∀ operationId ∈ deletes.moves.completedSidecars,
    (∃ kind graphId, kind ≠ .graphDelete ∧ operationId = env.operationId kind graphId) ∨
    ∃ graphId, (graphId, consumableApproval desired planned.approvals graphId) ∈ deletes.executed ∧
      operationId = env.operationId .graphDelete graphId

/-- Wherever the operations stop, the roots that are gone have their sidecars. -/
theorem fenced_moveGraphs (planned : Planned) {w : World} (hdraws : Draws env w) :
    (moveGraphs hasher engine store env desired planned).wp
      (Fenced store env desired planned w)
      (fun r t => Fenced store env desired planned w t ∧
        ∀ moved, r = .ok moved → CompletesRecorded env desired planned moved.2) w := by
  unfold moveGraphs
  rw [wp_bind]
  refine wp_mono (growsBy_foldlM (@growsBy_createGraph hasher _ _ _) _ _ w)
    (fun t ht => ht.fenced) ?_
  rintro r t ⟨created, rfl, hcreated, ht⟩
  rw [then_ok, wp_bind]
  refine wp_mono (growsBy_foldlM (growsBy_updateSchema planned.sweep.state.resources) _ created t)
    (fun u hu => (ht.trans hu).fenced) ?_
  rintro r u ⟨moves, rfl, hmoves, hu⟩
  rw [then_ok, wp_bind]
  refine wp_mono (grows_writePayloads _ u) (fun v hv => ((ht.trans hu).trans hv).fenced) ?_
  rintro r v ⟨⟨errors, rfl⟩, hv⟩
  have hgrown : Grows store env w v := (ht.trans hu).trans hv
  rw [then_ok]
  split
  · rw [wp_bind, wp_fail]
    exact ⟨hgrown.fenced, fun _ h => by cases h⟩
  rw [wp_bind]
  set changes := demoteDependentsOfFailedGraphs planned.changes moves.failed desired.dependencies
    with hchanges
  have happlied : ∀ graphId ∈ operationsOf .delete "graph." changes,
      DeleteApplied planned.changes graphId := by
    intro graphId hmem
    obtain ⟨_, hdemoted, happlied, hoperation, hresource⟩ := mem_operationsOf.mp hmem
    obtain ⟨change, hchange, rfl⟩ := List.mem_map.mp hdemoted
    obtain ⟨heq, -⟩ := demote_applied happlied
    rw [heq] at happlied hoperation hresource
    exact ⟨change, hchange, happlied, hoperation, hresource⟩
  have hfenced : ∀ x, Fences store env desired planned.approvals
      (operationsOf .delete "graph." changes) v x → Fenced store env desired planned w x := by
    intro x hx
    refine ⟨fun file hfile => ?_, fun graphUri hpresent hgone => ?_⟩
    · rcases hx.sidecars file with hsame | ⟨graphId, -, heq, -⟩
      · exact hsame.trans (hgrown.sidecars file hfile)
      · exact absurd ⟨_, _, heq⟩ hfile
    · rcases hx.roots graphUri (hgrown.roots graphUri hpresent) with h | ⟨graphId, hmem, huri, hpin⟩
      · rw [h] at hgone
        cases hgone
      · exact ⟨graphId, happlied graphId hmem, huri, hpin⟩
  refine wp_mono (fences_foldlM hdraws.inj _ _ v) hfenced ?_
  rintro r x ⟨deletes, rfl, hrecords, hx⟩
  rw [then_ok, wp_pure]
  refine ⟨hfenced x hx, ?_⟩
  rintro _ ⟨⟩ operationId hmem
  rcases hrecords.completed operationId hmem with hold | hnew
  · rcases hmoves operationId hold with hold | hnew
    · rcases hcreated operationId hold with hold | hnew
      · cases hold
      · exact .inl hnew
    · exact .inl hnew
  · exact .inr hnew

end Omnigraph.Cluster
