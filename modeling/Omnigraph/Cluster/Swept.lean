import Omnigraph.Cluster.Sweep

/-!
# What a sweep leaves

A sidecar is retired or kept. When it is retired, the ledger is as it was, or it is rolled forward
to the live schema of the graph, or the graph is dropped from it.
-/

namespace Omnigraph.Cluster

open List

variable {hasher : Hasher} {store : ClusterStore} {env : Env} {w : World}

/-- What the sweep of one sidecar does. -/
inductive SweepStep (hasher : Hasher) (store : ClusterStore) (env : Env) (w : World) (s : Sweep)
    (file : String) (sidecar : RecoverySidecar) (s' : Sweep) : Prop
  /-- The ledger already says what became of the operation. -/
  | stale (completed : s'.completedSidecars = s.completedSidecars ++ [file])
      (pending : s'.pendingGraphs = s.pendingGraphs)
      (consumed : s'.consumedApprovals = s.consumedApprovals) (state : s'.state = s.state)
  | rolledForward (source : String) (kind : sidecar.kind ≠ .graphDelete)
      (live : openReadOnly env w (.openSwept file) sidecar.graphUri = some source)
      (desired : hasher.sha256Hex source = sidecar.desiredSchemaDigest)
      (completed : s'.completedSidecars = s.completedSidecars ++ [file])
      (pending : s'.pendingGraphs = s.pendingGraphs)
      (consumed : s'.consumedApprovals = s.consumedApprovals)
      (resources : s'.state.resources = recordLiveSchema hasher s.state.resources sidecar.graphId
        (hasher.sha256Hex source))
  | tombstoned (kind : sidecar.kind = .graphDelete)
      (gone : graphRootExists store w (env.ok (.probeRoot file)) sidecar.graphUri = false)
      (recorded : graphAddress sidecar.graphId ∈ s.state.resources)
      (completed : s'.completedSidecars = s.completedSidecars ++ [file])
      (pending : s'.pendingGraphs = s.pendingGraphs)
      (consumed : s'.consumedApprovals = s.consumedApprovals ++ sidecar.approvalId.toList)
      (resources : s'.state.resources = tombstoneResources s.state.resources sidecar.graphId)
  /-- The sidecar is kept. -/
  | kept (completed : s'.completedSidecars = s.completedSidecars)
      (pending : s'.pendingGraphs = s.pendingGraphs ++ [sidecar.graphId])
      (consumed : s'.consumedApprovals = s.consumedApprovals)
      (resources : s'.state.resources = s.state.resources)

variable {file : String}

lemma sweepStep_liveSchema {sidecar : RecoverySidecar} {source : String}
    (hkind : sidecar.kind ≠ .graphDelete)
    (hlive : openReadOnly env w (.openSwept file) sidecar.graphUri = some source) (s : Sweep) :
    SweepStep hasher store env w s file sidecar
      (sweepLiveSchema hasher env file sidecar (hasher.sha256Hex source) s) := by
  unfold sweepLiveSchema
  split_ifs with hrecorded hdesired
  · exact .stale rfl rfl rfl rfl
  · exact .rolledForward source hkind hlive hdesired rfl rfl rfl rfl
  · exact .kept rfl rfl rfl rfl

lemma rollForwardDelete_spec (file : String) (sidecar : RecoverySidecar) (s : Sweep) :
    (rollForwardDelete env file sidecar s).completedSidecars = s.completedSidecars ++ [file] ∧
      (rollForwardDelete env file sidecar s).pendingGraphs = s.pendingGraphs ∧
      (rollForwardDelete env file sidecar s).consumedApprovals =
        s.consumedApprovals ++ sidecar.approvalId.toList ∧
      (rollForwardDelete env file sidecar s).state.resources =
        tombstoneResources s.state.resources sidecar.graphId := by
  unfold rollForwardDelete
  cases sidecar.approvalId with
  | none => exact ⟨rfl, rfl, (append_nil _).symm, rfl⟩
  | some approvalId => exact ⟨rfl, rfl, rfl, rfl⟩

theorem sweepStep_sweepSidecar (s : Sweep) (entry : String × RecoverySidecar) :
    SweepStep hasher store env w s entry.1 entry.2 (sweepSidecar hasher store env w s entry) := by
  unfold sweepSidecar
  cases hkind : entry.2.kind with
  | graphCreate =>
    dsimp only
    unfold sweepGraphCreateSidecar
    split
    · exact .stale rfl rfl rfl rfl
    · split
      · next source hlive => exact sweepStep_liveSchema (by simp [hkind]) hlive s
      · exact .kept rfl rfl rfl rfl
  | schemaApply =>
    dsimp only
    unfold sweepSchemaApplySidecar
    split
    · next source hlive => exact sweepStep_liveSchema (by simp [hkind]) hlive s
    · exact .kept rfl rfl rfl rfl
  | graphDelete =>
    dsimp only
    unfold sweepGraphDeleteSidecar
    split_ifs with hexists hrecorded
    · exact .stale rfl rfl rfl rfl
    · obtain ⟨hcompleted, hpending, hconsumed, hresources⟩ :=
        rollForwardDelete_spec entry.1 entry.2 s
      exact .tombstoned hkind (by simpa using hexists) hrecorded hcompleted hpending hconsumed
        hresources
    · exact .stale rfl rfl rfl rfl

/-- The sweep without any sidecar. -/
lemma sweep_nil (state : ClusterState) (h : w.sidecars = ∅) :
    (sweepRecoverySidecars hasher store env w state).state = state ∧
      (sweepRecoverySidecars hasher store env w state).pendingGraphs = [] ∧
      (sweepRecoverySidecars hasher store env w state).completedSidecars = [] ∧
      (sweepRecoverySidecars hasher store env w state).consumedApprovals = [] := by
  have hlisted : (listRecoverySidecars env w).1 = [] := by
    unfold listRecoverySidecars
    split_ifs
    · rw [h, BTreeMap.entries_empty]
    · rfl
  unfold sweepRecoverySidecars
  dsimp only
  rw [hlisted]
  exact ⟨rfl, rfl, rfl, rfl⟩

/-- A sweep that keeps no sidecar retires every sidecar it listed. -/
lemma mem_completedSidecars_foldl {entries : List (String × RecoverySidecar)} {s : Sweep}
    (h : (entries.foldl (sweepSidecar hasher store env w) s).pendingGraphs = []) :
    (∀ file ∈ s.completedSidecars,
      file ∈ (entries.foldl (sweepSidecar hasher store env w) s).completedSidecars) ∧
    ∀ entry ∈ entries,
      entry.1 ∈ (entries.foldl (sweepSidecar hasher store env w) s).completedSidecars := by
  have hpending : ∀ (entries : List (String × RecoverySidecar)) (s : Sweep),
      s.pendingGraphs ≠ [] →
        (entries.foldl (sweepSidecar hasher store env w) s).pendingGraphs ≠ [] := by
    intro entries
    induction entries with
    | nil => exact fun s hs => hs
    | cons entry entries ih =>
      intro s hs
      apply ih
      rcases @sweepStep_sweepSidecar hasher _ _ _ s entry
        with ⟨-, hp, -, -⟩ | ⟨_, -, -, -, -, hp, -, -⟩ | ⟨-, -, -, -, hp, -, -⟩ | ⟨-, hp, -, -⟩
      · rwa [hp]
      · rwa [hp]
      · rwa [hp]
      · rw [hp]
        simp
  induction entries generalizing s with
  | nil => exact ⟨fun _ hfile => hfile, fun _ hentry => absurd hentry not_mem_nil⟩
  | cons entry entries ih =>
    rw [foldl_cons] at h ⊢
    obtain ⟨hkept, hcovered⟩ := ih h
    have hcompleted : (sweepSidecar hasher store env w s entry).completedSidecars =
        s.completedSidecars ++ [entry.1] := by
      rcases @sweepStep_sweepSidecar hasher _ _ _ s entry
        with ⟨hc, -, -, -⟩ | ⟨_, -, -, -, hc, -, -, -⟩ | ⟨-, -, -, hc, -, -, -⟩ | ⟨-, hp, -, -⟩
      · exact hc
      · exact hc
      · exact hc
      · refine absurd h (hpending entries _ ?_)
        rw [hp]
        simp
    rw [hcompleted] at hkept
    refine ⟨fun file hfile => hkept file (mem_append_left _ hfile), fun e he => ?_⟩
    rcases mem_cons.mp he with rfl | he
    · exact hkept _ (mem_append_right _ (mem_singleton.mpr rfl))
    · exact hcovered e he

lemma mem_completedSidecars {state : ClusterState} (hlisted : env.ok .listSidecars = true)
    (h : (sweepRecoverySidecars hasher store env w state).pendingGraphs = [])
    (hfile : file ∈ w.sidecars) :
    file ∈ (sweepRecoverySidecars hasher store env w state).completedSidecars := by
  obtain ⟨sidecar, hlookup⟩ := BTreeMap.mem_iff_exists.mp hfile
  refine (mem_completedSidecars_foldl h).2 (file, sidecar) ?_
  rw [listRecoverySidecars, if_pos hlisted]
  exact BTreeMap.lookup_eq_some_iff.mp hlookup

end Omnigraph.Cluster
