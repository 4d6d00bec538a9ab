import Omnigraph.Compiler.Scopes
import Omnigraph.Compiler.Steps

/-!
# The direction of lowered traversals

The type checker reads every traversal in a direction, inferred from what is bound so far. Lowering
looks the direction up again, by the two ends and the edge, in the context of the match clause.
-/

namespace Omnigraph.Compiler

open Except

/-! ### What the type checker assigns -/

variable {ctx ctx' : TypeContext} {edge : EdgeType} {direction : Direction} {t : Traversal}

lemma bindTraversalEndpoint_ok {var expected : String}
    (h : bindTraversalEndpoint ctx var expected edge = .ok ctx') :
    (var ≠ "_" → ctx'.bindings.lookup var = some (.node expected)) ∧
      (∀ w bound, ctx.bindings.lookup w = some bound → ctx'.bindings.lookup w = some bound) ∧
      ctx'.traversals = ctx.traversals := by
  unfold bindTraversalEndpoint at h
  split_ifs at h with hanon
  · cases h
    exact ⟨fun hn => absurd hanon hn, fun w bound hw => hw, rfl⟩
  · cases hvar : ctx.bindings.lookup var with
    | none =>
      rw [hvar] at h
      cases h
      refine ⟨fun _ => AList.lookup_insert _, fun w bound hw => ?_, rfl⟩
      have hne : w ≠ var := by
        rintro rfl
        rw [hvar] at hw
        cases hw
      rw [AList.lookup_insert_ne hne, hw]
    | some existing =>
      rw [hvar] at h
      dsimp only at h
      rw [bind_eq_ok_iff] at h
      obtain ⟨existingType, hexisting, h⟩ := h
      split_ifs at h with heq
      · cases h
        refine ⟨fun _ => ?_, fun w bound hw => hw, rfl⟩
        cases existing with
        | node typeName => cases hexisting; rw [hvar, heq]
        | edge typeName => cases hexisting
      · cases h

/-- How a direction is found: by the source if it is bound, by the destination if only it is
bound, else as the edge is declared. -/
lemma inferDirection_cases (h : inferDirection t edge ctx = .ok (direction, ctx')) :
    direction ≠ .both ∧
      ((ctx.bindings.lookup t.src = some (.node (edge.nearType direction)) ∧
          bindTraversalEndpoint ctx t.dst (edge.farType direction) edge = .ok ctx') ∨
        (ctx.bindings.lookup t.dst = some (.node (edge.farType direction)) ∧
          bindTraversalEndpoint ctx t.src (edge.nearType direction) edge = .ok ctx') ∨
        ∃ ctx₁, bindTraversalEndpoint ctx t.src (edge.nearType direction) edge = .ok ctx₁ ∧
          bindTraversalEndpoint ctx₁ t.dst (edge.farType direction) edge = .ok ctx') := by
  have hendpoint : ∀ {var typeName : String} {bound : BoundVariable},
      bound.requireTraversalEndpoint var = .ok typeName → bound = .node typeName := by
    intro var typeName bound hok
    cases bound with
    | node name =>
      cases hok
      rfl
    | edge name => cases hok
  unfold inferDirection at h
  cases hsrc : ctx.bindings.lookup t.src with
  | some bound =>
    rw [hsrc] at h
    obtain ⟨srcType, hsrcType, h⟩ := Except.bind_eq_ok_iff.mp h
    rw [hendpoint hsrcType]
    split_ifs at h with hfrom hto
    · obtain ⟨ctx₁, hbind, ⟨⟩⟩ := Except.bind_eq_ok_iff.mp h
      exact ⟨by simp, .inl ⟨by rw [hfrom]; rfl, hbind⟩⟩
    · obtain ⟨ctx₁, hbind, ⟨⟩⟩ := Except.bind_eq_ok_iff.mp h
      exact ⟨by simp, .inl ⟨by rw [hto]; rfl, hbind⟩⟩
    · cases h
  | none =>
    rw [hsrc] at h
    cases hdst : ctx.bindings.lookup t.dst with
    | some bound =>
      rw [hdst] at h
      obtain ⟨dstType, hdstType, h⟩ := Except.bind_eq_ok_iff.mp h
      rw [hendpoint hdstType]
      split_ifs at h with hto hfrom
      · obtain ⟨ctx₁, hbind, ⟨⟩⟩ := Except.bind_eq_ok_iff.mp h
        exact ⟨by simp, .inr (.inl ⟨by rw [hto]; rfl, hbind⟩)⟩
      · obtain ⟨ctx₁, hbind, ⟨⟩⟩ := Except.bind_eq_ok_iff.mp h
        exact ⟨by simp, .inr (.inl ⟨by rw [hfrom]; rfl, hbind⟩)⟩
      · cases h
    | none =>
      rw [hdst] at h
      obtain ⟨ctx₁, hbind₁, h⟩ := Except.bind_eq_ok_iff.mp h
      obtain ⟨ctx₂, hbind₂, ⟨⟩⟩ := Except.bind_eq_ok_iff.mp h
      exact ⟨by simp, .inr (.inr ⟨ctx₁, hbind₁, hbind₂⟩)⟩

/-- The ends are typed by the direction: the source as the near end, the destination as the far
one. -/
lemma inferDirection_ok (h : inferDirection t edge ctx = .ok (direction, ctx')) :
    (t.src ≠ "_" → ctx'.bindings.lookup t.src = some (.node (edge.nearType direction))) ∧
      (t.dst ≠ "_" → ctx'.bindings.lookup t.dst = some (.node (edge.farType direction))) ∧
      direction ≠ .both := by
  obtain ⟨hne, ⟨hsrc, hbind⟩ | ⟨hdst, hbind⟩ | ⟨ctx₁, hbind₁, hbind₂⟩⟩ := inferDirection_cases h
  · obtain ⟨hdst, hkeep, -⟩ := bindTraversalEndpoint_ok hbind
    exact ⟨fun _ => hkeep _ _ hsrc, hdst, hne⟩
  · obtain ⟨hsrc, hkeep, -⟩ := bindTraversalEndpoint_ok hbind
    exact ⟨hsrc, fun _ => hkeep _ _ hdst, hne⟩
  · obtain ⟨hsrc, -, -⟩ := bindTraversalEndpoint_ok hbind₁
    obtain ⟨hdst, hkeep, -⟩ := bindTraversalEndpoint_ok hbind₂
    exact ⟨fun hn => hkeep _ _ (hsrc hn), hdst, hne⟩

/-- The traversal clause `t` of a block is read in `direction`; `after` is the context behind it. -/
structure ReadIn (catalog : Catalog) (params : ParamTypes) (scope : Scope) (t : Traversal)
    (edge : EdgeType) (direction : Direction) (after : TypeContext) : Prop where
  clause : ∃ pre post before, scope.clauses = pre ++ .traversal t :: post ∧
    typecheckClauses catalog params pre scope.ctx = .ok before ∧
    typecheckTraversal catalog t before = .ok after
  edge_eq : catalog.lookupEdgeByName t.edgeName = some edge
  direction_eq : after.traversals.getLast?.map ResolvedTraversal.direction = some direction

/-- The direction, and an undirected edge has ends of one type. -/
lemma ReadIn.inferred {catalog : Catalog} {params : ParamTypes} {scope : Scope}
    {after : TypeContext} (h : ReadIn catalog params scope t edge direction after) :
    (t.undirected = true → direction = .both) ∧
      (t.src ≠ "_" → after.bindings.lookup t.src = some (.node (edge.nearType direction))) ∧
      (t.dst ≠ "_" → after.bindings.lookup t.dst = some (.node (edge.farType direction))) := by
  obtain ⟨⟨pre, post, before, -, -, htrav⟩, hedge, hdir⟩ := h
  obtain ⟨edge', inferred, named, typed, hchecked⟩ := typecheckTraversal_ok htrav
  obtain rfl : edge' = edge := Option.some.inj (hchecked.edge_eq.symm.trans hedge)
  rw [hchecked.traversals_eq, List.getLast?_append] at hdir
  obtain ⟨hsrc, hdst, -⟩ := inferDirection_ok hchecked.typed_eq
  rw [hchecked.bindings_eq]
  by_cases hund : t.undirected = true
  · have hsame : edge'.fromType = edge'.toType := by
      have hcheck := hchecked.undirected
      unfold checkUndirected at hcheck
      by_contra hne
      rw [if_pos (by simp [hund, hne])] at hcheck
      cases hcheck
    simp only [hund, if_true, List.getLast?_singleton, Option.map_some, Option.some.injEq,
      Option.some_or] at hdir
    subst hdir
    refine ⟨fun _ => rfl, fun hn => ?_, fun hn => ?_⟩
    · rw [hsrc hn]
      cases inferred <;> simp [EdgeType.nearType, hsame]
    · rw [hdst hn]
      cases inferred <;> simp [EdgeType.farType, hsame]
  · simp only [hund, List.getLast?_singleton, Option.map_some, Option.some.injEq, Option.some_or,
      Bool.false_eq_true, if_false] at hdir
    subst hdir
    exact ⟨fun h => absurd h hund, hsrc, hdst⟩

/-! ### What lowering finds -/

/-- The expand walks the edge as read: from the source to the destination, or to the temporary
variable compared with it, or backwards in the reverse direction. -/
def Expand.Walks (e : Expand) (t : Traversal) (edge : EdgeType) (direction : Direction) : Prop :=
  (e.srcVar = t.src ∧ (e.dstVar = t.dst ∨ e.dstVar = tempVar t) ∧ e.direction = direction ∧
      e.dstType = edge.farType direction) ∨
    (e.srcVar = t.dst ∧ e.dstVar = t.src ∧ e.direction = direction.reverse ∧
      e.dstType = edge.nearType direction)

/-- The lookup that lowering makes gives `direction`: the traversal is undirected, or the first
resolved one with the same ends and edge was read in it, or there is none and it is the default. -/
def DirectionFound (typeCtx : TypeContext) (t : Traversal) (edge : EdgeType)
    (direction : Direction) : Prop :=
  t.undirected = true ∨
    match findResolved typeCtx t edge with
    | some resolved => resolved.direction = direction
    | none => direction = .out

lemma loweredDirection_eq_iff {typeCtx : TypeContext}
    (hund : t.undirected = true → direction = .both) :
    loweredDirection typeCtx t edge = direction ↔ DirectionFound typeCtx t edge direction := by
  unfold loweredDirection DirectionFound
  by_cases h : t.undirected = true
  · simp [h, hund h]
  · simp only [h, Bool.false_eq_true, if_false, false_or]
    cases findResolved typeCtx t edge with
    | none => simp [eq_comm]
    | some resolved => simp

lemma tempVar_ne_dst (t : Traversal) : tempVar t ≠ t.dst := by
  intro h
  have hlength := congrArg String.length h
  rw [tempVar, String.length_append] at hlength
  have : "__temp_".length = 7 := by decide
  omega

lemma Direction.reverse_injective : Function.Injective Direction.reverse := by
  intro a b h
  cases a <;> cases b <;> simp_all [Direction.reverse]

variable {env : LowerEnv}

/-- The expand of a step walks as read exactly when the lowered direction is the one read. -/
lemma Step.Shape.walks_iff {s : Step} (h : s.Shape env edge) (direction : Direction) :
    s.expand.Walks s.traversal edge direction ↔
      loweredDirection env.typeCtx s.traversal edge = direction := by
  rcases h.ends with ⟨-, hsrc, hdst, hdir, htype⟩ | ⟨-, hne, hsrc, hdst, hdir, htype⟩ |
      ⟨-, hne, hsrc, hdst, hdir, htype⟩
  · constructor
    · rintro (⟨-, -, hd, -⟩ | ⟨hs, hd, -, -⟩)
      · exact hdir.symm.trans hd
      · exact absurd (hdst.symm.trans (hd.trans (hsrc.symm.trans hs))) (tempVar_ne_dst _)
    · rintro rfl
      exact .inl ⟨hsrc, .inr hdst, hdir, by rw [htype, hdir]⟩
  · constructor
    · rintro (⟨-, -, hd, -⟩ | ⟨hs, -, -, -⟩)
      · exact hdir.symm.trans hd
      · exact absurd (hsrc.symm.trans hs) hne
    · rintro rfl
      exact .inl ⟨hsrc, .inl hdst, hdir, by rw [htype, hdir]⟩
  · constructor
    · rintro (⟨hs, -, -, -⟩ | ⟨-, -, hd, -⟩)
      · exact absurd (hs.symm.trans hsrc) hne
      · exact Direction.reverse_injective (hdir.symm.trans hd)
    · rintro rfl
      exact .inr ⟨hsrc, hdst, hdir, htype⟩

/-- The steps of a block come from its expand loop. -/
lemma lowerBlock_ok {clauses : List Clause} {bound : List String} {block : Block}
    (h : lowerBlock env clauses bound = .ok block) :
    ∃ scanned expanded,
      (bindingsOf clauses).foldlM
        (lowerBinding env (deferredSet (bindingsOf clauses) (traversalsOf clauses)))
        ⟨[], bound, ∅⟩ = .ok scanned ∧
      expandLoop env (traversalsOf clauses).length (traversalsOf clauses)
        ⟨[], scanned.bound, scanned.deferredFilters⟩ = .ok expanded ∧
      block = ⟨scanned.scans, expanded.steps,
        (filtersOf clauses).map (lowerFilter env
          (localBindings env.catalog (bindingsOf clauses) (traversalsOf clauses))),
        expanded.bound⟩ := by
  simp only [lowerBlock, bind_eq_ok_iff] at h
  obtain ⟨scanned, hscanned, expanded, hexpanded, hblock⟩ := h
  cases hblock
  exact ⟨scanned, expanded, hscanned, hexpanded, rfl⟩

/-- In every block of an accepted query the expand of a traversal walks the edge between ends of
the types the type checker assigned exactly when lowering finds the direction it was read in. -/
theorem lowered_orientation_iff {catalog : Catalog} {query : QueryDecl} {ctx : TypeContext}
    (h : typecheckQuery catalog query = .ok ctx) :
    ∃ params ir, parseDeclaredParamTypes query.params = .ok params ∧
      lowerQuery catalog query ctx = .ok ir ∧
      ∀ scope, Inside (query.lowerEnv catalog ctx) params (query.scope ir.pipeline) scope →
        ∃ block, lowerBlock (query.lowerEnv catalog ctx) scope.clauses scope.bound = .ok block ∧
          block.ops <+: scope.ops ∧
          ∀ t edge direction after, ReadIn catalog params scope t edge direction after →
            (t.src ≠ "_" →
              after.bindings.lookup t.src = some (.node (edge.nearType direction))) ∧
            (t.dst ≠ "_" →
              after.bindings.lookup t.dst = some (.node (edge.farType direction))) ∧
            ∀ s ∈ block.steps, s.traversal = t →
              (s.expand.Walks t edge direction ↔ DirectionFound ctx t edge direction) := by
  obtain ⟨params, ir, hparams, hir, htop⟩ := lowerQuery_exists h
  refine ⟨params, ir, hparams, hir, fun scope hinside => ?_⟩
  obtain ⟨block, antiJoins, hblock, -, hops⟩ := lowerClauses_ok (hinside.lowered htop).lowered
  refine ⟨block, hblock, by rw [hops]; exact List.prefix_append _ _,
    fun t edge direction after hread => ?_⟩
  obtain ⟨hund, hsrc, hdst⟩ := hread.inferred
  refine ⟨hsrc, hdst, ?_⟩
  rintro s hs rfl
  obtain ⟨scanned, expanded, -, hexpanded, rfl⟩ := lowerBlock_ok hblock
  obtain ⟨edge', hshape⟩ := (expandLoop_spec (fun _ => Iff.rfl) hexpanded).1.shape s hs
  obtain rfl : edge' = edge := Option.some.inj (hshape.edge_eq.symm.trans hread.edge_eq)
  rw [hshape.walks_iff direction]
  exact loweredDirection_eq_iff hund

/-! ### A company and its staff -/

def worksAtEdge : EdgeType := ⟨"WorksAt", "Person", "Company", ∅⟩

/-- Persons know persons and work at companies; all have a name. -/
def staffCatalog : Catalog :=
  let named : NodeType := ⟨(∅ : HashMap String PropType).insert "name" (.ofScalar .string false)⟩
  { nodeTypes := ((∅ : HashMap String NodeType).insert "Person" named).insert "Company" named
    edgeTypes := ((∅ : HashMap String EdgeType).insert "Knows"
      ⟨"Knows", "Person", "Person", ∅⟩).insert "WorksAt" worksAtEdge
    edgeNameIndex := ((∅ : HashMap String String).insert "knows" "Knows").insert "worksat"
      "WorksAt" }

/-- A query for names of `c`. -/
def staffQuery (clauses : List Clause) : QueryDecl :=
  ⟨"staff", [], clauses, [⟨.propAccess "c" "name", none⟩], [], none, []⟩

/-- `$c worksAt $p`, with the company written first. -/
def staffTraversal : Traversal := ⟨"c", "worksAt", "p", 1, some 1, false, none⟩

/-- The context behind `$c: Company`. -/
def companyCtx : TypeContext :=
  ⟨(∅ : HashMap String BoundVariable).insert "c" (.node "Company"), ∅, []⟩

/-- Where `c` is a company the edge is read backwards. -/
lemma staffTraversal_read {params : ParamTypes} {scope : Scope} {pre post : List Clause}
    (hclauses : scope.clauses = pre ++ .traversal staffTraversal :: post)
    (hpre : typecheckClauses staffCatalog params pre scope.ctx = .ok companyCtx) :
    ∃ after, ReadIn staffCatalog params scope staffTraversal worksAtEdge .into after := by
  obtain ⟨after, hafter, hdir⟩ : ∃ after,
      typecheckTraversal staffCatalog staffTraversal companyCtx = .ok after ∧
      after.traversals.getLast?.map ResolvedTraversal.direction = some .into := ⟨_, rfl, rfl⟩
  exact ⟨after, ⟨pre, post, companyCtx, hclauses, hpre, hafter⟩, rfl, hdir⟩

/-- `$c: Company  $c worksAt $p` -/
def employersQuery : QueryDecl :=
  staffQuery [.binding ⟨"c", "Company", []⟩, .traversal staffTraversal]

theorem lowered_orientation_employers : ∃ ctx after block s,
    typecheckQuery staffCatalog employersQuery = .ok ctx ∧
      lowerBlock (employersQuery.lowerEnv staffCatalog ctx) employersQuery.matchClause [] =
        .ok block ∧
      ReadIn staffCatalog ∅ (employersQuery.scope block.ops) staffTraversal worksAtEdge .into
        after ∧
      s ∈ block.steps ∧ s.expand.Walks staffTraversal worksAtEdge .into := by
  obtain ⟨params, ir, hparams, hir, hall⟩ :=
    @lowered_orientation_iff staffCatalog employersQuery _ rfl
  obtain ⟨block, hblock, -, hread⟩ := hall _ .top
  cases hparams
  cases hblock
  obtain ⟨after, hcompany⟩ := @staffTraversal_read ∅ (employersQuery.scope ir.pipeline)
    [.binding ⟨"c", "Company", []⟩] [] rfl rfl
  have hwalks := ((hread _ _ _ _ hcompany).2.2 _ List.mem_cons_self rfl).mpr (.inr rfl)
  exact ⟨_, after, _, _, rfl, rfl, ⟨hcompany.clause, hcompany.edge_eq, hcompany.direction_eq⟩,
    List.mem_cons_self, hwalks⟩

/-- `$c: Company  not { $c worksAt $p }` -/
def unstaffedQuery : QueryDecl :=
  staffQuery [.binding ⟨"c", "Company", []⟩, .negation [.traversal staffTraversal]]

/-- Inside `not` the lookup finds nothing, and the edge is walked from the company as if it were the
person. -/
theorem lowered_orientation_lost_in_not : ∃ ctx params ir scope block after s,
    typecheckQuery staffCatalog unstaffedQuery = .ok ctx ∧
      parseDeclaredParamTypes unstaffedQuery.params = .ok params ∧
      lowerQuery staffCatalog unstaffedQuery ctx = .ok ir ∧
      Inside (unstaffedQuery.lowerEnv staffCatalog ctx) params
        (unstaffedQuery.scope ir.pipeline) scope ∧
      lowerBlock (unstaffedQuery.lowerEnv staffCatalog ctx) scope.clauses scope.bound =
        .ok block ∧
      ReadIn staffCatalog params scope staffTraversal worksAtEdge .into after ∧
      s ∈ block.steps ∧ s.traversal = staffTraversal ∧
      ¬ s.expand.Walks staffTraversal worksAtEdge .into := by
  obtain ⟨after, hcompany⟩ := @staffTraversal_read ∅
    ⟨companyCtx, ["c"], [.traversal staffTraversal], []⟩ [] [] rfl rfl
  refine ⟨_, ∅, _, _, _, after, _, rfl, rfl, rfl,
    @Inside.negation _ _ _ _ [.binding ⟨"c", "Company", []⟩] _ [] _ _ [] _ _ "c" .top rfl rfl
      rfl rfl rfl, rfl, ⟨hcompany.clause, hcompany.edge_eq, hcompany.direction_eq⟩,
    List.mem_cons_self, rfl, ?_⟩
  rintro (⟨-, -, hdir, -⟩ | ⟨hsrc, -⟩)
  · cases hdir
  · exact absurd hsrc (by decide)

end Omnigraph.Compiler
