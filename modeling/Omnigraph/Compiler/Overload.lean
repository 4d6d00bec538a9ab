import Omnigraph.Compiler.Contexts

/-!
# Which `contains` is meant

`contains` is substring search on a scalar `String` and membership on a list. The type checker
decides by the type its left operand has in the context of the filter. Lowering decides again, from
types it collects itself: the bindings of the block, then the declared endpoints of the traversals
of the block, whatever direction they are read in, then the context of the match clause.
-/

namespace Omnigraph.Compiler

open List Except PropType

/-! ### The types lowering collects -/

/-- The traversal gives `v` a type: as an end or as the name of its edge row. -/
def Traversal.Names (t : Traversal) (v : String) : Prop :=
  t.src = v ∨ t.dst = v ∨ t.edgeBinding = some v

instance (t : Traversal) (v : String) : Decidable (t.Names v) :=
  inferInstanceAs (Decidable (_ ∨ _ ∨ _))

/-- The type it gives: the endpoint the edge declares for the side `v` is written on. -/
def Traversal.declaredType (t : Traversal) (edge : EdgeType) (v : String) : BoundVariable :=
  if t.src = v then .node edge.fromType
  else if t.dst = v then .node edge.toType else .edge edge.name

/-- The type of a variable that no binding of the block binds: from the first traversal of the block
that names it, else from the context of the match clause. -/
def collectedType (env : LowerEnv) (clauses : List Clause) (v : String) : Option BoundVariable :=
  match (traversalsOf clauses).find? (·.Names v) with
  | some t => (env.catalog.lookupEdgeByName t.edgeName).map (t.declaredType · v)
  | none => env.typeCtx.bindings.lookup v

def orInsert (m : HashMap String BoundVariable) (v : String) (b : BoundVariable) :
    HashMap String BoundVariable :=
  if v ∈ m then m else m.insert v b

lemma lookup_orInsert (m : HashMap String BoundVariable) (v w : String) (b : BoundVariable) :
    (orInsert m v b).lookup w = (m.lookup w).or (if v = w then some b else none) := by
  unfold orInsert
  by_cases hv : v ∈ m
  · rw [if_pos hv]
    split_ifs with hvw
    · subst hvw
      obtain ⟨b', hb'⟩ := HashMap.mem_iff_exists_lookup.mp hv
      rw [hb']
      rfl
    · simp
  · rw [if_neg hv, HashMap.lookup_insert_ite]
    by_cases hvw : v = w
    · subst hvw
      have hnone : m.lookup v = none := AList.lookup_eq_none.mpr hv
      rw [if_pos rfl, if_pos rfl, hnone]
      rfl
    · rw [if_neg (Ne.symm hvw), if_neg hvw]
      simp

/-- A traversal adds the types of its ends and of its edge row. -/
def addTraversal (catalog : Catalog) (m : HashMap String BoundVariable) (t : Traversal) :
    HashMap String BoundVariable :=
  match catalog.lookupEdgeByName t.edgeName with
  | none => m
  | some edge =>
    let m := orInsert (orInsert m t.src (.node edge.fromType)) t.dst (.node edge.toType)
    match t.edgeBinding with
    | some name => orInsert m name (.edge edge.name)
    | none => m

lemma localBindings_eq (catalog : Catalog) (bindings : List Binding)
    (traversals : List Traversal) :
    localBindings catalog bindings traversals =
      HashMap.insertAll Binding.var (fun b => .node b.typeName)
        (traversals.foldl (addTraversal catalog) ∅) bindings := rfl

variable {catalog : Catalog} {v property : String}

lemma lookup_addTraversal {t : Traversal} {edge : EdgeType}
    (hedge : catalog.lookupEdgeByName t.edgeName = some edge) (m : HashMap String BoundVariable)
    (v : String) :
    (addTraversal catalog m t).lookup v =
      (m.lookup v).or (if t.Names v then some (t.declaredType edge v) else none) := by
  unfold addTraversal
  rw [hedge]
  dsimp only
  cases hname : t.edgeBinding with
  | none =>
    simp only [lookup_orInsert, Option.or_assoc, Traversal.Names, Traversal.declaredType, hname]
    by_cases hsrc : t.src = v <;> by_cases hdst : t.dst = v <;> simp [hsrc, hdst]
  | some name =>
    simp only [lookup_orInsert, Option.or_assoc, Traversal.Names, Traversal.declaredType, hname]
    by_cases hsrc : t.src = v <;> by_cases hdst : t.dst = v <;> by_cases hn : name = v <;>
      simp [hsrc, hdst, hn]

lemma lookup_foldl_addTraversal {ts : List Traversal}
    (hts : ∀ t ∈ ts, ∃ edge, catalog.lookupEdgeByName t.edgeName = some edge)
    (m : HashMap String BoundVariable) (v : String) :
    (ts.foldl (addTraversal catalog) m).lookup v =
      (m.lookup v).or ((ts.find? (·.Names v)).bind fun t =>
        (catalog.lookupEdgeByName t.edgeName).map (t.declaredType · v)) := by
  induction ts generalizing m with
  | nil => simp
  | cons t ts ih =>
    obtain ⟨edge, hedge⟩ := hts t mem_cons_self
    rw [foldl_cons, ih fun t' ht' => hts t' (mem_cons_of_mem _ ht'),
      lookup_addTraversal hedge, Option.or_assoc, List.find?_cons]
    by_cases hnames : t.Names v
    · simp [hnames, hedge]
    · simp [hnames]

lemma lookup_insertBindings {bindings : List Binding} (hv : ∀ b ∈ bindings, b.var ≠ v)
    (m : HashMap String BoundVariable) :
    (HashMap.insertAll Binding.var (fun b => .node b.typeName) m bindings).lookup v =
      m.lookup v := by
  induction bindings generalizing m with
  | nil => rfl
  | cons b bs ih =>
    show (HashMap.insertAll _ _ (m.insert b.var _) bs).lookup v = _
    rw [ih (fun b' hb' => hv b' (mem_cons_of_mem _ hb')),
      AList.lookup_insert_ne (hv b mem_cons_self).symm]

/-- The type lowering finds for a variable that no binding of the block binds. -/
lemma localBindings_or_eq {env : LowerEnv} {clauses : List Clause} (h : Lowerable env clauses)
    (hv : ∀ b ∈ bindingsOf clauses, b.var ≠ v) :
    ((localBindings env.catalog (bindingsOf clauses) (traversalsOf clauses)).lookup v).or
      (env.typeCtx.bindings.lookup v) = collectedType env clauses v := by
  rw [localBindings_eq, lookup_insertBindings hv, lookup_foldl_addTraversal h.edges, collectedType]
  cases hfind : (traversalsOf clauses).find? (·.Names v) with
  | none => rfl
  | some t =>
    obtain ⟨edge, hedge⟩ := h.edges t (mem_of_find?_eq_some hfind)
    dsimp only [Option.bind_some]
    rw [hedge]
    rfl

/-- A binding of the block gives its variable the type it declares. -/
lemma localBindings_bound {catalog : Catalog} {bindings : List Binding} {ts : List Traversal}
    {v : String} (hv : ∃ b ∈ bindings, b.var = v) :
    ∃ b ∈ bindings, b.var = v ∧
      (localBindings catalog bindings ts).lookup v = some (.node b.typeName) := by
  rw [localBindings_eq]
  generalize ts.foldl (addTraversal catalog) ∅ = m
  induction bindings using List.reverseRecOn with
  | nil => simp at hv
  | append_singleton bs b ih =>
    rw [HashMap.insertAll_append]
    show ∃ b' ∈ bs ++ [b], b'.var = v ∧ ((HashMap.insertAll _ _ m bs).insert b.var _).lookup v = _
    by_cases hbv : b.var = v
    · subst hbv
      exact ⟨b, by simp, rfl, AList.lookup_insert _⟩
    · obtain ⟨b', hb', hvar, hlookup⟩ := ih (by
        obtain ⟨b', hb', hvar⟩ := hv
        rcases mem_append.mp hb' with hb' | hb'
        · exact ⟨b', hb', hvar⟩
        · rw [mem_singleton.mp hb'] at hvar
          exact absurd hvar hbv)
      refine ⟨b', mem_append_left _ hb', hvar, ?_⟩
      rw [AList.lookup_insert_ne (Ne.symm hbv), hlookup]

/-! ### The types of the checker -/

/-- The parameter types lowering reads are the ones the checker declared. -/
lemma declaredParamTypes_eq {params : List Param} {types : ParamTypes}
    (h : parseDeclaredParamTypes params = .ok types) : declaredParamTypes params = types := by
  unfold parseDeclaredParamTypes at h
  unfold declaredParamTypes
  generalize (∅ : ParamTypes) = m at h ⊢
  induction params generalizing m with
  | nil =>
    cases h
    rfl
  | cons p ps ih =>
    rw [foldlM_cons, bind_eq_ok_iff] at h
    obtain ⟨m', hp, hps⟩ := h
    rw [foldl_cons]
    split_ifs at hp with hname
    · cases hp
    · cases htype : fromParamTypeName p.typeName p.nullable with
      | none => rw [htype] at hp; cases hp
      | some t =>
        rw [htype] at hp
        cases hp
        exact ih _ hps

lemma isScalarStringProperty_eq {bound : BoundVariable} {prop : PropType}
    (h : boundProperty catalog property bound = .ok prop) :
    isScalarStringProperty catalog property bound = prop.isScalarString := by
  cases bound with
  | node typeName =>
    unfold boundProperty at h
    dsimp only at h
    cases htype : catalog.nodeTypes.lookup typeName with
    | none => rw [htype] at h; cases h
    | some nodeType =>
      rw [htype] at h
      dsimp only at h
      cases hprop : nodeType.properties.lookup property with
      | none => rw [hprop] at h; cases h
      | some p =>
        rw [hprop] at h
        cases h
        simp [isScalarStringProperty, htype, hprop]
  | edge typeName =>
    unfold boundProperty at h
    dsimp only at h
    cases htype : catalog.lookupEdgeByName typeName with
    | none => rw [htype] at h; cases h
    | some edgeType =>
      rw [htype] at h
      dsimp only at h
      cases hprop : edgeType.properties.lookup property with
      | none => rw [hprop] at h; cases h
      | some p =>
        rw [hprop] at h
        cases h
        simp [isScalarStringProperty, htype, hprop]

/-- A property operand is typed by the property of the type its variable is bound to. -/
lemma resolvePropAccess_ok {ctx : TypeContext} {l : PropType}
    (h : resolvePropAccess catalog ctx v property = .ok (.scalar l)) :
    ∃ bound, ctx.bindings.lookup v = some bound ∧
      isScalarStringProperty catalog property bound = l.isScalarString := by
  unfold resolvePropAccess at h
  cases hv : ctx.bindings.lookup v with
  | none => rw [hv] at h; cases h
  | some bound =>
    rw [hv] at h
    dsimp only at h
    rw [bind_eq_ok_iff] at h
    obtain ⟨prop, hprop, h⟩ := h
    split_ifs at h
    · cases h
    · cases h
      exact ⟨bound, rfl, isScalarStringProperty_eq hprop⟩

/-- The left operand of an accepted `contains` is a scalar `String` or a list. -/
lemma typecheckFilter_contains {params : ParamTypes} {f : Filter} {ctx : TypeContext}
    (hop : f.op = .contains) (h : typecheckFilter catalog params f ctx = .ok ()) :
    ∃ l, resolveExprType catalog ctx params f.left = .ok (.scalar l) ∧
      (l.isScalarString = true ∨ l.list = true) := by
  simp only [typecheckFilter, bind_eq_ok_iff] at h
  obtain ⟨left, hleft, right, -, h⟩ := h
  unfold checkOperands at h
  cases left with
  | node typeName => cases h
  | aggregate => cases h
  | scalar l =>
    cases right with
    | node typeName => cases h
    | aggregate => cases h
    | scalar r =>
      refine ⟨l, hleft, ?_⟩
      dsimp only at h
      split_ifs at h with hblob
      · cases h
      · rw [hop] at h
        dsimp only at h
        unfold checkContains at h
        by_cases hstring : l.isScalarString = true
        · exact .inl hstring
        · rw [if_neg hstring] at h
          right
          by_contra hlist
          rw [if_pos (by simpa using hlist)] at h
          cases h

/-! ### The two agree -/

/-- A filter clause of a block with the context it is checked in. -/
structure CheckedFilter (catalog : Catalog) (params : ParamTypes) (scope : Scope) (f : Filter)
    (ctx : TypeContext) : Prop where
  clause : ∃ pre post, scope.clauses = pre ++ .filter f :: post ∧
    typecheckClauses catalog params pre scope.ctx = .ok ctx
  accepted : typecheckFilter catalog params f ctx = .ok ()

/-- The operator is the one for the type of the left operand. -/
def ResolvesAs (op : CompOp) (left : PropType) : Prop :=
  (left.isScalarString = true → op = .stringContains) ∧ (left.list = true → op = .contains)

/-- What is collected for the left operand of a `contains` agrees with its type. A literal list, a
text and a parameter are typed the same way in both phases. -/
def LeftAgrees (env : LowerEnv) (clauses : List Clause) (ctx : TypeContext) : Expr → Prop
  | .propAccess v property => (∃ b ∈ bindingsOf clauses, b.var = v) ∨
      (collectedType env clauses v).any (isScalarStringProperty env.catalog property) =
        (ctx.bindings.lookup v).any (isScalarStringProperty env.catalog property)
  | .literal .null => False
  | _ => True

lemma resolvesAs_iff {b : Bool} {l : PropType}
    (h : l.isScalarString = true ∨ l.list = true) :
    ResolvesAs (if b then .stringContains else .contains) l ↔ b = l.isScalarString := by
  have hexcl : l.isScalarString = true → l.list = false := by
    intro hs
    simp only [isScalarString, Bool.and_eq_true, Bool.not_eq_true'] at hs
    exact hs.2
  unfold ResolvesAs
  cases b <;> cases hs : l.isScalarString <;> cases hl : l.list <;> simp_all

lemma Option.map_getD_false {α : Type*} (o : Option α) (p : α → Bool) :
    (o.map p).getD false = o.any p := by
  cases o <;> rfl

section Agree

variable {env : LowerEnv} {params : ParamTypes} {clauses : List Clause} {f : Filter}
  {ctx ctx' : TypeContext} {l : PropType}

/-- A property operand is resolved by what is collected for its variable. -/
lemma resolveFilterOp_propAccess (hlow : Lowerable env clauses)
    (htyped : ∀ b ∈ bindingsOf clauses, ctx'.bindings.lookup b.var = some (.node b.typeName))
    (hgrows : ctx.Extends ctx') (hop : f.op = .contains) (hleft : f.left = .propAccess v property)
    (htype : resolveExprType env.catalog ctx params f.left = .ok (.scalar l))
    (hl : l.isScalarString = true ∨ l.list = true) :
    ResolvesAs (resolveFilterOp env
        (localBindings env.catalog (bindingsOf clauses) (traversalsOf clauses)) f) l ↔
      LeftAgrees env clauses ctx f.left := by
  rw [hleft] at htype
  obtain ⟨bound, hbound, hprop⟩ := resolvePropAccess_ok htype
  rw [resolveFilterOp, if_neg (not_not.mpr hop), hleft]
  dsimp only
  rw [resolvesAs_iff hl, Option.map_getD_false, LeftAgrees, hbound, Option.any_some, hprop]
  by_cases hown : ∃ b ∈ bindingsOf clauses, b.var = v
  · -- a binding of the block declares the type the checker has for the variable
    obtain ⟨b, hb, rfl, hlocal⟩ := @localBindings_bound env.catalog _ (traversalsOf clauses) _ hown
    have hsame : bound = .node b.typeName := by
      have := hgrows _ _ hbound
      rw [htyped b hb] at this
      exact (Option.some.inj this).symm
    rw [hlocal, Option.some_or, Option.any_some, ← hsame, hprop]
    simp only [true_iff]
    exact .inl hown
  · have hne : ∀ b ∈ bindingsOf clauses, b.var ≠ v := fun b hb heq => hown ⟨b, hb, heq⟩
    rw [localBindings_or_eq hlow hne]
    simp only [hown, false_or]

/-- A literal operand is a text, a list or `null`. -/
lemma resolveFilterOp_literal {lit : Literal} {locals : HashMap String BoundVariable}
    (hop : f.op = .contains) (hleft : f.left = .literal lit)
    (htype : resolveExprType env.catalog ctx params f.left = .ok (.scalar l))
    (hl : l.isScalarString = true ∨ l.list = true) :
    ResolvesAs (resolveFilterOp env locals f) l ↔ LeftAgrees env clauses ctx f.left := by
  rw [hleft, resolveExprType, bind_eq_ok_iff] at htype
  obtain ⟨l', hlit, heq⟩ := htype
  cases heq
  rw [resolveFilterOp, if_neg (not_not.mpr hop), hleft]
  dsimp only
  rw [resolvesAs_iff hl]
  cases lit with
  | null =>
    cases hlit
    simp [LeftAgrees, isScalarString, ofScalar]
  | string t =>
    cases hlit
    simp [LeftAgrees, isScalarString, ofScalar]
  | list items =>
    have hlist : l.isScalarString = false := by
      cases items with
      | nil =>
        cases hlit
        rfl
      | cons item items =>
        rw [literalType, bind_eq_ok_iff] at hlit
        obtain ⟨first, -, hlit⟩ := hlit
        split_ifs at hlit
        · cases hlit
        · rw [bind_eq_ok_iff] at hlit
          obtain ⟨_, -, heq⟩ := hlit
          cases heq
          simp [isScalarString, listOf]
    simp [LeftAgrees, hlist]
  | integer i | float bits | bool b | date d | dateTime d =>
    cases hlit
    simp [isScalarString, ofScalar] at hl

/-- A parameter has one type in both phases. -/
lemma resolveFilterOp_var {name : String} {locals : HashMap String BoundVariable}
    (hparams : env.paramTypes = params) (hop : f.op = .contains) (hleft : f.left = .var name)
    (htype : resolveExprType env.catalog ctx params f.left = .ok (.scalar l))
    (hl : l.isScalarString = true ∨ l.list = true) :
    ResolvesAs (resolveFilterOp env locals f) l := by
  rw [hleft, resolveExprType] at htype
  rw [resolveFilterOp, if_neg (not_not.mpr hop), hleft]
  dsimp only
  rw [resolvesAs_iff hl, hparams]
  unfold resolveVariable at htype
  cases hparam : params.lookup name with
  | some prop =>
    rw [hparam] at htype
    cases htype
    rfl
  | none =>
    rw [hparam] at htype
    cases hbound : ctx.bindings.lookup name with
    | none => rw [hbound] at htype; cases htype
    | some bound =>
      rw [hbound] at htype
      cases bound <;> cases htype

/-- Any other expression is neither a scalar `String` nor a list. -/
lemma resolveExprType_computed {e : Expr} (haliases : ctx.aliases = ∅)
    (htype : resolveExprType catalog ctx params e = .ok (.scalar l))
    (hl : l.isScalarString = true ∨ l.list = true) :
    (∃ v property, e = .propAccess v property) ∨ (∃ lit, e = .literal lit) ∨ ∃ n, e = .var n := by
  have hno : ∀ s : ScalarType, s ≠ .string → l = .ofScalar s false → False := by
    rintro s hs rfl
    simp [isScalarString, ofScalar, hs] at hl
  cases e with
  | propAccess v property => exact .inl ⟨v, property, rfl⟩
  | literal lit => exact .inr (.inl ⟨lit, rfl⟩)
  | var n => exact .inr (.inr ⟨n, rfl⟩)
  | now =>
    exfalso
    rw [resolveExprType] at htype
    cases htype
    exact hno _ (by simp) rfl
  | nearest v property query =>
    exfalso
    rw [resolveExprType, bind_eq_ok_iff] at htype
    obtain ⟨dim, -, htype⟩ := htype
    split at htype
    · split_ifs at htype
      · cases htype
        exact hno _ (by simp) rfl
      · cases htype
    · simp only [bind_eq_ok_iff] at htype
      obtain ⟨_, -, _, -, htype⟩ := htype
      cases htype
      exact hno _ (by simp) rfl
  | search field query | matchText field query | bm25 field query =>
    exfalso
    simp only [resolveExprType, bind_eq_ok_iff] at htype
    obtain ⟨_, -, _, -, _, -, _, -, _, -, htype⟩ := htype
    cases htype
    exact hno _ (by simp) rfl
  | fuzzy field query maxEdits =>
    exfalso
    cases maxEdits with
    | none =>
      simp only [resolveExprType, bind_eq_ok_iff] at htype
      obtain ⟨_, -, _, -, _, -, _, -, _, -, _, -, htype⟩ := htype
      cases htype
      exact hno _ (by simp) rfl
    | some edits =>
      simp only [resolveExprType, bind_eq_ok_iff] at htype
      obtain ⟨_, -, _, -, _, -, _, -, _, -, _, -, _, -, htype⟩ := htype
      cases htype
      exact hno _ (by simp) rfl
  | rrf primary secondary k =>
    exfalso
    cases k with
    | none =>
      rw [resolveExprType] at htype
      split_ifs at htype
      · cases htype
      · cases htype
      · simp only [bind_eq_ok_iff] at htype
        obtain ⟨_, -, _, -, _, -, _, -, _, -, htype⟩ := htype
        cases htype
        exact hno _ (by simp) rfl
    | some kExpr =>
      rw [resolveExprType] at htype
      split_ifs at htype
      · cases htype
      · cases htype
      · simp only [bind_eq_ok_iff] at htype
        obtain ⟨_, -, _, -, _, -, _, -, _, -, _, -, _, -, htype⟩ := htype
        cases htype
        exact hno _ (by simp) rfl
  | aggregate func arg =>
    exfalso
    simp only [resolveExprType, bind_eq_ok_iff] at htype
    obtain ⟨_, -, _, -, _, -, htype⟩ := htype
    cases htype
  | aliasRef name =>
    exfalso
    rw [resolveExprType, haliases] at htype
    cases htype

end Agree

/-- In every block of an accepted query, a `contains` is resolved by the type its left operand was
checked with exactly when what lowering collects for that operand agrees with it. -/
theorem resolveFilterOp_contains_iff {catalog : Catalog} {query : QueryDecl} {ctx : TypeContext}
    (h : typecheckQuery catalog query = .ok ctx) :
    ∃ params ir, parseDeclaredParamTypes query.params = .ok params ∧
      lowerQuery catalog query ctx = .ok ir ∧
      ∀ scope, Inside (query.lowerEnv catalog ctx) params (query.scope ir.pipeline) scope →
      ∀ f filterCtx, CheckedFilter catalog params scope f filterCtx → f.op = .contains →
      ∃ l, resolveExprType catalog filterCtx params f.left = .ok (.scalar l) ∧
        (l.isScalarString = true ∨ l.list = true) ∧
        (ResolvesAs (resolveFilterOp (query.lowerEnv catalog ctx)
            (localBindings catalog (bindingsOf scope.clauses) (traversalsOf scope.clauses)) f) l ↔
          LeftAgrees (query.lowerEnv catalog ctx) scope.clauses filterCtx f.left) := by
  obtain ⟨params, ir, hparams, hir, htop⟩ := lowerQuery_exists h
  refine ⟨params, ir, hparams, hir, fun scope hinside f filterCtx hchecked hop => ?_⟩
  obtain ⟨l, htype, hl⟩ := typecheckFilter_contains hop hchecked.accepted
  refine ⟨l, htype, hl, ?_⟩
  obtain ⟨⟨ctx', haccepted⟩, -⟩ := hinside.lowered htop
  obtain ⟨pre, post, hclauses, hpre⟩ := hchecked.clause
  have hgrows : filterCtx.Extends ctx' := by
    rw [hclauses] at haccepted
    obtain ⟨mid, hmid, hrest⟩ := typecheckClauses_append_ok.mp haccepted
    obtain rfl : mid = filterCtx := Except.ok.inj (hmid.symm.trans hpre)
    exact typecheckClauses_extends hrest
  have haliases : filterCtx.aliases = ∅ := by
    rw [typecheckClauses_aliases hpre, hinside.aliases]
    rfl
  have htypes : (query.lowerEnv catalog ctx).paramTypes = params := declaredParamTypes_eq hparams
  rcases resolveExprType_computed haliases htype hl with ⟨v, property, hleft⟩ | ⟨lit, hleft⟩ |
    ⟨name, hleft⟩
  · exact resolveFilterOp_propAccess (Lowerable.of_typecheck haccepted)
      (typecheckClauses_typed haccepted).bindings hgrows hop hleft htype hl
  · exact resolveFilterOp_literal hop hleft htype hl
  · have hvar := @resolveFilterOp_var (query.lowerEnv catalog ctx) params f filterCtx l name
      (localBindings catalog (bindingsOf scope.clauses) (traversalsOf scope.clauses)) htypes hop
      hleft htype hl
    rw [hleft]
    exact iff_of_true hvar trivial

/-- `$c.name contains "Acme"` -/
def nameContains : Filter := ⟨.propAccess "c" "name", .contains, .literal (.string "Acme")⟩

/-- `$c: Company  $c worksAt $p  $c.name contains "Acme"` -/
def acmeQuery : QueryDecl :=
  staffQuery [.binding ⟨"c", "Company", []⟩, .traversal staffTraversal, .filter nameContains]

theorem resolveFilterOp_acme : ∃ ctx l, typecheckQuery staffCatalog acmeQuery = .ok ctx ∧
    l.isScalarString = true ∧
    ResolvesAs (resolveFilterOp (acmeQuery.lowerEnv staffCatalog ctx)
      (localBindings staffCatalog (bindingsOf acmeQuery.matchClause)
        (traversalsOf acmeQuery.matchClause)) nameContains) l := by
  obtain ⟨params, ir, hparams, hir, hall⟩ :=
    @resolveFilterOp_contains_iff staffCatalog acmeQuery _ rfl
  cases hparams
  obtain ⟨l, htype, -, hiff⟩ := hall _ .top nameContains _
    ⟨⟨[.binding ⟨"c", "Company", []⟩, .traversal staffTraversal], [], rfl, rfl⟩, rfl⟩ rfl
  refine ⟨_, l, rfl, ?_, hiff.mpr (.inl ⟨⟨"c", "Company", []⟩, mem_cons_self, rfl⟩)⟩
  cases htype
  rfl

/-- Persons have a bio, companies a name. -/
def bioCatalog : Catalog :=
  let text : HashMap String PropType := ∅
  { staffCatalog with
    nodeTypes := ((∅ : HashMap String NodeType).insert "Person"
      ⟨text.insert "bio" (.ofScalar .string false)⟩).insert "Company"
      ⟨text.insert "name" (.ofScalar .string false)⟩ }

/-- `$p.bio contains "Lean"` -/
def bioContains : Filter := ⟨.propAccess "p" "bio", .contains, .literal (.string "Lean")⟩

/-- `$c: Company  $c worksAt $p  $p.bio contains "Lean"` -/
def bioQuery : QueryDecl :=
  staffQuery [.binding ⟨"c", "Company", []⟩, .traversal staffTraversal, .filter bioContains]

/-- The edge is read backwards, so `$p` is a person; lowering takes it for a company, which has no
bio, and the substring search becomes a membership test. -/
theorem resolveFilterOp_reversed : ∃ ctx params ir l filterCtx,
    typecheckQuery bioCatalog bioQuery = .ok ctx ∧
    parseDeclaredParamTypes bioQuery.params = .ok params ∧
    lowerQuery bioCatalog bioQuery ctx = .ok ir ∧
    CheckedFilter bioCatalog params (bioQuery.scope ir.pipeline) bioContains filterCtx ∧
    resolveExprType bioCatalog filterCtx params bioContains.left = .ok (.scalar l) ∧
    l.isScalarString = true ∧
    resolveFilterOp (bioQuery.lowerEnv bioCatalog ctx)
      (localBindings bioCatalog (bindingsOf bioQuery.matchClause)
        (traversalsOf bioQuery.matchClause)) bioContains = .contains := by
  refine ⟨_, _, _, .ofScalar .string false, _, rfl, rfl, rfl,
    ⟨⟨[.binding ⟨"c", "Company", []⟩, .traversal staffTraversal], [], rfl, rfl⟩, rfl⟩, rfl, rfl, ?_⟩
  rfl

end Omnigraph.Compiler
