import Omnigraph.Compiler.Complete
import Omnigraph.Compiler.Contexts

/-!
# The names a pipeline introduces

A scan and an expand introduce names, expands and filters read them. A pipeline is well scoped when
every name is introduced once and read only afterwards; the pipeline of an anti-join starts from
the names introduced before it. What a lowered block introduces follows from its clauses: the
variables of the bindings that are scanned, then for each traversal, in the order they are reached,
the end that was not known, or a temporary name if both were, and the name of its edge row.
-/

namespace Omnigraph.Compiler

open List Except

/-! ### Well-scoped pipelines -/

/-- The variables an expression reads. -/
def IRExpr.reads : IRExpr → List String
  | .propAccess v _ => [v]
  | .nearest v _ query => v :: query.reads
  | .search field query | .matchText field query | .bm25 field query => field.reads ++ query.reads
  | .fuzzy field query none => field.reads ++ query.reads
  | .fuzzy field query (some maxEdits) => field.reads ++ query.reads ++ maxEdits.reads
  | .rrf primary secondary none => primary.reads ++ secondary.reads
  | .rrf primary secondary (some k) => primary.reads ++ secondary.reads ++ k.reads
  | .var name => [name]
  | .aggregate _ arg => arg.reads
  | .param _ | .literal _ | .aliasRef _ => []

def IRFilter.reads (f : IRFilter) : List String := f.left.reads ++ f.right.reads

/-- The names an operation adds for those behind it. The anonymous end of an expand has none. -/
def IROp.introduces : IROp → List String
  | .nodeScan v _ _ => [v]
  | .expand e => [e.dstVar].filter (· ≠ "_") ++ e.edgeBinding.toList
  | .filter _ | .antiJoin _ _ => []

/-- The names in scope behind an operation. -/
def IROp.extend (op : IROp) (scope : Set String) : Set String := {v | v ∈ op.introduces} ∪ scope

mutual

/-- An operation reads only names in scope and introduces only new ones. The filters of a scan or
an expand are evaluated on the rows it produces, so they may read its own names. -/
def IROp.WellScoped : IROp → Set String → Prop
  | .nodeScan v typeName filters, scope =>
    v ∉ scope ∧ ∀ f ∈ filters, ∀ u ∈ f.reads, u ∈ (IROp.nodeScan v typeName filters).extend scope
  | .expand e, scope =>
    e.srcVar ∈ scope ∧ (IROp.expand e).introduces.Nodup ∧
      (∀ u ∈ (IROp.expand e).introduces, u ∉ scope) ∧
      ∀ f ∈ e.dstFilters, ∀ u ∈ f.reads, u ∈ (IROp.expand e).extend scope
  | .filter f, scope => ∀ u ∈ f.reads, u ∈ scope
  | .antiJoin outerVar inner, scope =>
    outerVar ≠ "" ∧ outerVar ∈ scope ∧ WellScoped inner scope

/-- The operations of a pipeline, from left to right. -/
def WellScoped : List IROp → Set String → Prop
  | [], _ => True
  | op :: ops, scope => op.WellScoped scope ∧ WellScoped ops (op.extend scope)

end

/-- The names in scope behind a pipeline. -/
def extendAll (ops : List IROp) (scope : Set String) : Set String :=
  ops.foldl (fun scope op => op.extend scope) scope

variable {ops : List IROp} {scope : Set String}

lemma mem_extendAll {v : String} :
    v ∈ extendAll ops scope ↔ v ∈ ops.flatMap IROp.introduces ∨ v ∈ scope := by
  induction ops generalizing scope with
  | nil => simp [extendAll]
  | cons op ops ih =>
    show v ∈ extendAll ops (op.extend scope) ↔ _
    rw [ih, flatMap_cons, mem_append, IROp.extend, Set.mem_union, Set.mem_ofPred_eq,
      or_left_comm, or_assoc]

lemma wellScoped_append {ops' : List IROp} :
    WellScoped (ops ++ ops') scope ↔
      WellScoped ops scope ∧ WellScoped ops' (extendAll ops scope) := by
  induction ops generalizing scope with
  | nil => simp [WellScoped, extendAll]
  | cons op ops ih =>
    rw [cons_append, WellScoped, WellScoped, ih, and_assoc]
    rfl

/-! ### The variables of a clause -/

/-- The variables an expression reads: a name declared as a parameter is none. -/
def Expr.vars (paramNames : List String) : Expr → List String
  | .propAccess v _ => [v]
  | .nearest v _ query => v :: query.vars paramNames
  | .search field query | .matchText field query | .bm25 field query =>
    field.vars paramNames ++ query.vars paramNames
  | .fuzzy field query none => field.vars paramNames ++ query.vars paramNames
  | .fuzzy field query (some maxEdits) =>
    field.vars paramNames ++ query.vars paramNames ++ maxEdits.vars paramNames
  | .rrf primary secondary none => primary.vars paramNames ++ secondary.vars paramNames
  | .rrf primary secondary (some k) =>
    primary.vars paramNames ++ secondary.vars paramNames ++ k.vars paramNames
  | .var name => if name ∈ paramNames then [] else [name]
  | .aggregate _ arg => arg.vars paramNames
  | .now | .literal _ | .aliasRef _ => []

def Filter.vars (paramNames : List String) (f : Filter) : List String :=
  f.left.vars paramNames ++ f.right.vars paramNames

/-- The variables the inline matches of a binding compare with. -/
def matchVars (paramNames : List String) (propMatches : List PropMatch) : List String :=
  propMatches.flatMap fun pm => match pm.value with
    | .var name => if name ∈ paramNames then [] else [name]
    | .literal _ | .now => []

lemma lowerExpr_reads (paramNames : List String) (e : Expr) :
    (lowerExpr paramNames e).reads = e.vars paramNames := by
  fun_induction lowerExpr paramNames e <;> simp_all [IRExpr.reads, Expr.vars]
  case case11 name =>
    unfold lowerName
    split_ifs <;> simp [IRExpr.reads]

lemma lowerFilter_reads (env : LowerEnv) (locals : HashMap String BoundVariable) (f : Filter) :
    (lowerFilter env locals f).reads = f.vars env.paramNames := by
  simp only [lowerFilter, IRFilter.reads, lowerExpr_reads, Filter.vars]

lemma lowerMatchValue_reads (paramNames : List String) (value : MatchValue) :
    (lowerMatchValue paramNames value).reads = match value with
      | .var name => if name ∈ paramNames then [] else [name]
      | .literal _ | .now => [] := by
  cases value with
  | literal l => rfl
  | now => rfl
  | var name =>
    simp only [lowerMatchValue, lowerName]
    split_ifs <;> rfl

/-- The filters of a binding read its variable and what its matches compare with. -/
lemma buildBindingFilters_reads {env : LowerEnv} {b : Binding} {filters : List IRFilter}
    (h : buildBindingFilters env b = .ok filters) {u : String} :
    (∃ f ∈ filters, u ∈ f.reads) ↔
      (b.propMatches ≠ [] ∧ u = b.var) ∨ u ∈ matchVars env.paramNames b.propMatches := by
  unfold buildBindingFilters at h
  cases htype : env.catalog.nodeTypes.lookup b.typeName with
  | none => rw [htype] at h; cases h
  | some nodeType =>
    rw [htype] at h
    dsimp only at h
    have hreads : ∀ pm f, buildBindingFilter env.paramNames b.var nodeType pm = .ok f →
        f.reads = b.var :: (lowerMatchValue env.paramNames pm.value).reads := by
      intro pm f hf
      unfold buildBindingFilter at hf
      cases hprop : nodeType.properties.lookup pm.propName with
      | none => rw [hprop] at hf; cases hf
      | some prop =>
        rw [hprop] at hf
        cases hf
        rfl
    constructor
    · rintro ⟨f, hf, hu⟩
      obtain ⟨pm, hpm, hbuild⟩ := (mem_mapM h).mp hf
      rw [hreads pm f hbuild, lowerMatchValue_reads] at hu
      rcases mem_cons.mp hu with rfl | hu
      · exact .inl ⟨ne_nil_of_mem hpm, rfl⟩
      · exact .inr (mem_flatMap.mpr ⟨pm, hpm, hu⟩)
    · rintro (⟨hne, rfl⟩ | hu)
      · obtain ⟨pm, hpm⟩ := exists_mem_of_ne_nil _ hne
        obtain ⟨f, hf⟩ := exists_mapM_eq_ok_iff.mp ⟨_, h⟩ pm hpm
        exact ⟨f, (mem_mapM h).mpr ⟨pm, hpm, hf⟩, by rw [hreads pm f hf]; simp⟩
      · obtain ⟨pm, hpm, hu⟩ := mem_flatMap.mp hu
        obtain ⟨f, hf⟩ := exists_mapM_eq_ok_iff.mp ⟨_, h⟩ pm hpm
        refine ⟨f, (mem_mapM h).mpr ⟨pm, hpm, hf⟩, ?_⟩
        rw [hreads pm f hf, lowerMatchValue_reads]
        exact mem_cons_of_mem _ hu

/-! ### The names of a block -/

/-- The bindings that are scanned. -/
def scannedBindings (clauses : List Clause) : List Binding :=
  (bindingsOf clauses).filter (·.var ∉ deferredSet (bindingsOf clauses) (traversalsOf clauses))

/-- The traversals that are reached from the scanned and the outer variables, in this order. -/
def takenTraversals (clauses : List Clause) (bound : List String) : List Traversal :=
  reachOrder (traversalsOf clauses) (startVars clauses bound)

/-- What is known once a traversal is taken: its two ends as well. -/
def learn (known : List String) (t : Traversal) : List String :=
  Spread.learn Traversal.src Traversal.dst (· ≠ "_") known t

/-- Both ends are known already. -/
def Traversal.Closes (t : Traversal) (known : List String) : Prop :=
  t.src ∈ known ∧ t.dst ∈ known

instance (t : Traversal) (known : List String) : Decidable (t.Closes known) :=
  inferInstanceAs (Decidable (_ ∧ _))

/-- The end that is not known, or a temporary name if both are. -/
def Traversal.target (known : List String) (t : Traversal) : String :=
  if t.Closes known then tempVar t else if t.dst ∈ known then t.src else t.dst

/-- The names a traversal adds when it is taken. -/
def Traversal.names (known : List String) (t : Traversal) : List String :=
  [t.target known].filter (· ≠ "_") ++ t.namedEdgeBinding.toList

/-- The names traversals add, taken one after the other. -/
def namesOf : List String → List Traversal → List String
  | _, [] => []
  | known, t :: ts => t.names known ++ namesOf (learn known t) ts

/-- The traversals among them that close a cycle. -/
def closingOf : List String → List Traversal → List Traversal
  | _, [] => []
  | known, t :: ts => (if t.Closes known then [t] else []) ++ closingOf (learn known t) ts

/-- The variables bound behind a block, in it or before it. -/
def boundAfter (clauses : List Clause) (bound : List String) : List String :=
  (takenTraversals clauses bound).foldl learn (startVars clauses bound)

/-- The names in scope behind a block, for its filters and its `not` blocks. -/
def scopeAfter (clauses : List Clause) (bound : List String) (scope : Set String) : Set String :=
  {v | v ∈ scope ∨ (∃ b ∈ scannedBindings clauses, b.var = v) ∨
    v ∈ namesOf (startVars clauses bound) (takenTraversals clauses bound)}

/-- The inline matches a variable is introduced with: those of its last binding that has any. -/
def lastMatches (clauses : List Clause) (v : String) : List PropMatch :=
  (((bindingsOf clauses).filter fun b => b.var = v ∧ b.propMatches ≠ []).getLast?.map
    Binding.propMatches).getD []

end Omnigraph.Compiler
