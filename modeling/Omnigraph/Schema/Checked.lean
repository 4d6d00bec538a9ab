import Omnigraph.Schema.Parsed

/-!
# Validated annotations and constraints

What the two validation passes of the parser leave: constraints name columns that exist, a node has
one key at most, and a property of a node or an edge has one source of embeddings at most.
-/

namespace Omnigraph.Schema

open List Except

open Compiler (PropType ScalarType)

/-! ### Constraints -/

def Constraint.isKey : Constraint → Bool
  | .key _ => true
  | _ => false

/-- Keys, ranges and checks are for nodes. -/
def Constraint.onEdges : Constraint → Bool
  | .unique _ | .index _ => true
  | _ => false

/-- The columns a constraint can name. -/
def ConstraintContext.HasColumn (ctx : ConstraintContext) (name : String) : Prop :=
  name ∈ ctx.properties.map PropDecl.name ∨ isEndpointColumn ctx name = true

variable {p : PropDecl} {a : Annotation}

section Constraints

variable {ctx : ConstraintContext}

lemma requireProperty_eq_ok {label name : String} (h : requireProperty ctx label name = .ok p) :
    ctx.HasColumn name := by
  unfold requireProperty propertyNamed at h
  cases hlook : (HashMap.insertAll PropDecl.name id ∅ ctx.properties).lookup name with
  | none =>
    rw [hlook] at h
    cases h
  | some q =>
    rcases HashMap.lookup_insertAll_iff.mp hlook with ⟨a, hlast, rfl, -⟩ | ⟨-, hc⟩
    · exact .inl (List.mem_map_of_mem hlast.mem)
    · rw [AList.lookup_empty] at hc
      cases hc

variable {keys keys' : ℕ} {cs : List Constraint}

/-- One constraint, after `keys` key constraints. -/
lemma validateTypeConstraint_eq_ok {c : Constraint}
    (h : validateTypeConstraint ctx keys c = .ok keys') :
    (∀ name ∈ c.columns, ctx.HasColumn name) ∧ (ctx.isEdge = true → c.onEdges = true) ∧
      keys' = keys + (if c.isKey then 1 else 0) ∧ (c.isKey = true → keys = 0) := by
  cases c with
  | key columns =>
    simp only [validateTypeConstraint, bind_eq_ok_iff, ensure_eq_ok_iff,
      forM_eq_ok_iff] at h
    obtain ⟨_, hedge, _, hkeys, _, hcols, hret⟩ := h
    cases hret
    refine ⟨fun name hname => ?_, fun hc => ?_, rfl, fun _ => hkeys⟩
    · have hcol := hcols name hname
      simp only [validateKeyColumn, bind_eq_ok_iff] at hcol
      obtain ⟨p, hp, -⟩ := hcol
      exact requireProperty_eq_ok hp
    · rw [hedge] at hc
      cases hc
  | unique columns =>
    simp only [validateTypeConstraint, bind_eq_ok_iff, forM_eq_ok_iff] at h
    obtain ⟨_, hcols, hret⟩ := h
    cases hret
    refine ⟨fun name hname => ?_, fun _ => rfl, rfl, fun hc => by cases hc⟩
    have hcol := hcols name hname
    unfold validateUniqueColumn at hcol
    split_ifs at hcol with hend
    · exact .inr hend
    · simp only [bind_eq_ok_iff] at hcol
      obtain ⟨p, hp, -⟩ := hcol
      exact requireProperty_eq_ok hp
  | index columns =>
    simp only [validateTypeConstraint, bind_eq_ok_iff, forM_eq_ok_iff] at h
    obtain ⟨_, hcols, hret⟩ := h
    cases hret
    refine ⟨fun name hname => ?_, fun _ => rfl, rfl, fun hc => by cases hc⟩
    have hcol := hcols name hname
    unfold validateIndexColumn at hcol
    split_ifs at hcol with hend
    · exact .inr hend
    · simp only [bind_eq_ok_iff] at hcol
      obtain ⟨p, hp, -⟩ := hcol
      exact requireProperty_eq_ok hp
  | range property min max =>
    simp only [validateTypeConstraint, bind_eq_ok_iff, ensure_eq_ok_iff] at h
    obtain ⟨_, hedge, p, hp, _, -, hret⟩ := h
    cases hret
    refine ⟨fun name hname => ?_, fun hc => ?_, rfl, fun hc => by cases hc⟩
    · rw [mem_singleton.mp hname]
      exact requireProperty_eq_ok hp
    · rw [hedge] at hc
      cases hc
  | check property pattern =>
    simp only [validateTypeConstraint, bind_eq_ok_iff, ensure_eq_ok_iff] at h
    obtain ⟨_, hedge, p, hp, _, -, hret⟩ := h
    cases hret
    refine ⟨fun name hname => ?_, fun hc => ?_, rfl, fun hc => by cases hc⟩
    · rw [mem_singleton.mp hname]
      exact requireProperty_eq_ok hp
    · rw [hedge] at hc
      cases hc

/-- All constraints, after `keys` key constraints. -/
lemma validateTypeConstraint_run (h : cs.foldlM (validateTypeConstraint ctx) keys = .ok keys') :
    (∀ c ∈ cs, (∀ name ∈ c.columns, ctx.HasColumn name) ∧
      (ctx.isEdge = true → c.onEdges = true)) ∧
    (cs.filter Constraint.isKey).length ≤ 1 - keys := by
  induction cs generalizing keys with
  | nil => simp
  | cons c cs ih =>
    rw [foldlM_cons, bind_eq_ok_iff] at h
    obtain ⟨keys1, hstep, hrest⟩ := h
    obtain ⟨hcols, hedge, rfl, hkey⟩ := validateTypeConstraint_eq_ok hstep
    obtain ⟨hall, hlen⟩ := ih hrest
    refine ⟨?_, ?_⟩
    · intro d hd
      rcases mem_cons.mp hd with rfl | hd
      · exact ⟨hcols, hedge⟩
      · exact hall d hd
    · cases hc : c.isKey with
      | true =>
        rw [filter_cons_of_pos hc, length_cons]
        rw [hkey hc, hc] at hlen
        rw [hkey hc]
        simp only [if_true] at hlen
        omega
      | false =>
        rw [filter_cons_of_neg (by simp [hc])]
        rw [hc] at hlen
        simpa using hlen

lemma validateTypeConstraints_eq_ok (h : validateTypeConstraints ctx cs = .ok ()) :
    (∀ c ∈ cs, (∀ name ∈ c.columns, ctx.HasColumn name) ∧
      (ctx.isEdge = true → c.onEdges = true)) ∧
    (cs.filter Constraint.isKey).length ≤ 1 := by
  simp only [validateTypeConstraints, bind_eq_ok_iff] at h
  obtain ⟨keys, hrun, -⟩ := h
  exact validateTypeConstraint_run hrun

end Constraints

/-! ### Annotations -/

section Annotations

variable {ctx : PropertyContext}

variable {seen seen' : List String}

lemma validatePropertyAnnotation_eq_ok (h : validatePropertyAnnotation ctx seen a = .ok seen') :
    seen' = a.name :: seen ∧ ( isConstraintAnnotation a.name = true → a.value = none) ∧
      (a.name = "embed" → "embed" ∉ seen ∧ ctx.isEdge = false) := by
  simp only [ validatePropertyAnnotation, bind_eq_ok_iff] at h
  obtain ⟨_, hkind, hrest⟩ := h
  have hnode : a.name = "embed" → ctx.isEdge = false := by
    intro hembed
    simp only [validateAnnotationKind, bind_eq_ok_iff, ensure_eq_ok_iff] at hkind
    obtain ⟨_, -, _, -, _, -, _, -, hedge⟩ := hkind
    rw [← Bool.not_eq_true]
    exact fun hc => hedge ⟨hc, .inr hembed⟩
  split_ifs at hrest with hc hembed
  · simp only [ validateConstraintAnnotation, bind_eq_ok_iff, ensure_eq_ok_iff] at hrest
    obtain ⟨_, ⟨_, hvalue, -⟩, hret⟩ := hrest
    cases hret
    refine ⟨rfl, fun _ => hvalue, fun hembed => ?_⟩
    rw [hembed] at hc
    exact absurd hc (by decide)
  · simp only [ validateEmbedAnnotation, bind_eq_ok_iff, ensure_eq_ok_iff] at hrest
    obtain ⟨_, ⟨_, hseen, -⟩, hret⟩ := hrest
    cases hret
    exact ⟨rfl, fun hc' => absurd hc' hc, fun _ => ⟨hembed ▸ hseen, hnode hembed⟩⟩
  · cases hrest
    exact ⟨rfl, fun hc' => absurd hc' hc, fun hc' => absurd hc' hembed⟩

lemma validatePropertyAnnotation_run {as : List Annotation}
    (h : as.foldlM ( validatePropertyAnnotation ctx) seen = .ok seen') :
    (∀ a ∈ as, ( isConstraintAnnotation a.name = true → a.value = none) ∧
      (a.name = "embed" → ctx.isEdge = false)) ∧
    (as.filter fun a => a.name = "embed").length ≤ if "embed" ∈ seen then 0 else 1 := by
  induction as generalizing seen with
  | nil => simp
  | cons a as ih =>
    rw [foldlM_cons, bind_eq_ok_iff] at h
    obtain ⟨seen1, hstep, hrest⟩ := h
    obtain ⟨rfl, hvalue, hembed⟩ := validatePropertyAnnotation_eq_ok hstep
    obtain ⟨hall, hlen⟩ := ih hrest
    refine ⟨?_, ?_⟩
    · intro b hb
      rcases mem_cons.mp hb with rfl | hb
      · exact ⟨hvalue, fun hc => (hembed hc).2⟩
      · exact hall b hb
    · by_cases hname : a.name = "embed"
      · rw [filter_cons_of_pos (by simpa using hname), length_cons,
          if_neg (hembed hname).1]
        rw [hname, if_pos (by simp)] at hlen
        omega
      · rw [filter_cons_of_neg (by simpa using hname)]
        have hmem : "embed" ∈ a.name :: seen ↔ "embed" ∈ seen := by
          rw [mem_cons]
          exact ⟨fun h => h.resolve_left fun hc => hname hc.symm, .inr⟩
        simpa only [hmem] using hlen

lemma validatePropertyAnnotations_eq_ok (h : validatePropertyAnnotations ctx = .ok ()) :
    (∀ a ∈ ctx.property.annotations, ( isConstraintAnnotation a.name = true → a.value = none) ∧
      (a.name = "embed" → ctx.isEdge = false)) ∧
    (ctx.property.annotations.filter fun a => a.name = "embed").length ≤ 1 := by
  simp only [ validatePropertyAnnotations, bind_eq_ok_iff] at h
  obtain ⟨_, -, _, -, seen, hrun, -⟩ := h
  exact validatePropertyAnnotation_run hrun

end Annotations

/-! ### Declarations -/

section Declarations

variable {interfaces : List InterfaceDecl} {d : NodeDecl} {direct : List PropDecl}

variable (h : ParsedNode interfaces d direct)

include h in
lemma ParsedNode.constraint_columns :
    ∀ c ∈ d.constraints, ∀ name ∈ c.columns, name ∈ d.properties.map PropDecl.name := by
  obtain ⟨mode, hvalid⟩ := h.validated
  intro c hc name hname
  rcases ((validateTypeConstraints_eq_ok hvalid).1 c hc).1 name hname with hcol | hcol
  · exact hcol
  · cases hcol

include h in
/-- A node has one key at most. -/
lemma ParsedNode.key_unique {columns columns' : List String} (hc : .key columns ∈ d.constraints)
    (hc' : .key columns' ∈ d.constraints) : columns = columns' := by
  obtain ⟨mode, hvalid⟩ := h.validated
  have hlen := (validateTypeConstraints_eq_ok hvalid).2
  have hmem : ∀ {columns}, .key columns ∈ d.constraints →
      .key columns ∈ d.constraints.filter Constraint.isKey := fun hc =>
    mem_filter.mpr ⟨hc, rfl⟩
  have h1 := hmem hc
  have h2 := hmem hc'
  cases hfilter : d.constraints.filter Constraint.isKey with
  | nil =>
    rw [hfilter] at h1
    cases h1
  | cons c rest =>
    rw [hfilter, length_cons] at hlen
    have hrest : rest = [] := length_eq_zero_iff.mp (by omega)
    rw [hfilter, hrest, mem_singleton] at h1 h2
    exact Constraint.key.inj (h1.trans h2.symm)

include h in
lemma ParsedNode.grammatical : ∀ c ∈ d.constraints, c.Grammatical := by
  obtain ⟨body, hbody, hsource⟩ := h.source
  have hprops := h.parsed
  rw [h.properties] at hprops
  intro c hc
  rw [h.constraints, hsource, mem_append, mem_append] at hc
  rcases hc with (hc | hc) | hc
  · exact hbody c hc
  · exact desugar_grammatical (fun p hp => hprops p (mem_append_left _ hp)) c hc
  · exact desugar_grammatical (fun p hp => hprops p (mem_append_right _ hp)) c hc

variable {e : EdgeDecl}

lemma ParsedEdge.constraint_columns (h : ParsedEdge e) :
    ∀ c ∈ e.constraints, c.onEdges = true ∧ ∀ name ∈ c.columns,
      name ∈ e.properties.map PropDecl.name ∨ name = "src" ∨ name = "dst" := by
  obtain ⟨mode, hvalid⟩ := h.validated
  intro c hc
  obtain ⟨hcols, hedge⟩ := (validateTypeConstraints_eq_ok hvalid).1 c hc
  refine ⟨hedge rfl, fun name hname => (hcols name hname).imp_right fun hend => ?_⟩
  simpa [isEndpointColumn] using hend

lemma ParsedEdge.grammatical (h : ParsedEdge e) : ∀ c ∈ e.constraints, c.Grammatical := by
  obtain ⟨body, hbody, hconstraints⟩ := h.constraints
  intro c hc
  rw [hconstraints, mem_append] at hc
  rcases hc with hc | hc
  · exact hbody c hc
  · exact desugar_grammatical h.parsed c hc

lemma ParsedEdge.no_embed (h : ParsedEdge e) (hp : p ∈ e.properties) (ha : a ∈ p.annotations) :
    a.name ≠ "embed" := by
  intro hc
  have hedge := ((validatePropertyAnnotations_eq_ok (h.annotations p hp)).1 a ha).2 hc
  cases hedge

end Declarations

end Omnigraph.Schema
