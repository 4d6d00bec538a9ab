import Omnigraph.Compiler.Steps

/-!
# Deferred bindings

Bindings connected by traversals form a component; the first one of it is scanned and the others
wait for an expand. The walk over the components finds exactly the variables that are connected to
a binding declared before all of theirs.
-/

namespace Omnigraph.Compiler

open List

/-! ### Connected variables -/

/-- `v` and `w` are connected by traversals between named variables. -/
def Linked (traversals : List Traversal) : String → String → Prop :=
  Component.Reaches (adjacency traversals)

variable {traversals : List Traversal} {v w : String}

lemma mem_adjacency :
    (v, w) ∈ adjacency traversals ↔ ∃ t ∈ traversals, t.src ≠ "_" ∧ t.dst ≠ "_" ∧
      ((v = t.src ∧ w = t.dst) ∨ (v = t.dst ∧ w = t.src)) := by
  simp only [adjacency, mem_flatMap]
  constructor
  · rintro ⟨t, ht, hmem⟩
    split_ifs at hmem with hn
    · refine ⟨t, ht, hn.1, hn.2, ?_⟩
      simpa using hmem
    · simp at hmem
  · rintro ⟨t, ht, hsrc, hdst, hends⟩
    refine ⟨t, ht, ?_⟩
    rw [if_pos ⟨hsrc, hdst⟩]
    simpa using hends

lemma Linked.symm (h : Linked traversals v w) : Linked traversals w v := by
  induction h with
  | refl => exact .refl
  | tail _ hstep ih =>
    obtain ⟨t, ht, hsrc, hdst, hends⟩ := mem_adjacency.mp hstep
    exact .head (mem_adjacency.mpr ⟨t, ht, hsrc, hdst, hends.symm.imp And.symm And.symm⟩) ih

lemma Linked.trans {u : String} (h : Linked traversals u v) (h' : Linked traversals v w) :
    Linked traversals u w := Relation.ReflTransGen.trans h h'

/-- Only named variables are connected to others. -/
lemma Linked.named (h : Linked traversals v w) (hne : v ≠ w) : w ≠ "_" := by
  rcases Relation.ReflTransGen.cases_tail h with heq | ⟨u, -, huw⟩
  · exact absurd heq.symm hne
  · obtain ⟨t, -, hsrc, hdst, ⟨-, rfl⟩ | ⟨-, rfl⟩⟩ := mem_adjacency.mp huw
    · exact hdst
    · exact hsrc

/-- What is connected to a reached variable is reached. -/
lemma Linked.reached {known : String → Prop} (h : Linked traversals v w)
    (hv : Reached traversals known v) : Reached traversals known w := by
  induction h with
  | refl => exact hv
  | tail _ hstep ih =>
    obtain ⟨t, ht, hsrc, hdst, ⟨rfl, rfl⟩ | ⟨rfl, rfl⟩⟩ := mem_adjacency.mp hstep
    · exact .dst ht ih hdst
    · exact .src ht ih hsrc

/-! ### The walk over the components -/

/-- `v` is the first of `pre ++ [v]` in its component, and `w` another variable of it. -/
def RootOf (traversals : List Traversal) (vars : List String) (w : String) : Prop :=
  ∃ pre v post, vars = pre ++ v :: post ∧ (∀ x ∈ pre, ¬ Linked traversals x v) ∧
    Linked traversals v w ∧ v ≠ w

variable {vars : List String}

lemma rootOf_append_singleton :
    RootOf traversals (vars ++ [v]) w ↔ RootOf traversals vars w ∨
      ((∀ x ∈ vars, ¬ Linked traversals x v) ∧ Linked traversals v w ∧ v ≠ w) := by
  constructor
  · rintro ⟨pre, u, post, heq, hfirst, hlink, hne⟩
    rcases eq_nil_or_concat post with rfl | ⟨front, last, rfl⟩
    · obtain ⟨rfl, hu⟩ := append_inj' heq rfl
      cases hu
      exact .inr ⟨hfirst, hlink, hne⟩
    · rw [concat_eq_append] at heq
      have heq' : vars ++ [v] = (pre ++ u :: front) ++ [last] := by simpa using heq
      obtain ⟨rfl, -⟩ := append_inj' heq' rfl
      exact .inl ⟨pre, u, front, rfl, hfirst, hlink, hne⟩
  · rintro (⟨pre, u, post, rfl, hfirst, hlink, hne⟩ | ⟨hfirst, hlink, hne⟩)
    · exact ⟨pre, u, post ++ [v], by simp, hfirst, hlink, hne⟩
    · exact ⟨vars, v, [], rfl, hfirst, hlink, hne⟩

/-- What the walk knows after the bindings of `seen`. -/
structure WalkedTo (traversals : List Traversal) (vars seen : List String)
    (st : List String × List String) : Prop where
  visited : ∀ u, u ∈ st.1 ↔ ∃ x ∈ seen, Linked traversals x u
  deferred : ∀ w, w ∈ st.2 ↔ w ∈ vars ∧ RootOf traversals seen w

/-- Deferring the component of a variable extends the walk by its names. -/
lemma WalkedTo.deferComponent {seen : List String} {st : List String × List String}
    (h : WalkedTo traversals vars seen st) (hv : v ∈ vars) :
    WalkedTo traversals vars (seen ++ [v])
      (deferComponent (adjacency traversals) vars st v) := by
  have hvisited : ∀ u, (∃ x ∈ seen ++ [v], Linked traversals x u) ↔
      u ∈ st.1 ∨ Linked traversals v u := by
    intro u
    rw [h.visited u]
    simp only [mem_append, mem_singleton, or_and_right, exists_or, exists_eq_left]
  unfold Compiler.deferComponent
  by_cases hseen : v ∈ st.1
  · rw [if_pos hseen]
    obtain ⟨x, hx, hxv⟩ := (h.visited v).mp hseen
    refine ⟨fun u => ?_, fun w => ?_⟩
    · rw [hvisited u]
      refine ⟨.inl, ?_⟩
      rintro (hu | hu)
      · exact hu
      · exact (h.visited u).mpr ⟨x, hx, hxv.trans hu⟩
    · rw [h.deferred w, rootOf_append_singleton]
      refine and_congr_right fun _ => ⟨.inl, ?_⟩
      rintro (hroot | ⟨hfirst, -⟩)
      · exact hroot
      · exact absurd hxv (hfirst x hx)
  · rw [if_neg hseen]
    have hclosed : Component.Closed (adjacency traversals) [v] st.1 := by
      intro u hu w huw
      obtain ⟨x, hx, hxu⟩ := (h.visited u).mp hu
      exact .inl ((h.visited w).mpr ⟨x, hx, hxu.tail huw⟩)
    have hfuel : Component.pending (adjacency traversals) [v] st.1 ≤
        (adjacency traversals).length + 1 := by
      have := length_filter_le (fun e : String × String => decide (e.1 ∉ st.1))
        (adjacency traversals)
      simp only [Component.pending, length_singleton]
      omega
    have hwalk := Component.walk_walked hfuel hclosed
    set out := Component.walk (adjacency traversals) ((adjacency traversals).length + 1) [v] st.1
      with hout
    -- the component of `v` is visited whole, and nothing of it was visited before
    have hmemv : v ∈ out.1 := hwalk.queued v mem_cons_self
    have hcomplete : ∀ u, Linked traversals v u → u ∈ out.1 := by
      intro u hu
      induction hu with
      | refl => exact hmemv
      | tail _ hstep ih =>
        rcases hwalk.closed _ ih _ hstep with hu | hu
        · exact hu
        · cases hu
    have hcomponent : ∀ u, u ∈ out.2 ↔ Linked traversals v u := by
      intro u
      constructor
      · intro hu
        obtain ⟨s, hs, hreach⟩ := hwalk.sound u hu
        rw [mem_singleton.mp hs] at hreach
        exact hreach
      · intro hu
        rcases (hwalk.mem_iff u).mp (hcomplete u hu) with hold | hnew
        · obtain ⟨x, hx, hxu⟩ := (h.visited u).mp hold
          exact absurd ((h.visited v).mpr ⟨x, hx, hxu.trans hu.symm⟩) hseen
        · exact hnew
    obtain ⟨rest, hrest⟩ : ∃ rest, out.2 = v :: rest := by
      rw [hout, Component.walk, if_neg hseen]
      exact ⟨_, rfl⟩
    refine ⟨fun u => ?_, fun w => ?_⟩
    · show u ∈ out.1 ↔ _
      rw [hvisited u, hwalk.mem_iff u, hcomponent u]
    · show w ∈ st.2 ++ (out.2.filter (· ∈ vars)).tail ↔ _
      have htail : w ∈ (out.2.filter (· ∈ vars)).tail ↔
          w ∈ vars ∧ Linked traversals v w ∧ v ≠ w := by
        have hnodup := hwalk.nodup
        have hmem := hcomponent w
        rw [hrest] at hnodup hmem ⊢
        rw [filter_cons_of_pos (by simpa using hv), tail_cons, mem_filter, ← hmem,
          mem_cons]
        have hnot : w = v → w ∉ rest := fun heq => heq ▸ (nodup_cons.mp hnodup).1
        simp only [decide_eq_true_eq, ne_eq, @eq_comm _ v]
        tauto
      have hfirst : ∀ x ∈ seen, ¬ Linked traversals x v := fun x hx hxv =>
        hseen ((h.visited v).mpr ⟨x, hx, hxv⟩)
      rw [mem_append, h.deferred w, htail, rootOf_append_singleton]
      tauto

lemma walkedTo_foldl {traversals : List Traversal} {vars : List String} :
    ∀ (pre post : List String) (st : List String × List String), vars = pre ++ post →
      WalkedTo traversals vars pre st →
      WalkedTo traversals vars vars
        (post.foldl (deferComponent (adjacency traversals) vars) st) := by
  intro pre post
  induction post generalizing pre with
  | nil =>
    intro st hvars hst
    rw [append_nil] at hvars
    rw [hvars] at hst ⊢
    exact hst
  | cons v post ih =>
    intro st hvars hst
    rw [foldl_cons]
    exact ih (pre ++ [v]) _ (by simp [hvars]) (hst.deferComponent (by simp [hvars]))

/-- A variable bound in the block is deferred if a binding declared before all of its own is
connected to it. -/
def Deferred (clauses : List Clause) (v : String) : Prop :=
  ∃ pre b post, bindingsOf clauses = pre ++ b :: post ∧ b.var ≠ v ∧
    Linked (traversalsOf clauses) b.var v ∧ ∀ b' ∈ pre, b'.var ≠ v

lemma rootOf_iff :
    RootOf traversals vars w ↔ ∃ pre v post, vars = pre ++ v :: post ∧ v ≠ w ∧
      Linked traversals v w ∧ w ∉ pre := by
  constructor
  · rintro ⟨pre, v, post, hvars, hfirst, hlink, hne⟩
    exact ⟨pre, v, post, hvars, hne, hlink, fun hw => hfirst w hw hlink.symm⟩
  · rintro ⟨pre, v, post, rfl, hne, hlink, hw⟩
    -- the first variable of `pre ++ [v]` connected to `w` is the root
    induction pre generalizing v post with
    | nil => exact ⟨[], v, post, rfl, by simp, hlink, hne⟩
    | cons x pre ih =>
      by_cases hx : Linked traversals x w
      · refine ⟨[], x, pre ++ v :: post, rfl, by simp, hx, ?_⟩
        rintro rfl
        exact hw mem_cons_self
      · obtain ⟨pre', v', post', heq, hfirst, hlink', hne'⟩ :=
          ih v post hne hlink (fun hmem => hw (mem_cons_of_mem _ hmem))
        refine ⟨x :: pre', v', post', by rw [cons_append, heq, cons_append], ?_, hlink',
          hne'⟩
        intro y hy
        rcases mem_cons.mp hy with rfl | hy
        · exact fun hlink'' => hx (hlink''.trans hlink')
        · exact hfirst y hy

variable {clauses : List Clause}

/-- The walk finds the deferred variables. -/
theorem mem_deferredSet_iff :
    v ∈ deferredSet (bindingsOf clauses) (traversalsOf clauses) ↔
      (∃ b ∈ bindingsOf clauses, b.var = v) ∧ Deferred clauses v := by
  have hwalked := @walkedTo_foldl (traversalsOf clauses) ((bindingsOf clauses).map Binding.var) []
    _ ([], []) rfl ⟨by simp, by simp [RootOf]⟩
  rw [deferredSet, hwalked.deferred v, rootOf_iff, List.mem_map]
  refine and_congr_right fun _ => ?_
  constructor
  · rintro ⟨pre, u, post, heq, hne, hlink, hpre⟩
    obtain ⟨bs, rest, hbs, rfl, hrest⟩ := map_eq_append_iff.mp heq
    obtain ⟨b, bs', rfl, rfl, rfl⟩ := map_eq_cons_iff.mp hrest
    exact ⟨bs, b, bs', hbs, hne, hlink, fun b' hb' heq' => hpre (List.mem_map.mpr ⟨b', hb', heq'⟩)⟩
  · rintro ⟨pre, b, post, heq, hne, hlink, hpre⟩
    refine ⟨pre.map Binding.var, b.var, post.map Binding.var, by rw [heq]; simp, hne, hlink, ?_⟩
    intro hmem
    obtain ⟨b', hb', rfl⟩ := List.mem_map.mp hmem
    exact hpre b' hb' rfl

/-- Every binding is connected to one that is not deferred: the first of its component. -/
lemma exists_root {b : Binding} (hb : b ∈ bindingsOf clauses) :
    ∃ r ∈ bindingsOf clauses,
      r.var ∉ deferredSet (bindingsOf clauses) (traversalsOf clauses) ∧
        Linked (traversalsOf clauses) r.var b.var := by
  classical
  have hself : Linked (traversalsOf clauses) b.var b.var := Relation.ReflTransGen.refl
  obtain ⟨r, hr⟩ : ∃ r, (bindingsOf clauses).find?
      (fun r => decide (Linked (traversalsOf clauses) r.var b.var)) = some r :=
    Option.isSome_iff_exists.mp (List.find?_isSome.mpr ⟨b, hb, decide_eq_true hself⟩)
  obtain ⟨hlink, pre, post, heq, hfirst⟩ := List.find?_eq_some_iff_append.mp hr
  have hlink := of_decide_eq_true hlink
  refine ⟨r, by simp [heq], fun hdef => ?_, hlink⟩
  obtain ⟨-, pre₂, b₂, post₂, heq₂, hne₂, hlink₂, hpre₂⟩ := mem_deferredSet_iff.mp hdef
  have hbefore : ∀ x ∈ pre, x ≠ b₂ := by
    rintro x hx rfl
    have := hfirst x hx
    simp only [Bool.not_eq_true', decide_eq_false_iff_not] at this
    exact this (hlink₂.trans hlink)
  -- `b₂` would have to stand after `r`, but then `r` is before it
  rcases append_eq_append_iff.mp (heq.symm.trans heq₂) with ⟨mid, hmid, htail⟩ |
      ⟨mid, hmid, htail⟩
  · cases mid with
    | nil =>
      rw [nil_append, List.cons.injEq] at htail
      exact hne₂ (by rw [htail.1])
    | cons x mid =>
      rw [cons_append, List.cons.injEq] at htail
      obtain ⟨rfl, -⟩ := htail
      exact hpre₂ r (by simp [hmid]) rfl
  · cases mid with
    | nil =>
      rw [nil_append, List.cons.injEq] at htail
      exact hne₂ (by rw [htail.1])
    | cons x mid =>
      rw [cons_append, List.cons.injEq] at htail
      exact hbefore x (by simp [hmid]) htail.1.symm

end Omnigraph.Compiler
