import Omnigraph.Query.Aggregate

/-!
# Least and greatest cells

A minimum is kept until a smaller value comes. It depends on the order of the cells exactly where
two cells are both below nothing: doubles that are not numbers, and the two zeros.
-/

namespace Omnigraph.Query

open List

lemma f64Lt_trans {a b c : UInt64} (hab : f64Lt a b = true) (hbc : f64Lt b c = true) :
    f64Lt a c = true := by
  simp only [f64Lt, Bool.and_eq_true, decide_eq_true_eq] at *
  exact ⟨⟨hab.1.1, hbc.1.2⟩, hab.2.trans hbc.2⟩

variable {u v w : Value}

lemma Value.lt_trans (huv : u.lt v = true) (hvw : v.lt w = true) : u.lt w = true := by
  cases u with
  | list items => cases huv
  | scalar a =>
    cases v with
    | list items => cases hvw
    | scalar b =>
      cases w with
      | list items => cases b <;> cases hvw
      | scalar c =>
        cases a <;> cases b <;> simp only [Value.lt, Bool.false_eq_true, decide_eq_true_eq] at huv
          <;> cases c <;> simp only [Value.lt, Bool.false_eq_true, decide_eq_true_eq] at hvw ⊢
        · exact huv.trans hvw
        · exact huv.trans hvw
        · exact f64Lt_trans huv hvw

lemma Value.lt_irrefl (v : Value) : v.lt v = false := by
  cases v with
  | list items => rfl
  | scalar a => cases a <;> simp [Value.lt, f64Lt]

/-- Whether a value replaces the one kept so far. -/
def beats (isMin : Bool) (u v : Value) : Bool := if isMin then u.lt v else v.lt u

variable {isMin : Bool}

lemma beats_trans (huv : beats isMin u v = true) (hvw : beats isMin v w = true) :
    beats isMin u w = true := by
  cases isMin with
  | false => exact Value.lt_trans hvw huv
  | true => exact Value.lt_trans huv hvw

lemma beats_irrefl (isMin : Bool) (v : Value) : beats isMin v v = false := by
  cases isMin <;> exact v.lt_irrefl

lemma minMaxStep_some (isMin : Bool) (cur v : Value) :
    minMaxStep isMin (some cur) (some v) = some (if beats isMin v cur then v else cur) := by
  cases isMin <;> rfl

/-- A cell that no cell beats. -/
structure Unbeaten (isMin : Bool) (cells : List Cell) (v : Value) : Prop where
  mem : some v ∈ cells
  unbeaten : ∀ u, some u ∈ cells → beats isMin u v = false

variable {cells cells' : List Cell}

lemma Unbeaten.perm (h : Unbeaten isMin cells v) (hperm : cells.Perm cells') :
    Unbeaten isMin cells' v :=
  ⟨hperm.mem_iff.mp h.mem, fun u hu => h.unbeaten u (hperm.mem_iff.mpr hu)⟩

lemma notMem_of_minMaxCells_none (h : minMaxCells isMin cells = none) (u : Value) :
    some u ∉ cells := by
  unfold minMaxCells at h
  induction cells using List.reverseRecOn with
  | nil => simp
  | append_singleton cells cell ih =>
    rw [foldl_append, foldl_cons, foldl_nil] at h
    cases cell with
    | some x =>
      cases hf : cells.foldl (minMaxStep isMin) none with
      | none => rw [hf] at h; cases h
      | some cur => rw [hf, minMaxStep_some] at h; cases h
    | none =>
      rw [mem_append, mem_singleton]
      rintro (hu | hu)
      · exact ih h hu
      · cases hu

/-- The value kept is beaten by none. -/
lemma unbeaten_minMaxCells (h : minMaxCells isMin cells = some v) : Unbeaten isMin cells v := by
  refine ⟨mem_of_minMaxCells h, ?_⟩
  unfold minMaxCells at h
  induction cells using List.reverseRecOn generalizing v with
  | nil => cases h
  | append_singleton cells cell ih =>
    rw [foldl_append, foldl_cons, foldl_nil] at h
    intro u hu
    rw [mem_append, mem_singleton] at hu
    cases cell with
    | none =>
      rcases hu with hu | hu
      · exact ih h u hu
      · cases hu
    | some w =>
      cases hcur : cells.foldl (minMaxStep isMin) none with
      | none =>
        rw [hcur] at h
        cases h
        rcases hu with hu | hu
        · exact absurd hu (notMem_of_minMaxCells_none hcur u)
        · cases hu
          exact beats_irrefl _ _
      | some cur =>
        rw [hcur, minMaxStep_some] at h
        have hkept := ih hcur
        have hv := Option.some.inj h
        split_ifs at hv with hbeats
        · subst hv
          rcases hu with hu | hu
          · -- what beats the new value beats the old one
            by_contra hne
            have := hkept u hu
            rw [beats_trans (Bool.of_not_eq_false hne) hbeats] at this
            cases this
          · cases hu
            exact beats_irrefl _ _
        · subst hv
          rcases hu with hu | hu
          · exact hkept u hu
          · cases hu
            exact Bool.of_not_eq_true hbeats

/-- A value that comes first is kept if none beats it. -/
lemma minMaxCells_cons (h : ∀ u, some u ∈ cells → beats isMin u v = false) :
    minMaxCells isMin (some v :: cells) = some v := by
  change cells.foldl (minMaxStep isMin) (some v) = some v
  induction cells with
  | nil => rfl
  | cons cell cells ih =>
    rw [foldl_cons]
    have hrest := ih fun u hu => h u (mem_cons_of_mem _ hu)
    cases cell with
    | none => exact hrest
    | some w =>
      rw [minMaxStep_some, h w (by simp)]
      exact hrest

/-- All cells that none beats are equal. -/
def Settled (isMin : Bool) (cells : List Cell) : Prop :=
  ∀ v w, Unbeaten isMin cells v → Unbeaten isMin cells w → v = w

/-- Settled cells have one extreme in every order. -/
lemma Settled.minMaxCells_perm (h : Settled isMin cells) (hperm : cells'.Perm cells) :
    minMaxCells isMin cells' = minMaxCells isMin cells := by
  cases hv : minMaxCells isMin cells with
  | none =>
    cases hw : minMaxCells isMin cells' with
    | none => rfl
    | some w =>
      have := (unbeaten_minMaxCells hw).mem
      exact absurd (hperm.mem_iff.mp this) (notMem_of_minMaxCells_none hv w)
  | some v =>
    cases hw : minMaxCells isMin cells' with
    | none =>
      have := (unbeaten_minMaxCells hv).mem
      exact absurd (hperm.mem_iff.mpr this) (notMem_of_minMaxCells_none hw v)
    | some w => rw [h w v ((unbeaten_minMaxCells hw).perm hperm) (unbeaten_minMaxCells hv)]

/-- If every order of the rows has the same extreme, their cells are settled. -/
lemma settled_of_forall_perm {rows : List ℕ} {cell : ℕ → Cell}
    (h : ∀ rows' : List ℕ, rows'.Perm rows →
      minMaxCells isMin (rows'.map cell) = minMaxCells isMin (rows.map cell)) :
    Settled isMin (rows.map cell) := by
  have hfirst : ∀ v, Unbeaten isMin (rows.map cell) v →
      minMaxCells isMin (rows.map cell) = some v := by
    intro v hv
    obtain ⟨row, hrow, hcell⟩ := List.mem_map.mp hv.mem
    rw [← h _ (perm_cons_erase hrow).symm, map_cons, hcell]
    apply minMaxCells_cons
    intro u hu
    obtain ⟨row', hrow', hu'⟩ := List.mem_map.mp hu
    exact hv.unbeaten u (List.mem_map.mpr ⟨row', mem_of_mem_erase hrow', hu'⟩)
  intro v w hv hw
  exact Option.some.inj ((hfirst v hv).symm.trans (hfirst w hw))

/-! ### Integers and texts -/

/-- A comparison under which two values that do not beat one another are equal. -/
def Total (isMin : Bool) (cells : List Cell) : Prop :=
  ∀ v w, some v ∈ cells → some w ∈ cells → beats isMin v w = false → beats isMin w v = false →
    v = w

lemma settled_of_total (h : Total isMin cells) : Settled isMin cells :=
  fun v w hv hw => h v w hv.mem hw.mem (hw.unbeaten v hv.mem) (hv.unbeaten w hw.mem)

lemma exists_int {t : DataType} (hnumeric : t.isNumeric = true) (hfloat : t.isFloat = false)
    (h : t.Holds v) : ∃ i, v = .scalar (.int i) := by
  cases v with
  | list items =>
    revert hnumeric h
    cases t <;> simp [DataType.isNumeric, DataType.Holds]
  | scalar s =>
    cases s with
    | int i => exact ⟨i, rfl⟩
    | _ =>
      revert hnumeric hfloat h
      cases t <;> simp [DataType.isNumeric, DataType.isFloat, DataType.Holds, DataType.HoldsScalar]

lemma exists_utf8 (h : DataType.utf8.Holds v) : ∃ s, v = .scalar (.utf8 s) := by
  cases v with
  | list items => cases h
  | scalar a =>
    cases a with
    | utf8 s => exact ⟨s, rfl⟩
    | _ => cases h

lemma int_eq_of_not_beats {i j : ℤ}
    (hij : beats isMin (.scalar (.int i)) (.scalar (.int j)) = false)
    (hji : beats isMin (.scalar (.int j)) (.scalar (.int i)) = false) : i = j := by
  cases isMin <;> simp only [beats, Value.lt, Bool.false_eq_true, if_true, if_false,
    decide_eq_false_iff_not] at hij hji <;> omega

lemma utf8_eq_of_not_beats {s t : String}
    (hst : beats isMin (.scalar (.utf8 s)) (.scalar (.utf8 t)) = false)
    (hts : beats isMin (.scalar (.utf8 t)) (.scalar (.utf8 s)) = false) : s = t := by
  cases isMin <;> simp only [beats, Value.lt, Bool.false_eq_true, if_true, if_false,
    decide_eq_false_iff_not, not_lt] at hst hts
  · exact le_antisymm hst hts
  · exact le_antisymm hts hst

/-- Integers and texts are always settled. -/
lemma Column.settled (c : Column) (hfloat : c.dataType.isFloat = false)
    (htype : c.dataType.isNumeric = true ∨ c.dataType = .utf8) (isMin : Bool) (rows : List ℕ) :
    Settled isMin (rows.map c.cell) := by
  have hcell : ∀ v, some v ∈ rows.map c.cell → c.dataType.Holds v := by
    intro v hv
    obtain ⟨row, -, hrow⟩ := List.mem_map.mp hv
    exact c.cell_holds hrow
  apply settled_of_total
  intro v w hv hw hvw hwv
  rcases htype with hnumeric | hutf8
  · obtain ⟨i, rfl⟩ := exists_int hnumeric hfloat (hcell v hv)
    obtain ⟨j, rfl⟩ := exists_int hnumeric hfloat (hcell w hw)
    rw [int_eq_of_not_beats hvw hwv]
  · obtain ⟨s, rfl⟩ := exists_utf8 (hutf8 ▸ hcell v hv)
    obtain ⟨t, rfl⟩ := exists_utf8 (hutf8 ▸ hcell w hw)
    rw [utf8_eq_of_not_beats hvw hwv]

end Omnigraph.Query
