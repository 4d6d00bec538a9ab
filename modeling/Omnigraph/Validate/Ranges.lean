import Omnigraph.Lib.Double
import Omnigraph.Validate.Batch

/-!
# Range and check constraints

The values of a batch are compared with the bounds of their type as doubles, and its strings are
matched against patterns. An integer of 64 bits and its bounds become the nearest doubles before
they are compared.
-/

namespace Omnigraph.Values

open Double

/-! ### Constraints -/

inductive LiteralValue
  | integer (n : ℤ)
  | float (bits : UInt64)

structure RangeConstraint where
  property : String
  min : Option LiteralValue
  max : Option LiteralValue

structure CheckConstraint where
  property : String
  pattern : String

/-- A node type as far as its values are constrained. -/
structure NodeType where
  name : String
  rangeConstraints : List RangeConstraint
  checkConstraints : List CheckConstraint

/-- The double of a float cell, the text of a double in an error, and compiled patterns. -/
structure Context where
  double : FloatType → FloatValue → UInt64
  shown : UInt64 → String
  regex : String → Except String (String → Bool)

/-! ### The program -/

section Validate

variable (ctx : Context)

/-- The cell is null; a row past the end reads as null. -/
def isNull (column : Column) (row : ℕ) : Bool :=
  match column with
  | .string _ cells => (cellAt cells row).isNone
  | .int _ cells => (cellAt cells row).isNone
  | .float _ cells => (cellAt cells row).isNone
  | .boolean cells => (cellAt cells row).isNone
  | .other _ nulls => nulls.getD row true

/-- The cell as a double, if it is a number. -/
def extractNumericValue (column : Column) (row : ℕ) : Option UInt64 :=
  match column with
  | .int .int32 cells | .int .int64 cells | .int .uint32 cells | .int .uint64 cells =>
    (cellAt cells row).map ofInt
  | .float type cells => (cellAt cells row).map (ctx.double type)
  | _ => none

def literalValueToF64 : LiteralValue → UInt64
  | .integer n => ofInt n
  | .float bits => bits

def checkMin (typeName property : String) (val : UInt64) :
    Option LiteralValue → Except OmniError Unit
  | none => .ok ()
  | some min =>
    if lt val (literalValueToF64 min) then
      .error (.manifest (s!"@range violation on {typeName}.{property}: value {ctx.shown val} " ++
        s!"< min {ctx.shown (literalValueToF64 min)}"))
    else .ok ()

def checkMax (typeName property : String) (val : UInt64) :
    Option LiteralValue → Except OmniError Unit
  | none => .ok ()
  | some max =>
    if lt (literalValueToF64 max) val then
      .error (.manifest (s!"@range violation on {typeName}.{property}: value {ctx.shown val} " ++
        s!"> max {ctx.shown (literalValueToF64 max)}"))
    else .ok ()

/-- One cell against the bounds. -/
def checkRange (typeName : String) (rc : RangeConstraint) (column : Column) (row : ℕ) :
    Except OmniError Unit :=
  if isNull column row then .ok ()
  else
    match extractNumericValue ctx column row with
    | none => .ok ()
    | some val =>
      if isNaN val then
        .error (.manifest s!"@range violation on {typeName}.{rc.property}: value is NaN")
      else do
        checkMin ctx typeName rc.property val rc.min
        checkMax ctx typeName rc.property val rc.max

def checkRangeConstraint (batch : RecordBatch) (typeName : String) (rc : RangeConstraint) :
    Except OmniError Unit :=
  match batch.columnByName rc.property with
  | none => .ok ()
  | some column => (List.range batch.numRows).forM (checkRange ctx typeName rc column)

def checkPattern (typeName : String) (cc : CheckConstraint) (isMatch : String → Bool) :
    Option String → Except OmniError Unit
  | none => .ok ()
  | some val =>
    if isMatch val then .ok ()
    else .error (.manifest (s!"@check violation on {typeName}.{cc.property}: value '{val}' " ++
      s!"does not match pattern '{cc.pattern}'"))

def checkCheckConstraint (batch : RecordBatch) (typeName : String) (cc : CheckConstraint) :
    Except OmniError Unit :=
  match ctx.regex cc.pattern with
  | .error e => .error (.manifest
      s!"@check on {typeName}.{cc.property} has invalid regex '{cc.pattern}': {e}")
  | .ok isMatch =>
    match batch.columnByName cc.property with
    | some (.string .utf8 cells) => cells.forM (checkPattern typeName cc isMatch)
    | _ => .ok ()

def validateValueConstraints (batch : RecordBatch) (nodeType : NodeType) :
    Except OmniError Unit := do
  nodeType.rangeConstraints.forM (checkRangeConstraint ctx batch nodeType.name)
  nodeType.checkConstraints.forM (checkCheckConstraint ctx batch nodeType.name)

end Validate

/-! ### Integer columns -/

/-- The values of an integer column that holds numbers; dates are no numbers here. -/
def NumericInt : IntType → ℤ → Prop
  | .int32, v => -2 ^ 31 ≤ v ∧ v < 2 ^ 31
  | .int64, v => -2 ^ 63 ≤ v ∧ v < 2 ^ 63
  | .uint32, v => 0 ≤ v ∧ v < 2 ^ 32
  | .uint64, v => 0 ≤ v ∧ v < 2 ^ 64
  | .date32, _ => False
  | .date64, _ => False

/-- Bounds of 64 bits with a sign. -/
def BoundFits (bound : Option ℤ) : Prop := ∀ b ∈ bound, -2 ^ 63 ≤ b ∧ b < 2 ^ 63

/-- The value lies within the bounds that there are. -/
def Within (min max : Option ℤ) (v : ℤ) : Prop := (∀ b ∈ min, b ≤ v) ∧ ∀ b ∈ max, v ≤ b

/-- A bound that the value violates is kept apart from it by doubles. -/
def ToldApart (min max : Option ℤ) (v : ℤ) : Prop :=
  (∃ b ∈ min, v < b ∧ Double.ApartInt v b) ∨ ∃ b ∈ max, b < v ∧ Double.ApartInt b v

variable {ctx : Context}

lemma log2_lt_of_bounds {z : ℤ} (h : -2 ^ 63 ≤ z ∧ z < 2 ^ 64) : z.natAbs.log2 < 1022 := by
  by_cases hzero : z.natAbs = 0
  · rw [hzero]
    decide
  · have := (Nat.log2_lt hzero).mpr (show z.natAbs < 2 ^ 65 by omega)
    omega

lemma lt_ofInt_iff {a b : ℤ} (ha : -2 ^ 63 ≤ a ∧ a < 2 ^ 64) (hb : -2 ^ 63 ≤ b ∧ b < 2 ^ 64) :
    lt (ofInt a) (ofInt b) = true ↔
      roundedInt a < roundedInt b := by
  rw [lt_iff_of_value (value_ofInt (log2_lt_of_bounds ha))
    (value_ofInt (log2_lt_of_bounds hb))]
  exact Int.cast_lt

lemma NumericInt.bounds {t : IntType} {v : ℤ} (h : NumericInt t v) : -2 ^ 63 ≤ v ∧ v < 2 ^ 64 := by
  cases t <;> simp only [NumericInt] at h <;> omega

/-- A number is accepted by the doubles of the bounds. -/
def Accepted (min max : Option ℤ) (v : ℤ) : Prop :=
  (∀ b ∈ min, roundedInt b ≤ roundedInt v) ∧
    ∀ b ∈ max, roundedInt v ≤ roundedInt b

lemma ite_error_eq_ok_iff {c : Prop} [Decidable c] {e : OmniError} :
    (if c then (.error e : Except OmniError Unit) else .ok ()) = .ok () ↔ ¬ c := by
  split_ifs with h <;> simp [h]

lemma checkMin_ok_iff {typeName property : String} {min : Option ℤ} {v : ℤ}
    (hv : -2 ^ 63 ≤ v ∧ v < 2 ^ 64) (hmin : BoundFits min) :
    checkMin ctx typeName property (ofInt v) (min.map .integer) = .ok () ↔
      ∀ b ∈ min, roundedInt b ≤ roundedInt v := by
  cases min with
  | none => simp [checkMin]
  | some b =>
    have hb := hmin b rfl
    have hlt := lt_ofInt_iff hv (b := b) (by omega)
    simp only [Option.map_some, checkMin, literalValueToF64, Option.mem_some_iff, forall_eq']
    exact ite_error_eq_ok_iff.trans (by rw [hlt, not_lt])

lemma checkMax_ok_iff {typeName property : String} {max : Option ℤ} {v : ℤ}
    (hv : -2 ^ 63 ≤ v ∧ v < 2 ^ 64) (hmax : BoundFits max) :
    checkMax ctx typeName property (ofInt v) (max.map .integer) = .ok () ↔
      ∀ b ∈ max, roundedInt v ≤ roundedInt b := by
  cases max with
  | none => simp [checkMax]
  | some b =>
    have hb := hmax b rfl
    have hlt := lt_ofInt_iff (a := b) (by omega) hv
    simp only [Option.map_some, checkMax, literalValueToF64, Option.mem_some_iff, forall_eq']
    exact ite_error_eq_ok_iff.trans (by rw [hlt, not_lt])

variable {cells : List (Option ℤ)} {row : ℕ}

lemma extractNumericValue_int {t : IntType} {v : ℤ} (hcell : cellAt cells row = some v)
    (hv : NumericInt t v) : extractNumericValue ctx (.int t cells) row = some (ofInt v) := by
  cases t with
  | date32 => exact hv.elim
  | date64 => exact hv.elim
  | int32 => simp [extractNumericValue, hcell]
  | int64 => simp [extractNumericValue, hcell]
  | uint32 => simp [extractNumericValue, hcell]
  | uint64 => simp [extractNumericValue, hcell]

lemma checkRange_ok_iff {typeName property : String} {min max : Option ℤ} {t : IntType} {v : ℤ}
    (hcell : cellAt cells row = some v) (hv : NumericInt t v) (hmin : BoundFits min)
    (hmax : BoundFits max) :
    checkRange ctx typeName ⟨property, min.map .integer, max.map .integer⟩ (.int t cells) row =
      .ok () ↔ Accepted min max v := by
  have hnull : isNull (.int t cells) row = false := by simp [isNull, hcell]
  have hvalue := value_ofInt (log2_lt_of_bounds hv.bounds)
  rw [checkRange, hnull, if_neg (by simp), extractNumericValue_int hcell hv]
  simp only [isNaN_of_value hvalue, Bool.false_eq_true, if_false]
  rw [Except.bind_eq_ok_iff]
  constructor
  · rintro ⟨u, hbelow, habove⟩
    exact ⟨(checkMin_ok_iff hv.bounds hmin).mp hbelow, (checkMax_ok_iff hv.bounds hmax).mp habove⟩
  · rintro ⟨hbelow, habove⟩
    exact ⟨(), (checkMin_ok_iff hv.bounds hmin).mpr hbelow,
      (checkMax_ok_iff hv.bounds hmax).mpr habove⟩

/-- A batch is accepted if every row meets every range constraint and the strings their patterns. -/
lemma validateValueConstraints_ok_iff {batch : RecordBatch} {nodeType : NodeType} :
    validateValueConstraints ctx batch nodeType = .ok () ↔
      (∀ rc ∈ nodeType.rangeConstraints, ∀ column, batch.columnByName rc.property = some column →
        ∀ row < batch.numRows, checkRange ctx nodeType.name rc column row = .ok ()) ∧
        ∀ cc ∈ nodeType.checkConstraints,
          checkCheckConstraint ctx batch nodeType.name cc = .ok () := by
  have hrange : ∀ rc, checkRangeConstraint ctx batch nodeType.name rc = .ok () ↔
      ∀ column, batch.columnByName rc.property = some column →
        ∀ row < batch.numRows, checkRange ctx nodeType.name rc column row = .ok () := by
    intro rc
    unfold checkRangeConstraint
    cases hcolumn : batch.columnByName rc.property with
    | none => simp
    | some column =>
      simp only [Option.some.injEq, forall_eq', Except.forM_eq_ok_iff, List.mem_range]
  rw [validateValueConstraints, Except.bind_eq_ok_iff]
  simp only [Except.forM_eq_ok_iff, hrange]
  exact ⟨fun ⟨_, h⟩ => h, fun h => ⟨(), h⟩⟩

/-! ### Range constraints -/

lemma accepted_of_within {min max : Option ℤ} {v : ℤ} (h : Within min max v) :
    Accepted min max v :=
  ⟨fun b hb => roundedInt_mono (h.1 b hb), fun b hb => roundedInt_mono (h.2 b hb)⟩

/-- Doubles reject a number if they keep it apart from a bound it violates. -/
lemma toldApart_iff {min max : Option ℤ} {v : ℤ} :
    ToldApart min max v ↔ ¬ Accepted min max v := by
  have hlt : ∀ a b : ℤ, a < b ∧ Double.ApartInt a b ↔
      roundedInt a < roundedInt b := by
    intro a b
    constructor
    · rintro ⟨hab, hapart⟩
      exact lt_of_le_of_ne (roundedInt_mono hab.le)
        ((roundedInt_ne_iff hab).mpr hapart)
    · intro hrounded
      have hab : a < b := by
        by_contra hle
        exact absurd (roundedInt_mono (not_lt.mp hle)) (not_le.mpr hrounded)
      exact ⟨hab, (roundedInt_ne_iff hab).mp hrounded.ne⟩
  simp only [ToldApart, Accepted, hlt, not_and_or, not_forall, not_le, exists_prop]

section Row

variable {batch : RecordBatch} {typeName property : String} {t : IntType} {v : ℤ}
  {min max : Option ℤ}

lemma validate_row_iff (hcolumn : batch.columnByName property = some (.int t [some v]))
    (hv : NumericInt t v) (hmin : BoundFits min) (hmax : BoundFits max) :
    validateValueConstraints ctx batch
        ⟨typeName, [⟨property, min.map .integer, max.map .integer⟩], []⟩ = .ok () ↔
      Accepted min max v := by
  have hrows : batch.numRows = 1 := by
    obtain ⟨pre, post, hcolumns, -⟩ := List.lookup_eq_some_iff.mp hcolumn
    exact (batch.length_eq (property, .int t [some v]) (by simp [hcolumns])).symm
  rw [validateValueConstraints_ok_iff]
  simp only [List.mem_singleton, forall_eq, hcolumn, Option.some.injEq, forall_eq', hrows,
    Nat.lt_one_iff, List.not_mem_nil, false_implies, implies_true, and_true]
  exact checkRange_ok_iff rfl hv hmin hmax

/-- A range constraint is exact for a number within its bounds, and for one that doubles keep apart
from a bound it violates. A number that becomes the same double as every bound it violates is
accepted. -/
theorem range_exact_iff (hcolumn : batch.columnByName property = some (.int t [some v]))
    (hv : NumericInt t v) (hmin : BoundFits min) (hmax : BoundFits max) :
    (validateValueConstraints ctx batch
        ⟨typeName, [⟨property, min.map .integer, max.map .integer⟩], []⟩ = .ok () ↔
      Within min max v) ↔ Within min max v ∨ ToldApart min max v := by
  rw [validate_row_iff hcolumn hv hmin hmax, toldApart_iff]
  have haccepted := @accepted_of_within min max v
  constructor
  · intro hiff
    by_cases hwithin : Within min max v
    · exact .inl hwithin
    · exact .inr fun h => hwithin (hiff.mp h)
  · rintro (hwithin | hrejected)
    · exact ⟨fun _ => hwithin, haccepted⟩
    · exact ⟨fun h => absurd h hrejected, haccepted⟩

end Row

/-- One row with one number. -/
def ageBatch (v : ℤ) : RecordBatch := ⟨[("age", .int .int64 [some v])], 1, by simp [Column.length]⟩

/-- Texts and patterns that play no part. -/
def plainContext : Context := ⟨fun _ _ => 0, fun _ => "", fun _ => .ok fun _ => true⟩

theorem range_exact_seven : (validateValueConstraints plainContext (ageBatch 7)
    ⟨"Person", [⟨"age", (some 0).map .integer, (some 5).map .integer⟩], []⟩ = .ok () ↔
      Within (some 0) (some 5) 7) ↔ Within (some 0) (some 5) 7 ∨ ToldApart (some 0) (some 5) 7 :=
  range_exact_iff rfl (by simp [NumericInt]) (by simp [BoundFits]) (by simp [BoundFits])

/-- The number after `2 ^ 53` is accepted where the range is from `0` to `2 ^ 53`. -/
theorem not_range_exact : ¬ ∀ (batch : RecordBatch) (v : ℤ) (min max : Option ℤ),
    batch.columnByName "age" = some (.int .int64 [some v]) → NumericInt .int64 v →
      BoundFits min → BoundFits max →
        (validateValueConstraints plainContext batch
            ⟨"Person", [⟨"age", min.map .integer, max.map .integer⟩], []⟩ = .ok () ↔
          Within min max v) := by
  intro h
  have hiff := h (ageBatch (2 ^ 53 + 1)) (2 ^ 53 + 1) (some 0) (some (2 ^ 53)) rfl
    (by simp [NumericInt]) (by simp [BoundFits]) (by simp [BoundFits])
  have hwithin := hiff.mp (by decide +kernel)
  have := hwithin.2 (2 ^ 53) rfl
  omega

end Omnigraph.Values
