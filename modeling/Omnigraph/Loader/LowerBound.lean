import Omnigraph.Loader.Budget

/-!
# When the parse budget is a lower bound

A charge differs from the buffers it stands for by what the type of the column decides: an array of
offsets is charged for every vector and twice for items of four bytes, booleans are charged whole
bytes and dates their texts, while offsets of texts, wide numbers and nulls are not charged. The
budget is a lower bound if and only if the former does not exceed the latter.
-/

namespace Omnigraph.Loader

open List Option Except SerdeJson Query

/-! ### Sums -/

variable {α : Type*}

lemma sum_const (l : List α) (n : ℕ) : (l.map fun _ => n).sum = n * l.length := by
  rw [map_const', sum_replicate, smul_eq_mul, Nat.mul_comm]

/-- Sums that balance item by item balance. -/
lemma sum_balance {β : Type*} {R : α → β → Prop} {f g o : α → ℕ} {k : β → ℕ} {l : List α}
    {r : List β} (h : List.Forall₂ R l r)
    (hbalance : ∀ a ∈ l, ∀ b ∈ r, R a b → f a + g a = k b + o a) :
    (l.map f).sum + (l.map g).sum = (r.map k).sum + (l.map o).sum := by
  induction h with
  | nil => rfl
  | @cons a b l r hab _ ih =>
    have hhead := hbalance a (by simp) b (by simp) hab
    have htail := ih fun a' ha' b' hb' => hbalance a' (by simp [ha']) b' (by simp [hb'])
    simp only [map_cons, sum_cons]
    omega

/-! ### Bytes of a value -/

/-- What a scalar adds to the buffers of its column, apart from bits. -/
def valueBytes (t : DataType) (o : Option Scalar) : ℕ :=
  match t with
  | .utf8 => 4 + scalarBytes o
  | .boolean => 0
  | t => width t

/-- The bytes of some bits. -/
def packedBytes (t : DataType) (count : ℕ) : ℕ :=
  match t with
  | .boolean => (count + 7) / 8
  | _ => 0

lemma scalarsBytes_eq (t : DataType) (items : List (Option Scalar)) :
    scalarsBytes t items = (items.map (valueBytes t)).sum + packedBytes t items.length := by
  have hconst : ∀ n, (∀ o, valueBytes t o = n) → (items.map (valueBytes t)).sum =
      n * items.length := by
    intro n hn
    rw [map_congr_left fun o _ => hn o, sum_const]
  cases t with
  | utf8 =>
    have htexts : (items.map (valueBytes .utf8)).sum =
        4 * items.length + (items.map scalarBytes).sum := by
      clear hconst
      induction items with
      | nil => rfl
      | cons o items ih =>
        rw [map_cons, sum_cons, ih, valueBytes, length_cons, map_cons,
          sum_cons]
        ring
    rw [htexts]
    rfl
  | boolean =>
    rw [hconst 0 fun _ => rfl, Nat.zero_mul, Nat.zero_add]
    rfl
  | _ =>
    rw [hconst _ fun _ => rfl]
    rfl

/-! ### Overcharge and slack -/

def textBytes : JsonValue → ℕ
  | .string s => s.utf8ByteSize
  | _ => 0

/-- What a scalar is charged that its column does not take: booleans, and dates given as texts. -/
def scalarOver (t : DataType) (v : JsonValue) : ℕ :=
  match t with
  | .utf8 => 0
  | .boolean => estimateJsonArrowBytes v
  | _ =>
    match v with
    | .string s => estimateString s
    | _ => 0

/-- What a scalar takes that it is not charged: the offset of a text, the second half of a wide
number, the place of a null. -/
def scalarSlack (t : DataType) (v : JsonValue) : ℕ :=
  match t with
  | .utf8 => 4 + (textBytes v - estimateJsonArrowBytes v)
  | .boolean => 0
  | t =>
    match v with
    | .number _ => width t - 4
    | _ => width t

/-- What a value is charged that its column does not take: an offset for every item of a list, and
the offsets and half of the charge of a vector. -/
def fieldOver (kind : FieldKind) (v : JsonValue) : ℕ :=
  match kind with
  | .data (.list item) =>
    match v with
    | .array items => 4 * items.length + (items.map (scalarOver item)).sum
    | _ => 0
  | .data (.fixedSizeList _ dim) =>
    match v with
    | .array _ => 4 * (dim + 1)
    | _ => 0
  | .data t => scalarOver t v
  | .blob => 0

/-- What a value takes that it is not charged. -/
def fieldSlack (perBlob : ℕ) (kind : FieldKind) (v : JsonValue) : ℕ :=
  match kind with
  | .data (.list item) =>
    match v with
    | .array items => (items.map (scalarSlack item)).sum
    | _ => 4
  | .data (.fixedSizeList _ dim) =>
    match v with
    | .array _ => 0
    | _ => 4 * dim
  | .data t => scalarSlack t v
  | .blob => perBlob

/-- The items of a list value. -/
def itemCount : JsonValue → ℕ
  | .array items => items.length
  | _ => 0

/-- The bytes of the bits of a column. -/
def packedSlack (kind : FieldKind) (values : List JsonValue) : ℕ :=
  match kind with
  | .data (.list item) => packedBytes item (values.map itemCount).sum
  | .data t => packedBytes t values.length
  | .blob => 0

/-! ### The balance of a scalar -/

lemma estimateString_le (s : String) : estimateString s ≤ s.utf8ByteSize := by
  unfold estimateString
  cases hstrip : Prefixed.strip "base64:" s with
  | none => exact le_refl _
  | some encoded =>
    rw [Prefixed.strip_eq_some_iff] at hstrip
    subst hstrip
    have hsize : ("base64:" ++ encoded).utf8ByteSize = 7 + encoded.utf8ByteSize := by
      rw [String.utf8ByteSize_append]
      rfl
    rw [hsize]
    dsimp only [decodedLenEstimate]
    omega

variable {lib : Library}

/-- The types of scalars. -/
def isScalarType : DataType → Bool
  | .list _ | .fixedSizeList _ _ => false
  | _ => true

variable {hi i lo : ℤ} {v : JsonValue} {what : String} {t : DataType} {o : Option Scalar}

lemma dateFromJson_some {parse : String → Except OmniError ℤ}
    (h : dateFromJson what lo hi parse v = .ok (some i)) :
    (∃ n, v = .number n) ∨ ∃ s, v = .string s := by
  cases v with
  | number n => exact .inl ⟨n, rfl⟩
  | string s => exact .inr ⟨s, rfl⟩
  | _ => cases h

/-- The kinds of value that are read as the scalars of a type. -/
lemma kind_of_scalarFromJson {s : Scalar} (h : scalarFromJson lib what t v = .ok (some s)) :
    match t with
    | .utf8 => ∃ text, v = .string text ∧ s = .utf8 text
    | .boolean => ∃ b, v = .bool b
    | .date32 | .date64 => (∃ n, v = .number n) ∨ ∃ text, v = .string text
    | _ => ∃ n, v = .number n := by
  cases t with
  | utf8 =>
    obtain ⟨text, htext, rfl⟩ := map_eq_some_iff.mp (Except.ok.inj h)
    cases v with
    | string text' =>
      cases htext
      exact ⟨_, rfl, rfl⟩
    | _ => cases htext
  | boolean =>
    obtain ⟨b, hb, rfl⟩ := map_eq_some_iff.mp (Except.ok.inj h)
    cases v with
    | bool b' => exact ⟨b', rfl⟩
    | _ => cases hb
  | float64 =>
    obtain ⟨b, hb, rfl⟩ := map_eq_some_iff.mp (Except.ok.inj h)
    cases v with
    | number n => exact ⟨n, rfl⟩
    | _ => cases hb
  | float32 =>
    cases v with
    | number n => exact ⟨n, rfl⟩
    | _ => cases h
  | int32 | int64 | uint32 | uint64 =>
    obtain ⟨o, ho, hs⟩ := map_eq_ok h
    obtain ⟨i, rfl, rfl⟩ := map_eq_some_iff.mp hs.symm
    cases v with
    | number n => exact ⟨n, rfl⟩
    | _ => cases ho
  | date32 | date64 =>
    obtain ⟨o, ho, hs⟩ := map_eq_ok h
    obtain ⟨i, rfl, rfl⟩ := map_eq_some_iff.mp hs.symm
    exact dateFromJson_some ho
  | list | fixedSizeList => cases h

lemma scalarFromJson_null (h : scalarFromJson lib what t .null = .ok o) : o = none := by
  cases t with
  | list | fixedSizeList => cases h
  | _ =>
    cases h
    rfl

/-- The charge of a scalar and what it leaves out are its bytes and what it is overcharged. -/
lemma scalar_balance (ht : isScalarType t = true) (h : scalarFromJson lib what t v = .ok o)
    (hconforms : v.isNull = false → o.isSome = true) :
    estimateJsonArrowBytes v + scalarSlack t v = valueBytes t o + scalarOver t v := by
  cases hnull : v.isNull with
  | true =>
    cases v with
    | null =>
      rw [scalarFromJson_null h]
      cases t <;> simp [estimateJsonArrowBytes, scalarSlack, valueBytes, scalarOver, textBytes,
        scalarBytes, isScalarType] at ht ⊢
    | _ => cases hnull
  | false =>
    obtain ⟨s, rfl⟩ := isSome_iff_exists.mp (hconforms hnull)
    have hkind := kind_of_scalarFromJson h
    cases t with
    | utf8 =>
      obtain ⟨text, rfl, rfl⟩ := hkind
      have hle := estimateString_le text
      simp only [estimateJsonArrowBytes, scalarSlack, valueBytes, scalarOver, textBytes,
        scalarBytes]
      omega
    | boolean =>
      obtain ⟨b, rfl⟩ := hkind
      simp [scalarSlack, valueBytes, scalarOver]
    | date32 | date64 =>
      rcases hkind with ⟨n, rfl⟩ | ⟨text, rfl⟩
      · simp [estimateJsonArrowBytes, scalarSlack, valueBytes, scalarOver, width]
      · simp [estimateJsonArrowBytes, scalarSlack, valueBytes, scalarOver, width, Nat.add_comm]
    | list | fixedSizeList => cases ht
    | _ =>
      obtain ⟨n, rfl⟩ := hkind
      simp [estimateJsonArrowBytes, scalarSlack, valueBytes, scalarOver, width]

/-! ### The balance of a row -/

/-- What a value adds to the buffers of its column, apart from bits. -/
def cellBytes (t : DataType) (cell : Cell) : ℕ :=
  match t with
  | .list item => 4 + ((cellItems cell).map (valueBytes item)).sum
  | .fixedSizeList _ dim => 4 * dim
  | t => valueBytes t (cellScalar cell)

/-- What the strict conversion checks of a value and its cell: only null becomes null. -/
def Strict (v : JsonValue) (cell : Cell) : Prop :=
  (v.isNull = false → cell.isSome = true) ∧ none ∉ cellItems cell

/-- The item types of lists and vectors are scalar. -/
def isColumnType : DataType → Bool
  | .list item => isScalarType item
  | .fixedSizeList item _ => item = .float32
  | _ => true

variable {cells : List (Option Scalar)} {item : DataType} {items : List JsonValue} {name : String}
  {cell : Cell} {nullable : Bool}

lemma items_balance (hitem : isScalarType item = true)
    (h : List.Forall₂ (fun v o => scalarFromJson lib what item v = .ok o) items cells)
    (hstrict : none ∉ cells) :
    (items.map estimateJsonArrowBytes).sum + (items.map (scalarSlack item)).sum =
      (cells.map (valueBytes item)).sum + (items.map (scalarOver item)).sum := by
  refine sum_balance h fun v _ o ho hv => scalar_balance hitem hv fun _ => ?_
  exact isSome_iff_ne_none.mpr fun hnone => hstrict (hnone ▸ ho)

lemma vector_charge (h : List.Forall₂ (fun v o => elementFromJson lib name v = .ok o) items cells) :
    (items.map estimateJsonArrowBytes).sum = 4 * items.length := by
  induction h with
  | nil => rfl
  | @cons v _ _ _ hv _ ih =>
    cases v with
    | number n =>
      rw [map_cons, sum_cons, ih, length_cons, estimateJsonArrowBytes]
      ring
    | _ => cases hv

/-- The charge of a value and what it leaves out are its bytes and what it is overcharged. -/
lemma cell_balance (ht : isColumnType t = true) (h : cellFromJson lib name t nullable v = .ok cell)
    (hstrict : Strict v cell) (perBlob : ℕ) :
    estimateJsonArrowBytes v + fieldSlack perBlob (.data t) v =
      cellBytes t cell + fieldOver (.data t) v := by
  have hscalar : isScalarType t = true →
      (scalarFromJson lib s!"property '{name}'" t v).map (Option.map Value.scalar) = .ok cell →
        estimateJsonArrowBytes v + scalarSlack t v =
          valueBytes t (cellScalar cell) + scalarOver t v := by
    intro ht h
    obtain ⟨o, ho, rfl⟩ := map_eq_ok h
    have hcell : cellScalar (o.map Value.scalar) = o := by
      cases o <;> rfl
    rw [hcell]
    exact scalar_balance ht ho fun hnull => by simpa using hstrict.1 hnull
  cases t with
  | list item =>
    obtain ⟨o, ho, rfl⟩ := map_eq_ok h
    cases v with
    | null =>
      cases ho
      rfl
    | array items =>
      obtain ⟨cells, hcells, rfl⟩ := map_eq_ok ho
      have hbalance := items_balance ht (mapM_eq_ok_iff.mp hcells) hstrict.2
      simp only [estimateJsonArrowBytes, estimateItems_eq, fieldSlack, fieldOver, cellBytes,
        map_some, cellItems]
      omega
    | _ => cases ho
  | fixedSizeList item dim =>
    obtain ⟨o, ho, rfl⟩ := map_eq_ok h
    cases v with
    | null => simp [estimateJsonArrowBytes, fieldSlack, fieldOver, cellBytes]
    | array items =>
      simp only [vectorFromJson, JsonValue.asArray] at ho
      split_ifs at ho with hdim
      obtain ⟨cells, hcells, rfl⟩ := map_eq_ok ho
      have hcharge := vector_charge (mapM_eq_ok_iff.mp hcells)
      simp only [estimateJsonArrowBytes, estimateItems_eq, fieldSlack, fieldOver, cellBytes,
        hcharge, hdim]
      omega
    | _ =>
      have hnone : o = none := by
        simp only [vectorFromJson, JsonValue.asArray] at ho
        split_ifs at ho
        cases ho
        rfl
      subst hnone
      have := hstrict.1 rfl
      cases this
  | _ => exact hscalar rfl h

/-- A blob value is charged its payload. -/
lemma blob_balance (hdecode : lib.decodesPadded) {value : Option BlobValue}
    (h : blobFromJson lib name nullable v = .ok value) :
    estimateJsonArrowBytes v = blobPayload value := by
  cases v with
  | null =>
    simp only [blobFromJson] at h
    split_ifs at h
    cases h
    rfl
  | string s =>
    obtain ⟨b, hb, rfl⟩ := map_eq_ok h
    unfold appendBlobValue at hb
    rw [estimateJsonArrowBytes, estimateString]
    cases hstrip : Prefixed.strip "base64:" s with
    | none =>
      rw [hstrip] at hb
      cases hb
      rfl
    | some encoded =>
      rw [hstrip] at hb
      dsimp only at hb ⊢
      cases hdata : lib.decodeBase64 encoded with
      | none =>
        rw [hdata] at hb
        cases hb
      | some data =>
        rw [hdata] at hb
        cases hb
        exact (hdecode encoded data hdata).symm
  | _ => cases h

/-! ### The balance of a column -/

/-- The items of a value are the items of its cell. -/
lemma length_cellItems (h : cellFromJson lib name (.list item) nullable v = .ok cell) :
    (cellItems cell).length = itemCount v := by
  obtain ⟨o, ho, rfl⟩ := map_eq_ok h
  cases v with
  | null =>
    cases ho
    rfl
  | array items =>
    obtain ⟨cells, hcells, rfl⟩ := map_eq_ok ho
    exact (mapM_eq_ok_iff.mp hcells).length_eq.symm
  | _ => cases ho

/-- The buffers of a column are what its cells add and the bytes of its bits. -/
lemma bufferBytes_eq {values : List JsonValue} {cells : List Cell}
    (h : List.Forall₂ (fun v cell => cellFromJson lib name t nullable v = .ok cell) values cells)
    (perBlob : ℕ) :
    bufferBytes perBlob (.data t cells) =
      (cells.map (cellBytes t)).sum + packedSlack (.data t) values := by
  have hscalars : scalarsBytes t (cells.map cellScalar) =
      (cells.map fun cell => valueBytes t (cellScalar cell)).sum +
        packedBytes t values.length := by
    rw [scalarsBytes_eq, List.map_map, length_map, h.length_eq]
    rfl
  cases t with
  | list item =>
    have hlengths : (cells.flatMap cellItems).length = (values.map itemCount).sum := by
      rw [length_flatMap, h.map_eq (g := fun cell => (cellItems cell).length)
        fun v cell hcell => (length_cellItems hcell).symm]
    have hitems : ((cells.flatMap cellItems).map (valueBytes item)).sum =
        (cells.map fun cell => ((cellItems cell).map (valueBytes item)).sum).sum := by
      rw [map_flatMap, flatMap_def, sum_flatten, List.map_map]
      rfl
    have hcells : (cells.map (cellBytes (.list item))).sum =
        4 * cells.length +
          (cells.map fun cell => ((cellItems cell).map (valueBytes item)).sum).sum := by
      rw [← sum_const cells, ← sum_map_add]
      rfl
    rw [bufferBytes, scalarsBytes_eq, hlengths, hitems, packedSlack, hcells]
    ring
  | fixedSizeList item dim =>
    have hcells : (cells.map (cellBytes (.fixedSizeList item dim))).sum =
        4 * dim * cells.length := by
      rw [← sum_const cells]
      rfl
    rw [hcells]
    rfl
  | _ => exact hscalars

end Omnigraph.Loader
