import Omnigraph.Loader.LowerBound

/-!
# The batch of a table

A batch has a column of ids, for an edge table those of its endpoints, and a column for every
property. The charge of the records of a table and what it leaves out are the bytes of the buffers
and what is charged that no buffer takes.
-/

namespace Omnigraph.Loader

open List Except SerdeJson Query

/-! ### Members -/

/-- A sum over the members of an object is one over the names they may have. -/
lemma sum_members {f : JsonValue → ℕ} (hf : f .null = 0) {members : List (String × JsonValue)}
    {names : List String} (hmembers : (members.map Prod.fst).Nodup) (hnames : names.Nodup)
    (hsub : ∀ name ∈ members.map Prod.fst, name ∈ names) :
    (members.map fun member => f member.2).sum =
      (names.map fun name => f ((JsonValue.object members).getD name)).sum := by
  induction members generalizing names with
  | nil =>
    have hzero : ∀ name ∈ names, f ((JsonValue.object []).getD name) = 0 := fun _ _ => hf
    rw [map_congr_left hzero, sum_const, Nat.zero_mul]
    rfl
  | cons member members ih =>
    rw [map_cons, nodup_cons] at hmembers
    have hperm := perm_cons_erase (hsub member.1 (by simp))
    have hhead : (JsonValue.object (member :: members)).getD member.1 = member.2 := by
      simp [JsonValue.getD, JsonValue.get]
    have htail : ∀ name ∈ names.erase member.1,
        f ((JsonValue.object (member :: members)).getD name) =
          f ((JsonValue.object members).getD name) := by
      intro name hname
      have hne : member.1 ≠ name := ((hnames.mem_erase_iff.mp hname).1).symm
      simp [JsonValue.getD, JsonValue.get, hne]
    rw [map_cons, sum_cons, (hperm.map _).sum_eq, map_cons, sum_cons, hhead,
      map_congr_left htail, ih hmembers.2 (hnames.erase _)]
    intro name hname
    refine hnames.mem_erase_iff.mpr ⟨?_, hsub name (by simp [List.mem_map.mp hname])⟩
    rintro rfl
    exact hmembers.1 hname

/-! ### Tables and rows -/

/-- A table of a graph: its property columns. -/
structure Table where
  key : String
  isEdge : Bool
  fields : List Field
  nodup : ("id" :: fields.map Field.name).Nodup

/-- A record of a table, with the texts its batch stores for it. -/
structure Row where
  members : List (String × JsonValue)
  fromText : String
  toText : String
  id : String
  src : String
  dst : String

def Row.data (r : Row) : JsonValue := .object r.members

def Table.record (t : Table) (r : Row) : Record where
  tableKey := t.key
  data := r.data
  structuralStringBytes :=
    if t.isEdge then r.fromText.utf8ByteSize + r.toText.utf8ByteSize else 0

def textColumn (texts : List String) : LoadedArray :=
  .data .utf8 (texts.map fun s => some (.scalar (.utf8 s)))

def Table.columns (t : Table) (rows : List Row) (properties : List LoadedArray) :
    List LoadedArray :=
  textColumn (rows.map Row.id) ::
    (if t.isEdge then [textColumn (rows.map Row.src), textColumn (rows.map Row.dst)] else []) ++
      properties

def batchBytes (perBlob : ℕ) (columns : List LoadedArray) : ℕ :=
  (columns.map (bufferBytes perBlob)).sum

/-- The values of a property agree with its type: only null becomes null. -/
def Field.conforms (lib : Library) (field : Field) (v : JsonValue) : Prop :=
  match field.kind with
  | .data t => ∀ cell, cellFromJson lib field.name t field.nullable v = .ok cell → Strict v cell
  | .blob => True

def Field.isColumn (field : Field) : Bool :=
  match field.kind with
  | .data t => isColumnType t
  | .blob => true

/-- The rows conform to the schema of the table, and its property columns are built of them. -/
structure Conforms (lib : Library) (t : Table) (rows : List Row) (properties : List LoadedArray) :
    Prop where
  built : buildFields lib t.fields (rows.map Row.data) = .ok properties
  columns : ∀ field ∈ t.fields, field.isColumn = true
  strict : ∀ field ∈ t.fields, ∀ r ∈ rows, field.conforms lib (r.data.getD field.name)
  nodup : ∀ r ∈ rows, (r.members.map Prod.fst).Nodup
  known : ∀ r ∈ rows, ∀ name ∈ r.members.map Prod.fst, name ∈ "id" :: t.fields.map Field.name

/-! ### What is charged beyond the buffers, and what is not charged -/

/-- What a text is charged beyond its bytes as stored. -/
def textOver (charge : ℕ) (stored : String) : ℕ := charge - stored.utf8ByteSize

/-- What a stored text takes beyond its charge: its offset and, for instance, a generated id. -/
def textSlack (charge : ℕ) (stored : String) : ℕ := 4 + (stored.utf8ByteSize - charge)

/-- A sum over the texts of a row, each with its charge and its stored text. -/
def Table.texts (t : Table) (f : ℕ → String → ℕ) (r : Row) : ℕ :=
  f (estimateJsonArrowBytes (r.data.getD "id")) r.id +
    if t.isEdge then f r.fromText.utf8ByteSize r.src + f r.toText.utf8ByteSize r.dst else 0

def Field.values (field : Field) (rows : List Row) : List JsonValue :=
  rows.map fun r => r.data.getD field.name

/-- What the records of a table are charged that its buffers do not take. -/
def Table.over (t : Table) (rows : List Row) : ℕ :=
  (rows.map (t.texts textOver)).sum +
    (t.fields.map fun field => ((field.values rows).map (fieldOver field.kind)).sum).sum

/-- What the buffers of a table take that its records are not charged. -/
def Table.slack (t : Table) (perBlob : ℕ) (rows : List Row) : ℕ :=
  (rows.map (t.texts textSlack)).sum +
    (t.fields.map fun field => ((field.values rows).map (fieldSlack perBlob field.kind)).sum +
      packedSlack field.kind (field.values rows)).sum

/-! ### The balance of a table -/

lemma text_balance (charge : ℕ) (stored : String) :
    charge + textSlack charge stored = 4 + stored.utf8ByteSize + textOver charge stored := by
  unfold textSlack textOver
  omega

lemma bufferBytes_textColumn (perBlob : ℕ) (texts : List String) :
    bufferBytes perBlob (textColumn texts) =
      (texts.map fun s => 4 + s.utf8ByteSize).sum := by
  rw [sum_map_add, sum_const, textColumn, bufferBytes, scalarsBytes]
  · simp only [length_map, List.map_map]
    rfl
  all_goals simp

/-- What the texts of a row add to the buffers. -/
def Table.textBytes (t : Table) (r : Row) : ℕ :=
  t.texts (fun _ stored => 4 + stored.utf8ByteSize) r

lemma batchBytes_columns (perBlob : ℕ) (t : Table) (rows : List Row)
    (properties : List LoadedArray) :
    batchBytes perBlob (t.columns rows properties) =
      (rows.map t.textBytes).sum + (properties.map (bufferBytes perBlob)).sum := by
  have hid : bufferBytes perBlob (textColumn (rows.map Row.id)) =
      (rows.map fun r => 4 + r.id.utf8ByteSize).sum := by
    rw [bufferBytes_textColumn, List.map_map]
    rfl
  unfold batchBytes Table.columns
  cases hedge : t.isEdge with
  | true =>
    have htext : ∀ r, t.textBytes r =
        4 + r.id.utf8ByteSize + (4 + r.src.utf8ByteSize + (4 + r.dst.utf8ByteSize)) := by
      intro r
      simp [Table.textBytes, Table.texts, hedge]
    have hsrc : bufferBytes perBlob (textColumn (rows.map Row.src)) =
        (rows.map fun r => 4 + r.src.utf8ByteSize).sum := by
      rw [bufferBytes_textColumn, List.map_map]
      rfl
    have hdst : bufferBytes perBlob (textColumn (rows.map Row.dst)) =
        (rows.map fun r => 4 + r.dst.utf8ByteSize).sum := by
      rw [bufferBytes_textColumn, List.map_map]
      rfl
    have htexts : (rows.map t.textBytes).sum = (rows.map fun r => 4 + r.id.utf8ByteSize).sum +
        ((rows.map fun r => 4 + r.src.utf8ByteSize).sum +
          (rows.map fun r => 4 + r.dst.utf8ByteSize).sum) := by
      rw [← sum_map_add, ← sum_map_add]
      exact congrArg List.sum (map_congr_left fun r _ => htext r)
    rw [htexts]
    simp only [if_true, cons_append, nil_append, map_cons, sum_cons, hid,
      hsrc, hdst]
    omega
  | false =>
    have htext : ∀ r, t.textBytes r = 4 + r.id.utf8ByteSize := by
      intro r
      simp [Table.textBytes, Table.texts, hedge]
    rw [map_congr_left fun r _ => htext r]
    simp [hid]

/-- The charge of the texts of a row and what it leaves out are their bytes and what they are
overcharged. -/
lemma texts_balance (t : Table) (r : Row) :
    t.texts (fun charge _ => charge) r + t.texts textSlack r =
      t.textBytes r + t.texts textOver r := by
  have hid := text_balance (estimateJsonArrowBytes (r.data.getD "id")) r.id
  have hsrc := text_balance r.fromText.utf8ByteSize r.src
  have hdst := text_balance r.toText.utf8ByteSize r.dst
  simp only [Table.textBytes, Table.texts]
  split_ifs <;> omega

section Balance

variable {lib : Library} {t : Table} {rows : List Row} {properties : List LoadedArray}

/-- The charge of a column and what it leaves out are its buffers and what it is overcharged. -/
lemma field_balance (hdecode : lib.decodesPadded)
    (h : Conforms lib t rows properties) (perBlob : ℕ) {field : Field} (hfield : field ∈ t.fields)
    {array : LoadedArray} (hbuild : buildField lib (rows.map Row.data) field = .ok array) :
    ((field.values rows).map estimateJsonArrowBytes).sum +
        (((field.values rows).map (fieldSlack perBlob field.kind)).sum +
          packedSlack field.kind (field.values rows)) =
      bufferBytes perBlob array + ((field.values rows).map (fieldOver field.kind)).sum := by
  have hcolumn := h.columns field hfield
  have hstrict := h.strict field hfield
  obtain ⟨name, kind, nullable⟩ := field
  unfold buildField at hbuild
  cases kind with
  | blob =>
    obtain ⟨values, hvalues, rfl⟩ := map_eq_ok hbuild
    have hpaired := mapM_eq_ok_iff.mp hvalues
    rw [List.forall₂_map_left_iff] at hpaired
    have hcharge : ((Field.values ⟨name, .blob, nullable⟩ rows).map estimateJsonArrowBytes) =
        values.map blobPayload := by
      rw [Field.values, List.map_map]
      exact hpaired.map_eq fun r value hvalue => blob_balance hdecode hvalue
    have hslack : ((Field.values ⟨name, .blob, nullable⟩ rows).map (fieldSlack perBlob .blob)).sum =
        perBlob * values.length := by
      rw [← hpaired.length_eq, ← length_map (f := fun r : Row => r.data.getD name)]
      exact sum_const _ _
    have hover : ((Field.values ⟨name, .blob, nullable⟩ rows).map (fieldOver .blob)).sum = 0 := by
      exact (sum_const _ 0).trans (Nat.zero_mul _)
    rw [hcharge, hslack, hover, bufferBytes, packedSlack]
    omega
  | data type =>
    obtain ⟨cells, hcells, hbuilt⟩ := bind_eq_ok_iff.mp hbuild
    have harray : array = .data type cells := by
      split_ifs at hbuilt
      exact (Except.ok.inj hbuilt).symm
    have hpaired := mapM_eq_ok_iff.mp hcells
    have hvalues : List.Forall₂
        (fun v cell => cellFromJson lib name type nullable v = .ok cell)
        (Field.values ⟨name, .data type, nullable⟩ rows) cells := by
      rw [Field.values, List.forall₂_map_left_iff]
      rwa [List.forall₂_map_left_iff] at hpaired
    have hbalance := sum_balance hvalues fun v hv cell _ hcell => by
      obtain ⟨r, hr, rfl⟩ := List.mem_map.mp hv
      exact cell_balance hcolumn hcell (hstrict r hr cell hcell) perBlob
    rw [harray, bufferBytes_eq hvalues]
    dsimp only
    omega

lemma sum_swap {α β : Type*} (f : α → β → ℕ) (l : List α) (r : List β) :
    (l.map fun a => (r.map (f a)).sum).sum = (r.map fun b => (l.map fun a => f a b).sum).sum := by
  induction l with
  | nil => simp
  | cons a l ih => simp [sum_map_add, ih]

/-- The charge of a record is that of its texts and its property values. -/
lemma bytes_record (h : Conforms lib t rows properties) {r : Row} (hr : r ∈ rows) :
    (t.record r).bytes = t.texts (fun charge _ => charge) r +
      (t.fields.map fun field => estimateJsonArrowBytes (r.data.getD field.name)).sum := by
  have hmembers := sum_members (f := estimateJsonArrowBytes) (by rw [estimateJsonArrowBytes])
    (h.nodup r hr) t.nodup (h.known r hr)
  rw [Record.bytes, Table.record, Row.data, estimateJsonArrowBytes, estimateMembers_eq, hmembers,
    map_cons, sum_cons, List.map_map, Table.texts]
  simp only [Function.comp_def, Row.data]
  omega

/-- The charge of the records of a table and what it leaves out are the bytes of its batch and what
is charged that no buffer takes. -/
theorem table_balance (hdecode : lib.decodesPadded)
    (h : Conforms lib t rows properties) (perBlob : ℕ) :
    (rows.map fun r => (t.record r).bytes).sum + t.slack perBlob rows =
      batchBytes perBlob (t.columns rows properties) + t.over rows := by
  have hcharge : (rows.map fun r => (t.record r).bytes).sum =
      (rows.map (t.texts fun charge _ => charge)).sum +
        (t.fields.map fun field => ((field.values rows).map estimateJsonArrowBytes).sum).sum := by
    rw [map_congr_left fun r hr => bytes_record h hr, sum_map_add, sum_swap]
    simp only [Field.values, List.map_map, Function.comp_def]
  have htexts : (rows.map (t.texts fun charge _ => charge)).sum +
      (rows.map (t.texts textSlack)).sum =
        (rows.map t.textBytes).sum + (rows.map (t.texts textOver)).sum := by
    rw [← sum_map_add, ← sum_map_add]
    simp only [texts_balance]
  have hfields : (t.fields.map fun field =>
        ((field.values rows).map estimateJsonArrowBytes).sum).sum +
      (t.fields.map fun field => ((field.values rows).map (fieldSlack perBlob field.kind)).sum +
        packedSlack field.kind (field.values rows)).sum =
      (properties.map (bufferBytes perBlob)).sum +
        (t.fields.map fun field => ((field.values rows).map (fieldOver field.kind)).sum).sum :=
    sum_balance (mapM_eq_ok_iff.mp h.built)
      fun field hfield array _ hbuild => field_balance hdecode h perBlob hfield hbuild
  rw [hcharge, batchBytes_columns, Table.slack, Table.over]
  omega

end Balance

/-! ### The early check -/

section Check

variable {lib : Library} {t : Table} {rows : List Row} {properties : List LoadedArray}

/-- The running total of a table is at most the bytes of its batch if and only if what is charged
beyond the buffers is at most what is left out. -/
theorem runningTotal_le_iff (hdecode : lib.decodesPadded) (h : Conforms lib t rows properties)
    {records : List Record} (hrecords : recordsOf t.key records = rows.map t.record)
    (perBlob : ℕ) :
    runningTotal t.key records ≤ batchBytes perBlob (t.columns rows properties) ↔
      t.over rows ≤ t.slack perBlob rows := by
  have hbalance := table_balance hdecode h perBlob
  have htotal : runningTotal t.key records = (rows.map fun r => (t.record r).bytes).sum := by
    rw [runningTotal, hrecords, List.map_map]
    rfl
  rw [htotal]
  omega

/-- A load whose tables each have a batch within the limits is accepted record by record, where no
table is charged more beyond its buffers than is left out. -/
theorem budgets_of_within (hdecode : lib.decodesPadded) {records : List Record} (perBlob : ℕ)
    (htables : ∀ r ∈ records, ∃ t rows properties, t.key = r.tableKey ∧
      Conforms lib t rows properties ∧ recordsOf t.key records = rows.map t.record ∧
      t.over rows ≤ t.slack perBlob rows ∧ rows.length ≤ keyedWriteMaxRows ∧
      batchBytes perBlob (t.columns rows properties) ≤ keyedWriteMaxBytes) :
    ∃ budgets, records.foldlM accountKeyedJsonRow ∅ = .ok budgets := by
  apply exists_budgets
  intro tableKey
  cases hkey : recordsOf tableKey records with
  | nil => simp [runningTotal, hkey]
  | cons r rest =>
    have hr := mem_filter.mp (hkey ▸ mem_cons_self : r ∈ recordsOf tableKey records)
    obtain ⟨t, rows, properties, ht, hconforms, hrecords, hover, hrows, hbytes⟩ := htables r hr.1
    rw [← of_decide_eq_true hr.2, ← ht] at hkey ⊢
    have hbalance := table_balance hdecode hconforms perBlob
    rw [runningTotal, ← hkey, hrecords, length_map, List.map_map]
    refine ⟨hrows, ?_⟩
    simp only [Function.comp_def]
    omega

end Check

/-! ### Two tables -/

/-- Libraries that read one text of base64. -/
def sampleLibrary : Library where
  parseDate32 := fun _ => .error (.manifest "invalid date")
  parseDate64 := fun _ => .error (.manifest "invalid date")
  narrow := some
  showFloat := fun _ => "0"
  decodeBase64 := fun encoded => if encoded = "YQ==" then some [97] else none

lemma sampleLibrary_decodesPadded : sampleLibrary.decodesPadded := by
  intro encoded data h
  simp only [sampleLibrary] at h
  split_ifs at h with hencoded
  cases h
  subst hencoded
  decide +kernel

/-- A node table with a text and a blob. -/
def noteTable : Table where
  key := "node:Note"
  isEdge := false
  fields := [⟨"title", .data .utf8, true⟩, ⟨"body", .blob, true⟩]
  nodup := by decide

/-- One note with a body and one without. -/
def noteRows : List Row :=
  [⟨[("id", .string "n1"), ("title", .string "One"), ("body", .string "base64:YQ==")], "", "",
    "n1", "", ""⟩, ⟨[("id", .string "n2"), ("title", .string "Two")], "", "", "n2", "", ""⟩]

def noteColumns : List LoadedArray :=
  [.data .utf8 [some (.scalar (.utf8 "One")), some (.scalar (.utf8 "Two"))],
    .blob [some (.bytes [97]), none]]

lemma conforms_note : Conforms sampleLibrary noteTable noteRows noteColumns where
  built := rfl
  columns := by decide
  strict := by
    intro field hfield r hr
    simp only [noteTable, noteRows, mem_cons, not_mem_nil, or_false] at hfield hr
    rcases hfield with rfl | rfl
    · intro cell hcell
      rcases hr with rfl | rfl <;> cases hcell <;> exact ⟨fun _ => rfl, not_mem_nil⟩
    · trivial
  nodup := by decide
  known := by decide

/-- The running total of the notes is at most the bytes of their batch. -/
theorem runningTotal_le_note :
    runningTotal "node:Note" (noteRows.map noteTable.record) ≤
        batchBytes 16 (noteTable.columns noteRows noteColumns) ↔
      noteTable.over noteRows ≤ noteTable.slack 16 noteRows :=
  runningTotal_le_iff sampleLibrary_decodesPadded conforms_note
    (rfl : recordsOf "node:Note" (noteRows.map noteTable.record) = _) 16

theorem budgets_of_within_note :
    ∃ budgets, (noteRows.map noteTable.record).foldlM accountKeyedJsonRow ∅ = .ok budgets := by
  apply budgets_of_within sampleLibrary_decodesPadded 16
  intro r hr
  obtain ⟨row, -, rfl⟩ := List.mem_map.mp hr
  exact ⟨noteTable, noteRows, _, rfl, conforms_note, rfl, by decide, by decide, by decide⟩

/-- A node table with a vector. -/
def pointTable : Table where
  key := "node:Point"
  isEdge := false
  fields := [⟨"at", .data (.fixedSizeList .float32 2), true⟩]
  nodup := by decide

def pointRow : Row :=
  ⟨[("id", .string "a"), ("at", .array [.number (.float 0), .number (.float 0)])], "", "", "a", "",
    ""⟩

lemma conforms_point : Conforms sampleLibrary pointTable [pointRow]
    [.data (.fixedSizeList .float32 2) [some (.list [some (.float 0), some (.float 0)])]] where
  built := rfl
  columns := by decide
  strict := by
    intro field hfield r hr
    simp only [pointTable, mem_cons, not_mem_nil, or_false] at hfield hr
    subst hr hfield
    intro cell hcell
    cases hcell
    exact ⟨fun _ => rfl, by simp [cellItems]⟩
  nodup := by decide
  known := by decide

/-- A vector of two numbers is charged twenty bytes and takes eight: the running total of a table
is not always a lower bound. -/
theorem not_runningTotal_le_point :
    ¬ ∀ (lib : Library) (t : Table) (rows : List Row) (properties : List LoadedArray)
      (records : List Record) (perBlob : ℕ), lib.decodesPadded →
      Conforms lib t rows properties → recordsOf t.key records = rows.map t.record →
      runningTotal t.key records ≤ batchBytes perBlob (t.columns rows properties) := by
  intro h
  have hle := h sampleLibrary pointTable [pointRow] _ [pointTable.record pointRow] 0
    sampleLibrary_decodesPadded conforms_point rfl
  revert hle
  decide +kernel

end Omnigraph.Loader
