import Omnigraph.Loader.Columns

/-!
# The early parse budget

Before a keyed record is kept, its JSON value is charged to its table: a rough count of the bytes it
will take as arrays. The charge does not see the types of the columns.
-/

namespace Omnigraph.Loader

open List SerdeJson Query

def keyedWriteMaxRows : ℕ := 8192

def keyedWriteMaxBytes : ℕ := 32 * 1024 * 1024

/-! ### Charges -/

/-- The bytes that base64 text decodes to: three for every four characters, without the padding. -/
def decodedLenEstimate (encoded : String) : ℕ :=
  (encoded.utf8ByteSize + 3) / 4 * 3 - (encoded.toList.reverse.takeWhile (· = '=')).length

/-- The decoder of base64 yields as many bytes as its text says. -/
def Library.decodesPadded (lib : Library) : Prop :=
  ∀ encoded data, lib.decodeBase64 encoded = some data →
    data.length = decodedLenEstimate encoded

/-- The charge of a text. -/
def estimateString (value : String) : ℕ :=
  match Prefixed.strip "base64:" value with
  | some encoded => decodedLenEstimate encoded
  | none => value.utf8ByteSize

mutual

/-- The charge of a value. -/
def estimateJsonArrowBytes : JsonValue → ℕ
  | .null => 0
  | .bool _ => 1
  | .number _ => 4
  | .string value => estimateString value
  | .array values => (values.length + 1) * 4 + estimateItems values
  | .object fields => estimateMembers fields

def estimateItems : List JsonValue → ℕ
  | [] => 0
  | value :: values => estimateJsonArrowBytes value + estimateItems values

/-- Names of properties are not charged. -/
def estimateMembers : List (String × JsonValue) → ℕ
  | [] => 0
  | (_, value) :: fields => estimateJsonArrowBytes value + estimateMembers fields

end

lemma estimateItems_eq (values : List JsonValue) :
    estimateItems values = (values.map estimateJsonArrowBytes).sum := by
  induction values with
  | nil => rw [estimateItems, map_nil, sum_nil]
  | cons value values ih => rw [estimateItems, ih, map_cons, sum_cons]

lemma estimateMembers_eq (fields : List (String × JsonValue)) :
    estimateMembers fields = (fields.map fun field => estimateJsonArrowBytes field.2).sum := by
  induction fields with
  | nil => rw [estimateMembers, map_nil, sum_nil]
  | cons field fields ih => rw [estimateMembers, ih, map_cons, sum_cons]

/-! ### The budget -/

/-- A keyed record: its table, its data and the bytes of its endpoints. -/
structure Record where
  tableKey : String
  data : JsonValue
  structuralStringBytes : ℕ

def Record.bytes (r : Record) : ℕ := estimateJsonArrowBytes r.data + r.structuralStringBytes

/-- The rows and bytes charged to each table. -/
abbrev Budgets := HashMap String (ℕ × ℕ)

def accountKeyedJsonRow (budgets : Budgets) (r : Record) : Except OmniError Budgets :=
  let entry := (budgets.lookup r.tableKey).getD (0, 0)
  let rows := entry.1 + 1
  if keyedWriteMaxRows < rows then
    .error (.resourceLimit s!"keyed rows for {r.tableKey}" keyedWriteMaxRows rows)
  else
    let bytes := entry.2 + r.bytes
    if keyedWriteMaxBytes < bytes then
      .error (.resourceLimit s!"keyed parsed value bytes for {r.tableKey}" keyedWriteMaxBytes bytes)
    else .ok (budgets.insert r.tableKey (rows, bytes))

/-- The records of a table. -/
def recordsOf (tableKey : String) (records : List Record) : List Record :=
  records.filter fun r => r.tableKey = tableKey

/-- The bytes charged to a table for its records. -/
def runningTotal (tableKey : String) (records : List Record) : ℕ :=
  ((recordsOf tableKey records).map Record.bytes).sum

lemma recordsOf_append_singleton (tableKey : String) (records : List Record) (r : Record) :
    recordsOf tableKey (records ++ [r]) =
      recordsOf tableKey records ++ if r.tableKey = tableKey then [r] else [] := by
  rw [recordsOf, filter_append]
  congr 1
  by_cases h : r.tableKey = tableKey <;> simp [h]

lemma runningTotal_append_singleton (tableKey : String) (records : List Record) (r : Record) :
    runningTotal tableKey (records ++ [r]) =
      runningTotal tableKey records + if r.tableKey = tableKey then r.bytes else 0 := by
  rw [runningTotal, recordsOf_append_singleton, map_append, sum_append, runningTotal]
  split_ifs <;> simp

variable {budgets : Budgets} {records : List Record}

/-- The budget of a table is what its records are charged. -/
theorem budget_eq (h : records.foldlM accountKeyedJsonRow ∅ = .ok budgets) (tableKey : String) :
    (budgets.lookup tableKey).getD (0, 0) =
      ((recordsOf tableKey records).length, runningTotal tableKey records) := by
  induction records using List.reverseRecOn generalizing budgets with
  | nil =>
    cases h
    rfl
  | append_singleton records r ih =>
    rw [foldlM_append] at h
    obtain ⟨before, hbefore, h⟩ := Except.bind_eq_ok_iff.mp h
    rw [foldlM_cons] at h
    obtain ⟨after, hafter, h⟩ := Except.bind_eq_ok_iff.mp h
    cases h
    rw [recordsOf_append_singleton, runningTotal_append_singleton]
    unfold accountKeyedJsonRow at hafter
    dsimp only at hafter
    split_ifs at hafter
    cases hafter
    rw [HashMap.lookup_insert_ite]
    by_cases hkey : tableKey = r.tableKey
    · subst hkey
      rw [if_pos rfl, if_pos rfl, if_pos rfl, Option.getD_some, ih hbefore]
      simp
    · rw [if_neg hkey, if_neg (Ne.symm hkey), if_neg (Ne.symm hkey), append_nil, Nat.add_zero]
      exact ih hbefore

/-- A record is refused for its bytes only if the charge of its table exceeds the limit. -/
lemma accountKeyedJsonRow_error {r : Record} {e : OmniError}
    (h : records.foldlM accountKeyedJsonRow ∅ = .ok budgets)
    (herror : accountKeyedJsonRow budgets r = .error e) :
    keyedWriteMaxRows < (recordsOf r.tableKey (records ++ [r])).length ∨
      keyedWriteMaxBytes < runningTotal r.tableKey (records ++ [r]) := by
  have hentry := budget_eq h r.tableKey
  rw [recordsOf_append_singleton, runningTotal_append_singleton, if_pos rfl, if_pos rfl]
  unfold accountKeyedJsonRow at herror
  rw [hentry] at herror
  dsimp only at herror
  split_ifs at herror with hrows hbytes
  · left
    simpa using hrows
  · exact .inr hbytes

/-- Records are accepted as long as the charges of every table stay within the limits. -/
lemma exists_budgets
    (h : ∀ tableKey, (recordsOf tableKey records).length ≤ keyedWriteMaxRows ∧
      runningTotal tableKey records ≤ keyedWriteMaxBytes) :
    ∃ budgets, records.foldlM accountKeyedJsonRow ∅ = .ok budgets := by
  induction records using List.reverseRecOn with
  | nil => exact ⟨∅, rfl⟩
  | append_singleton records r ih =>
    obtain ⟨before, hbefore⟩ := ih fun tableKey => by
      have := h tableKey
      rw [recordsOf_append_singleton, runningTotal_append_singleton, length_append] at this
      omega
    rw [foldlM_append, hbefore]
    cases hafter : accountKeyedJsonRow before r with
    | ok after => exact ⟨after, by simp [bind, Except.bind, hafter, pure, Except.pure]⟩
    | error e =>
      rcases accountKeyedJsonRow_error hbefore hafter with hrows | hbytes
      · exact absurd (h _).1 (not_le.mpr hrows)
      · exact absurd (h _).2 (not_le.mpr hbytes)

end Omnigraph.Loader
