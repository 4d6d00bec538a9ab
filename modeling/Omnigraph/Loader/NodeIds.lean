import Omnigraph.Lib.Numeral
import Omnigraph.Lib.Quoted
import Omnigraph.Loader.Columns
import Omnigraph.Validate.Keys

/-!
# Node ids

The id of a node with a key is a text of the key. Exports may name an id that an earlier version
has derived from one value of the key; the loader accepts it, stores the current id, and remembers
which id the old one stands for.
-/

namespace Omnigraph.Loader

open SerdeJson Column

/-! ### Ids of keys -/

/-- The id of a key: the text of a single value, the JSON array of several ones. -/
def canonicalNodeId (keyColumns : List Column) (row : ℕ) : Except OmniError (Option String) :=
  match compositeUniqueKey keyColumns row with
  | .error e => .error e
  | .ok none => .ok none
  | .ok (some []) =>
    .error (.manifestInternal "cannot derive a physical node id from an empty @key tuple")
  | .ok (some [scalar]) => .ok (some scalar)
  | .ok (some parts) => .ok (some (Quoted.array parts))

/-- What the comparison of ids takes from its libraries beyond the parsers of dates. -/
structure IdLibrary extends Library where
  equalsFloat : FloatType → String → FloatValue → Bool
  showJson : JsonValue → String

/-- The integer types: the least and the greatest value, and whether there are negative ones. -/
def intRange : IntType → ℤ × ℤ
  | .int32 | .date32 => (-2 ^ 31, 2 ^ 31 - 1)
  | .int64 | .date64 => (-2 ^ 63, 2 ^ 63 - 1)
  | .uint32 => (0, 2 ^ 32 - 1)
  | .uint64 => (0, 2 ^ 64 - 1)

def signed : IntType → Bool
  | .uint32 | .uint64 => false
  | _ => true

def parseInt (type : IntType) (text : String) : Option ℤ :=
  Numeral.parse (signed type) (intRange type).1 (intRange type).2 text

section Ids

variable (lib : IdLibrary)

def dateLiteral (type : IntType) (text : String) : Option ℤ :=
  match type with
  | .date32 => (lib.parseDate32 text).toOption
  | .date64 => (lib.parseDate64 text).toOption
  | _ => none

/-- The integer of a text in a column of a type. A date is a number or a date literal. -/
def explicitInt (type : IntType) (text : String) : Option ℤ :=
  (parseInt type text).or (dateLiteral lib type text)

def parseBool (text : String) : Option Bool :=
  if text = "true" then some true else if text = "false" then some false else none

def explicitIdMatchesScalarKey (column : Column) (row : ℕ) (explicit : String) :
    Except OmniError Bool :=
  match column with
  | .string _ cells =>
    match cellAt cells row with
    | none => .ok false
    | some value => .ok (value == explicit)
  | .int type cells =>
    match cellAt cells row with
    | none => .ok false
    | some value => .ok (explicitInt lib type explicit == some value)
  | .float type cells =>
    match cellAt cells row with
    | none => .ok false
    | some value => .ok (lib.equalsFloat type explicit value)
  | .boolean cells =>
    match cellAt cells row with
    | none => .ok false
    | some value => .ok (parseBool explicit == some value)
  | .other dataType nulls =>
    if nulls.getD row true then .ok false
    else .error (.manifest
      s!"scalar key: unsupported column type {dataType} for explicit id comparison")

/-- Whether the id is that of one of the columns. The first one that matches decides. -/
def matchesAny (row : ℕ) (explicit : String) : List Column → Except OmniError Bool
  | [] => .ok false
  | column :: columns => do
    if ← explicitIdMatchesScalarKey lib column row explicit then return true
    else matchesAny row explicit columns

def explicitIdMatchesNodeKey (keyColumns : List Column) (row : ℕ)
    (explicit canonicalId : String) : Except OmniError Bool :=
  if explicit = canonicalId then .ok true
  else if keyColumns = [] then
    .error (.manifestInternal "cannot compare an explicit id to an empty @key tuple")
  else matchesAny lib row explicit keyColumns

/-! ### Remapping -/

/-- The current ids of the ids that were given, by node type. -/
structure TypedNodeIdRemap where
  byNodeType : HashMap String (HashMap String String)

def TypedNodeIdRemap.record (remap : TypedNodeIdRemap) (nodeType oldId canonicalId : String) :
    Except OmniError TypedNodeIdRemap :=
  let byOldId := (remap.byNodeType.lookup nodeType).getD ∅
  match byOldId.lookup oldId with
  | some existing =>
    if existing ≠ canonicalId then
      .error (.manifest (s!"node {nodeType} explicit id '{oldId}' maps to both canonical @key " ++
        s!"ids '{existing}' and '{canonicalId}'; refusing ambiguous edge endpoint remap"))
    else .ok ⟨remap.byNodeType.insert nodeType byOldId⟩
  | none => .ok ⟨remap.byNodeType.insert nodeType (byOldId.insert oldId canonicalId)⟩

def TypedNodeIdRemap.endpoint (remap : TypedNodeIdRemap) (nodeType oldId : String) :
    Option String :=
  (remap.byNodeType.lookup nodeType).bind fun byOldId => byOldId.lookup oldId

/-! ### The ids of a batch -/

structure KeyedType where
  name : String
  key : Option (List String)

def keyColumn (nodeType : KeyedType) (properties : List (String × Column)) (keyProp : String) :
    Except OmniError Column :=
  match ("id" :: properties.map Prod.fst).idxOf? keyProp with
  | none => .error (.manifestInternal
      s!"@key property '{keyProp}' is missing from node {nodeType.name} Arrow schema")
  | some 0 => .error (.manifestInternal
      s!"@key property '{keyProp}' aliases reserved physical id")
  | some (i + 1) =>
    match properties[i]? with
    | some property => .ok property.2
    | none => .error (.manifestInternal
        s!"@key property '{keyProp}' has invalid schema position {i + 1}")

def explicitId (nodeType : KeyedType) (data : JsonValue) : Except OmniError (Option String) :=
  match data.get "id" with
  | none => .ok none
  | some (.string id) => .ok (some id)
  | some value => .error (.manifest
      s!"node {nodeType.name} explicit id must be a string, got {lib.showJson value}")

def keyDescription : List String → String
  | [key] => s!"@key property '{key}'"
  | keys => "@key properties (" ++ ", ".intercalate keys ++ ")"

/-- The id of a row of a type with a key, and what is remembered of the id it was given. -/
def keyedId (nodeType : KeyedType) (keys : List String) (keyColumns : List Column) (row : ℕ)
    (explicit : Option String) (remap : TypedNodeIdRemap) :
    Except OmniError (String × TypedNodeIdRemap) := do
  match ← canonicalNodeId keyColumns row with
  | none => .error (.manifest s!"node {nodeType.name} missing {keyDescription keys}")
  | some canonical =>
    match explicit with
    | none => return (canonical, remap)
    | some explicit =>
      if ← explicitIdMatchesNodeKey lib keyColumns row explicit canonical then
        return (canonical, ← remap.record nodeType.name explicit canonical)
      else .error (.manifest (s!"node {nodeType.name} has explicit id '{explicit}' that does " ++
        s!"not match {keyDescription keys} canonical value '{canonical}'"))

/-- The id of a row. A type without a key takes the id that is given, or a new one. -/
def nodeId (nodeType : KeyedType) (keyColumns : Option (List Column)) (generated : ℕ → String)
    (row : ℕ) (data : JsonValue) (remap : TypedNodeIdRemap) :
    Except OmniError (String × TypedNodeIdRemap) := do
  let explicit ← explicitId lib nodeType data
  match nodeType.key, keyColumns with
  | some keys, some keyColumns => keyedId lib nodeType keys keyColumns row explicit remap
  | _, _ => return (explicit.getD (generated row), remap)

def nodeIds (nodeType : KeyedType) (keyColumns : Option (List Column)) (generated : ℕ → String) :
    ℕ → List JsonValue → TypedNodeIdRemap → Except OmniError (List String × TypedNodeIdRemap)
  | _, [], remap => .ok ([], remap)
  | row, data :: rows, remap => do
    let (id, remap) ← nodeId lib nodeType keyColumns generated row data remap
    let (ids, remap) ← nodeIds nodeType keyColumns generated (row + 1) rows remap
    return (id :: ids, remap)

def buildNodeIds (nodeType : KeyedType) (properties : List (String × Column))
    (generated : ℕ → String) (rows : List JsonValue) (remap : TypedNodeIdRemap) :
    Except OmniError (List String × TypedNodeIdRemap) := do
  let keyColumns ← match nodeType.key with
    | none => pure none
    | some keys => (keys.mapM (keyColumn nodeType properties)).map some
  nodeIds lib nodeType keyColumns generated 0 rows remap

end Ids

/-! ### One id for one key -/

/-- The text of a key that is not empty. -/
def idOfKey : List String → String
  | [scalar] => scalar
  | parts => Quoted.array parts

variable {parts parts' : List String}

lemma idOfKey_inj (hlength : parts.length = parts'.length) (h : idOfKey parts = idOfKey parts') :
    parts = parts' := by
  match parts, parts', hlength with
  | [], [], _ => rfl
  | [scalar], [scalar'], _ => rw [show scalar = scalar' from h]
  | _ :: _ :: _, _ :: _ :: _, _ => exact Quoted.array_injective h

section Keys

variable {lib : IdLibrary} {keyColumns keyColumns' : List Column} {row row' : ℕ} {id id' : String}

lemma canonicalNodeId_eq_ok_iff : canonicalNodeId keyColumns row = .ok (some id) ↔
    keyColumns ≠ [] ∧
      ∃ parts, compositeUniqueKey keyColumns row = .ok (some parts) ∧ idOfKey parts = id := by
  have hnil : ∀ parts, compositeUniqueKey keyColumns row = .ok (some parts) →
      (keyColumns = [] ↔ parts = []) := by
    intro parts hparts
    have hlength := (compositeUniqueKey_iff.mp hparts).length_eq
    rw [← List.length_eq_zero_iff, ← List.length_eq_zero_iff, hlength]
  unfold canonicalNodeId
  split
  next e he => simp [he]
  next he => simp [he]
  next he => simp [(hnil _ he).mpr rfl]
  next scalar he => simp [he, idOfKey, mt (hnil _ he).mp]
  next parts hne hsingle he =>
    have hparts : parts ≠ [] := fun h => hne h
    have hid : idOfKey parts = Quoted.array parts := by
      unfold idOfKey
      split
      · exact absurd rfl (hsingle _)
      · rfl
    simp [he, hid, mt (hnil _ he).mp hparts]

/-- Texts of cells of one type are equal if the cells are. -/
lemma parts_eq_iff (htypes : keyColumns.map dataType = keyColumns'.map dataType)
    (hfloat : ∀ column ∈ keyColumns, ∀ type, column.dataType ≠ .float type)
    (hparts : compositeUniqueKey keyColumns row = .ok (some parts))
    (hparts' : compositeUniqueKey keyColumns' row' = .ok (some parts')) :
    parts = parts' ↔
      keyColumns.map (scalarAt row) = keyColumns'.map (scalarAt row') := by
  rw [compositeUniqueKey_iff] at hparts hparts'
  induction hparts generalizing keyColumns' parts' with
  | nil =>
    rw [List.map_nil, eq_comm, List.map_eq_nil_iff] at htypes
    subst htypes
    cases hparts'
    simp
  | @cons column text keyColumns parts hcell hrest ih =>
    cases hparts' with
    | nil => cases htypes
    | @cons column' text' keyColumns' parts' hcell' hrest' =>
      rw [List.map_cons, List.map_cons, List.cons.injEq] at htypes
      rw [List.forall_mem_cons] at hfloat
      rw [List.map_cons, List.map_cons, List.cons.injEq, List.cons.injEq,
        ih htypes.2 hfloat.2 hrest']
      refine and_congr_left fun _ => ?_
      obtain ⟨value, hvalue, htext⟩ := hcell
      obtain ⟨value', hvalue', htext'⟩ := hcell'
      have htype := dataType_of_scalarAt hvalue
      have htype' := dataType_of_scalarAt hvalue'
      rw [hvalue, hvalue', Option.some.injEq]
      constructor
      · rintro rfl
        refine ScalarValue.text_inj (htype.trans (htypes.1.trans htype'.symm)) htext htext' ?_ ?_
        · rintro ⟨type, rfl⟩
          exact hfloat.1 type htype.symm
        · rintro ⟨type, rfl⟩
          exact hfloat.1 type (htypes.1.trans htype'.symm)
      · rintro rfl
        exact Option.some.inj (htext.symm.trans htext')

/-- Rows have one id if their keys agree. -/
lemma canonicalNodeId_inj
    (htypes : keyColumns.map dataType = keyColumns'.map dataType)
    (hfloat : ∀ column ∈ keyColumns, ∀ type, column.dataType ≠ .float type)
    (hid : canonicalNodeId keyColumns row = .ok (some id))
    (hid' : canonicalNodeId keyColumns' row' = .ok (some id')) :
    id = id' ↔
      keyColumns.map (scalarAt row) = keyColumns'.map (scalarAt row') := by
  obtain ⟨-, parts, hparts, rfl⟩ := canonicalNodeId_eq_ok_iff.mp hid
  obtain ⟨-, parts', hparts', rfl⟩ := canonicalNodeId_eq_ok_iff.mp hid'
  rw [← parts_eq_iff htypes hfloat hparts hparts']
  refine ⟨idOfKey_inj ?_, congrArg idOfKey⟩
  have hlength := congrArg List.length htypes
  rw [List.length_map, List.length_map] at hlength
  rw [← (compositeUniqueKey_iff.mp hparts).length_eq,
    ← (compositeUniqueKey_iff.mp hparts').length_eq, hlength]

variable (hfloat : ∀ column ∈ keyColumns, ∀ type, column.dataType ≠ .float type)

include hfloat in
/-- A row has an id if it has a value for every column of the key. -/
lemma exists_canonicalNodeId_iff :
    (∃ id, canonicalNodeId keyColumns row = .ok (some id)) ↔
      keyColumns ≠ [] ∧ ∀ column ∈ keyColumns, column.scalarAt row ≠ none := by
  simp only [canonicalNodeId_eq_ok_iff, exists_and_left]
  refine and_congr_right fun hne => ⟨?_, fun hcells => ?_⟩
  · rintro ⟨id, parts, hparts, -⟩ column hcolumn
    obtain ⟨text, -, value, hvalue, -⟩ :=
      (compositeUniqueKey_iff.mp hparts).exists_right hcolumn
    rw [hvalue]
    exact Option.some_ne_none value
  · have htexts : ∃ parts, compositeUniqueKey keyColumns row = .ok (some parts) := by
      simp only [compositeUniqueKey_iff]
      clear hne
      induction keyColumns with
      | nil => exact ⟨[], .nil⟩
      | cons column keyColumns ih =>
        rw [List.forall_mem_cons] at hfloat hcells
        obtain ⟨parts, hparts⟩ := ih hfloat.2 hcells.2
        obtain ⟨value, hvalue⟩ := Option.ne_none_iff_exists'.mp hcells.1
        have htype := dataType_of_scalarAt hvalue
        have htext : ∃ text, value.text = some text := by
          cases value with
          | float type value => exact absurd htype.symm (hfloat.1 type)
          | _ => exact ⟨_, rfl⟩
        obtain ⟨text, htext⟩ := htext
        exact ⟨text :: parts, .cons ⟨value, hvalue, htext⟩ hparts⟩
    obtain ⟨parts, hparts⟩ := htexts
    exact ⟨idOfKey parts, parts, hparts, rfl⟩

/-! ### Ids that are accepted -/

/-- A text names a value of a key: as itself, as a numeral or a date, as a truth value. -/
inductive Names (lib : IdLibrary) : ScalarValue → String → Prop
  | string {encoding : StringEncoding} {value : String} : Names lib (.string encoding value) value
  | numeral {type : IntType} {value : ℤ} {text : String}
    (hspells : Numeral.Spells (signed type) text.toList value)
    (hlo : (intRange type).1 ≤ value) (hhi : value ≤ (intRange type).2) :
    Names lib (.int type value) text
  | date {type : IntType} {value : ℤ} {text : String}
    (hnumeral : ∀ v, Numeral.Spells (signed type) text.toList v →
      ¬ ((intRange type).1 ≤ v ∧ v ≤ (intRange type).2))
    (hdate : dateLiteral lib type text = some value) : Names lib (.int type value) text
  | boolean {value : Bool} : Names lib (.boolean value) (toString value)

variable {text explicit : String}

lemma explicitInt_eq_some_iff {type : IntType} {value : ℤ} :
    explicitInt lib type text = some value ↔ Names lib (.int type value) text := by
  rw [explicitInt, Option.or_eq_some_iff, parseInt, Numeral.parse_eq_some_iff]
  have hnone : Numeral.parse (signed type) (intRange type).1 (intRange type).2 text = none ↔
      ∀ v, Numeral.Spells (signed type) text.toList v →
        ¬ ((intRange type).1 ≤ v ∧ v ≤ (intRange type).2) := by
    simp only [Option.eq_none_iff_forall_ne_some, ne_eq, Numeral.parse_eq_some_iff, not_and]
  rw [hnone]
  constructor
  · rintro (⟨hspells, hlo, hhi⟩ | ⟨hnumeral, hdate⟩)
    · exact .numeral hspells hlo hhi
    · exact .date hnumeral hdate
  · rintro (_ | ⟨hspells, hlo, hhi⟩ | ⟨hnumeral, hdate⟩ | _)
    · exact .inl ⟨hspells, hlo, hhi⟩
    · exact .inr ⟨hnumeral, hdate⟩

lemma parseBool_eq_some_iff {value : Bool} :
    parseBool text = some value ↔ text = toString value := by
  unfold parseBool
  cases value with
  | false =>
    show _ ↔ text = "false"
    split_ifs with h h' <;> simp_all
  | true =>
    show _ ↔ text = "true"
    split_ifs with h h' <;> simp_all

/-- A given id is accepted if and only if it names the key. -/
lemma explicitIdMatchesScalarKey_eq {column : Column} {value : ScalarValue} {explicit : String}
    (hfloat : ∀ type, column.dataType ≠ .float type) (hvalue : column.scalarAt row = some value) :
    ∃ accepted, explicitIdMatchesScalarKey lib column row explicit = .ok accepted ∧
      (accepted = true ↔ Names lib value explicit) := by
  cases column with
  | string encoding cells =>
    obtain ⟨cell, hcell, rfl⟩ := Option.map_eq_some_iff.mp hvalue
    rw [explicitIdMatchesScalarKey, hcell]
    refine ⟨_, rfl, beq_iff_eq.trans ⟨?_, ?_⟩⟩
    · rintro rfl
      exact .string
    · rintro ⟨⟩
      rfl
  | int type cells =>
    obtain ⟨cell, hcell, rfl⟩ := Option.map_eq_some_iff.mp hvalue
    rw [explicitIdMatchesScalarKey, hcell]
    exact ⟨_, rfl, beq_iff_eq.trans explicitInt_eq_some_iff⟩
  | float type cells => exact absurd rfl (hfloat type)
  | boolean cells =>
    obtain ⟨cell, hcell, rfl⟩ := Option.map_eq_some_iff.mp hvalue
    rw [explicitIdMatchesScalarKey, hcell]
    refine ⟨_, rfl, beq_iff_eq.trans (parseBool_eq_some_iff.trans ⟨?_, ?_⟩)⟩
    · rintro rfl
      exact .boolean
    · rintro ⟨⟩
      rfl
  | other dataType nulls => cases hvalue

include hfloat in
lemma matchesAny_eq (hcells : ∀ column ∈ keyColumns, column.scalarAt row ≠ none) :
    ∃ accepted, matchesAny lib row explicit keyColumns = .ok accepted ∧
      (accepted = true ↔ ∃ column ∈ keyColumns, ∃ value,
        column.scalarAt row = some value ∧ Names lib value explicit) := by
  induction keyColumns with
  | nil => exact ⟨false, rfl, by simp⟩
  | cons column keyColumns ih =>
    rw [List.forall_mem_cons] at hfloat hcells
    obtain ⟨rest, hrest, hrestIff⟩ := ih hfloat.2 hcells.2
    obtain ⟨value, hvalue⟩ := Option.ne_none_iff_exists'.mp hcells.1
    obtain ⟨first, hfirst, hfirstIff⟩ :=
      @explicitIdMatchesScalarKey_eq lib row column value explicit hfloat.1 hvalue
    refine ⟨first || rest, ?_, ?_⟩
    · rw [matchesAny, hfirst, hrest]
      cases first <;> rfl
    · rw [Bool.or_eq_true, hfirstIff, hrestIff, List.exists_mem_cons_iff]
      simp [hvalue]

include hfloat in
/-- An id is accepted if it is the id of the row or names a value of its key. -/
lemma explicitIdMatchesNodeKey_eq (hid : canonicalNodeId keyColumns row = .ok (some id)) :
    ∃ accepted, explicitIdMatchesNodeKey lib keyColumns row explicit id = .ok accepted ∧
      (accepted = true ↔ explicit = id ∨ ∃ column ∈ keyColumns, ∃ value,
        column.scalarAt row = some value ∧ Names lib value explicit) := by
  obtain ⟨hne, hcells⟩ := (exists_canonicalNodeId_iff hfloat).mp ⟨id, hid⟩
  unfold explicitIdMatchesNodeKey
  by_cases hsame : explicit = id
  · rw [if_pos hsame]
    exact ⟨true, rfl, by simp [hsame]⟩
  · rw [if_neg hsame, if_neg hne]
    simp only [hsame, false_or]
    exact matchesAny_eq hfloat hcells

end Keys

/-! ### What is remembered -/

lemma TypedNodeIdRemap.record_spec {remap remap' : TypedNodeIdRemap}
    {nodeType oldId canonicalId : String}
    (h : remap.record nodeType oldId canonicalId = .ok remap') :
    remap'.endpoint nodeType oldId = some canonicalId ∧
      ∀ type explicit id, remap'.endpoint type explicit = some id ↔
        remap.endpoint type explicit = some id ∨
          (type = nodeType ∧ explicit = oldId ∧ canonicalId = id) := by
  have hfound : ∀ explicit, ((remap.byNodeType.lookup nodeType).getD ∅).lookup explicit =
      remap.endpoint nodeType explicit := by
    intro explicit
    unfold TypedNodeIdRemap.endpoint
    cases remap.byNodeType.lookup nodeType with
    | none => rfl
    | some byOldId => rfl
  unfold TypedNodeIdRemap.record at h
  dsimp only at h
  split at h
  next existing hexisting =>
    split_ifs at h with hsame
    cases h
    obtain rfl := not_not.mp hsame
    rw [hfound] at hexisting
    have hendpoint : ∀ type explicit, TypedNodeIdRemap.endpoint
        ⟨remap.byNodeType.insert nodeType ((remap.byNodeType.lookup nodeType).getD ∅)⟩
        type explicit = remap.endpoint type explicit := by
      intro type explicit
      conv_lhs => rw [TypedNodeIdRemap.endpoint, HashMap.lookup_insert_ite]
      split_ifs with htype
      · rw [htype, Option.bind_some, hfound]
      · rfl
    refine ⟨(hendpoint _ _).trans hexisting, fun type explicit id => ?_⟩
    rw [hendpoint]
    refine ⟨.inl, ?_⟩
    rintro (hold | ⟨rfl, rfl, rfl⟩)
    · exact hold
    · exact hexisting
  next hnew =>
    cases h
    rw [hfound] at hnew
    have hendpoint : ∀ type explicit, TypedNodeIdRemap.endpoint
        ⟨remap.byNodeType.insert nodeType
          (((remap.byNodeType.lookup nodeType).getD ∅).insert oldId canonicalId)⟩ type explicit =
        if type = nodeType ∧ explicit = oldId then some canonicalId
        else remap.endpoint type explicit := by
      intro type explicit
      conv_lhs => rw [TypedNodeIdRemap.endpoint, HashMap.lookup_insert_ite]
      by_cases htype : type = nodeType
      · subst htype
        rw [if_pos rfl, Option.bind_some, HashMap.lookup_insert_ite, hfound]
        simp only [true_and]
      · rw [if_neg htype, if_neg fun h => htype h.1]
        rfl
    refine ⟨(hendpoint _ _).trans (if_pos ⟨rfl, rfl⟩), fun type explicit id => ?_⟩
    rw [hendpoint]
    split_ifs with hpair
    · obtain ⟨rfl, rfl⟩ := hpair
      rw [hnew]
      simp
    · refine ⟨.inl, ?_⟩
      rintro (hold | ⟨htype, hexplicit, -⟩)
      · exact hold
      · exact absurd ⟨htype, hexplicit⟩ hpair

section Load

variable {lib : IdLibrary} {nodeType : KeyedType} {keys : List String} {keyColumns : List Column}
  {row : ℕ} {id : String} {data : JsonValue} {remap remap' : TypedNodeIdRemap}
  {generated : ℕ → String}

lemma explicitId_eq_some_iff {explicit : Option String}
    (h : explicitId lib nodeType data = .ok explicit) (given : String) :
    data.get "id" = some (.string given) ↔ explicit = some given := by
  unfold explicitId at h
  split at h
  next hnone =>
    cases h
    simp [hnone]
  next hsome =>
    cases h
    simp [hsome]
  · cases h

/-- A row that is loaded has the id of its key, and the id it was given is accepted. -/
lemma nodeId_spec (hkey : nodeType.key = some keys)
    (h : nodeId lib nodeType (some keyColumns) generated row data remap = .ok (id, remap')) :
    canonicalNodeId keyColumns row = .ok (some id) ∧
      (∀ explicit, data.get "id" = some (.string explicit) →
        explicitIdMatchesNodeKey lib keyColumns row explicit id = .ok true) ∧
      ∀ type explicit id', remap'.endpoint type explicit = some id' ↔
        remap.endpoint type explicit = some id' ∨
          (type = nodeType.name ∧ data.get "id" = some (.string explicit) ∧ id = id') := by
  rw [nodeId, Except.bind_eq_ok_iff] at h
  obtain ⟨explicit, hexplicit, h⟩ := h
  have hget := explicitId_eq_some_iff hexplicit
  rw [hkey] at h
  dsimp only at h
  rw [keyedId, Except.bind_eq_ok_iff] at h
  obtain ⟨found, hfound, h⟩ := h
  cases found with
  | none => cases h
  | some canonical =>
    cases explicit with
    | none =>
      cases h
      exact ⟨hfound, by simp [hget], by simp [hget]⟩
    | some given =>
      dsimp only at h
      rw [Except.bind_eq_ok_iff] at h
      obtain ⟨accepted, haccepted, h⟩ := h
      cases accepted with
      | false => cases h
      | true =>
        rw [if_pos rfl, Except.bind_eq_ok_iff] at h
        obtain ⟨next, hnext, h⟩ := h
        cases h
        refine ⟨hfound, fun explicit hexplicit => ?_, fun type explicit id' => ?_⟩
        · obtain rfl := Option.some.inj ((hget explicit).mp hexplicit)
          exact haccepted
        · rw [(TypedNodeIdRemap.record_spec hnext).2, hget, Option.some.injEq, eq_comm (a := given)]

/-- The rows that are loaded, from a position on. -/
structure Loaded (lib : IdLibrary) (name : String) (keyColumns : List Column) (start : ℕ)
    (rows : List JsonValue) (ids : List String) (remap remap' : TypedNodeIdRemap) : Prop where
  length_eq : ids.length = rows.length
  canonical : ∀ i id, ids[i]? = some id →
    canonicalNodeId keyColumns (start + i) = .ok (some id)
  accepted : ∀ (i : ℕ) (id : String) (data : JsonValue) (explicit : String),
    ids[i]? = some id → rows[i]? = some data → data.get "id" = some (.string explicit) →
      explicitIdMatchesNodeKey lib keyColumns (start + i) explicit id = .ok true
  endpoint : ∀ type explicit id, remap'.endpoint type explicit = some id ↔
    remap.endpoint type explicit = some id ∨
      (type = name ∧ ∃ (i : ℕ) (data : JsonValue), ids[i]? = some id ∧ rows[i]? = some data ∧
        data.get "id" = some (.string explicit))

variable {ids : List String} {rows : List JsonValue}

/-- Each row of a load has a canonical id, which its given id leads to. -/
lemma nodeIds_spec (hkey : nodeType.key = some keys) {start : ℕ}
    (h : nodeIds lib nodeType (some keyColumns) generated start rows remap = .ok (ids, remap')) :
    Loaded lib nodeType.name keyColumns start rows ids remap remap' := by
  induction rows generalizing start ids remap with
  | nil =>
    cases h
    exact ⟨rfl, by simp, by simp, by simp⟩
  | cons data rows ih =>
    rw [nodeIds, Except.bind_eq_ok_iff] at h
    obtain ⟨⟨id, next⟩, hid, h⟩ := h
    rw [Except.bind_eq_ok_iff] at h
    obtain ⟨⟨rest, last⟩, hrest, h⟩ := h
    cases h
    obtain ⟨hcanonical, haccepted, hendpoint⟩ := nodeId_spec hkey hid
    have hloaded := ih hrest
    refine ⟨congrArg Nat.succ hloaded.length_eq, fun i => ?_, fun i => ?_,
      fun type explicit id' => ?_⟩
    · cases i with
      | zero =>
        rintro id' ⟨⟩
        exact hcanonical
      | succ i =>
        intro id' hget
        have hi := hloaded.canonical i id' hget
        rwa [Nat.add_assoc, Nat.add_comm 1 i] at hi
    · cases i with
      | zero =>
        rintro id' data' explicit ⟨⟩ ⟨⟩ hget
        exact haccepted explicit hget
      | succ i =>
        intro id' data' explicit hget hdata hexplicit
        have hi := hloaded.accepted i id' data' explicit hget hdata hexplicit
        rwa [Nat.add_assoc, Nat.add_comm 1 i] at hi
    · rw [hloaded.endpoint, hendpoint, or_assoc, ← and_or_left]
      refine or_congr_right (and_congr_right fun _ => ?_)
      constructor
      · rintro (⟨hget, rfl⟩ | ⟨i, data', hi, hdata, hget⟩)
        · exact ⟨0, data, rfl, rfl, hget⟩
        · exact ⟨i + 1, data', hi, hdata, hget⟩
      · rintro ⟨_ | i, data', hi, hdata, hget⟩
        · cases hi
          cases hdata
          exact .inl ⟨hget, rfl⟩
        · exact .inr ⟨i, data', hi, hdata, hget⟩

lemma buildNodeIds_spec {properties : List (String × Column)} (hkey : nodeType.key = some keys)
    (hcolumns : keys.mapM (keyColumn nodeType properties) = .ok keyColumns)
    (h : buildNodeIds lib nodeType properties generated rows remap = .ok (ids, remap')) :
    Loaded lib nodeType.name keyColumns 0 rows ids remap remap' := by
  rw [buildNodeIds, hkey] at h
  dsimp only at h
  rw [hcolumns] at h
  exact nodeIds_spec hkey h

/-- Without floats in the key, rows have one id if their keys agree, and an id that is given is
accepted if it is the id of the row or names a value of its key. Loading remembers for every id that
was given the id of its row. -/
theorem canonicalNodeId_exact (hkey : nodeType.key = some keys)
    (hfloat : ∀ column ∈ keyColumns, ∀ type, column.dataType ≠ .float type) :
    (∀ row, (∃ id, canonicalNodeId keyColumns row = .ok (some id)) ↔
      keyColumns ≠ [] ∧ ∀ column ∈ keyColumns, column.scalarAt row ≠ none) ∧
    (∀ keyColumns' row row' id id',
      keyColumns.map dataType = keyColumns'.map dataType →
      canonicalNodeId keyColumns row = .ok (some id) →
      canonicalNodeId keyColumns' row' = .ok (some id') →
        (id = id' ↔
          keyColumns.map (scalarAt row) = keyColumns'.map (scalarAt row'))) ∧
    (∀ row id explicit, canonicalNodeId keyColumns row = .ok (some id) →
      ∃ accepted, explicitIdMatchesNodeKey lib keyColumns row explicit id = .ok accepted ∧
        (accepted = true ↔ explicit = id ∨ ∃ column ∈ keyColumns, ∃ value,
          column.scalarAt row = some value ∧ Names lib value explicit)) ∧
    ∀ properties generated rows remap ids remap',
      keys.mapM (keyColumn nodeType properties) = .ok keyColumns →
      buildNodeIds lib nodeType properties generated rows remap = .ok (ids, remap') →
        Loaded lib nodeType.name keyColumns 0 rows ids remap remap' :=
  ⟨fun _ => exists_canonicalNodeId_iff hfloat,
    fun _ _ _ _ _ htypes hid hid' => canonicalNodeId_inj htypes hfloat hid hid',
    fun _ _ _ hid => explicitIdMatchesNodeKey_eq hfloat hid,
    fun _ _ _ _ _ _ hcolumns h => buildNodeIds_spec hkey hcolumns h⟩

/-- Nothing here is a date, a float or not a string. -/
def plainIds : IdLibrary where
  parseDate32 := fun _ => .error (.manifest "invalid date")
  parseDate64 := fun _ => .error (.manifest "invalid date")
  narrow := some
  showFloat := fun _ => ""
  decodeBase64 := fun _ => none
  equalsFloat := fun _ _ _ => false
  showJson := fun _ => ""

def namedPeople : List (String × Column) :=
  [("age", .int .int32 [some 7]), ("name", .string .utf8 [some "ann"])]

/-- An export names a node by a number of its key. -/
theorem canonicalNodeId_exact_numeral :
    ∃ ids remap', buildNodeIds plainIds ⟨"Person", some ["name", "age"]⟩ namedPeople (fun _ => "")
        [.object [("id", .string "+7")]] ⟨∅⟩ = .ok (ids, remap') ∧
      ids = ["[\"ann\",\"7\"]"] ∧
      remap'.endpoint "Person" "+7" = some "[\"ann\",\"7\"]" := by
  have hfloat : ∀ column ∈ [string .utf8 [some "ann"], .int .int32 [some 7]], ∀ type,
      column.dataType ≠ .float type := by
    simp [dataType]
  obtain ⟨-, -, -, hload⟩ := @canonicalNodeId_exact plainIds ⟨"Person", some ["name", "age"]⟩
    ["name", "age"] [.string .utf8 [some "ann"], .int .int32 [some 7]] rfl hfloat
  refine ⟨_, _, rfl, by decide +kernel, ?_⟩
  have hloaded := hload namedPeople (fun _ => "") [.object [("id", .string "+7")]] ⟨∅⟩ _ _ rfl rfl
  refine (hloaded.endpoint _ _ _).mpr (.inr ⟨rfl, 0, .object [("id", .string "+7")], ?_, rfl, rfl⟩)
  decide +kernel

end Load

end Omnigraph.Loader
