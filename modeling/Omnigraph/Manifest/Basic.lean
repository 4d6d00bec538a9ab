import Mathlib.Data.List.TakeWhile
import Mathlib.Data.String.Basic
import Omnigraph.CommitGraph
import Omnigraph.Lib.Digits
import Omnigraph.Lib.Join

/-!
# The manifest: rows, identities and changes

The manifest is one set of rows keyed by `objectId`. A table has a registration row for its
immutable identity and an append-only row for each published version; dropping a table adds a
tombstone row. Graph commits have a row of their own and a mutable head row for each branch.
-/

namespace Omnigraph

open List

/-! ### Identities and their object ids -/

structure TableIdentity where
  stableTableId : ℕ
  tableIncarnationId : ℕ
deriving DecidableEq, Repr

namespace TableIdentity

/-- Both components are non-zero. -/
def Valid (identity : TableIdentity) : Prop :=
  identity.stableTableId ≠ 0 ∧ identity.tableIncarnationId ≠ 0

instance (identity : TableIdentity) : Decidable identity.Valid :=
  inferInstanceAs (Decidable (_ ∧ _))

def invalidText (identity : TableIdentity) : String :=
  s!"table identity components must be non-zero (stable_table_id={identity.stableTableId}, " ++
    s!"table_incarnation_id={identity.tableIncarnationId})"

def validate (identity : TableIdentity) : Except OmniError Unit :=
  if identity.Valid then .ok () else .error (.manifest identity.invalidText)

@[simp] lemma validate_eq_ok_iff {identity : TableIdentity} {u : Unit} :
    identity.validate = .ok u ↔ identity.Valid := by
  unfold validate
  split_ifs with h <;> simp [h]

end TableIdentity

/-- `{:016x}`. -/
def hex16 (n : ℕ) : String := Digits.padded 16 16 n

def TableIdentity.display (identity : TableIdentity) : String :=
  ":".intercalate [hex16 identity.stableTableId, hex16 identity.tableIncarnationId]

def formatTableVersion (version : ℕ) : String := Digits.padded 10 20 version

def tableObjectId (identity : TableIdentity) : String :=
  ":".intercalate ["table", hex16 identity.stableTableId, hex16 identity.tableIncarnationId]

def versionObjectId (identity : TableIdentity) (version : ℕ) : String :=
  ":".intercalate ["table_version", hex16 identity.stableTableId,
    hex16 identity.tableIncarnationId, formatTableVersion version]

def tombstoneObjectId (identity : TableIdentity) (version : ℕ) : String :=
  ":".intercalate ["table_tombstone", hex16 identity.stableTableId,
    hex16 identity.tableIncarnationId, formatTableVersion version]

def mainBranchHeadKey : String := "main"

def graphHeadObjectId (branch : Option String) : String :=
  "graph_head:" ++ branch.getD mainBranchHeadKey

def hasPrefix (pre s : String) : Bool := pre.toList.isPrefixOf s.toList

def tablePathForIdentity (tableKey : String) (identity : TableIdentity) :
    Except OmniError String :=
  if hasPrefix "node:" tableKey then
    .ok s!"nodes/{hex16 identity.stableTableId}-{hex16 identity.tableIncarnationId}"
  else if hasPrefix "edge:" tableKey then
    .ok s!"edges/{hex16 identity.stableTableId}-{hex16 identity.tableIncarnationId}"
  else .error (.manifest s!"invalid table key '{tableKey}'")

/-! ### Registrations, versions and lineage -/

structure TableRegistration where
  identity : TableIdentity
  tableKey : String
  tablePath : String
deriving DecidableEq, Repr

structure TableVersionMetadata where
  manifestPath : String
  manifestSize : Option ℕ
  eTag : Option String
  namingScheme : Option String
deriving DecidableEq, Repr

structure SubTableEntry where
  identity : TableIdentity
  tableKey : String
  tablePath : String
  tableVersion : ℕ
  tableBranch : Option String
  rowCount : ℕ
  versionMetadata : TableVersionMetadata
deriving DecidableEq, Repr

structure TableTombstone where
  identity : TableIdentity
  tableKey : String
  tombstoneVersion : ℕ
deriving DecidableEq, Repr

/-- A graph commit as the manifest records it: the fields of `GraphCommit`. -/
abbrev GraphLineageRow := GraphCommit

structure GraphCommitMetadata where
  parentCommitId : Option String
  mergedParentCommitId : Option String
  actorId : Option String
  createdAt : ℤ

structure GraphHeadMetadata where
  headCommitId : String
  parentCommitId : Option String

/-- JSON texts for one payload type: what is written is read back. -/
structure JsonCodec (α : Type) where
  toJsonString : α → String
  fromJsonStr : String → Except String α
  fromJsonStr_toJsonString : ∀ a, fromJsonStr (toJsonString a) = .ok a

/-- The payloads kept in the `metadata` column. -/
structure MetadataCodecs where
  version : JsonCodec TableVersionMetadata
  commit : JsonCodec GraphCommitMetadata
  head : JsonCodec GraphHeadMetadata

/-! ### Rows -/

inductive ObjectType
  | table
  | tableVersion
  | tableTombstone
  | graphCommit
  | graphHead
  | unknown (name : String)
deriving DecidableEq

def ObjectType.name : ObjectType → String
  | table => "table"
  | tableVersion => "table_version"
  | tableTombstone => "table_tombstone"
  | graphCommit => "graph_commit"
  | graphHead => "graph_head"
  | unknown name => name

structure ManifestRow where
  objectId : String
  objectType : ObjectType
  location : Option String
  metadata : Option String
  tableKey : String
  stableTableId : Option ℕ
  tableIncarnationId : Option ℕ
  tableVersion : Option ℕ
  tableBranch : Option String
  rowCount : Option ℕ
deriving DecidableEq

/-- The manifest's rows: one for each object id. -/
structure Manifest where
  rows : List ManifestRow
  nodup : (rows.map ManifestRow.objectId).Nodup

/-- The merge-insert of a batch, keyed by object id. -/
def Manifest.mergeInsert (m : Manifest) (batch : List ManifestRow) : Manifest where
  rows := Keyed.upsertAll ManifestRow.objectId m.rows batch
  nodup := Keyed.nodup_upsertAll m.nodup batch

/-! ### Changes -/

structure SubTableUpdate where
  identity : TableIdentity
  tableKey : String
  tableVersion : ℕ
  tableBranch : Option String
  rowCount : ℕ
  versionMetadata : TableVersionMetadata

structure TableRename where
  identity : TableIdentity
  expectedTableKey : String
  tableKey : String
  tablePath : String

inductive ManifestChange
  | update (update : SubTableUpdate)
  | registerTable (registration : TableRegistration)
  | renameTable (rename : TableRename)
  | tombstone (tombstone : TableTombstone)

structure TableVersionExpectation where
  tableKey : String
  tableVersion : ℕ
deriving DecidableEq

abbrev ExpectedTableVersions := HashMap TableIdentity TableVersionExpectation

/-- What a publish records of its graph commit. The id is a ULID, minted once before the publish
loop; its letters and digits never make it look like another object id. -/
structure LineageIntent where
  graphCommitId : String
  branch : Option String
  actorId : Option String
  mergedParentCommitId : Option String
  createdAt : ℤ
  ulid : ':' ∉ graphCommitId.toList

/-! ### Object ids tell objects apart -/

lemma colon_notMem_padded {b : ℕ} (h1 : 1 < b) (h16 : b ≤ 16) (width n : ℕ) :
    ':' ∉ (Digits.padded b width n).toList := by
  intro h
  obtain ⟨d, hd, hc⟩ := Digits.mem_padded h1 h
  have hdigit : ∀ d : Fin 16, ':' ≠ d.val.digitChar := by decide
  exact hdigit ⟨d, by omega⟩ hc

lemma colon_notMem_hex16 (n : ℕ) : ':' ∉ (hex16 n).toList :=
  colon_notMem_padded (by decide) (by decide) 16 n

lemma colon_notMem_formatTableVersion (n : ℕ) : ':' ∉ (formatTableVersion n).toList :=
  colon_notMem_padded (by decide) (by decide) 20 n

variable {l : List String} {i i' : TableIdentity} {tag : String} {v v' : ℕ}

/-- Colon-joined texts determine their colon-free pieces. -/
lemma colonJoin_inj {l' : List String} (hlen : l.length = l'.length) (hl : ∀ x ∈ l, ':' ∉ x.toList)
    (hl' : ∀ x ∈ l', ':' ∉ x.toList) (h : ":".intercalate l = ":".intercalate l') : l = l' := by
  have hcolon : ":".toList = [':'] := by decide
  have hlists := congrArg String.toList h
  rw [String.toList_intercalate, String.toList_intercalate, hcolon] at hlists
  have := Join.intercalate_inj_of_length (by simpa using hlen) (by simpa using hl)
    (by simpa using hl') hlists
  exact (map_injective_iff.mpr fun _ _ => String.toList_inj.mp) this

lemma hex16_injective : Function.Injective hex16 :=
  Digits.padded_injective (by decide) (by decide) 16

lemma formatTableVersion_injective : Function.Injective formatTableVersion :=
  Digits.padded_injective (by decide) (by decide) 20

lemma TableIdentity.eq_of_hex16 (h : hex16 i.stableTableId = hex16 i'.stableTableId)
    (h' : hex16 i.tableIncarnationId = hex16 i'.tableIncarnationId) : i = i' := by
  cases i
  cases i'
  simp only [TableIdentity.mk.injEq]
  exact ⟨hex16_injective h, hex16_injective h'⟩

lemma tableObjectId_inj (h : tableObjectId i = tableObjectId i') : i = i' := by
  have hfree : ∀ i : TableIdentity, ∀ x ∈ ["table", hex16 i.stableTableId,
      hex16 i.tableIncarnationId], ':' ∉ x.toList := by
    intro i x hx
    simp only [mem_cons, not_mem_nil, or_false] at hx
    rcases hx with rfl | rfl | rfl
    · decide
    · exact colon_notMem_hex16 _
    · exact colon_notMem_hex16 _
  have := colonJoin_inj (by simp) (hfree i) (hfree i') h
  simp only [List.cons.injEq, true_and, and_true] at this
  exact TableIdentity.eq_of_hex16 this.1 this.2

/-- The ids of versions and of tombstones differ by their tag only. -/
lemma versionedObjectId_inj (htag : ':' ∉ tag.toList)
    (h : ":".intercalate [tag, hex16 i.stableTableId, hex16 i.tableIncarnationId,
        formatTableVersion v] =
      ":".intercalate [tag, hex16 i'.stableTableId, hex16 i'.tableIncarnationId,
        formatTableVersion v']) : i = i' ∧ v = v' := by
  have hfree : ∀ (i : TableIdentity) v, ∀ x ∈ [tag, hex16 i.stableTableId,
      hex16 i.tableIncarnationId, formatTableVersion v], ':' ∉ x.toList := by
    intro i v x hx
    simp only [mem_cons, not_mem_nil, or_false] at hx
    rcases hx with rfl | rfl | rfl | rfl
    · exact htag
    · exact colon_notMem_hex16 _
    · exact colon_notMem_hex16 _
    · exact colon_notMem_formatTableVersion _
  have := colonJoin_inj (by simp) (hfree i v) (hfree i' v') h
  simp only [List.cons.injEq, true_and, and_true] at this
  exact ⟨TableIdentity.eq_of_hex16 this.1 this.2.1, formatTableVersion_injective this.2.2⟩

lemma versionObjectId_inj (h : versionObjectId i v = versionObjectId i' v') : i = i' ∧ v = v' :=
  versionedObjectId_inj (by decide) h

lemma tombstoneObjectId_inj (h : tombstoneObjectId i v = tombstoneObjectId i' v') :
    i = i' ∧ v = v' :=
  versionedObjectId_inj (by decide) h

/-- The part of an object id before its first colon. -/
def objectTag (objectId : String) : List Char := objectId.toList.takeWhile fun c => c ≠ ':'

lemma objectTag_cons_cons {x : String} (htag : ':' ∉ tag.toList) :
    objectTag (":".intercalate (tag :: x :: l)) = tag.toList := by
  rw [objectTag, String.toList_intercalate]
  simp only [map_cons, intercalate_cons_cons, append_assoc]
  rw [takeWhile_append_of_pos (by
    intro c hc
    have : c ≠ ':' := fun h => htag (h ▸ hc)
    simpa using this)]
  simp

@[simp] lemma objectTag_tableObjectId (i : TableIdentity) :
    objectTag (tableObjectId i) = "table".toList := objectTag_cons_cons (by decide)

@[simp] lemma objectTag_versionObjectId (i : TableIdentity) (v : ℕ) :
    objectTag (versionObjectId i v) = "table_version".toList := objectTag_cons_cons (by decide)

@[simp] lemma objectTag_tombstoneObjectId (i : TableIdentity) (v : ℕ) :
    objectTag (tombstoneObjectId i v) = "table_tombstone".toList :=
  objectTag_cons_cons (by decide)

/-- The type of the rows an object id can belong to. -/
def idType (objectId : String) : ObjectType :=
  if ':' ∉ objectId.toList then .graphCommit
  else if objectTag objectId = "table".toList then .table
  else if objectTag objectId = "table_version".toList then .tableVersion
  else if objectTag objectId = "table_tombstone".toList then .tableTombstone
  else .graphHead

lemma colon_mem_colonJoin (tag x : String) (l : List String) :
    ':' ∈ (":".intercalate (tag :: x :: l)).toList := by
  rw [String.toList_intercalate]
  simp

@[simp] lemma idType_tableObjectId (i : TableIdentity) : idType (tableObjectId i) = .table := by
  have hcolon : ':' ∈ (tableObjectId i).toList := colon_mem_colonJoin _ _ _
  rw [idType, if_neg (not_not.mpr hcolon), objectTag_tableObjectId, if_pos rfl]

@[simp] lemma idType_versionObjectId (i : TableIdentity) (v : ℕ) :
    idType (versionObjectId i v) = .tableVersion := by
  have hcolon : ':' ∈ (versionObjectId i v).toList := colon_mem_colonJoin _ _ _
  rw [idType, if_neg (not_not.mpr hcolon), objectTag_versionObjectId]
  decide

@[simp] lemma idType_tombstoneObjectId (i : TableIdentity) (v : ℕ) :
    idType (tombstoneObjectId i v) = .tableTombstone := by
  have hcolon : ':' ∈ (tombstoneObjectId i v).toList := colon_mem_colonJoin _ _ _
  rw [idType, if_neg (not_not.mpr hcolon), objectTag_tombstoneObjectId]
  decide

lemma idType_graphHead (key : String) : idType ("graph_head:" ++ key) = .graphHead := by
  have hcolon : ':' ∈ ("graph_head:" ++ key).toList := by simp
  have htag : objectTag ("graph_head:" ++ key) = "graph_head".toList := by simp [objectTag]
  rw [idType, if_neg (not_not.mpr hcolon), htag]
  decide

@[simp] lemma idType_graphHeadObjectId (branch : Option String) :
    idType (graphHeadObjectId branch) = .graphHead := idType_graphHead _

@[simp] lemma idType_graphCommitId (intent : LineageIntent) :
    idType intent.graphCommitId = .graphCommit := if_pos intent.ulid

end Omnigraph
