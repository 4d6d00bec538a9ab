import Omnigraph.Lib.Json
import Omnigraph.Manifest.Basic

/-!
# Metadata payloads as JSON

The three payload types of the `metadata` column in the form their serializers give them: members
in field order, `null` for an absent field of a version payload, and no member at all for an absent
field of a lineage payload.
-/

namespace Omnigraph

open Json

def optionalInt (n : Option ℕ) : Value :=
  match n with
  | some n => .int n
  | none => .null

def optionalStr (s : Option String) : Value :=
  match s with
  | some s => .str s
  | none => .null

/-- A member that is left out when there is nothing to say. -/
def memberIfSome (key : String) (s : Option String) : Members :=
  match s with
  | some s => [(key, .str s)]
  | none => []

def requiredStr (ms : Members) (key : String) : Except String String :=
  match ms.lookup key with
  | some (.str s) => .ok s
  | _ => .error s!"missing field `{key}`"

def requiredInt (ms : Members) (key : String) : Except String ℤ :=
  match ms.lookup key with
  | some (.int n) => .ok n
  | _ => .error s!"missing field `{key}`"

def maybeStr (ms : Members) (key : String) : Option String :=
  match ms.lookup key with
  | some (.str s) => some s
  | _ => none

def maybeNat (ms : Members) (key : String) : Option ℕ :=
  match ms.lookup key with
  | some (.int n) => some n.toNat
  | _ => none

def TableVersionMetadata.members (p : TableVersionMetadata) : Members :=
  [("manifest_path", .str p.manifestPath), ("manifest_size", optionalInt p.manifestSize),
    ("e_tag", optionalStr p.eTag), ("naming_scheme", optionalStr p.namingScheme)]

def TableVersionMetadata.ofMembers (ms : Members) : Except String TableVersionMetadata := do
  let manifestPath ← requiredStr ms "manifest_path"
  return ⟨manifestPath, maybeNat ms "manifest_size", maybeStr ms "e_tag",
    maybeStr ms "naming_scheme"⟩

def GraphCommitMetadata.members (p : GraphCommitMetadata) : Members :=
  memberIfSome "parent_commit_id" p.parentCommitId ++
    (memberIfSome "merged_parent_commit_id" p.mergedParentCommitId ++
      (memberIfSome "actor_id" p.actorId ++ [("created_at", .int p.createdAt)]))

def GraphCommitMetadata.ofMembers (ms : Members) : Except String GraphCommitMetadata := do
  let createdAt ← requiredInt ms "created_at"
  return ⟨maybeStr ms "parent_commit_id", maybeStr ms "merged_parent_commit_id",
    maybeStr ms "actor_id", createdAt⟩

def GraphHeadMetadata.members (p : GraphHeadMetadata) : Members :=
  ("head_commit_id", .str p.headCommitId) :: memberIfSome "parent_commit_id" p.parentCommitId

def GraphHeadMetadata.ofMembers (ms : Members) : Except String GraphHeadMetadata := do
  let headCommitId ← requiredStr ms "head_commit_id"
  return ⟨headCommitId, maybeStr ms "parent_commit_id"⟩

/-- The codec of a payload type given by its members. -/
def membersCodec {α : Type} (members : α → Members) (ofMembers : Members → Except String α)
    (h : ∀ a, ofMembers (members a) = .ok a) : JsonCodec α where
  toJsonString a := printObject (members a)
  fromJsonStr text :=
    match readObject text with
    | some ms => ofMembers ms
    | none => .error "expected value"
  fromJsonStr_toJsonString a := by
    rw [readObject_printObject]
    exact h a

/-- The payloads in their JSON form. -/
def jsonCodecs : MetadataCodecs where
  version := membersCodec TableVersionMetadata.members TableVersionMetadata.ofMembers <| by
    rintro ⟨path, size, tag, scheme⟩
    cases size <;> cases tag <;> cases scheme <;> rfl
  commit := membersCodec GraphCommitMetadata.members GraphCommitMetadata.ofMembers <| by
    rintro ⟨parent, merged, actor, created⟩
    cases parent <;> cases merged <;> cases actor <;> rfl
  head := membersCodec GraphHeadMetadata.members GraphHeadMetadata.ofMembers <| by
    rintro ⟨head, parent⟩
    cases parent <;> rfl

example : jsonCodecs.head.toJsonString ⟨"01H", none⟩ = "\x7b\"head_commit_id\":\"01H\"\x7d" := by
  decide +kernel

end Omnigraph
