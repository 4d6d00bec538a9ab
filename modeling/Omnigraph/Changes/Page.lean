import Omnigraph.Changes.Diff
import Omnigraph.Lib.Sorted

/-!
# Pages of changes

The changes of a commit are read in pages. The tables whose state differs between two snapshots are
walked in the order of their aliases and identities, the rows of each in the order of their ids. A
page ends before the change that would pass its row or byte limit, and its cursor names the last
change it holds.
-/

namespace Omnigraph

/-! ### Changed tables -/

/-- A snapshot: a version and the tables it shows. -/
structure PinnedSnapshot where
  version : ℕ
  entries : List SubTableEntry
  valid : ∀ entry ∈ entries, entry.tableKey ≠ "" ∧ entry.identity.Valid

/-- A table whose state differs between two snapshots. -/
structure TableChangeInterval where
  identity : TableIdentity
  src : Option SubTableEntry
  tgt : Option SubTableEntry

/-- The alias at the destination, or at the origin for a removed table. -/
def TableChangeInterval.tableKey (interval : TableChangeInterval) : String :=
  ((interval.tgt.or interval.src).map SubTableEntry.tableKey).getD ""

/-- The two ends of each table, by identity. -/
abbrev IntervalMap := HashMap TableIdentity (Option SubTableEntry × Option SubTableEntry)

def IntervalMap.ends (m : IntervalMap) (identity : TableIdentity) :
    Option SubTableEntry × Option SubTableEntry := (m.lookup identity).getD (none, none)

def setSource (m : IntervalMap) (entry : SubTableEntry) : IntervalMap :=
  m.insert entry.identity (some entry, (m.ends entry.identity).2)

def setTarget (m : IntervalMap) (entry : SubTableEntry) : IntervalMap :=
  m.insert entry.identity ((m.ends entry.identity).1, some entry)

def sameState : Option SubTableEntry → Option SubTableEntry → Bool
  | none, none => true
  | some a, some b => a.tableVersion = b.tableVersion && a.tableBranch = b.tableBranch
  | _, _ => false

/-- The order of identities. -/
def TableIdentity.rank (identity : TableIdentity) : ℕ ×ₗ ℕ :=
  toLex (identity.stableTableId, identity.tableIncarnationId)

/-- The place of a table in the walk: its alias, then its identity. -/
def TableChangeInterval.place (interval : TableChangeInterval) : String ×ₗ (ℕ ×ₗ ℕ) :=
  toLex (interval.tableKey, interval.identity.rank)

def intervalOf (entry : TableIdentity × (Option SubTableEntry × Option SubTableEntry)) :
    Option TableChangeInterval :=
  if sameState entry.2.1 entry.2.2 then none else some ⟨entry.1, entry.2.1, entry.2.2⟩

def changedTableIntervals (src tgt : PinnedSnapshot) : List TableChangeInterval :=
  let byIdentity := tgt.entries.foldl setTarget (src.entries.foldl setSource ∅)
  Sorted.sortOn TableChangeInterval.place
    ((byIdentity.entries.map fun entry => (entry.1, entry.2)).filterMap intervalOf)

/-- What follows a tag at the start of a text. -/
def afterTag (tag text : String) : Option String :=
  if tag.toList.isPrefixOf text.toList then some (String.ofList (text.toList.drop tag.length))
  else none

def parseTableKey (tableKey : String) : EntityKind × String :=
  match afterTag "node:" tableKey with
  | some name => (.node, name)
  | none =>
    match afterTag "edge:" tableKey with
    | some name => (.edge, name)
    | none => (.node, tableKey)

/-! ### Cursors -/

structure CommitChangesCursor where
  version : ℕ
  graphIdentity : String
  commitId : String
  tableKey : String
  stableTableId : ℕ
  tableIncarnationId : ℕ
  id : String
  operationRank : ℕ
  changeIndex : ℕ

def CommitChangesCursor.identity (cursor : CommitChangesCursor) : TableIdentity :=
  ⟨cursor.stableTableId, cursor.tableIncarnationId⟩

/-- The place of the table a cursor names. -/
def CommitChangesCursor.place (cursor : CommitChangesCursor) : String ×ₗ (ℕ ×ₗ ℕ) :=
  toLex (cursor.tableKey, cursor.identity.rank)

def cursorVersion : ℕ := 1

def cursorChecksumBytes : ℕ := 32

/-- JSON, base64 and SHA-256, with what the cursors rely on. -/
structure CursorCodec where
  toJson : CommitChangesCursor → List UInt8
  fromJson : List UInt8 → Option CommitChangesCursor
  base64 : List UInt8 → String
  unbase64 : String → Option (List UInt8)
  sha256 : List UInt8 → List UInt8
  toUtf8 : String → List UInt8
  json_ne_nil : ∀ cursor, toJson cursor ≠ []
  fromJson_toJson : ∀ cursor, fromJson (toJson cursor) = some cursor
  unbase64_base64 : ∀ bytes, unbase64 (base64 bytes) = some bytes
  sha256_length : ∀ bytes, (sha256 bytes).length = cursorChecksumBytes

def cursorRejected (reason : String) : OmniError := .changeCursorRejected reason

section Cursor

variable (codec : CursorCodec)

def cursorGraphIdentity (graphIdentity : String) : String :=
  codec.base64 (codec.sha256 (codec.toUtf8 graphIdentity))

def encodeCursor (cursor : CommitChangesCursor) : String :=
  codec.base64 (codec.toJson cursor ++ codec.sha256 (codec.toJson cursor))

def decodeBytes (bytes : List UInt8) : Except OmniError CommitChangesCursor :=
  if bytes.length ≤ cursorChecksumBytes then
    .error (cursorRejected "invalid commit changes cursor")
  else
    let payload := bytes.take (bytes.length - cursorChecksumBytes)
    let checksum := bytes.drop (bytes.length - cursorChecksumBytes)
    if codec.sha256 payload ≠ checksum then
      .error (cursorRejected "invalid commit changes cursor checksum")
    else
      match codec.fromJson payload with
      | some cursor => .ok cursor
      | none => .error (cursorRejected "invalid commit changes cursor payload")

def decodeCursor (cursor : String) : Except OmniError CommitChangesCursor :=
  match codec.unbase64 cursor with
  | none => .error (cursorRejected "invalid commit changes cursor encoding")
  | some bytes => decodeBytes codec bytes

def operationRank : ChangeOp → ℕ
  | .insert => 0
  | .update => 1
  | .delete => 2

def validateCursor (cursor : CommitChangesCursor) (graphIdentity commitId : String) :
    Except OmniError CommitChangesCursor :=
  if cursor.version ≠ cursorVersion then
    .error (cursorRejected "unsupported commit changes cursor version")
  else if cursor.graphIdentity ≠ cursorGraphIdentity codec graphIdentity ∨
      cursor.commitId ≠ commitId then
    .error (cursorRejected "commit changes cursor does not match this graph and commit")
  else if cursor.tableKey = "" ∨ cursor.stableTableId = 0 ∨ cursor.tableIncarnationId = 0 ∨
      cursor.operationRank > operationRank .delete then
    .error (cursorRejected "invalid commit changes cursor identity")
  else .ok cursor

end Cursor

/-! ### Pages -/

def commitChangesMaxRows : ℕ := 8192

def commitChangesMaxBytes : ℕ := 32 * 1024 * 1024

structure CommitChangesPage where
  changes : List EntityChange
  nextCursor : Option String
  commitComplete : Bool

/-- What the pages of a commit are read from: the rows of each table version, how they are rendered,
the length of a change in JSON, and the commit. -/
structure ChangeFeed where
  reader : RowReader
  codec : CursorCodec
  openAtEntry : SubTableEntry → TableRows
  encodedBytes : EntityChange → ℕ
  src : PinnedSnapshot
  tgt : PinnedSnapshot
  graphIdentity : String
  commitId : String

def validateLimits (limit maxBytes : ℕ) : Except OmniError Unit :=
  if limit = 0 then .error (.manifest "commit changes limit must be greater than zero")
  else if limit > commitChangesMaxRows then
    .error (.resourceLimitExceeded "commit_changes_page_rows" commitChangesMaxRows limit)
  else if maxBytes = 0 then
    .error (.manifest "commit changes max_bytes must be greater than zero")
  else if maxBytes > commitChangesMaxBytes then
    .error (.resourceLimitExceeded "commit_changes_page_bytes" commitChangesMaxBytes maxBytes)
  else .ok ()

/-- A page while it is filled. -/
structure PageState where
  changes : List EntityChange
  retainedBytes : ℕ
  changeIndex : ℕ
  lastIdentity : Option TableIdentity

/-- Why a page is left before the end of the walk. -/
inductive PageEnd
  | full (st : PageState)
  | failed (error : OmniError)

section Page

variable (feed : ChangeFeed)

/-- The rows of one side of an interval, after an id when the walk is resumed there. -/
def orderedRows (entry : Option SubTableEntry) (afterId : Option String) : List VersionedRow :=
  match entry with
  | none => []
  | some entry =>
    match afterId with
    | none => (feed.openAtEntry entry).rows
    | some id => (feed.openAtEntry entry).rows.filter fun row => id < row.id

def intervalContext (interval : TableChangeInterval) : ChangeContext :=
  { tableKey := interval.tableKey
    kind := (parseTableKey interval.tableKey).1
    typeName := (parseTableKey interval.tableKey).2
    manifestVersion := feed.tgt.version }

/-- The changes of an interval. -/
def intervalChanges (interval : TableChangeInterval) (afterId : Option String) :
    List EntityChange :=
  walkChanges feed.reader (intervalContext feed interval) (orderedRows feed interval.src afterId)
    (orderedRows feed interval.tgt afterId)

def pageStep (limit maxBytes : ℕ) (identity : TableIdentity) (st : PageState)
    (change : EntityChange) : Except PageEnd PageState :=
  let change := { change with changeIndex := st.changeIndex }
  let encodedBytes := feed.encodedBytes change
  if st.changes.length = limit ∨ st.retainedBytes + encodedBytes > maxBytes then
    if st.changes = [] then
      .error (.failed
        (.resourceLimitExceeded "commit_changes_page_bytes" maxBytes encodedBytes))
    else .error (.full st)
  else
    .ok { changes := st.changes ++ [change], retainedBytes := st.retainedBytes + encodedBytes
          changeIndex := st.changeIndex + 1, lastIdentity := some identity }

/-- The id after which the walk goes on in an interval. -/
def resumeAfter (cursor : Option CommitChangesCursor) (interval : TableChangeInterval) :
    Option String :=
  (cursor.filter fun cursor =>
    cursor.tableKey = interval.tableKey && cursor.identity = interval.identity).map
      CommitChangesCursor.id

def isPassed (cursor : Option CommitChangesCursor) (interval : TableChangeInterval) : Bool :=
  match cursor with
  | none => false
  | some cursor =>
    interval.tableKey < cursor.tableKey ||
      (interval.tableKey = cursor.tableKey && interval.identity.rank < cursor.identity.rank)

def pageInterval (cursor : Option CommitChangesCursor) (limit maxBytes : ℕ) (st : PageState)
    (interval : TableChangeInterval) : Except PageEnd PageState :=
  if isPassed cursor interval then .ok st
  else (intervalChanges feed interval (resumeAfter cursor interval)).foldlM
    (pageStep feed limit maxBytes interval.identity) st

/-- The cursor that names the last change of a page. -/
def lastCursor (st : PageState) : Option CommitChangesCursor := do
  let last ← st.changes.getLast?
  let identity ← st.lastIdentity
  some
    { version := cursorVersion
      graphIdentity := cursorGraphIdentity feed.codec feed.graphIdentity
      commitId := feed.commitId, tableKey := last.tableKey
      stableTableId := identity.stableTableId
      tableIncarnationId := identity.tableIncarnationId
      id := last.id, operationRank := operationRank last.op, changeIndex := last.changeIndex }

def cursorIdentitySeen (cursor : Option CommitChangesCursor)
    (intervals : List TableChangeInterval) : Bool :=
  match cursor with
  | none => true
  | some cursor => intervals.any fun interval =>
      interval.tableKey = cursor.tableKey && cursor.identity = interval.identity

def readCursor (cursor : Option String) : Except OmniError (Option CommitChangesCursor) :=
  match cursor with
  | none => .ok none
  | some cursor => do
    let cursor ← decodeCursor feed.codec cursor
    let cursor ← validateCursor feed.codec cursor feed.graphIdentity feed.commitId
    .ok (some cursor)

def startIndex (cursor : Option CommitChangesCursor) : ℕ :=
  match cursor with
  | none => 0
  | some cursor => cursor.changeIndex + 1

/-- The page after a cursor that was read. -/
def pageAfter (cursor : Option CommitChangesCursor) (limit maxBytes : ℕ) :
    Except OmniError CommitChangesPage :=
  let intervals := changedTableIntervals feed.src feed.tgt
  match intervals.foldlM (pageInterval feed cursor limit maxBytes)
      ⟨[], 0, startIndex cursor, none⟩ with
  | .error (.failed error) => .error error
  | .error (.full st) => .ok
      { changes := st.changes
        nextCursor := (lastCursor feed st).map (encodeCursor feed.codec)
        commitComplete := false }
  | .ok st =>
    if cursorIdentitySeen cursor intervals then .ok ⟨st.changes, none, true⟩
    else .error (cursorRejected "commit changes cursor no longer names a changed table")

def commitChangesPage (cursor : Option String) (limit maxBytes : ℕ) :
    Except OmniError CommitChangesPage := do
  validateLimits limit maxBytes
  let cursor ← readCursor feed cursor
  pageAfter feed cursor limit maxBytes

end Page

end Omnigraph
