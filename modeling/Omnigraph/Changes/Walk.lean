import Omnigraph.Changes.Page
import Omnigraph.Lib.Json
import Omnigraph.Lib.Result

/-!
# Following the pages of a commit

The changes of a commit in one unbounded pass are strictly ascending by the place of their table and
their id, so that resuming after the last change of a page goes on with the next one. Following the
cursors page by page gives the unbounded pass, whatever the limits of the calls are.
-/

namespace Omnigraph

open List

open MergeJoin (Ascending)

/-! ### Resuming in an ascending list -/

variable {α : Type}

lemma filter_lt_eq_drop {κ : Type} [LinearOrder κ] {key : α → κ} {l : List α}
    (h : l.Pairwise fun a b => key a < key b) {i : ℕ} {a : α} (ha : l[i]? = some a) :
    l.filter (fun b => key a < key b) = l.drop (i + 1) := by
  induction l generalizing i with
  | nil => cases ha
  | cons b l ih =>
    obtain ⟨hb, hl⟩ := pairwise_cons.mp h
    cases i with
    | zero =>
      rw [List.getElem?_cons_zero] at ha
      cases ha
      rw [filter_cons_of_neg (by simp)]
      exact filter_eq_self.mpr fun c hc => decide_eq_true (hb c hc)
    | succ i =>
      rw [List.getElem?_cons_succ] at ha
      have hlt : key b < key a := hb a (mem_of_getElem? ha)
      rw [filter_cons_of_neg (by simpa using hlt.le), drop_succ_cons, ih hl ha]

lemma foldlM_flatMap {ε β σ : Type} {f : σ → β → Except ε σ} {g : α → List β} (l : List α)
    (st : σ) :
    (l.flatMap g).foldlM f st = l.foldlM (fun st a => (g a).foldlM f st) st := by
  induction l generalizing st with
  | nil => rfl
  | cons a l ih =>
    rw [flatMap_cons, foldlM_append, foldlM_cons]
    exact bind_congr fun st => ih st

/-! ### The unbounded pass -/

section Pass

variable (feed : ChangeFeed)

/-- A change with the table it belongs to. -/
abbrev Placed := TableChangeInterval × EntityChange

/-- The place of a change in the walk. -/
def Placed.position (p : Placed) : (String ×ₗ (ℕ ×ₗ ℕ)) ×ₗ String := toLex (p.1.place, p.2.id)

def placedChanges (interval : TableChangeInterval) (afterId : Option String) : List Placed :=
  (intervalChanges feed interval afterId).map (interval, ·)

/-- The changes of all tables, in one pass. -/
def pass : List Placed :=
  (changedTableIntervals feed.src feed.tgt).flatMap (placedChanges feed · none)

def numbered (n : ℕ) (l : List EntityChange) : List EntityChange :=
  (l.zipIdx n).map fun p => { p.1 with changeIndex := p.2 }

/-- The changes of one unbounded pass, numbered from zero. -/
def allChanges : List EntityChange := numbered 0 ((pass feed).map Prod.snd)

end Pass

variable {interval : TableChangeInterval}

section Intervals

variable {src tgt : PinnedSnapshot}

lemma TableIdentity.rank_injective : Function.Injective TableIdentity.rank := by
  rintro ⟨a, b⟩ ⟨c, d⟩ h
  have h' : (a, b) = (c, d) := h
  cases h'
  rfl

/-- Tables are met once each, in the order of their places. -/
lemma changedTableIntervals_ascending :
    (changedTableIntervals src tgt).Pairwise fun a b => a.place < b.place := by
  refine Sorted.increasing_iff_pairwise.mp (Sorted.sortOn_increasing ?_)
  rw [nodup_iff_pairwise_ne, pairwise_map, pairwise_filterMap, pairwise_map]
  refine List.Pairwise.imp ?_ (nodupKeys_iff_pairwise.mp (AList.nodupKeys _))
  intro a b hne interval hinterval interval' hinterval' hplace
  unfold intervalOf at hinterval hinterval'
  split at hinterval
  case isTrue => cases hinterval
  case isFalse =>
    split at hinterval'
    case isTrue => cases hinterval'
    case isFalse =>
      cases hinterval
      cases hinterval'
      exact hne (TableIdentity.rank_injective (congrArg (fun p => (ofLex p).2) hplace))

/-- The ends of a table are entries of its identity. -/
def IntervalMap.Sound (src tgt : PinnedSnapshot) (m : IntervalMap) : Prop :=
  ∀ identity, (∀ entry ∈ (m.ends identity).1, entry ∈ src.entries ∧ entry.identity = identity) ∧
    ∀ entry ∈ (m.ends identity).2, entry ∈ tgt.entries ∧ entry.identity = identity

variable {m : IntervalMap} {entry : SubTableEntry}

lemma IntervalMap.ends_insert {identity identity' : TableIdentity}
    {ends : Option SubTableEntry × Option SubTableEntry} :
    IntervalMap.ends (m.insert identity ends) identity' =
      if identity' = identity then ends else m.ends identity' := by
  rw [IntervalMap.ends, HashMap.lookup_insert_ite]
  split <;> rfl

lemma IntervalMap.Sound.setSource (h : m.Sound src tgt) (hentry : entry ∈ src.entries) :
    (setSource m entry).Sound src tgt := by
  intro identity
  rw [Omnigraph.setSource, IntervalMap.ends_insert]
  split
  case isTrue heq =>
    subst heq
    exact ⟨fun e he => by cases he; exact ⟨hentry, rfl⟩, (h entry.identity).2⟩
  case isFalse => exact h identity

lemma IntervalMap.Sound.setTarget (h : m.Sound src tgt) (hentry : entry ∈ tgt.entries) :
    (setTarget m entry).Sound src tgt := by
  intro identity
  rw [Omnigraph.setTarget, IntervalMap.ends_insert]
  split
  case isTrue heq =>
    subst heq
    exact ⟨(h entry.identity).1, fun e he => by cases he; exact ⟨hentry, rfl⟩⟩
  case isFalse => exact h identity

lemma intervalMap_sound (src tgt : PinnedSnapshot) :
    IntervalMap.Sound src tgt (tgt.entries.foldl setTarget (src.entries.foldl setSource ∅)) := by
  have hempty : IntervalMap.Sound src tgt ∅ := by
    intro identity
    simp [IntervalMap.ends]
  refine List.foldlRecOn (motive := IntervalMap.Sound src tgt) _ _ ?_
    fun m hm entry hentry => hm.setTarget hentry
  exact List.foldlRecOn (motive := IntervalMap.Sound src tgt) _ _ hempty
    fun m hm entry hentry => hm.setSource hentry

/-- A changed table has an end in one of the snapshots. -/
lemma changedTableIntervals_valid (h : interval ∈ changedTableIntervals src tgt) :
    interval.tableKey ≠ "" ∧ interval.identity.Valid := by
  rw [changedTableIntervals, Sorted.mem_sortOn, mem_filterMap] at h
  obtain ⟨_, hmem, hinterval⟩ := h
  obtain ⟨entry, hentry, rfl⟩ := List.mem_map.mp hmem
  have hlookup := HashMap.lookup_eq_some_iff_mem.mpr hentry
  have hsound := intervalMap_sound src tgt entry.1
  rw [IntervalMap.ends, hlookup] at hsound
  unfold intervalOf at hinterval
  split at hinterval
  case isTrue => cases hinterval
  case isFalse hstate =>
    cases hinterval
    obtain ⟨identity, s, t⟩ := entry
    cases t with
    | some e =>
      obtain ⟨he, rfl⟩ := hsound.2 e rfl
      exact tgt.valid e he
    | none =>
      cases s with
      | some e =>
        obtain ⟨he, rfl⟩ := hsound.1 e rfl
        exact src.valid e he
      | none => exact absurd rfl hstate

end Intervals

/-! ### Resuming the pass -/

section Resume

variable {feed : ChangeFeed}

lemma orderedRows_none (entry : Option SubTableEntry) :
    Ascending VersionedRow.id (orderedRows feed entry none) := by
  cases entry with
  | none => exact List.Pairwise.nil
  | some entry => exact (feed.openAtEntry entry).ascending

lemma orderedRows_some (entry : Option SubTableEntry) (id : String) :
    orderedRows feed entry (some id) =
      (orderedRows feed entry none).filter fun row => id < row.id := by
  cases entry <;> rfl

/-- Resuming in a table after an id gives its changes above the id. -/
lemma intervalChanges_some (interval : TableChangeInterval) (id : String) :
    intervalChanges feed interval (some id) =
      (intervalChanges feed interval none).filter fun change => id < change.id := by
  rw [intervalChanges, intervalChanges, walkChanges, walkChanges, orderedRows_some,
    orderedRows_some, Diff.diff_filter_lt (orderedRows_none _) (orderedRows_none _),
    List.filter_map]
  congr 1
  apply filter_congr
  intro e _
  cases e <;> rfl

lemma intervalChanges_ascending (interval : TableChangeInterval) :
    (intervalChanges feed interval none).Pairwise fun a b => a.id < b.id := by
  rw [intervalChanges, walkChanges, pairwise_map]
  refine List.Pairwise.imp ?_ (Diff.diff_ascending (orderedRows_none _) (orderedRows_none _))
  rintro (_ | _ | _) (_ | _ | _) hlt <;> exact hlt

lemma pass_ascending : (pass feed).Pairwise fun p q => p.position < q.position := by
  rw [pass, pairwise_flatMap]
  constructor
  · intro interval _
    rw [placedChanges, pairwise_map]
    refine List.Pairwise.imp ?_ (intervalChanges_ascending interval)
    exact fun hlt => Prod.Lex.toLex_lt_toLex.mpr (.inr ⟨rfl, hlt⟩)
  · refine List.Pairwise.imp ?_ changedTableIntervals_ascending
    rintro a b hlt p hp q hq
    obtain ⟨_, -, rfl⟩ := List.mem_map.mp hp
    obtain ⟨_, -, rfl⟩ := List.mem_map.mp hq
    exact Prod.Lex.toLex_lt_toLex.mpr (.inl hlt)

/-- The changes that are left after a cursor. -/
def resumed (feed : ChangeFeed) (cursor : Option CommitChangesCursor) : List Placed :=
  (changedTableIntervals feed.src feed.tgt).flatMap fun interval =>
    if isPassed cursor interval then []
    else placedChanges feed interval (resumeAfter cursor interval)

def CommitChangesCursor.position (cursor : CommitChangesCursor) :
    (String ×ₗ (ℕ ×ₗ ℕ)) ×ₗ String := toLex (cursor.place, cursor.id)

variable {cursor : CommitChangesCursor}

lemma isPassed_iff : isPassed (some cursor) interval = true ↔ interval.place < cursor.place := by
  rw [TableChangeInterval.place, CommitChangesCursor.place, Prod.Lex.toLex_lt_toLex]
  simp [isPassed]

lemma resumeAfter_eq :
    resumeAfter (some cursor) interval =
      if interval.place = cursor.place then some cursor.id else none := by
  have hplace : interval.place = cursor.place ↔
      cursor.tableKey = interval.tableKey ∧ cursor.identity = interval.identity := by
    rw [TableChangeInterval.place, CommitChangesCursor.place, toLex_inj, Prod.mk.injEq,
      TableIdentity.rank_injective.eq_iff, eq_comm, eq_comm (a := interval.identity)]
  rw [resumeAfter, Option.filter_some]
  by_cases h : cursor.tableKey = interval.tableKey ∧ cursor.identity = interval.identity
  · rw [if_pos (hplace.mpr h), if_pos (by simp [h])]
    rfl
  · rw [if_neg (fun heq => h (hplace.mp heq)), if_neg (by simpa using h)]
    rfl

/-- A resumed pass starts after the position of the cursor. -/
lemma resumed_some (cursor : CommitChangesCursor) :
    resumed feed (some cursor) = (pass feed).filter fun p => cursor.position < p.position := by
  rw [resumed, pass, filter_flatMap]
  apply flatMap_congr
  intro interval _
  have hposition : ∀ change : EntityChange, cursor.position < Placed.position (interval, change) ↔
      cursor.place < interval.place ∨ cursor.place = interval.place ∧ cursor.id < change.id :=
    fun change => Prod.Lex.toLex_lt_toLex
  rcases lt_trichotomy interval.place cursor.place with hlt | heq | hgt
  · -- the table was passed already
    rw [if_pos (isPassed_iff.mpr hlt)]
    symm
    rw [filter_eq_nil_iff]
    intro p hp
    obtain ⟨change, -, rfl⟩ := List.mem_map.mp hp
    simp only [decide_eq_true_eq, hposition, hlt.not_gt, hlt.ne', false_and, or_self,
      not_false_eq_true]
  · -- the table of the cursor
    rw [if_neg (isPassed_iff.not.mpr heq.not_lt), resumeAfter_eq, if_pos heq, placedChanges,
      placedChanges, intervalChanges_some, List.filter_map]
    simp [Function.comp_def, hposition, heq]
  · rw [if_neg (isPassed_iff.not.mpr hgt.not_gt), resumeAfter_eq, if_neg hgt.ne']
    symm
    simp [placedChanges, hposition, hgt]

lemma resumed_none : resumed feed none = pass feed := by
  rw [resumed, pass]
  exact flatMap_congr fun _ _ => if_neg Bool.false_ne_true

/-- The cursor that names a change and its number. -/
def cursorOf (feed : ChangeFeed) (n : ℕ) (p : Placed) : CommitChangesCursor where
  version := cursorVersion
  graphIdentity := cursorGraphIdentity feed.codec feed.graphIdentity
  commitId := feed.commitId
  tableKey := p.2.tableKey
  stableTableId := p.1.identity.stableTableId
  tableIncarnationId := p.1.identity.tableIncarnationId
  id := p.2.id
  operationRank := operationRank p.2.op
  changeIndex := n

/-- The cursor after the first `n` changes. -/
def cursorAfter (feed : ChangeFeed) : ℕ → Option CommitChangesCursor
  | 0 => none
  | n + 1 => (pass feed)[n]?.map (cursorOf feed n)

variable {p : Placed}

lemma mem_pass (h : p ∈ pass feed) :
    p.1 ∈ changedTableIntervals feed.src feed.tgt ∧ p.2.tableKey = p.1.tableKey := by
  obtain ⟨interval, hinterval, hp⟩ := mem_flatMap.mp h
  obtain ⟨change, hchange, rfl⟩ := List.mem_map.mp hp
  obtain ⟨e, -, rfl⟩ := List.mem_map.mp hchange
  exact ⟨hinterval, rfl⟩

lemma cursorOf_position {n : ℕ} (h : p ∈ pass feed) :
    (cursorOf feed n p).position = p.position := by
  rw [CommitChangesCursor.position, CommitChangesCursor.place, Placed.position,
    TableChangeInterval.place, ← (mem_pass h).2]
  rfl

/-- Resuming after `n` changes goes on with the next one. -/
lemma resumed_cursorAfter {n : ℕ} (hn : n ≤ (pass feed).length) :
    resumed feed (cursorAfter feed n) = (pass feed).drop n := by
  cases n with
  | zero => exact resumed_none
  | succ n =>
    have hget : (pass feed)[n]? = some (pass feed)[n] := List.getElem?_eq_getElem hn
    have hmem : (pass feed)[n] ∈ pass feed := getElem_mem hn
    rw [cursorAfter, hget, Option.map_some, resumed_some, cursorOf_position hmem]
    exact filter_lt_eq_drop pass_ascending hget

end Resume

/-! ### Cursors -/

section Cursors

variable {feed : ChangeFeed}

/-- Decoding undoes encoding. -/
lemma decodeCursor_encode (codec : CursorCodec) (cursor : CommitChangesCursor) :
    decodeCursor codec (encodeCursor codec cursor) = .ok cursor := by
  have hlength : (codec.toJson cursor ++ codec.sha256 (codec.toJson cursor)).length -
      cursorChecksumBytes = (codec.toJson cursor).length := by
    rw [length_append, codec.sha256_length, Nat.add_sub_cancel]
  have hlong : ¬ (codec.toJson cursor ++ codec.sha256 (codec.toJson cursor)).length ≤
      cursorChecksumBytes := by
    have := length_pos_iff.mpr (codec.json_ne_nil cursor)
    rw [length_append, codec.sha256_length]
    omega
  rw [decodeCursor, encodeCursor, codec.unbase64_base64]
  show decodeBytes codec _ = _
  rw [decodeBytes, if_neg hlong]
  simp only [hlength, take_left, drop_left, ne_eq, not_true_eq_false, if_false,
    codec.fromJson_toJson]

lemma readCursor_cursorAfter {n : ℕ} (hn : n ≤ (pass feed).length) :
    readCursor feed ((cursorAfter feed n).map (encodeCursor feed.codec)) =
      .ok (cursorAfter feed n) := by
  cases n with
  | zero => rfl
  | succ n =>
    have hget : (pass feed)[n]? = some (pass feed)[n] := List.getElem?_eq_getElem hn
    obtain ⟨hinterval, hkey⟩ := mem_pass (getElem_mem hn : (pass feed)[n] ∈ pass feed)
    obtain ⟨hne, hstable, hincarnation⟩ := changedTableIntervals_valid hinterval
    rw [cursorAfter, hget]
    refine Except.bind_ok (decodeCursor_encode _ _) (Except.bind_ok ?_ rfl)
    have hrank : ¬ operationRank (pass feed)[n].2.op > operationRank .delete := by
      cases (pass feed)[n].2.op <;> decide
    simp [validateCursor, cursorOf, hkey, hne, hstable, hincarnation, hrank]

end Cursors

/-! ### One page -/

section Filling

variable {feed : ChangeFeed} {limit maxBytes n : ℕ}

lemma numbered_append (l l' : List EntityChange) :
    numbered n (l ++ l') = numbered n l ++ numbered (n + l.length) l' := by
  rw [numbered, zipIdx_append, map_append]
  rfl

@[simp] lemma length_numbered (l : List EntityChange) : (numbered n l).length = l.length := by
  simp [numbered]

lemma numbered_singleton (c : EntityChange) :
    numbered n [c] = [{ c with changeIndex := n }] := rfl

/-- A page that holds the given changes, numbered from `n`. -/
structure PageState.Holds (feed : ChangeFeed) (limit maxBytes n : ℕ) (taken : List Placed)
    (st : PageState) : Prop where
  changes : st.changes = numbered n (taken.map Prod.snd)
  length_le : st.changes.length ≤ limit
  bytes_eq : st.retainedBytes = (st.changes.map feed.encodedBytes).sum
  bytes_le : st.retainedBytes ≤ maxBytes
  index : st.changeIndex = n + taken.length
  last : st.lastIdentity = taken.getLast?.map fun p => p.1.identity

variable {st : PageState} {taken : List Placed}

lemma PageState.Holds.ne_nil_iff (h : st.Holds feed limit maxBytes n taken) :
    st.changes = [] ↔ taken = [] := by
  rw [h.changes, ← length_eq_zero_iff, length_numbered, length_map,
    length_eq_zero_iff]

/-- A step takes the change, finds the page full, or finds the change too large. -/
lemma pageStep_spec (h : st.Holds feed limit maxBytes n taken) (hlimit : 0 < limit) (p : Placed) :
    (∃ st', pageStep feed limit maxBytes p.1.identity st p.2 = .ok st' ∧
        st'.Holds feed limit maxBytes n (taken ++ [p])) ∨
      (pageStep feed limit maxBytes p.1.identity st p.2 = .error (.full st) ∧ taken ≠ []) ∨
      (taken = [] ∧ maxBytes < feed.encodedBytes { p.2 with changeIndex := n } ∧
        pageStep feed limit maxBytes p.1.identity st p.2 = .error (.failed
          (.resourceLimitExceeded "commit_changes_page_bytes" maxBytes
            (feed.encodedBytes { p.2 with changeIndex := n })))) := by
  unfold pageStep
  simp only
  by_cases hfull : st.changes.length = limit ∨
      st.retainedBytes + feed.encodedBytes { p.2 with changeIndex := st.changeIndex } > maxBytes
  · rw [if_pos hfull]
    by_cases hempty : st.changes = []
    · have htaken := h.ne_nil_iff.mp hempty
      have hindex : st.changeIndex = n := by rw [h.index, htaken]; rfl
      rw [hindex] at hfull
      rw [if_pos hempty, hindex]
      refine .inr (.inr ⟨htaken, ?_, rfl⟩)
      have hbytes : st.retainedBytes = 0 := by rw [h.bytes_eq, hempty]; rfl
      rcases hfull with hlength | hbytes'
      · rw [hempty] at hlength
        exact absurd hlength.symm hlimit.ne'
      · rwa [hbytes, Nat.zero_add] at hbytes'
    · rw [if_neg hempty]
      exact .inr (.inl ⟨rfl, fun htaken => hempty (h.ne_nil_iff.mpr htaken)⟩)
  · rw [if_neg hfull]
    rw [not_or, not_lt] at hfull
    refine .inl ⟨_, rfl, ?_⟩
    constructor
    · rw [map_append, numbered_append, h.changes, h.index, length_map]
      rfl
    · have := h.length_le
      simp only [length_append, length_singleton]
      omega
    · simp only [map_append, sum_append, h.bytes_eq, map_singleton,
        sum_singleton]
    · exact hfull.2
    · simp only [h.index, length_append, length_singleton, Nat.add_assoc]
    · simp

/-- Filling a page from the changes that are left. -/
lemma fill_spec (hlimit : 0 < limit) (l : List Placed) (h : st.Holds feed limit maxBytes n taken) :
    (∃ st', l.foldlM (fun st p => pageStep feed limit maxBytes p.1.identity st p.2) st = .ok st' ∧
        st'.Holds feed limit maxBytes n (taken ++ l)) ∨
      (∃ st' pre p post, l = pre ++ p :: post ∧ taken ++ pre ≠ [] ∧
        l.foldlM (fun st p => pageStep feed limit maxBytes p.1.identity st p.2) st =
          .error (.full st') ∧ st'.Holds feed limit maxBytes n (taken ++ pre)) ∨
      (∃ p post, taken = [] ∧ l = p :: post ∧
        maxBytes < feed.encodedBytes { p.2 with changeIndex := n } ∧
        l.foldlM (fun st p => pageStep feed limit maxBytes p.1.identity st p.2) st =
          .error (.failed (.resourceLimitExceeded "commit_changes_page_bytes" maxBytes
            (feed.encodedBytes { p.2 with changeIndex := n })))) := by
  induction l generalizing taken st with
  | nil => exact .inl ⟨st, rfl, by rwa [append_nil]⟩
  | cons p l ih =>
    rw [foldlM_cons]
    rcases pageStep_spec h hlimit p with ⟨st', hstep, hst'⟩ | ⟨hstep, hne⟩ | ⟨hnil, hlarge, hstep⟩
    · rw [hstep]
      rcases ih hst' with ⟨st'', hfold, hst''⟩ | ⟨st'', pre, q, post, rfl, hne, hfold, hst''⟩ |
        ⟨_, _, hnil, -⟩
      · exact .inl ⟨st'', hfold, by simpa using hst''⟩
      · exact .inr (.inl ⟨st'', p :: pre, q, post, rfl, by simp, hfold, by simpa using hst''⟩)
      · simp at hnil
    · rw [hstep]
      exact .inr (.inl ⟨st, [], p, l, rfl, by simpa using hne, rfl, by rwa [append_nil]⟩)
    · rw [hstep]
      exact .inr (.inr ⟨p, l, hnil, rfl, hlarge, rfl⟩)

/-- The loop over the tables is one over the changes that are left. -/
lemma foldlM_pageInterval (cursor : Option CommitChangesCursor) (st : PageState) :
    (changedTableIntervals feed.src feed.tgt).foldlM (pageInterval feed cursor limit maxBytes) st =
      (resumed feed cursor).foldlM
        (fun st p => pageStep feed limit maxBytes p.1.identity st p.2) st := by
  rw [resumed, foldlM_flatMap]
  congr 1
  funext st interval
  unfold pageInterval placedChanges
  split
  · rfl
  · rw [foldlM_map]

/-- The cursor of a full page is the one after the changes it holds. -/
lemma lastCursor_eq {post : List Placed} (hrest : (pass feed).drop n = taken ++ post)
    (hne : taken ≠ []) (h : st.Holds feed limit maxBytes n taken) :
    lastCursor feed st = cursorAfter feed (n + taken.length) := by
  obtain ⟨front, q, rfl⟩ := eq_nil_or_concat taken |>.resolve_left hne
  rw [concat_eq_append] at hrest h
  have hget : (pass feed)[n + front.length]? = some q := by
    rw [← List.getElem?_drop, hrest]
    simp
  have hchanges : st.changes.getLast? = some { q.2 with changeIndex := n + front.length } := by
    rw [h.changes, map_append, numbered_append, length_map]
    simp [numbered_singleton]
  have hlast : st.lastIdentity = some q.1.identity := by
    rw [h.last]
    simp
  rw [concat_eq_append, length_append, length_singleton, ← Nat.add_assoc,
    cursorAfter, hget, lastCursor, hchanges, hlast]
  rfl

/-- A page that holds `k` changes after the first `n`. -/
structure CommitChangesPage.Holds (feed : ChangeFeed) (limit maxBytes n k : ℕ)
    (page : CommitChangesPage) : Prop where
  changes : page.changes = numbered n ((((pass feed).drop n).take k).map Prod.snd)
  le : n + k ≤ (pass feed).length
  length_le : page.changes.length ≤ limit
  bytes_le : (page.changes.map feed.encodedBytes).sum ≤ maxBytes
  complete_iff : page.commitComplete = true ↔ n + k = (pass feed).length
  pos : page.commitComplete = false → 0 < k
  next : page.commitComplete = false →
    page.nextCursor = (cursorAfter feed (n + k)).map (encodeCursor feed.codec)
  final : page.commitComplete = true → page.nextCursor = none

lemma cursorIdentitySeen_cursorAfter (hn : n ≤ (pass feed).length) :
    cursorIdentitySeen (cursorAfter feed n) (changedTableIntervals feed.src feed.tgt) = true := by
  cases n with
  | zero => rfl
  | succ n =>
    have hget : (pass feed)[n]? = some (pass feed)[n] := List.getElem?_eq_getElem hn
    obtain ⟨hinterval, hkey⟩ := mem_pass (getElem_mem hn : (pass feed)[n] ∈ pass feed)
    rw [cursorAfter, hget]
    refine List.any_eq_true.mpr ⟨_, hinterval, ?_⟩
    simp [cursorOf, CommitChangesCursor.identity, hkey]

lemma startIndex_cursorAfter (hn : n ≤ (pass feed).length) :
    startIndex (cursorAfter feed n) = n := by
  cases n with
  | zero => rfl
  | succ n =>
    have hget : (pass feed)[n]? = some (pass feed)[n] := List.getElem?_eq_getElem hn
    rw [cursorAfter, hget]
    rfl

/-- A call after `n` changes gives the next ones, or fails on a change that no page can hold. -/
lemma commitChangesPage_spec (hn : n ≤ (pass feed).length)
    (hlimits : validateLimits limit maxBytes = .ok ()) :
    (∃ page k, commitChangesPage feed ((cursorAfter feed n).map (encodeCursor feed.codec)) limit
        maxBytes = .ok page ∧ page.Holds feed limit maxBytes n k) ∨
      ∃ p, (pass feed)[n]? = some p ∧
        maxBytes < feed.encodedBytes { p.2 with changeIndex := n } ∧
        commitChangesPage feed ((cursorAfter feed n).map (encodeCursor feed.codec)) limit maxBytes =
          .error (.resourceLimitExceeded "commit_changes_page_bytes" maxBytes
            (feed.encodedBytes { p.2 with changeIndex := n })) := by
  have hlimit : 0 < limit := by
    rcases Nat.eq_zero_or_pos limit with rfl | hpos
    · cases hlimits
    · exact hpos
  have hpage : commitChangesPage feed ((cursorAfter feed n).map (encodeCursor feed.codec)) limit
      maxBytes = pageAfter feed (cursorAfter feed n) limit maxBytes := by
    rw [commitChangesPage, hlimits, readCursor_cursorAfter hn]
    rfl
  have hstart : PageState.Holds feed limit maxBytes n [] ⟨[], 0, n, none⟩ :=
    ⟨rfl, Nat.zero_le _, rfl, Nat.zero_le _, rfl, rfl⟩
  rw [hpage]
  simp only [pageAfter, foldlM_pageInterval, resumed_cursorAfter hn, startIndex_cursorAfter hn]
  rcases fill_spec hlimit ((pass feed).drop n) hstart with ⟨st, hfold, hst⟩ |
    ⟨st, pre, p, post, hrest, hne, hfold, hst⟩ | ⟨p, post, -, hrest, hlarge, hfold⟩
  · rw [nil_append] at hst
    rw [hfold]
    simp only [cursorIdentitySeen_cursorAfter hn, if_true]
    refine .inl ⟨_, (pass feed).length - n, rfl, ?_⟩
    constructor
    · rw [← length_drop, take_length]
      exact hst.changes
    · omega
    · exact hst.length_le
    · exact hst.bytes_eq ▸ hst.bytes_le
    · exact iff_of_true rfl (by omega)
    · exact fun h => Bool.noConfusion h
    · exact fun h => Bool.noConfusion h
    · exact fun _ => rfl
  · rw [nil_append] at hst hne
    rw [hfold]
    have hlength := congrArg List.length hrest
    rw [length_drop, length_append, length_cons] at hlength
    refine .inl ⟨_, pre.length, rfl, ?_⟩
    constructor
    · rw [hrest, take_left]
      exact hst.changes
    · omega
    · exact hst.length_le
    · exact hst.bytes_eq ▸ hst.bytes_le
    · exact iff_of_false Bool.false_ne_true (by omega)
    · exact fun _ => length_pos_iff.mpr hne
    · exact fun _ => by rw [lastCursor_eq hrest hne hst]
    · exact fun h => Bool.noConfusion h
  · rw [hfold]
    refine .inr ⟨p, ?_, hlarge, rfl⟩
    rw [← Nat.add_zero n, ← List.getElem?_drop, hrest]
    rfl

end Filling

/-! ### Following the cursors -/

section Follow

variable (feed : ChangeFeed)

/-- The pages of a walk from a cursor, with one pair of limits a call. The walk ends with the last
page, or when there are no calls left. -/
def followPages : List (ℕ × ℕ) → Option String → Except OmniError (List CommitChangesPage)
  | [], _ => .ok []
  | limits :: rest, cursor =>
    match commitChangesPage feed cursor limits.1 limits.2 with
    | .error e => .error e
    | .ok page =>
      if page.commitComplete then .ok [page]
      else (followPages rest page.nextCursor).map (page :: ·)

/-- The pages give the changes of `rest`, as far as the calls reach. -/
structure PagesOf (rest : List EntityChange) (limits : List (ℕ × ℕ))
    (pages : List CommitChangesPage) : Prop where
  /-- Nothing is lost, repeated or reordered. -/
  changes : ∃ remaining, rest = pages.flatMap CommitChangesPage.changes ++ remaining
  /-- Each page keeps to the limits of its call. -/
  bounded : ∀ (i : ℕ) (page : CommitChangesPage) (limit : ℕ × ℕ), pages[i]? = some page →
    limits[i]? = some limit →
      page.changes.length ≤ limit.1 ∧ (page.changes.map feed.encodedBytes).sum ≤ limit.2
  /-- A page is complete when no change remains after it. -/
  complete_iff : ∀ pre page post, pages = pre ++ page :: post →
    (page.commitComplete = true ↔ rest = (pre ++ [page]).flatMap CommitChangesPage.changes)
  /-- A page has a cursor, and changes, unless it is the last one. -/
  progress : ∀ page ∈ pages, page.commitComplete = false →
    page.nextCursor.isSome ∧ page.changes ≠ []
  final : ∀ page ∈ pages, page.commitComplete = true → page.nextCursor = none
  /-- Enough calls reach the end. -/
  ends : rest.length < limits.length →
    rest = pages.flatMap CommitChangesPage.changes ∧
      ∃ page, pages.getLast? = some page ∧ page.commitComplete = true

variable {feed}

lemma numbered_drop (l : List EntityChange) (n k : ℕ) :
    (numbered n l).drop k = numbered (n + k) (l.drop k) := by
  rcases Nat.le_total k l.length with hle | hle
  · conv_lhs => rw [← take_append_drop k l]
    rw [numbered_append, length_take_of_le hle, drop_left' (by simp [hle])]
  · rw [drop_eq_nil_of_le (by simpa using hle), drop_eq_nil_of_le hle]
    rfl

lemma numbered_take (l : List EntityChange) (n k : ℕ) :
    (numbered n l).take k = numbered n (l.take k) := by
  rcases Nat.le_total k l.length with hle | hle
  · conv_lhs => rw [← take_append_drop k l]
    rw [numbered_append, take_left' (by simp [hle])]
  · rw [take_of_length_le (by simpa using hle), take_of_length_le hle]

lemma isSome_cursorAfter {n : ℕ} (hpos : 0 < n) (hn : n ≤ (pass feed).length) :
    (cursorAfter feed n).isSome := by
  obtain ⟨m, rfl⟩ := Nat.exists_eq_succ_of_ne_zero hpos.ne'
  rw [cursorAfter, List.getElem?_eq_getElem hn]
  rfl

lemma length_allChanges : (allChanges feed).length = (pass feed).length := by
  rw [allChanges, length_numbered, length_map]

lemma drop_allChanges (n : ℕ) :
    (allChanges feed).drop n = numbered n (((pass feed).drop n).map Prod.snd) := by
  rw [allChanges, numbered_drop, Nat.zero_add, map_drop]

lemma PagesOf.nil (rest : List EntityChange) : PagesOf feed rest [] [] where
  changes := ⟨rest, rfl⟩
  bounded := by simp
  complete_iff := by simp
  progress := by simp
  final := by simp
  ends := by simp

variable {limits : List (ℕ × ℕ)}

lemma PagesOf.last {rest : List EntityChange} {limit : ℕ × ℕ} {page : CommitChangesPage}
    (hrest : rest = page.changes)
    (hbounded : page.changes.length ≤ limit.1 ∧ (page.changes.map feed.encodedBytes).sum ≤ limit.2)
    (hcomplete : page.commitComplete = true) (hfinal : page.nextCursor = none) :
    PagesOf feed rest (limit :: limits) [page] where
  changes := ⟨[], by simpa using hrest⟩
  bounded := by
    intro i p l hp hl
    cases i with
    | zero =>
      cases hp
      cases hl
      exact hbounded
    | succ i => simp at hp
  complete_iff := by
    intro pre p post heq
    rw [singleton_eq_append_iff] at heq
    obtain ⟨rfl, h⟩ | ⟨-, h⟩ := heq
    · cases h
      exact iff_of_true hcomplete (by simpa using hrest)
    · cases h
  progress := by simp [hcomplete]
  final := by simp [hfinal]
  ends := fun _ => ⟨by simpa using hrest, page, rfl, hcomplete⟩

lemma PagesOf.cons {rest rest' : List EntityChange} {limit : ℕ × ℕ} {limits : List (ℕ × ℕ)}
    {page : CommitChangesPage} {pages : List CommitChangesPage}
    (h : PagesOf feed rest' limits pages) (hrest : rest = page.changes ++ rest')
    (hbounded : page.changes.length ≤ limit.1 ∧
      (page.changes.map feed.encodedBytes).sum ≤ limit.2)
    (hcomplete : page.commitComplete = false) (hremaining : rest' ≠ [])
    (hprogress : page.nextCursor.isSome ∧ page.changes ≠ []) :
    PagesOf feed rest (limit :: limits) (page :: pages) where
  changes := by
    obtain ⟨remaining, heq⟩ := h.changes
    exact ⟨remaining, by rw [hrest, heq, flatMap_cons, append_assoc]⟩
  bounded := by
    intro i p l hp hl
    cases i with
    | zero =>
      cases hp
      cases hl
      exact hbounded
    | succ i => exact h.bounded i p l hp hl
  complete_iff := by
    intro pre p post heq
    cases pre with
    | nil =>
      cases heq
      refine iff_of_false (by simp [hcomplete]) ?_
      rw [hrest]
      simpa using hremaining
    | cons q pre =>
      obtain ⟨rfl, heq'⟩ := List.cons.inj heq
      rw [h.complete_iff pre p post heq', hrest, cons_append, flatMap_cons,
        append_cancel_left_eq]
  progress := by
    intro p hp hp'
    rcases mem_cons.mp hp with rfl | hp
    · exact hprogress
    · exact h.progress p hp hp'
  final := by
    intro p hp hp'
    rcases mem_cons.mp hp with rfl | hp
    · exact absurd hp' (by simp [hcomplete])
    · exact h.final p hp hp'
  ends := by
    intro hlength
    have hpos := length_pos_iff.mpr hprogress.2
    rw [hrest, length_append, length_cons] at hlength
    obtain ⟨hall, last, hlast, hlast'⟩ := h.ends (by omega)
    refine ⟨by rw [hrest, flatMap_cons, ← hall], last, ?_, hlast'⟩
    rw [List.getLast?_cons, hlast]
    rfl

/-- From any change on, the pages follow, or one change is too large for its page. -/
lemma followPages_cases (hlimits : ∀ l ∈ limits, validateLimits l.1 l.2 = .ok ()) {n : ℕ}
    (hn : n ≤ (pass feed).length) :
    (∃ pages, followPages feed limits ((cursorAfter feed n).map (encodeCursor feed.codec)) =
        .ok pages ∧ PagesOf feed ((allChanges feed).drop n) limits pages) ∨
      ∃ limit ∈ limits, ∃ change ∈ allChanges feed, limit.2 < feed.encodedBytes change ∧
        followPages feed limits ((cursorAfter feed n).map (encodeCursor feed.codec)) =
          .error (.resourceLimitExceeded "commit_changes_page_bytes" limit.2
            (feed.encodedBytes change)) := by
  induction limits generalizing n with
  | nil => exact .inl ⟨[], rfl, .nil _⟩
  | cons limit limits ih =>
    rw [followPages]
    rcases commitChangesPage_spec hn (hlimits limit (by simp)) with ⟨page, k, hpage, h⟩ |
      ⟨p, hp, hlarge, hpage⟩
    · rw [hpage]
      simp only
      have hchanges : page.changes = ((allChanges feed).drop n).take k := by
        rw [h.changes, drop_allChanges, numbered_take, map_take]
      have hle := h.le
      cases hcomplete : page.commitComplete with
      | true =>
        refine .inl ⟨[page], rfl, .last ?_ ⟨h.length_le, h.bytes_le⟩ hcomplete (h.final hcomplete)⟩
        have heq := h.complete_iff.mp hcomplete
        rw [hchanges, take_of_length_le]
        rw [length_drop, length_allChanges]
        omega
      | false =>
        have hlt : n + k ≠ (pass feed).length := fun heq =>
          absurd (h.complete_iff.mpr heq) (by simp [hcomplete])
        have hpos := h.pos hcomplete
        simp only [Bool.false_eq_true, if_false, h.next hcomplete]
        rcases ih (fun l hl => hlimits l (mem_cons_of_mem _ hl)) hle with
          ⟨pages, hpages, hof⟩ | ⟨limit', hlimit', change, hchange, hlarge, herror⟩
        · rw [hpages]
          refine .inl ⟨page :: pages, rfl, hof.cons ?_ ⟨h.length_le, h.bytes_le⟩ hcomplete ?_ ?_⟩
          · rw [hchanges, ← drop_drop, take_append_drop]
          · rw [← length_pos_iff, length_drop, length_allChanges]
            omega
          · constructor
            · rw [h.next hcomplete, Option.isSome_map]
              exact isSome_cursorAfter (by omega) hle
            · rw [hchanges, ← length_pos_iff, length_take, length_drop,
                length_allChanges]
              omega
        · rw [herror]
          exact .inr ⟨limit', mem_cons_of_mem _ hlimit', change, hchange, hlarge, rfl⟩
    · rw [hpage]
      refine .inr ⟨limit, by simp, { p.2 with changeIndex := n }, ?_, hlarge, rfl⟩
      apply mem_of_mem_drop (i := n)
      obtain ⟨hlt, rfl⟩ := List.getElem?_eq_some_iff.mp hp
      rw [drop_allChanges, drop_eq_getElem_cons hlt]
      exact mem_cons_self

/-- Following the cursors gives the unbounded pass, page by page; the only failure is a change
larger than the bytes a call allows. Decoding a cursor undoes encoding it. -/
theorem followPages_spec (feed : ChangeFeed) (limits : List (ℕ × ℕ))
    (hlimits : ∀ l ∈ limits, validateLimits l.1 l.2 = .ok ()) :
    ((∃ pages, followPages feed limits none = .ok pages ∧
        PagesOf feed (allChanges feed) limits pages) ∨
      ∃ limit ∈ limits, ∃ change ∈ allChanges feed, limit.2 < feed.encodedBytes change ∧
        followPages feed limits none =
          .error (.resourceLimitExceeded "commit_changes_page_bytes" limit.2
            (feed.encodedBytes change))) ∧
      ∀ cursor, decodeCursor feed.codec (encodeCursor feed.codec cursor) = .ok cursor :=
  ⟨followPages_cases hlimits (Nat.zero_le _), decodeCursor_encode feed.codec⟩

end Follow

/-! ### A feed of one new table -/

section Sample

/-- The members of a cursor. -/
def cursorMembers (c : CommitChangesCursor) : Json.Members :=
  [("version", .int c.version), ("graph_identity", .str c.graphIdentity),
    ("commit_id", .str c.commitId), ("table_key", .str c.tableKey),
    ("stable_table_id", .int c.stableTableId),
    ("table_incarnation_id", .int c.tableIncarnationId), ("id", .str c.id),
    ("operation_rank", .int c.operationRank), ("change_index", .int c.changeIndex)]

def cursorOfMembers : Json.Members → Option CommitChangesCursor
  | [(_, .int version), (_, .str graphIdentity), (_, .str commitId), (_, .str tableKey),
      (_, .int stableTableId), (_, .int tableIncarnationId), (_, .str id), (_, .int operationRank),
      (_, .int changeIndex)] =>
    some ⟨version.toNat, graphIdentity, commitId, tableKey, stableTableId.toNat,
      tableIncarnationId.toNat, id, operationRank.toNat, changeIndex.toNat⟩
  | _ => none

lemma fromUTF8_toUTF8 (text : String) :
    String.fromUTF8? ⟨text.toUTF8.data.toList.toArray⟩ = some text := by
  simp only [String.fromUTF8?, String.toUTF8_eq_toByteArray, Array.toArray_toList,
    Option.dite_none_right_eq_some, Option.some.injEq]
  exact ⟨text.isValidUTF8, rfl⟩

lemma ofNat_toNat (b : UInt8) : UInt8.ofNat (Char.ofNat b.toNat).toNat = b := by
  have hlt : b.toNat < 256 := b.toNat_lt
  have hvalid : b.toNat.isValidChar := .inl (by omega)
  have hchar : (Char.ofNat b.toNat).toNat = b.toNat := by
    rw [Char.ofNat, dif_pos hvalid]
    rfl
  rw [hchar, UInt8.ofNat_toNat]

/-- Cursors as JSON in UTF-8, with a text of one character a byte and a checksum of zeros. -/
def plainCodec : CursorCodec where
  toJson c := (Json.printObject (cursorMembers c)).toUTF8.data.toList
  fromJson bytes := (String.fromUTF8? ⟨bytes.toArray⟩).bind fun text =>
    (Json.readObject text).bind cursorOfMembers
  base64 bytes := String.ofList (bytes.map fun b => Char.ofNat b.toNat)
  unbase64 text := some (text.toList.map fun c => UInt8.ofNat c.toNat)
  sha256 _ := List.replicate 32 0
  toUtf8 text := text.toUTF8.data.toList
  json_ne_nil c h := by
    have hempty : (Json.printObject (cursorMembers c)).toByteArray = ByteArray.empty := by
      ext1
      simpa using h
    have htext : Json.printObject (cursorMembers c) = "" := by simpa using hempty
    have hlist := congrArg String.toList htext
    rw [Json.printObject, String.toList_ofList] at hlist
    cases hlist
  fromJson_toJson c := by
    rw [fromUTF8_toUTF8, Option.bind_some, Json.readObject_printObject]
    rfl
  unbase64_base64 bytes := by
    simp [Function.comp_def, ofNat_toNat]
  sha256_length _ := rfl

/-- A new table of two rows. -/
def newTable : SubTableEntry where
  identity := ⟨1, 1⟩
  tableKey := "node:Person"
  tablePath := "nodes/person"
  tableVersion := 2
  tableBranch := none
  rowCount := 2
  versionMetadata := ⟨"nodes/person/2", none, none, none⟩

def newTableRows : TableRows where
  rows := [⟨"ann", [("age", .scalar none)], 2⟩, ⟨"bob", [("age", .scalar none)], 2⟩]
  ascending := by
    simp only [MergeJoin.Ascending, List.pairwise_cons, List.mem_singleton, forall_eq]
    exact ⟨by decide, by simp⟩

def newTableFeed : ChangeFeed where
  reader := ⟨fun _ => "", id, some⟩
  codec := plainCodec
  openAtEntry := fun _ => newTableRows
  encodedBytes := fun _ => 200
  src := ⟨1, [], by simp⟩
  tgt := ⟨2, [newTable], by simp [newTable, TableIdentity.Valid]⟩
  graphIdentity := "graph"
  commitId := "commit"

/-- Two rows cut into two pages. -/
theorem followPages_spec_newTable :
    (∀ l ∈ [(1, 4194304), (1, 4194304)], validateLimits l.1 l.2 = .ok ()) ∧
      (((∃ pages, followPages newTableFeed [(1, 4194304), (1, 4194304)] none = .ok pages ∧
          PagesOf newTableFeed (allChanges newTableFeed) [(1, 4194304), (1, 4194304)] pages) ∨
        ∃ limit ∈ [(1, 4194304), (1, 4194304)], ∃ change ∈ allChanges newTableFeed,
          limit.2 < newTableFeed.encodedBytes change ∧
          followPages newTableFeed [(1, 4194304), (1, 4194304)] none =
            .error (.resourceLimitExceeded "commit_changes_page_bytes" limit.2
              (newTableFeed.encodedBytes change))) ∧
        ∀ cursor, decodeCursor newTableFeed.codec (encodeCursor newTableFeed.codec cursor) =
          .ok cursor) :=
  ⟨by decide, followPages_spec newTableFeed _ (by decide)⟩

end Sample

end Omnigraph
