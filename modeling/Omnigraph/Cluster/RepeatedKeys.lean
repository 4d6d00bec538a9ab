import Omnigraph.Cluster.KeyScan

/-!
# Reports of repeated keys

The frames open after the lines of a block, and the reports on them. A block at a column only adds
its keys to the frame it finds there. A block that starts on a line with dashes leaves nothing
behind, but the entries after its first one may be compared with keys of another mapping.
-/

namespace Omnigraph.Yaml

open List

/-! ### Runs over lines -/

def scanned (stack : List Frame) (texts : List (List Char)) : List Frame :=
  texts.foldl (fun stack text => (scanLine stack text).1) stack

def reports (stack : List Frame) : List (List Char) → List (Option String)
  | [] => []
  | text :: rest =>
    (scanLine stack text).2.map Prod.snd :: reports (scanLine stack text).1 rest

lemma scanned_append (stack : List Frame) (texts texts' : List (List Char)) :
    scanned stack (texts ++ texts') = scanned (scanned stack texts) texts' := by
  simp [scanned]

lemma reports_append (stack : List Frame) (texts texts' : List (List Char)) :
    reports stack (texts ++ texts') =
      reports stack texts ++ reports (scanned stack texts) texts' := by
  induction texts generalizing stack with
  | nil => rfl
  | cons text texts ih =>
    rw [cons_append, reports, reports, ih]
    rfl

lemma scan_eq (stack : List Frame) (start : ℕ) (texts : List (List Char)) :
    (scan stack start texts).map (fun d => (d.line, d.key)) =
      number start (reports stack texts) := by
  induction texts generalizing stack start with
  | nil => rfl
  | cons text texts ih =>
    rw [scan, reports]
    generalize scanLine stack text = step
    obtain ⟨stack', found⟩ := step
    cases found with
    | none => exact ih stack' (start + 1)
    | some found =>
      obtain ⟨path, key⟩ := found
      exact congrArg (List.cons (start, key)) (ih stack' (start + 1))

lemma scanned_noise (stack : List Frame) (noise : List Noise) :
    scanned stack (noise.map Noise.text) = stack ∧
      reports stack (noise.map Noise.text) = List.replicate noise.length none := by
  induction noise with
  | nil => exact ⟨rfl, rfl⟩
  | cons first noise ih =>
    rw [map_cons, reports, scanLine_noise, ih.2]
    refine ⟨?_, rfl⟩
    rw [scanned, foldl_cons, scanLine_noise]
    exact ih.1

lemma scanned_texts {line : Line} (h : line.WellFormed) (stack : List Frame) :
    scanned stack line.texts = (line.effect stack).1 ∧
      reports stack line.texts =
        line.gap.quiet ++ [(line.effect stack).2.map Prod.snd] := by
  obtain ⟨hstack, hreports⟩ := scanned_noise stack line.gap.before
  rw [Line.texts, scanned_append, reports_append, hstack, hreports, ← scanLine_text h stack]
  exact ⟨rfl, rfl⟩

/-! ### Frames -/

section Frames

variable {indent column : ℤ} {frame : Frame} {stack base : List Frame}

lemma pop_cons : pop indent (frame :: stack) =
    if indent ≤ frame.indent then pop indent stack else frame :: stack := by
  rw [pop, dropWhile_cons]
  simp only [decide_eq_true_eq]
  rfl

lemma pop_pop (h : indent ≤ column) (stack : List Frame) :
    pop indent (pop column stack) = pop indent stack := by
  induction stack with
  | nil => rfl
  | cons frame stack ih =>
    rw [pop_cons]
    split_ifs with hle
    · rw [ih, pop_cons, if_pos (h.trans hle)]
    · rfl

lemma lt_of_pop {below : List Frame} (h : pop indent stack = frame :: below) :
    frame.indent < indent := by
  by_contra hle
  have hself := pop_pop (le_refl indent) stack
  rw [h, pop_cons, if_pos (not_lt.mp hle)] at hself
  have hlength : (pop indent below).length ≤ below.length := (dropWhile_sublist _).length_le
  rw [hself, length_cons] at hlength
  omega

/-- The keys of the frame on top. -/
def seenKeys : List Frame → Finset String
  | [] => ∅
  | frame :: _ => frame.keys

/-- More keys in the frame on top. -/
def addKeys (keys : Finset String) : List Frame → List Frame
  | [] => []
  | frame :: below => { frame with keys := frame.keys ∪ keys } :: below

lemma addKeys_empty (stack : List Frame) : addKeys ∅ stack = stack := by
  cases stack with
  | nil => rfl
  | cons frame below => simp [addKeys]

lemma addKeys_addKeys (keys keys' : Finset String) (stack : List Frame) :
    addKeys keys' (addKeys keys stack) = addKeys (keys ∪ keys') stack := by
  cases stack with
  | nil => rfl
  | cons frame below => simp [addKeys, Finset.union_assoc]

lemma openItem_eq (hbase : pop indent stack ≠ []) :
    ∃ path, openItem indent stack = ⟨indent, path, ∅⟩ :: pop indent stack := by
  unfold openItem
  cases hpop : pop indent stack with
  | nil => exact absurd hpop hbase
  | cons parent below => exact ⟨_, rfl⟩

lemma enterKey_scalar (indent : ℤ) (key : String) {rawValue : List Char} (h : trim rawValue ≠ [])
    (hbase : base ≠ []) :
    (enterKey indent key rawValue base).1 = addKeys {key} base ∧
      (enterKey indent key rawValue base).2.map Prod.snd = mark (seenKeys base) key := by
  obtain ⟨frame, below, rfl⟩ := exists_cons_of_ne_nil hbase
  unfold enterKey
  dsimp only
  rw [if_neg h]
  refine ⟨?_, ?_⟩
  · rw [addKeys, Finset.union_comm]
    rfl
  · rw [mark, seenKeys]
    split_ifs <;> rfl

lemma enterKey_block (indent : ℤ) (key : String) (hbase : base ≠ []) :
    ∃ path, (enterKey indent key [] base).1 = ⟨indent, path, ∅⟩ :: addKeys {key} base ∧
      (enterKey indent key [] base).2.map Prod.snd = mark (seenKeys base) key := by
  obtain ⟨frame, below, rfl⟩ := exists_cons_of_ne_nil hbase
  unfold enterKey
  dsimp only
  rw [if_pos (show trim [] = [] from rfl)]
  refine ⟨if frame.path = "" then key else frame.path ++ "." ++ key, ?_, ?_⟩
  · rw [addKeys, Finset.union_comm]
    rfl
  · rw [mark, seenKeys]
    split_ifs <;> rfl

end Frames

/-! ### Blocks -/

/-- The keys that the scan compares the next entries with. -/
def asScanned (dashes : List ℕ) (key : String) (blockKeys : Option (Finset String))
    (seen : Finset String) : Finset String :=
  match dashes, blockKeys with
  | [], _ => insert key seen
  | _ :: inner, none => insert (rawKey inner key) seen
  | _ :: _, some keys => keys

lemma keys_sequence (b : Block .sequence) : b.keys = ∅ := by
  cases b <;> rfl

/-- What a sequence is compared with does not matter. -/
lemma marks_sequence
    {rule : List ℕ → String → Option (Finset String) → Finset String → Finset String}
    {k : Kind} (b : Block k) (hk : k = .sequence) (dashes : List ℕ) (seen seen' : Finset String) :
    b.marks rule dashes seen = b.marks rule dashes seen' := by
  induction b generalizing dashes seen seen' with
  | nil => rfl
  | scalarEntry => cases hk
  | blockEntry => cases hk
  | scalarItem gap text rest ih => rw [Block.marks, Block.marks, ih rfl [] seen seen']
  | belowItem gap shift block rest _ ih => rw [Block.marks, Block.marks, ih rfl [] seen seen']
  | inlineItem shift block rest _ ih => rw [Block.marks, Block.marks, ih rfl [] seen seen']

/-- A block at a column adds its keys to the frame that it finds there. -/
def ScannedAt {k : Kind} (b : Block k) : Prop :=
  ∀ (column : ℕ) (stack : List Frame), pop column stack ≠ [] →
    pop column (scanned stack (b.texts column)) = addKeys b.keys (pop column stack) ∧
      reports stack (b.texts column) = b.marks asScanned [] (seenKeys (pop column stack))

/-- What a block does at a column, if its first line has an indentation and dashes of its own. After
dashes it leaves the frames that their line finds. -/
def Scans {k : Kind} (b : Block k) : Prop :=
  ∀ (indent : ℕ) (dashes : List ℕ) (column : ℕ) (stack : List Frame),
    (if dashes = [] then indent = column else indent < column) → (∀ n ∈ dashes, 0 < n) →
    pop indent stack ≠ [] →
      pop indent (scanned stack ((b.render indent dashes column).flatMap Line.texts)) =
          (if dashes = [] then addKeys b.keys (pop indent stack) else pop indent stack) ∧
        reports stack ((b.render indent dashes column).flatMap Line.texts) =
          b.marks asScanned dashes (if dashes = [] then seenKeys (pop indent stack) else ∅)

lemma flatMap_render {k : Kind} (column : ℕ) (b : Block k) :
    (b.render column [] column).flatMap Line.texts = b.texts column := rfl

lemma Scans.at {k : Kind} {b : Block k} (h : Scans b) : ScannedAt b := by
  intro column stack hne
  have hat := h column [] column stack (if_pos rfl ▸ rfl) (by simp) hne
  rwa [if_pos rfl, if_pos rfl] at hat

section Parts

variable {k : Kind} {column : ℕ} {base : List Frame}

variable {block : Block k} {shift : ℕ} {keys seen : Finset String} {dashes : List ℕ} {gap : Gap}

/-- A block below the line that has opened its frame. -/
lemma ScannedAt.below (h : ScannedAt block) (frame : Frame) (hshift : k = .mapping → 0 < shift)
    (hindent : frame.indent ≤ column) (hkeys : frame.keys = ∅) (hbase : base ≠ [])
    (hpop : pop column base = base) :
    reports (frame :: base) (block.texts (column + shift)) = block.marks asScanned [] ∅ ∧
      pop column (scanned (frame :: base) (block.texts (column + shift))) =
        if frame.indent < column then { frame with keys := block.keys } :: base else base := by
  have hle : (column : ℤ) ≤ (column + shift : ℕ) := by omega
  by_cases hlt : frame.indent < (column + shift : ℕ)
  · have hself : pop (column + shift : ℕ) (frame :: base) = frame :: base := by
      rw [pop_cons, if_neg (not_le.mpr hlt)]
    have hne : pop (column + shift : ℕ) (frame :: base) ≠ [] := by
      rw [hself]
      exact cons_ne_nil _ _
    obtain ⟨hstack, hreports⟩ := h (column + shift) (frame :: base) hne
    rw [hself] at hstack hreports
    refine ⟨?_, ?_⟩
    · rw [hreports, seenKeys, hkeys]
    · rw [← pop_pop hle, hstack, addKeys, hkeys, Finset.empty_union, pop_cons, hpop]
      dsimp only
      split_ifs <;> first | rfl | omega
  · -- a sequence at the column of its key
    have hzero : shift = 0 := by omega
    have hequal : frame.indent = column := by omega
    have hk : k = .sequence := by
      cases k with
      | mapping => exact absurd (hshift rfl) (by omega)
      | sequence => rfl
    subst hk hzero
    have hself : pop column (frame :: base) = base := by
      rw [pop_cons, if_pos hequal.ge, hpop]
    obtain ⟨hstack, hreports⟩ := h column (frame :: base) (by rwa [hself])
    rw [hself] at hstack hreports
    refine ⟨?_, ?_⟩
    · rw [Nat.add_zero, hreports]
      exact marks_sequence block rfl _ _ _
    · rw [Nat.add_zero, hstack, keys_sequence, addKeys_empty, if_neg hequal.ge.not_gt]

/-- The rest of a block, where the column has a frame. -/
lemma ScannedAt.rest {b : Block k} (h : ScannedAt b) {stack : List Frame}
    (hstack : pop column stack = base) (hbase : base ≠ []) :
    pop column (scanned stack (b.texts column)) = addKeys b.keys base ∧
      reports stack (b.texts column) = b.marks asScanned [] (seenKeys base) := by
  obtain ⟨hpop, hreports⟩ := h column stack (by rwa [hstack])
  rw [hstack] at hpop hreports
  exact ⟨hpop, hreports⟩

lemma pop_addKeys {indent : ℤ} {base : List Frame} (keys : Finset String)
    (h : pop indent base = base) : pop indent (addKeys keys base) = addKeys keys base := by
  cases base with
  | nil => rfl
  | cons frame below =>
    have hlt := lt_of_pop h
    rw [addKeys, pop_cons, if_neg (not_le.mpr hlt)]

lemma addKeys_ne_nil (h : base ≠ []) : addKeys keys base ≠ [] := by
  obtain ⟨frame, below, rfl⟩ := exists_cons_of_ne_nil h
  exact cons_ne_nil _ _

lemma seenKeys_addKeys (h : base ≠ []) : seenKeys (addKeys keys base) = seenKeys base ∪ keys := by
  obtain ⟨frame, below, rfl⟩ := exists_cons_of_ne_nil h
  rfl

/-- The frames that a line finds, with a new one if it has dashes. -/
lemma opened_eq {indent : ℕ} {stack : List Frame}
    (hplace : if dashes = [] then indent = column else indent < column)
    (hbase : pop indent stack ≠ []) :
    ∃ opened, (if dashes = [] then pop indent stack else openItem indent stack) = opened ∧
      opened ≠ [] ∧ pop column opened = opened ∧
      (∀ keys, pop indent (addKeys keys opened) =
        if dashes = [] then addKeys keys (pop indent stack) else pop indent stack) ∧
      seenKeys opened = if dashes = [] then seenKeys (pop indent stack) else ∅ := by
  refine ⟨_, rfl, ?_⟩
  split_ifs at hplace ⊢ with hdashes
  · subst hplace
    have hself := pop_pop (le_refl (indent : ℤ)) stack
    exact ⟨hbase, hself, fun keys => pop_addKeys keys hself, rfl⟩
  · obtain ⟨path, hopen⟩ := openItem_eq hbase
    have hlt : ¬ (column : ℤ) ≤ indent := by omega
    rw [hopen]
    refine ⟨cons_ne_nil _ _, ?_, fun keys => ?_, rfl⟩
    · rw [pop_cons, if_neg hlt]
    · rw [addKeys, pop_cons, if_pos le_rfl]
      exact pop_pop le_rfl stack

lemma mark_rawKey (key : String) :
    mark (if dashes = [] then seen else ∅) (rawKey dashes.tail key) =
      mark (if dashes = [] then seen else ∅) key := by
  split_ifs with hdashes
  · rw [hdashes, tail_nil, rawKey_nil]
  · simp [mark]

/-- The keys that the entries after a line are compared with. -/
lemma asScanned_scalar (key : String) :
    asScanned dashes key none (if dashes = [] then seen else ∅) =
      (if dashes = [] then seen else ∅) ∪ {rawKey dashes.tail key} := by
  cases dashes with
  | nil =>
    rw [if_pos rfl, tail_nil, rawKey_nil, Finset.union_comm]
    rfl
  | cons n inner =>
    rw [if_neg (cons_ne_nil _ _), Finset.empty_union]
    rfl

lemma Scans.scalarEntry {gap : Gap} {key text : String} {rest : Block .mapping}
    (hkey : Plain key) (htext : Plain text) (hrest : Scans rest) :
    Scans (.scalarEntry gap key text rest) := by
  intro indent dashes column stack hplace hspaced hbase
  obtain ⟨opened, hopened, hne, hself, hpop, hseen⟩ := opened_eq hplace hbase
  have hline : (⟨gap, indent, dashes, .scalarEntry key text⟩ : Line).WellFormed :=
    ⟨⟨hkey, htext⟩, fun n hn => hspaced n (List.mem_of_mem_dropLast hn), fun _ => hspaced⟩
  have htrim : trim text.toList ≠ [] := by
    simpa using trim_ne_nil_of_plain htext [] []
  obtain ⟨hstack, hreports⟩ := scanned_texts hline stack
  have hentered := enterKey_scalar indent (rawKey dashes.tail key) htrim hne
  simp only [Line.effect, hopened] at hstack hreports
  rw [hentered.1] at hstack
  rw [hentered.2, hseen, mark_rawKey] at hreports
  obtain ⟨hafter, hrestReports⟩ := hrest.at.rest
    (pop_addKeys {rawKey dashes.tail key} hself) (addKeys_ne_nil hne)
  rw [Block.render, List.flatMap_cons, flatMap_render, scanned_append, reports_append, hstack,
    hreports]
  refine ⟨?_, ?_⟩
  · have hle : (indent : ℤ) ≤ column := by split_ifs at hplace <;> omega
    have hback := congrArg (pop indent) hafter
    rw [pop_pop hle, addKeys_addKeys, hpop] at hback
    rw [hback]
    split_ifs with hdashes
    · rw [hdashes, List.tail_nil, rawKey_nil]
      rfl
    · rfl
  · rw [hrestReports, seenKeys_addKeys hne, hseen, ← asScanned_scalar, List.append_assoc]
    rfl

/-- The scan reads an entry with a block, then the rest. -/
lemma Scans.blockEntry {gap : Gap} {key : String} {shift : ℕ} {block : Block k}
    {rest : Block .mapping} (hkey : Plain key) (hshift : k = .mapping → 0 < shift)
    (hblock : Scans block) (hrest : Scans rest) :
    Scans (.blockEntry gap key shift block rest) := by
  intro indent dashes column stack hplace hspaced hbase
  obtain ⟨opened, hopened, hne, hself, hpop, hseen⟩ := opened_eq hplace hbase
  have hline : (⟨gap, indent, dashes, .blockEntry key⟩ : Line).WellFormed :=
    ⟨hkey, fun n hn => hspaced n (List.mem_of_mem_dropLast hn), fun _ => hspaced⟩
  have hle : (indent : ℤ) ≤ column := by split_ifs at hplace <;> omega
  obtain ⟨hstack, hreports⟩ := scanned_texts hline stack
  obtain ⟨path, hentered, hmark⟩ :=
    enterKey_block indent (rawKey dashes.tail key) hne
  simp only [Line.effect, hopened] at hstack hreports
  rw [hentered] at hstack
  rw [hmark, hseen, mark_rawKey] at hreports
  obtain ⟨hblockReports, hblockStack⟩ :=
    hblock.at.below ⟨indent, path, ∅⟩ hshift hle rfl
      (addKeys_ne_nil hne) (pop_addKeys {rawKey dashes.tail key} hself)
  rw [Block.render, List.flatMap_cons, List.flatMap_append, flatMap_render, flatMap_render,
    scanned_append, reports_append, scanned_append, reports_append, hstack, hreports, hblockReports]
  by_cases hdashes : dashes = []
  · rw [if_pos hdashes] at hplace
    subst hplace hdashes
    rw [if_neg (lt_irrefl _)] at hblockStack
    obtain ⟨hafter, hrestReports⟩ := hrest.at.rest hblockStack (addKeys_ne_nil hne)
    refine ⟨?_, ?_⟩
    · rw [hafter, addKeys_addKeys, ← pop_addKeys _ hself, hpop, if_pos rfl, if_pos rfl,
        List.tail_nil, rawKey_nil]
      rfl
    · rw [hrestReports, seenKeys_addKeys hne, hseen, ← asScanned_scalar, List.append_assoc]
      rfl
  · have hlt : (indent : ℤ) < column := by
      rw [if_neg hdashes] at hplace
      exact_mod_cast hplace
    rw [if_pos hlt] at hblockStack
    obtain ⟨hafter, hrestReports⟩ := hrest.at.rest hblockStack (List.cons_ne_nil _ _)
    have hback := congrArg (pop indent) hafter
    rw [pop_pop hle, addKeys, pop_cons, if_pos le_rfl, hpop] at hback
    refine ⟨?_, ?_⟩
    · rw [hback, if_neg hdashes, if_neg hdashes]
    · obtain ⟨n, inner, rfl⟩ := List.exists_cons_of_ne_nil hdashes
      rw [hrestReports, List.append_assoc]
      rfl

/-- The line of an item opens a frame that the column of the block may close. -/
lemma opened_item {indent : ℕ} {stack : List Frame}
    (hplace : if dashes = [] then indent = column else indent < column)
    (hbase : pop indent stack ≠ []) :
    ∃ path base, openItem indent stack = ⟨indent, path, ∅⟩ :: base ∧ base = pop indent stack ∧
      pop column base = base ∧ (indent : ℤ) ≤ column := by
  have hle : (indent : ℤ) ≤ column := by split_ifs at hplace <;> omega
  obtain ⟨path, hopen⟩ := openItem_eq hbase
  refine ⟨path, _, hopen, rfl, ?_, hle⟩
  cases hpop : pop indent stack with
  | nil => rfl
  | cons frame below =>
    have hlt := lt_of_pop hpop
    rw [pop_cons, if_neg (by omega)]

/-- The rest of a sequence, whichever frames it finds. -/
lemma Scans.items {rest : Block .sequence} (hrest : Scans rest) {indent : ℕ}
    {stack base : List Frame}
    (hle : (indent : ℤ) ≤ column) (hstack : pop indent stack = base) (hbase : base ≠ [])
    (seen : Finset String) :
    pop indent (scanned stack (rest.texts column)) = base ∧
      reports stack (rest.texts column) = rest.marks asScanned [] seen := by
  have hne : pop column stack ≠ [] := by
    intro hnil
    rw [← pop_pop hle, hnil] at hstack
    exact hbase hstack.symm
  obtain ⟨hafter, hreports⟩ := hrest.at column stack hne
  rw [keys_sequence, addKeys_empty] at hafter
  refine ⟨?_, hreports.trans (marks_sequence rest rfl _ _ _)⟩
  rw [← pop_pop hle, hafter, pop_pop hle, hstack]

lemma Scans.scalarItem {text : String} {rest : Block .sequence} (htext : Plain text)
    (hrest : Scans rest) : Scans (.scalarItem gap text rest) := by
  intro indent dashes column stack hplace hspaced hbase
  obtain ⟨path, base, hopen, hbaseEq, hself, hle⟩ := opened_item hplace hbase
  have hdashes : dashes ++ [gap.space + 1] ≠ [] := by simp
  have hall : ∀ n ∈ dashes ++ [gap.space + 1], 0 < n := by
    simpa [or_imp, forall_and] using hspaced
  have hline : (⟨gap, indent, dashes ++ [gap.space + 1], .scalar text⟩ : Line).WellFormed :=
    ⟨⟨hdashes, htext⟩, fun n hn => hall n (mem_of_mem_dropLast hn), fun _ => hall⟩
  obtain ⟨hstack, hreports⟩ := scanned_texts hline stack
  simp only [Line.effect, if_neg hdashes, hopen] at hstack hreports
  have hpop : pop indent (⟨indent, path, ∅⟩ :: base) = base := by
    rw [pop_cons, if_pos le_rfl, hbaseEq, pop_pop le_rfl]
  obtain ⟨hafter, hrestReports⟩ := hrest.items hle hpop (hbaseEq ▸ hbase)
    (if dashes = [] then seenKeys (pop indent stack) else ∅)
  rw [Block.render, flatMap_cons, flatMap_render, scanned_append, reports_append, hstack,
    hreports, hafter, hrestReports, hbaseEq, append_assoc]
  refine ⟨?_, rfl⟩
  split_ifs
  · exact (addKeys_empty _).symm
  · rfl

lemma Scans.belowItem {rest : Block .sequence} (hshift : 0 < shift) (hblock : Scans block)
    (hrest : Scans rest) : Scans (.belowItem gap shift block rest) := by
  intro indent dashes column stack hplace hspaced hbase
  obtain ⟨path, base, hopen, hbaseEq, hself, hle⟩ := opened_item hplace hbase
  have hdashes : dashes ++ [0] ≠ [] := by simp
  have hline : (⟨gap, indent, dashes ++ [0], .nothing⟩ : Line).WellFormed := by
    refine ⟨hdashes, fun n hn => ?_, fun h => absurd rfl h⟩
    rw [dropLast_concat] at hn
    exact hspaced n hn
  obtain ⟨hstack, hreports⟩ := scanned_texts hline stack
  simp only [Line.effect, if_neg hdashes, hopen] at hstack hreports
  obtain ⟨hblockReports, hblockStack⟩ :=
    hblock.at.below ⟨indent, path, ∅⟩ (fun _ => hshift) hle rfl (hbaseEq ▸ hbase) hself
  have hpop := congrArg (pop indent) hblockStack
  rw [pop_pop hle, apply_ite (pop indent), pop_cons, if_pos le_rfl, ite_self, hbaseEq,
    pop_pop le_rfl, ← hbaseEq] at hpop
  obtain ⟨hafter, hrestReports⟩ := hrest.items hle hpop (hbaseEq ▸ hbase)
    (if dashes = [] then seenKeys (pop indent stack) else ∅)
  rw [Block.render, flatMap_cons, flatMap_append, flatMap_render, flatMap_render,
    scanned_append, reports_append, scanned_append, reports_append, hstack, hreports, hblockReports,
    hrestReports, hafter, hbaseEq, append_assoc]
  refine ⟨?_, rfl⟩
  split_ifs
  · exact (addKeys_empty _).symm
  · rfl

lemma Scans.inlineItem {rest : Block .sequence} (hshift : 1 < shift) (hblock : Scans block)
    (hrest : Scans rest) : Scans (.inlineItem shift block rest) := by
  intro indent dashes column stack hplace hspaced hbase
  have hle : (indent : ℤ) ≤ column := by split_ifs at hplace <;> omega
  have hdashes : dashes ++ [shift - 1] ≠ [] := by simp
  have hall : ∀ n ∈ dashes ++ [shift - 1], 0 < n := by
    rw [forall_mem_append, forall_mem_singleton]
    exact ⟨hspaced, by omega⟩
  have hinner : if dashes ++ [shift - 1] = [] then indent = column + shift
      else indent < column + shift := by
    rw [if_neg hdashes]
    split_ifs at hplace <;> omega
  obtain ⟨hstack, hreports⟩ := hblock indent (dashes ++ [shift - 1]) (column + shift) stack hinner
    hall hbase
  rw [if_neg hdashes] at hstack hreports
  obtain ⟨hafter, hrestReports⟩ := hrest.items hle hstack hbase
    (if dashes = [] then seenKeys (pop indent stack) else ∅)
  rw [Block.render, flatMap_append, flatMap_render, scanned_append, reports_append, hreports,
    hafter, hrestReports]
  refine ⟨?_, rfl⟩
  split_ifs
  · exact (addKeys_empty _).symm
  · rfl

end Parts

/-- Every block is scanned as its marks say. -/
theorem Block.WellFormed.scans {k : Kind} {b : Block k} (h : b.WellFormed) : Scans b := by
  induction b with
  | nil =>
    intro indent dashes column stack _ _ _
    refine ⟨?_, rfl⟩
    split_ifs
    · exact (addKeys_empty _).symm
    · rfl
  | scalarEntry gap key text rest ih =>
    obtain ⟨-, hkey, htext, hrest⟩ := h
    exact Scans.scalarEntry hkey htext (ih hrest)
  | blockEntry gap key shift block rest ihBlock ihRest =>
    obtain ⟨-, hkey, hshift, -, hblock, hrest⟩ := h
    exact Scans.blockEntry hkey hshift (ihBlock hblock) (ihRest hrest)
  | scalarItem gap text rest ih =>
    obtain ⟨-, htext, hrest⟩ := h
    exact Scans.scalarItem htext (ih hrest)
  | belowItem gap shift block rest ihBlock ihRest =>
    obtain ⟨-, hshift, -, hblock, hrest⟩ := h
    exact Scans.belowItem hshift (ihBlock hblock) (ihRest hrest)
  | inlineItem shift block rest ihBlock ihRest =>
    obtain ⟨hshift, -, hblock, hrest⟩ := h
    exact Scans.inlineItem hshift (ihBlock hblock) (ihRest hrest)

end Omnigraph.Yaml
