import Omnigraph.Cluster.DuplicateKeys

/-!
# Block layouts

A tree of mappings and sequences with the way it is written: how far each block is indented, where
the items of a sequence start, the spaces, and the blank lines and comments in between. The keys
that a mapping has twice can be read off the tree.
-/

namespace Omnigraph.Yaml

open Params (isWhitespace)

/-! ### Texts -/

def spaces (n : ℕ) : List Char := List.replicate n ' '

/-- Not the start of an item, and without the characters that mean something elsewhere: colons,
number signs, quotes, braces, brackets and ends of lines. -/
structure Plain (text : String) : Prop where
  ne_nil : text.toList ≠ []
  head : ∀ ch ∈ text.toList.head?, isWhitespace ch = false
  last : ∀ ch ∈ text.toList.getLast?, isWhitespace ch = false
  chars : ∀ ch ∈ text.toList,
    ch ∉ [':', '#', '"', '\x27', '\x7b', '\x7d', '[', ']', '\n', '\r']
  not_item : text ≠ "-" ∧ ¬ ['-', ' '] <+: text.toList

instance (text : String) : Decidable (Plain text) :=
  decidable_of_iff
    (text.toList ≠ [] ∧ text.toList.head?.all (!isWhitespace ·) ∧
      text.toList.getLast?.all (!isWhitespace ·) ∧
      text.toList.all (· ∉ [':', '#', '"', '\x27', '\x7b', '\x7d', '[', ']', '\n', '\r']) ∧
      text ≠ "-" ∧ ['-', ' '].isPrefixOf text.toList = false) <| by
    simp only [Option.all_eq_true, List.all_eq_true, Bool.not_eq_true', decide_eq_true_iff]
    constructor
    · rintro ⟨hne, hhead, hlast, hchars, hitem, hprefix⟩
      exact ⟨hne, hhead, hlast, hchars, hitem, by simp [← List.isPrefixOf_iff_prefix, hprefix]⟩
    · rintro ⟨hne, hhead, hlast, hchars, hitem, hprefix⟩
      exact ⟨hne, hhead, hlast, hchars, hitem,
        by simpa [← List.isPrefixOf_iff_prefix] using hprefix⟩

/-- A comment stays on its line. -/
def Commented (comment : Option String) : Prop :=
  ∀ text ∈ comment, ∀ ch ∈ text.toList, ch ≠ '\n' ∧ ch ≠ '\r'

/-- A blank line or a line with only a comment. -/
structure Noise where
  indent : ℕ
  comment : Option String

def Noise.text (noise : Noise) : List Char :=
  spaces noise.indent ++ match noise.comment with
    | none => []
    | some comment => '#' :: comment.toList

/-- How a line is written: the lines before it, the spaces around its colon or after its dash, and
how it ends. -/
structure Gap where
  before : List Noise
  colon : ℕ
  space : ℕ
  trailing : ℕ
  comment : Option String

structure Gap.WellFormed (gap : Gap) : Prop where
  before : ∀ noise ∈ gap.before, Commented noise.comment
  comment : Commented gap.comment

/-- The end of a line. A space precedes a comment. -/
def Gap.ending (gap : Gap) : List Char :=
  match gap.comment with
  | none => spaces gap.trailing
  | some comment => spaces (gap.trailing + 1) ++ '#' :: comment.toList

/-! ### Blocks -/

inductive Kind
  | mapping
  | sequence

/-- What is left of a block. A value is a scalar on the line of its key or dash, or a block in the
lines below, shifted to the right. The block of an item may start on the line of the dash. -/
inductive Block : Kind → Type
  | nil {k : Kind} : Block k
  | scalarEntry (gap : Gap) (key text : String) (rest : Block .mapping) : Block .mapping
  | blockEntry (gap : Gap) (key : String) (shift : ℕ) {k : Kind} (block : Block k)
    (rest : Block .mapping) : Block .mapping
  | scalarItem (gap : Gap) (text : String) (rest : Block .sequence) : Block .sequence
  | belowItem (gap : Gap) (shift : ℕ) {k : Kind} (block : Block k) (rest : Block .sequence) :
    Block .sequence
  | inlineItem (shift : ℕ) {k : Kind} (block : Block k) (rest : Block .sequence) :
    Block .sequence

namespace Block

variable {k : Kind}

def IsNil : Block k → Prop
  | nil => True
  | _ => False

/-- The keys of a mapping. -/
def keys : {k : Kind} → Block k → Finset String
  | _, nil => ∅
  | _, scalarEntry _ key _ rest => insert key rest.keys
  | _, blockEntry _ key _ _ rest => insert key rest.keys
  | _, scalarItem .. => ∅
  | _, belowItem .. => ∅
  | _, inlineItem .. => ∅

/-- Keys and scalars are plain, and blocks are not empty. The block of a key is a sequence or
indented further than the key; the block of an item is indented further than the dash. -/
def WellFormed : {k : Kind} → Block k → Prop
  | _, nil => True
  | _, scalarEntry gap key text rest =>
    gap.WellFormed ∧ Plain key ∧ Plain text ∧ rest.WellFormed
  | _, @blockEntry gap key shift k block rest =>
    gap.WellFormed ∧ Plain key ∧ (k = .mapping → 0 < shift) ∧ ¬ block.IsNil ∧ block.WellFormed ∧
      rest.WellFormed
  | _, scalarItem gap text rest => gap.WellFormed ∧ Plain text ∧ rest.WellFormed
  | _, belowItem gap shift block rest =>
    gap.WellFormed ∧ 0 < shift ∧ ¬ block.IsNil ∧ block.WellFormed ∧ rest.WellFormed
  | _, inlineItem shift block rest =>
    1 < shift ∧ ¬ block.IsNil ∧ block.WellFormed ∧ rest.WellFormed

end Block

/-! ### Rendering -/

inductive Content
  | nothing
  | scalar (text : String)
  | scalarEntry (key text : String)
  | blockEntry (key : String)

/-- A line with what is written before it: its indentation, its dashes, each with the spaces that
follow it, and its content. -/
structure Line where
  gap : Gap
  indent : ℕ
  dashes : List ℕ
  content : Content

def dashed (dashes : List ℕ) : List Char := dashes.flatMap fun n => '-' :: spaces n

def Content.text (gap : Gap) : Content → List Char
  | nothing => []
  | scalar text => text.toList
  | scalarEntry key text =>
    key.toList ++ spaces gap.colon ++ ':' :: spaces (gap.space + 1) ++ text.toList
  | blockEntry key => key.toList ++ spaces gap.colon ++ [':']

def Line.text (line : Line) : List Char :=
  spaces line.indent ++ dashed line.dashes ++ line.content.text line.gap ++ line.gap.ending

def Line.texts (line : Line) : List (List Char) := line.gap.before.map Noise.text ++ [line.text]

/-- The lines of a block at a column. Its first line has an indentation and dashes of its own. -/
def Block.render : {k : Kind} → (indent : ℕ) → (dashes : List ℕ) → (column : ℕ) → Block k →
    List Line
  | _, _, _, _, nil => []
  | _, indent, dashes, column, scalarEntry gap key text rest =>
    ⟨gap, indent, dashes, .scalarEntry key text⟩ :: rest.render column [] column
  | _, indent, dashes, column, blockEntry gap key shift block rest =>
    ⟨gap, indent, dashes, .blockEntry key⟩ ::
      (block.render (column + shift) [] (column + shift) ++ rest.render column [] column)
  | _, indent, dashes, column, scalarItem gap text rest =>
    ⟨gap, indent, dashes ++ [gap.space + 1], .scalar text⟩ :: rest.render column [] column
  | _, indent, dashes, column, belowItem gap shift block rest =>
    ⟨gap, indent, dashes ++ [0], .nothing⟩ ::
      (block.render (column + shift) [] (column + shift) ++ rest.render column [] column)
  | _, indent, dashes, column, inlineItem shift block rest =>
    block.render indent (dashes ++ [shift - 1]) (column + shift) ++ rest.render column [] column

def Block.texts {k : Kind} (column : ℕ) (b : Block k) : List (List Char) :=
  (b.render column [] column).flatMap Line.texts

/-- The text of a block at a column, and what follows it. -/
def Block.document {k : Kind} (column : ℕ) (b : Block k) (trailer : List Noise) : String :=
  String.ofList ((b.texts column ++ trailer.map Noise.text).flatMap fun line => line ++ ['\n'])

/-! ### Keys that are repeated -/

def Gap.quiet (gap : Gap) : List (Option String) := List.replicate gap.before.length none

def mark (seen : Finset String) (key : String) : Option String :=
  if key ∈ seen then some key else none

/-- For every line of a block the key that is repeated there. The rule tells which keys the entries
after an entry are compared with: of the dashes on its line, its key, the keys of its block, and
those its own key was compared with. -/
def Block.marks
    (rule : List ℕ → String → Option (Finset String) → Finset String → Finset String) :
    {k : Kind} → List ℕ → Finset String → Block k → List (Option String)
  | _, _, _, nil => []
  | _, dashes, seen, scalarEntry gap key _ rest =>
    gap.quiet ++ mark seen key :: rest.marks rule [] (rule dashes key none seen)
  | _, dashes, seen, blockEntry gap key _ block rest =>
    gap.quiet ++ mark seen key :: (block.marks rule [] ∅ ++
      rest.marks rule [] (rule dashes key (some block.keys) seen))
  | _, _, seen, scalarItem gap _ rest => gap.quiet ++ none :: rest.marks rule [] seen
  | _, _, seen, belowItem gap _ block rest =>
    gap.quiet ++ none :: (block.marks rule [] ∅ ++ rest.marks rule [] seen)
  | _, dashes, seen, inlineItem shift block rest =>
    block.marks rule (dashes ++ [shift - 1]) ∅ ++ rest.marks rule [] seen

/-- A mapping has the keys of the entries before. -/
def allBefore (_ : List ℕ) (key : String) (_ : Option (Finset String)) (seen : Finset String) :
    Finset String := insert key seen

/-- The marks with the numbers of their lines. -/
def number (start : ℕ) : List (Option String) → List (ℕ × String)
  | [] => []
  | none :: rest => number (start + 1) rest
  | some key :: rest => (start, key) :: number (start + 1) rest

/-- The lines whose key an entry before has in the same mapping. -/
def Block.repeatedKeys {k : Kind} (b : Block k) : List (ℕ × String) :=
  number 1 (b.marks allBefore [] ∅)

/-- The entries that follow an entry on a line with dashes are compared with the right keys. With
one dash the first entry is among these unless it has a block; then the keys of this block are.
After a further dash the first key is read with the dash. -/
def Block.Separated : {k : Kind} → List ℕ → Block k → Prop
  | _, _, nil => True
  | _, dashes, scalarEntry _ key _ rest =>
    (1 < dashes.length → key ∉ rest.keys) ∧ rest.Separated []
  | _, dashes, blockEntry _ key _ block rest =>
    (dashes ≠ [] → ∀ later ∈ rest.keys, later = key ↔ later ∈ block.keys) ∧
      block.Separated [] ∧ rest.Separated []
  | _, _, scalarItem _ _ rest => rest.Separated []
  | _, _, belowItem _ _ block rest => block.Separated [] ∧ rest.Separated []
  | _, dashes, inlineItem shift block rest =>
    block.Separated (dashes ++ [shift - 1]) ∧ rest.Separated []

end Omnigraph.Yaml
