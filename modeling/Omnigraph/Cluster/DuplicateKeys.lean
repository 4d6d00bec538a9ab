import Omnigraph.Lib.Delimited
import Omnigraph.Params.Input

/-!
# Duplicate keys

The text of a configuration is scanned line by line for keys that a mapping has twice. A stack of
frames stands for the mappings that are open: a line closes those that are indented as far as it is
or further.
-/

namespace Omnigraph.Yaml

open Params (isWhitespace)

/-! ### Lines -/

/-- A line without what ends it. -/
def chomp (piece : List Char) : List Char :=
  if piece.getLast? = some '\n' then
    if piece.dropLast.getLast? = some '\r' then piece.dropLast.dropLast else piece.dropLast
  else piece

def lines (text : List Char) : List (List Char) := (Delimited.pieces '\n' text).map chomp

/-- What precedes the comment, by whether the text is in single or double quotes and whether the
character before was a backslash. -/
def stripFrom (inSingleQuote inDoubleQuote escaped : Bool) : List Char → List Char
  | [] => []
  | ch :: rest =>
    if escaped then ch :: stripFrom inSingleQuote inDoubleQuote false rest
    else if ch = '\\' ∧ inDoubleQuote then ch :: stripFrom inSingleQuote inDoubleQuote true rest
    else if ch = '\x27' ∧ ¬ inDoubleQuote then
      ch :: stripFrom (!inSingleQuote) inDoubleQuote false rest
    else if ch = '"' ∧ ¬ inSingleQuote then
      ch :: stripFrom inSingleQuote (!inDoubleQuote) false rest
    else if ch = '#' ∧ ¬ inSingleQuote ∧ ¬ inDoubleQuote then []
    else ch :: stripFrom inSingleQuote inDoubleQuote false rest

def stripComment (line : List Char) : List Char := stripFrom false false false line

def trim (l : List Char) : List Char := Delimited.trim isWhitespace l

def trimStart (l : List Char) : List Char := l.dropWhile isWhitespace

/-! ### Frames -/

/-- A mapping that is open: the indentation of the line that has opened it, and its keys. -/
structure Frame where
  indent : ℤ
  path : String
  keys : Finset String

/-- The frames that a line of an indentation leaves open. -/
def pop (indent : ℤ) (stack : List Frame) : List Frame :=
  stack.dropWhile fun frame => indent ≤ frame.indent

/-- An item of a sequence opens a frame. -/
def openItem (indent : ℤ) (stack : List Frame) : List Frame :=
  match pop indent stack with
  | [] => []
  | parent :: below =>
    ⟨indent, if parent.path = "" then "[]" else parent.path ++ "[]", ∅⟩ :: parent :: below

/-- The key at the start of a line, and what follows its colon. -/
def readKey (item : List Char) : Option (String × List Char) :=
  (Delimited.splitFirst ':' item).bind fun parts =>
    let key := trim parts.1
    if key = [] ∨ key.head? = some '\x7b' ∨ key.head? = some '[' then none
    else some (String.ofList key, parts.2)

/-- A key is added to the frame on top. Without a value on its line it opens a frame. -/
def enterKey (indent : ℤ) (key : String) (rawValue : List Char) (stack : List Frame) :
    List Frame × Option (String × String) :=
  match stack with
  -- the root frame is never closed
  | [] => ([], none)
  | parent :: below =>
    let fullPath := if parent.path = "" then key else parent.path ++ "." ++ key
    let stack := { parent with keys := insert key parent.keys } :: below
    (if trim rawValue = [] then ⟨indent, fullPath, ∅⟩ :: stack else stack,
      if key ∈ parent.keys then some (fullPath, key) else none)

/-- The frames after a line, and the key of the line if its mapping has it already. -/
def scanLine (stack : List Frame) (line : List Char) : List Frame × Option (String × String) :=
  let line := stripComment line
  if trim line = [] then (stack, none)
  else
    let indent : ℤ := (line.takeWhile (· = ' ')).length
    let trimmed := trimStart line
    let (stack, item) :=
      if trimmed = ['-'] ∨ ['-', ' '] <+: trimmed then
        (openItem indent stack, trimStart trimmed.tail)
      else (pop indent stack, trimmed)
    match readKey item with
    | none => (stack, none)
    | some (key, rawValue) => enterKey indent key rawValue stack

/-! ### Diagnostics -/

structure Duplicate where
  path : String
  key : String
  line : ℕ

/-- Scans lines from a number on. -/
def scan (stack : List Frame) (number : ℕ) : List (List Char) → List Duplicate
  | [] => []
  | line :: rest =>
    match scanLine stack line with
    | (stack, some (path, key)) => ⟨path, key, number⟩ :: scan stack (number + 1) rest
    | (stack, none) => scan stack (number + 1) rest

def rootFrame : Frame := ⟨-1, "", ∅⟩

def duplicateKeys (text : String) : List Duplicate := scan [rootFrame] 1 (lines text.toList)

structure Diagnostic where
  code : String
  path : String
  message : String

def Duplicate.diagnostic (duplicate : Duplicate) : Diagnostic where
  code := "duplicate_yaml_key"
  path := duplicate.path
  message := s!"duplicate YAML key `{duplicate.key}` on line {duplicate.line}"

def duplicateKeyDiagnostics (text : String) : List Diagnostic :=
  (duplicateKeys text).map Duplicate.diagnostic

end Omnigraph.Yaml
