/-
**Regions of a source text.**

Each character of a source text is code, belongs to a line comment, to a block comment or to a literal.
A `Scanner` holds what has to be known of the characters before: whether a literal or a line comment is
open, how deep block comments nest, and whether the character before may open or close a comment.

* Block comments nest. A marker is used up when it is read, so `/*/` opens and does not close.
* The first character of an opening marker is still code.
* A literal ends at its quote or at a line break, unless a backslash stands before it.
* A closing marker without an opener makes the depth negative. The text after it is code.

The depth is an integer without bounds. A text below 4 GiB has fewer than 2 ^ 32 characters, and its depth
lies strictly between -(2 ^ 31) and 2 ^ 31, since a marker has two characters.
-/

import ScopedHandles.Text.Basic

namespace ScopedHandles

/-- The lexical region a character belongs to. -/
inductive Region where
  | code
  | lineComment
  | blockComment
  | literal
  deriving DecidableEq, Repr, Inhabited

/-- The character before, as far as it may be the first half of a comment marker. -/
inductive Half where
  | clear
  | slash
  | star
  deriving DecidableEq, Repr, Inhabited

/-- The half of a marker that a character may be. -/
def Half.of (c : Char) : Half :=
  if c = '/' then .slash else if c = '*' then .star else .clear

/-- What is open where the next character stands. -/
inductive Mode where
  /-- Code, or a block comment if the depth is positive. -/
  | plain (half : Half)
  | lineComment
  | literal (quote : Char) (escaped : Bool)
  deriving DecidableEq, Repr, Inhabited

/-- The state of a scan: what is open, and how many block comments are. -/
structure Scanner where
  mode : Mode := .plain .clear
  depth : Int := 0
  deriving DecidableEq, Repr, Inhabited

namespace Scanner

/-- The state before the first character. -/
def start : Scanner := {}

/-- The region of the character `c`. -/
def regionOf (scanner : Scanner) (c : Char) : Region :=
  match scanner.mode with
  | .literal _ _ => .literal
  | .lineComment => .lineComment
  | .plain half =>
    if 0 < scanner.depth then .blockComment
    else if half = .slash ∧ c = '/' then .lineComment
    else if half = .slash ∧ c = '*' then .blockComment
    else if c = '"' ∨ c = '\'' then .literal
    else .code

/-- The state after the character `c`. -/
def next (scanner : Scanner) (c : Char) : Scanner :=
  match scanner.mode with
  | .literal quote escaped =>
    if escaped then { scanner with mode := .literal quote false }
    else if c = '\\' then { scanner with mode := .literal quote true }
    else if c = quote ∨ c = '\n' then { scanner with mode := .plain .clear }
    else scanner
  | .lineComment =>
    if c = '\n' then { scanner with mode := .plain .clear } else scanner
  | .plain half =>
    if half = .star ∧ c = '/' then { mode := .plain .clear, depth := scanner.depth - 1 }
    else if half = .slash ∧ c = '*' then { mode := .plain .clear, depth := scanner.depth + 1 }
    else if 0 < scanner.depth then { scanner with mode := .plain (Half.of c) }
    else if half = .slash ∧ c = '/' then { scanner with mode := .lineComment }
    else if c = '"' ∨ c = '\'' then { scanner with mode := .literal c false }
    else { scanner with mode := .plain (Half.of c) }

/-- The state after a text. -/
def run (scanner : Scanner) (text : Text) : Scanner :=
  text.foldl next scanner

/-- The regions of the characters of a text. -/
def regions (scanner : Scanner) : Text → List Region
  | [] => []
  | c :: rest => scanner.regionOf c :: (scanner.next c).regions rest

end Scanner

/-- Whether `c` opens a bracket. -/
def opensBracket (c : Char) : Bool :=
  c == '(' || c == '[' || c == '{'

/-- Whether `c` closes a bracket. -/
def closesBracket (c : Char) : Bool :=
  c == ')' || c == ']' || c == '}'

end ScopedHandles
