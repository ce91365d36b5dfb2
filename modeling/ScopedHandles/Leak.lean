/-
**Possible leaks.**

A call such as `createStatement()` whose result is used at once and kept by nobody may leak. Such a
call is a word that begins with `c` and has an `S` further inside, with an empty argument list and a
chain of calls behind it up to a semicolon. The chain may span lines. It holds no brace, and semicolons
only between double quotes. Leaks are pointed at and never mended.
-/

import ScopedHandles.Text.Search

namespace ScopedHandles

/-- A line that may leak a statement. -/
structure Leak where
  line : Nat
  text : Text
  deriving DecidableEq, Repr

namespace Leak

/-- Whether a word names a call that creates something: `c`, then a letter or more, then `S`, then a
letter or more. -/
def isCreator (word : Text) : Bool :=
  word.head? == some 'c' && (word.drop 2).dropLast.contains 'S'

/-- The number of characters of a chain through its semicolon. `quoted` says whether a quote is open,
and `closed` whether the last character was a closing parenthesis. -/
def chainLength (quoted closed : Bool) : Text → Option Nat
  | [] => none
  | c :: rest =>
    if quoted then (chainLength (c != '"') false rest).map (· + 1)
    else if c = ';' then if closed then some 1 else none
    else if c = '{' ∨ c = '}' then none
    else
      let closed := if isWhiteSpace c then closed else c == ')'
      (chainLength (c == '"') closed rest).map (· + 1)

/-- The number of characters of a call at the beginning of a text, through the semicolon of its
chain. -/
def callLength (last : Option Char) (text : Text) : Option Nat := do
  guard (atWordBoundary last text && isCreator (text.takeWhile isWordChar))
  let rest ← after? ['('] (trimStart (text.dropWhile isWordChar))
  let chain ← after? [')'] (trimStart rest)
  let length ← chainLength false false chain
  return text.length - chain.length + length

/-- The number of characters from the beginning of a text through the last call that begins on its
first line. -/
def lineLength (last : Option Char) : Text → Option Nat
  | [] => none
  | c :: rest =>
    if c = '\n' then none
    else
      match lineLength (some c) rest with
      | some length => some (length + 1)
      | none => callLength last (c :: rest)

/-- Recognises a line that may leak, and what its call spans. -/
def probe (last : Option Char) (text : Text) : Probe Text :=
  if beginsLine last then
    match lineLength last text with
    | none => .miss
    | some length => .hit (trim ((text.take length).takeWhile (· != '\n'))) length
  else .miss

end Leak

/-- The lines of a text that may leak a statement. -/
def leaks (content : Text) : List Leak :=
  (allHits Leak.probe 0 0 none content).map fun found =>
    { line := lineAt content found.place, text := found.value }

end ScopedHandles
