/-
**The head of a declaration.**

A head is what stands on a line up to the equals sign: indentation, a type, a name. The type may be
qualified and may be marked `final`; only the end of its name is fixed. A text can be read as a head in
more than one way when the fixed end of the type is an odd text; then the longest reading of the
earliest part wins.
-/

import ScopedHandles.Text.Search

namespace ScopedHandles

/-- The head of a declaration, and the text behind its equals sign. -/
structure Head where
  indent : Text
  declaredType : Text
  name : Text
  rest : Text
  deriving DecidableEq, Repr

namespace Head

/-- A name behind white space and before an equals sign, and the text behind that sign. -/
def assigned? (text : Text) : Option (Text × Text) :=
  match skipSome isWhiteSpace text with
  | none => none
  | some named =>
    match named.takeWhile isWordChar, trimStart (named.dropWhile isWordChar) with
    | [], _ => none
    | name, '=' :: rest => some (name, rest)
    | _, _ => none

/-- The text behind a type, the name and the text behind the equals sign, where the type is a qualified
name that ends in `ending`. -/
def typed? (ending : Text) : Text → Option (Text × Text × Text) :=
  tryRuns isDottedChar fun text => do
    let untyped ← after? ending text
    let (name, rest) ← assigned? untyped
    return (untyped, name, rest)

/-- The same for a type that is marked `final`. -/
def marked? (ending text : Text) : Option (Text × Text × Text) :=
  match after? "final".toList text with
  | none => none
  | some [] => none
  | some (c :: rest) => if isWhiteSpace c then tryRuns isWhiteSpace (typed? ending) rest else none

/-- The head at the beginning of a line. -/
def read? (ending text : Text) : Option Head :=
  tryRuns isIndentChar (fun line => do
    let (untyped, name, rest) ← marked? ending line <|> typed? ending line
    return { indent := upTo line text, declaredType := upTo untyped line, name, rest }) text

end Head

end ScopedHandles
