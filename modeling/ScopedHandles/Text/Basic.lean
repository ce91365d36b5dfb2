/-
**Texts.**

A text is a list of characters, and a place in it is the number of characters before it. Two measures
turn a place into what a reader is shown: the size in bytes of what stands before it, and the number of
the line.
-/

import ScopedHandles.Text.Character

namespace ScopedHandles

/-- A source text, or a piece of one. -/
abbrev Text := List Char

/-- The size of a text in bytes of its UTF-8 form. -/
def byteSize : Text → Nat
  | [] => 0
  | c :: rest => c.utf8Size + byteSize rest

/-- The number of bytes before a place. -/
def byteOffset (text : Text) (place : Nat) : Nat :=
  byteSize (text.take place)

/-- The number of characters that begin before a byte offset. -/
def placeOfByte : (offset : Nat) → Text → Nat
  | _, [] => 0
  | 0, _ => 0
  | offset, c :: rest => placeOfByte (offset - c.utf8Size) rest + 1

/-- The number of the line of a place, from one. -/
def lineAt (text : Text) (place : Nat) : Nat :=
  (text.take place).count '\n' + 1

/-! ### Trimming -/

/-- The text without its leading white space. -/
def trimStart (text : Text) : Text :=
  text.dropWhile isWhiteSpace

/-- The text without its trailing white space. -/
def trimEnd (text : Text) : Text :=
  (text.reverse.dropWhile isWhiteSpace).reverse

/-- The trailing white space of a text. -/
def trailingBlanks (text : Text) : Text :=
  (text.reverse.takeWhile isWhiteSpace).reverse

/-- The text without white space at its ends. -/
def trim (text : Text) : Text :=
  trimEnd (trimStart text)

/-! ### Cutting -/

/-- The rest behind `start`, if the text begins with it. -/
def after? (start text : Text) : Option Text :=
  if start.isPrefixOf text then some (text.drop start.length) else none

/-- The part before `final`, if the text ends with it. -/
def before? (final text : Text) : Option Text :=
  if final.isSuffixOf text then some (text.take (text.length - final.length)) else none

/-- The rest behind one or more characters of a class, as many as there are. -/
def skipSome (p : Char → Bool) : Text → Option Text
  | [] => none
  | c :: rest => if p c then some (rest.dropWhile p) else none

/-- The part of a text before its end piece `rest`. -/
def upTo (rest text : Text) : Text :=
  text.take (text.length - rest.length)

/-- What `next` makes of the text behind a run of characters of a class. The longest run is tried
first, then shorter ones down to the empty run, until `next` has a result. -/
def tryRuns {α : Type} (p : Char → Bool) (next : Text → Option α) : Text → Option α
  | [] => next []
  | c :: rest =>
    if p c then tryRuns p next rest <|> next (c :: rest) else next (c :: rest)

end ScopedHandles
