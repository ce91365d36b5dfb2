/-
**Classes of characters.**

* `isWhiteSpace`: blanks and line breaks of every script.
* `isWordChar`: what a word is made of. Marks, connectors and joiners count.
* `isAlphanumeric`: letters and numerals. Superscripts count, marks that are no letters do not.
* `isIdentChar`: what an identifier of the source text is made of.

Words are told by version 16 of the Unicode standard, letters and numerals by version 17. So a letter
that version 17 added belongs to an identifier and to no word.
-/

import ScopedHandles.Text.CodePoint
import ScopedHandles.Text.Alphabetic
import ScopedHandles.Text.Mark
import ScopedHandles.Text.Numeral

namespace ScopedHandles

/-- White space, line breaks included. -/
def isWhiteSpace (c : Char) : Bool :=
  CodePoint.isIn c.toNat CodePoint.whiteSpace

/-- A digit of any script. -/
def isDecimalDigit (c : Char) : Bool :=
  CodePoint.isIn c.toNat CodePoint.decimalNumber

/-- A character that words are made of. -/
def isWordChar (c : Char) : Bool :=
  CodePoint.isIn c.toNat CodePoint.alphabetic || CodePoint.isIn c.toNat CodePoint.decimalNumber
    || CodePoint.isIn c.toNat CodePoint.connector || CodePoint.isIn c.toNat CodePoint.mark
    || CodePoint.isIn c.toNat CodePoint.joinControl

/-- A letter or a numeral. -/
def isAlphanumeric (c : Char) : Bool :=
  CodePoint.isIn c.toNat CodePoint.alphabetic || CodePoint.isIn c.toNat CodePoint.decimalNumber
    || CodePoint.isIn c.toNat CodePoint.otherNumber
    || CodePoint.isIn c.toNat CodePoint.addedAlphabetic
    || CodePoint.isIn c.toNat CodePoint.addedDecimalNumber

/-- A character that identifiers are made of. -/
def isIdentChar (c : Char) : Bool :=
  isAlphanumeric c || c == '_' || c == '$'

/-- A blank or a tab: what lines are indented by. -/
def isIndentChar (c : Char) : Bool :=
  c == ' ' || c == '\t'

/-- A character of a dotted name. -/
def isDottedChar (c : Char) : Bool :=
  isWordChar c || c == '.'

end ScopedHandles
