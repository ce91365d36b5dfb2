/-
**Declarations of handles.**

A declaration is a head at the beginning of a line, and the statement behind it up to its terminator. A
head is passed over if a second equals sign follows, or if the handle is declared as null. Behind a head
that is passed over, and behind a declaration, the search goes on.

* `declarations` — all declarations of a kind, in the order of the text.
* `nextDeclaration` — the first declaration at or behind a place.
-/

import ScopedHandles.HandleKind
import ScopedHandles.Declaration.Head
import ScopedHandles.Declaration.Statement

namespace ScopedHandles

/-- The declaration of a handle. -/
structure Declaration where
  kind : HandleKind
  /-- The blanks and tabs before the declared type. -/
  indent : Text
  /-- The declared type, with its modifier. -/
  declaredType : Text
  name : Text
  /-- The expression between the equals sign and the terminator, if there is a terminator. -/
  initializer : Option Text
  /-- The number of characters from the beginning of the line through the terminator, or through the
  equals sign if there is no terminator. -/
  length : Nat
  deriving DecidableEq, Repr

namespace Declaration

/-- Whether an initializer ends in the word `null`. -/
def endsInNull (initializer : Text) : Bool :=
  match before? "null".toList (trimEnd initializer) with
  | none => false
  | some before => !before.getLast?.any fun c => isAlphanumeric c || c == '_'

/-- Judges a head: `length` is the number of its characters. -/
def ofHead (kind : HandleKind) (head : Head) (length : Nat) : Probe Declaration :=
  let { indent, declaredType, name, rest } := head
  if rest.head? = some '=' then .pass length
  else
    match statementEnd rest with
    | none => .hit { kind, indent, declaredType, name, initializer := none, length } length
    | some terminator =>
      let initializer := trim (rest.take terminator)
      if endsInNull initializer then .pass length
      else
        let length := length + terminator + 1
        .hit { kind, indent, declaredType, name, initializer := some initializer, length } length

/-- Recognises a declaration whose type ends in `ending`. -/
def probe (kind : HandleKind) (ending : Text) (last : Option Char) (text : Text) :
    Probe Declaration :=
  if beginsLine last then
    match Head.read? ending text with
    | none => .miss
    | some head => ofHead kind head (text.length - head.rest.length)
  else .miss

end Declaration

/-- The place of the declared type. -/
def Occurrence.start (found : Occurrence Declaration) : Nat :=
  found.place + found.value.indent.length

/-- The place behind the declaration. -/
def Occurrence.stop (found : Occurrence Declaration) : Nat :=
  found.place + found.value.length

/-- The declarations in a text of handles whose type ends in `ending`. -/
def declarations (kind : HandleKind) (ending text : Text) : List (Occurrence Declaration) :=
  allHits (Declaration.probe kind ending) 0 0 none text

/-- The first declaration whose line begins at or behind `place`. -/
def nextDeclaration (kind : HandleKind) (ending text : Text) (place : Nat) :
    Option (Occurrence Declaration) :=
  firstHit (Declaration.probe kind ending) place none text

end ScopedHandles
