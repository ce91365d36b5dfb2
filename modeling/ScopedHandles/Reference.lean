/-
**References to a symbol.**

A symbol is referred to wherever it stands as a whole token outside literals: white space or a boundary
character on each side, or an end of the text. Comments count, so that a renamed handle is renamed in
the comments about it too.
-/

import ScopedHandles.Region

namespace ScopedHandles

/-- Whether a reference may stand behind this character. -/
def mayPrecede : (last : Option Char) → Bool
  | none => true
  | some c => isWhiteSpace c || "()+-*/%,!=<>&|^?:[\x7b;".toList.contains c

/-- Whether a reference may stand before this character. -/
def mayFollow : (next : Option Char) → Bool
  | none => true
  | some c => isWhiteSpace c || "=.),;[]+-*/%<>&|^?:\x7d".toList.contains c

/-- Whether a reference to `symbol` stands at the beginning of a text, `last` being the character
before it. -/
def isReference (symbol : Text) (scanner : Scanner) (last : Option Char) : Text → Bool
  | [] => false
  | c :: rest =>
    symbol != [] && symbol.isPrefixOf (c :: rest) && scanner.regionOf c != .literal
      && mayPrecede last && mayFollow ((c :: rest).drop symbol.length).head?

/-- The places of the references to `symbol`, where `place` is the place of the text. -/
def referencesFrom (symbol : Text) :
    (scanner : Scanner) → (last : Option Char) → (place : Nat) → Text → List Nat
  | _, _, _, [] => []
  | scanner, last, place, c :: rest =>
    let later := referencesFrom symbol (scanner.next c) (some c) (place + 1) rest
    if isReference symbol scanner last (c :: rest) then place :: later else later

/-- The places at which `text` refers to `symbol`. -/
def references (text symbol : Text) : List Nat :=
  referencesFrom symbol .start none 0 text

/-- The text with `new` for each reference to `old`, behind the first `skip` characters, which are left
out. -/
def renameFrom (old new : Text) :
    (scanner : Scanner) → (last : Option Char) → (skip : Nat) → Text → Text
  | _, _, _, [] => []
  | scanner, _, skip + 1, c :: rest => renameFrom old new (scanner.next c) (some c) skip rest
  | scanner, last, 0, c :: rest =>
    if isReference old scanner last (c :: rest) then
      new ++ renameFrom old new (scanner.next c) (some c) (old.length - 1) rest
    else
      c :: renameFrom old new (scanner.next c) (some c) 0 rest

/-- The text with every reference to `old` replaced by `new`. -/
def rename (text old new : Text) : Text :=
  renameFrom old new .start none 0 text

/-- The number of references to `old` that a renaming replaces, behind the first `skip` characters. -/
def replacementsFrom (old : Text) :
    (scanner : Scanner) → (last : Option Char) → (skip : Nat) → Text → Nat
  | _, _, _, [] => 0
  | scanner, _, skip + 1, c :: rest => replacementsFrom old (scanner.next c) (some c) skip rest
  | scanner, last, 0, c :: rest =>
    if isReference old scanner last (c :: rest) then
      replacementsFrom old (scanner.next c) (some c) (old.length - 1) rest + 1
    else
      replacementsFrom old (scanner.next c) (some c) 0 rest

/-- The number of replacements that renaming `old` makes in a text. -/
def replacements (text old : Text) : Nat :=
  replacementsFrom old .start none 0 text

end ScopedHandles
