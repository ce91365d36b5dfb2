/-
**Enclosing a declaration.**

A declaration and the rest of its block become a block of their own, with the handle as its resource
under a fresh name:

```
try (Type fresh = call) {body
indent}trailing
```

Here `body` is the rest of the block without the white space at its end, and `trailing` is that white
space. Nothing is enclosed if the block hands the handle on or assigns it again.

* `escape?` — why a block must not be enclosed, if it must not.
* `enclose` — the enclosure of a declaration in a text.
* `Enclosure.splice` — the text with the enclosure in place.
-/

import ScopedHandles.Scope
import ScopedHandles.Reference
import ScopedHandles.Names
import ScopedHandles.Header

namespace ScopedHandles

/-- Whether a text ends in the keyword `return`. -/
def endsInReturn (text : Text) : Bool :=
  match before? "return".toList text with
  | none => false
  | some before => !before.getLast?.any isIdentChar

/-- What is wrong with a reference to a handle, between `before` and `after`. -/
def escapeAt? (before after : Text) : Option SkipReason :=
  let next := trimStart after
  if endsInReturn (trimEnd before) && (next.head? == some ';' || next.head? == some '.') then
    some .returnsHandle
  else if next.head? == some '=' && !"==".toList.isPrefixOf next then some .reassigned
  else none

/-- Why the handle `name` must not be closed at the end of `scope`, if so. The first reference that
speaks against it decides. -/
def escape? (name scope : Text) : Option SkipReason :=
  (references scope name).findSome? fun place =>
    escapeAt? (scope.take place) (scope.drop (place + name.length))

/-- A replacement for a part of a text. -/
structure Enclosure where
  /-- The place of the part that is replaced. -/
  start : Nat
  /-- The place behind it. -/
  stop : Nat
  /-- The replacement. -/
  text : Text
  /-- The fresh name of the handle. -/
  symbol : Text
  /-- The header that declares it. -/
  header : Text
  deriving DecidableEq, Repr

/-- The text with the enclosure in place. -/
def Enclosure.splice (enclosure : Enclosure) (content : Text) : Text :=
  content.take enclosure.start ++ enclosure.text ++ content.drop enclosure.stop

/-- A block with a resource. -/
def blockText (header body indent trailing : Text) : Text :=
  "try (".toList ++ header ++ ") \x7b".toList ++ body ++ '\n' :: indent ++ '}' :: trailing

/-- The enclosure of a declaration found in `content`, and the names left behind it. -/
def enclose (found : Occurrence Declaration) (content : Text) (names : Names) :
    Except SkipReason (Enclosure × Names) := do
  let declaration := found.value
  let header ← declaration.header
  let scope ← scope (content.drop found.stop)
  match escape? declaration.name scope, names.nextHandle with
  | some reason, _ => throw reason
  | none, none => throw .namesExhausted
  | none, some (symbol, names) =>
    let header := rename header declaration.name symbol
    let body := rename (trimEnd scope) declaration.name symbol
    let text := blockText header body declaration.indent (trailingBlanks scope)
    return ({ start := found.start, stop := found.stop + scope.length, text, symbol, header }, names)

end ScopedHandles
