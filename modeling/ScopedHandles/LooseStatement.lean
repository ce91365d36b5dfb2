/-
**Loose statements.**

In `try (Type name = source.createStatement().call(...)) {` the handle is closed, but the statement it
comes from is not. The statement gets a name and a block of its own in front:

```
try (var fresh = source.createStatement()) { try (Type name = fresh.call(...)) {body
indent}trailing
```

Headers are counted before the first is mended, and no more than that number are mended. The first one
whose block has no end, or for which no name is left, stops the work; what is mended stays.
-/

import ScopedHandles.Scope
import ScopedHandles.Names

namespace ScopedHandles

/-- A header with a loose statement, in parts. -/
structure LooseStatement where
  indent : Text
  /-- From `try` through the equals sign. -/
  resource : Text
  /-- From there through `createStatement()` and the white space behind it. -/
  statement : Text
  /-- From the dot behind the statement through the brace that opens the block. -/
  chain : Text
  deriving DecidableEq, Repr

namespace LooseStatement

/-- The number of characters of a header and its indentation. -/
def length (loose : LooseStatement) : Nat :=
  loose.indent.length + loose.resource.length + loose.statement.length + loose.chain.length

/-- The text behind `try (Type name =`. -/
def afterResource? (line : Text) : Option Text := do
  let rest ← after? "try".toList line
  let rest ← after? ['('] (trimStart rest)
  let rest ← skipSome isWordChar (trimStart rest)
  let rest ← skipSome isWhiteSpace rest
  let rest ← skipSome isWordChar rest
  after? ['='] (trimStart rest)

/-- A character of the expression that a statement is created from. -/
def isSourceChar (c : Char) : Bool :=
  isWordChar c || c == '.' || c == '(' || c == ')'

/-- The text behind `createStatement()` and the white space behind it, if a dot follows. Of several
readings, the one with the longest expression is taken. -/
def afterStatement? (text : Text) : Option Text :=
  tryRuns isSourceChar (fun text => do
    let rest ← after? ".createStatement()".toList text
    let chain := trimStart rest
    if chain.head? = some '.' then some chain else none) (trimStart text)

/-- The part of a text through its first opening brace. -/
def throughBrace? (text : Text) : Option Text :=
  match text.dropWhile (· != '{') with
  | [] => none
  | brace :: _ => some (text.takeWhile (· != '{') ++ [brace])

/-- The header at the beginning of a line. -/
def read? (text : Text) : Option LooseStatement := do
  let indent := text.takeWhile isIndentChar
  let line := text.dropWhile isIndentChar
  let behind ← afterResource? line
  let chained ← afterStatement? behind
  let chain ← throughBrace? chained
  return { indent, resource := upTo behind line, statement := upTo chained behind, chain }

/-- Recognises a header with a loose statement. -/
def probe (last : Option Char) (text : Text) : Probe LooseStatement :=
  if beginsLine last then
    match read? text with
    | none => .miss
    | some loose => .hit loose loose.length
  else .miss

/-- The headers with loose statements in a text. -/
def all (content : Text) : List (Occurrence LooseStatement) :=
  allHits probe 0 0 none content

/-- What a header and its scope become, `name` being the name of the statement. -/
def mended (loose : LooseStatement) (name scope : Text) : Text :=
  "try (var ".toList ++ name ++ " = ".toList ++ trim loose.statement ++ ") \x7b ".toList
    ++ loose.resource ++ ' ' :: name ++ loose.chain ++ trimEnd scope
    ++ '\n' :: loose.indent ++ '}' :: trailingBlanks scope

end LooseStatement

/-! ### Mending a text -/

/-- Why the mending of a text stopped. -/
inductive RepairError where
  /-- The block of a header has no end. -/
  | scope (line : Nat) (reason : SkipReason)
  /-- No name for a statement is left. -/
  | names (line : Nat)
  deriving DecidableEq, Repr

/-- A cause in words. -/
def RepairError.message : RepairError → String
  | scope line reason => s!"line {line}: {reason.message}"
  | names line => s!"line {line}: no fresh statement name left"

/-- A text while it is mended. -/
structure Repair where
  content : Text
  names : Names
  repaired : Nat := 0
  error : Option RepairError := none
  deriving DecidableEq, Repr

/-- What is shown of a repair. -/
structure RepairSummary where
  found : Nat
  repaired : Nat
  error : Option RepairError
  deriving DecidableEq, Repr

namespace Repair

/-- Mends a header that was found in the text. -/
def mend (repair : Repair) (found : Occurrence LooseStatement) : Except RepairError Repair :=
  let start := found.place + found.value.indent.length
  let stop := found.place + found.value.length
  let line := lineAt repair.content start
  match scope (repair.content.drop stop) with
  | .error reason => .error (.scope line reason)
  | .ok scope =>
    match repair.names.nextStatement with
    | none => .error (.names line)
    | some (name, names) =>
      let content := repair.content.take start ++ found.value.mended name scope
        ++ repair.content.drop (stop + scope.length)
      .ok { repair with content, names, repaired := repair.repaired + 1 }

/-- Mends up to `count` headers whose lines begin at or behind `place`. -/
def run : (count place : Nat) → Repair → Repair
  | 0, _, repair => repair
  | count + 1, place, repair =>
    match firstHit LooseStatement.probe place none repair.content with
    | none => repair
    | some found =>
      match repair.mend found with
      | .error error => { repair with error := some error }
      | .ok later => run count (found.place + found.value.indent.length) later

end Repair

/-- The text with its loose statements mended, and what became of them. -/
def repairStatements (content : Text) (names : Names) : Repair :=
  Repair.run (LooseStatement.all content).length 0 { content, names }

/-- What is shown of the repair of a text. -/
def Repair.summary (repair : Repair) (content : Text) : RepairSummary :=
  { found := (LooseStatement.all content).length, repaired := repair.repaired,
    error := repair.error }

end ScopedHandles
