/-
**What becomes of a text.**

Cursors come first, so that a cursor declared in the block of a query is enclosed before that block is.
For each kind, the declarations of the text as it was are counted and their lines kept. Then, as often,
the next declaration of the text as it is now is enclosed or skipped. The search goes on at an enclosed
declaration, and behind a skipped one. Loose statements are mended last.

* `Pass` — a text while the declarations of one kind are enclosed.
* `scopeHandles` — the outcome for a text.
-/

import ScopedHandles.Enclosure
import ScopedHandles.LooseStatement
import ScopedHandles.Leak
import ScopedHandles.Settings.Basic

namespace ScopedHandles

/-- The number of declarations of a kind, and of those that are enclosed. -/
structure Counts where
  found : Nat := 0
  enclosed : Nat := 0
  deriving DecidableEq, Repr, Inhabited

/-- A declaration that is left alone. -/
structure Skipped where
  kind : HandleKind
  symbol : Text
  line : Nat
  reason : SkipReason
  deriving DecidableEq, Repr

/-- A step of a pass. -/
inductive Step where
  | enclosed (line : Nat) (kind : HandleKind) (name symbol header : Text)
  | skipped (line : Nat) (kind : HandleKind) (name : Text) (reason : SkipReason)
  deriving DecidableEq, Repr

/-- A step in words. -/
def Step.message : Step → Text
  | enclosed line kind name symbol header =>
    s!"line {line}: {kind.label} `".toList ++ name ++ "` -> `".toList ++ symbol
      ++ "`: try (".toList ++ header ++ [')']
  | skipped line kind name reason =>
    s!"line {line}: {kind.label} `".toList ++ name ++ s!"` skipped: {reason.message}".toList

/-! ### One kind of handles -/

/-- A text while its declarations are enclosed. -/
structure Pass where
  content : Text
  /-- Where the search goes on. -/
  place : Nat := 0
  names : Names
  enclosed : Nat := 0
  skipped : List Skipped := []
  steps : List Step := []
  deriving DecidableEq, Repr

namespace Pass

/-- Encloses a declaration or skips it; `line` is the line that is reported for it. -/
def advance (pass : Pass) (line : Nat) (found : Occurrence Declaration) : Pass :=
  let { kind, name, .. } := found.value
  match enclose found pass.content pass.names with
  | .ok (enclosure, names) =>
    { pass with
      content := enclosure.splice pass.content
      place := found.start
      names
      enclosed := pass.enclosed + 1
      steps := pass.steps ++ [.enclosed line kind name enclosure.symbol enclosure.header] }
  | .error reason =>
    { pass with
      place := found.stop
      skipped := pass.skipped ++ [{ kind, symbol := name, line, reason }]
      steps := pass.steps ++ [.skipped line kind name reason] }

/-- Goes through the declarations of a kind, one for each line of `lines`. -/
def run (kind : HandleKind) (ending : Text) : (lines : List Nat) → Pass → Pass
  | [], pass => pass
  | line :: lines, pass =>
    match nextDeclaration kind ending pass.content pass.place with
    | none => pass
    | some found => run kind ending lines (pass.advance line found)

/-- Goes through the declarations of a kind, as many as `source` has. -/
def ofKind (settings : Settings) (kind : HandleKind) (source : Text) (pass : Pass) : Pass :=
  let found := declarations kind (settings.typeOf kind) source
  run kind (settings.typeOf kind) (found.map fun found => lineAt source found.start)
    { pass with place := 0, enclosed := 0 }

end Pass

/-! ### The outcome -/

/-- What becomes of a text. -/
structure Outcome where
  content : Text
  cursors : Counts := {}
  queries : Counts := {}
  statements : RepairSummary := { found := 0, repaired := 0, error := none }
  skipped : List Skipped := []
  leaks : List Leak := []
  /-- The steps of the passes, if they are wanted. -/
  steps : List Step := []
  deriving DecidableEq, Repr

/-- Whether anything was enclosed or mended. -/
def Outcome.changed (outcome : Outcome) : Bool :=
  0 < outcome.cursors.enclosed + outcome.queries.enclosed + outcome.statements.repaired

/-- Encloses the handles of a text and mends its loose statements. -/
def scopeHandles (settings : Settings) (source : Text) : Outcome :=
  let names := Names.seeded source settings.handleStem.toList settings.statementStem.toList
  let cursors := Pass.ofKind settings .cursor source { content := source, names }
  let queries := Pass.ofKind settings .query source cursors
  let repair := repairStatements queries.content queries.names
  let count (kind : HandleKind) := (declarations kind (settings.typeOf kind) source).length
  { content := repair.content
    cursors := { found := count .cursor, enclosed := cursors.enclosed }
    queries := { found := count .query, enclosed := queries.enclosed }
    statements := repair.summary queries.content
    skipped := queries.skipped
    leaks := leaks source
    steps := if settings.verbose then queries.steps else [] }

end ScopedHandles
