/-
**Settings.**

Every setting has a default. A run takes only settings that pass `Settings.validate`: a name for the
extension, plain identifiers for stems and types, and two different stems. The first setting that does
not pass is reported.
-/

import ScopedHandles.Fault
import ScopedHandles.HandleKind

namespace ScopedHandles

/-- How a run works. -/
structure Settings where
  /-- The extension of the files to work on. -/
  extension : String := "java"
  /-- The number of workers. Results do not depend on it. -/
  threads : Nat := 0
  /-- Whether files are left as they are. -/
  dryRun : Bool := false
  /-- Whether each step is reported. -/
  verbose : Bool := false
  /-- The stem of the fresh names of handles. -/
  handleStem : String := "generatedVariable"
  /-- The stem of the fresh names of statements. -/
  statementStem : String := "stmt_generated_"
  /-- What the type of a query ends in. -/
  queryType : String := "PreparedStatement"
  /-- What the type of a cursor ends in. -/
  cursorType : String := "ResultSet"
  deriving DecidableEq, Repr, Inhabited

/-- Whether a text is a letter or a low line, and then letters, digits and low lines. -/
def isPlainIdentifier : Text → Bool
  | [] => false
  | c :: rest => (c.isAlpha || c == '_') && rest.all fun c => c.isAlphanum || c == '_'

namespace Settings

/-- The largest number of workers. -/
def threadLimit : Nat := 18446744073709551615

/-- The extension without leading dots. -/
def bareExtension (settings : Settings) : Text :=
  settings.extension.toList.dropWhile (· == '.')

/-- What the types of a kind of handles end in. -/
def typeOf (settings : Settings) : HandleKind → Text
  | .cursor => settings.cursorType.toList
  | .query => settings.queryType.toList

/-- The settings that have to be plain identifiers, in the order in which they are checked. -/
def identifiers (settings : Settings) : List (SettingKey × String) :=
  [(.handleStem, settings.handleStem), (.statementStem, settings.statementStem),
   (.queryType, settings.queryType), (.cursorType, settings.cursorType)]

/-- Refuses settings that no run can work with. -/
def validate (settings : Settings) : Except Fault Unit :=
  if settings.bareExtension.isEmpty then
    .error (.refused .extension settings.extension .emptyExtension)
  else
    match settings.identifiers.find? fun entry => !isPlainIdentifier entry.2.toList with
    | some (key, value) => .error (.refused key value .notAnIdentifier)
    | none =>
      if settings.handleStem = settings.statementStem then
        .error (.refused .statementStem settings.statementStem .sameStem)
      else .ok ()

/-- All settings as an object. -/
def toJson (settings : Settings) : Json :=
  .ofFields [("extension", .ofString settings.extension), ("threads", .ofNat settings.threads),
    ("dry_run", .bool settings.dryRun), ("verbose", .bool settings.verbose),
    ("handle_prefix", .ofString settings.handleStem),
    ("statement_prefix", .ofString settings.statementStem),
    ("query_type", .ofString settings.queryType), ("cursor_type", .ofString settings.cursorType)]

end Settings

end ScopedHandles
