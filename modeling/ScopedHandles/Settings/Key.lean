/-
**The settings by name.**
-/

import ScopedHandles.Text.Basic

namespace ScopedHandles

/-- A setting. -/
inductive SettingKey where
  | extension
  | threads
  | dryRun
  | verbose
  | handleStem
  | statementStem
  | queryType
  | cursorType
  deriving DecidableEq, Repr

namespace SettingKey

/-- All settings, in the order in which a list of values gives them. -/
def all : List SettingKey :=
  [extension, threads, dryRun, verbose, handleStem, statementStem, queryType, cursorType]

/-- The name of a setting in files and reports. -/
def label : SettingKey → String
  | extension => "extension"
  | threads => "threads"
  | dryRun => "dry_run"
  | verbose => "verbose"
  | handleStem => "handle_prefix"
  | statementStem => "statement_prefix"
  | queryType => "query_type"
  | cursorType => "cursor_type"

/-- The setting with a name. -/
def ofLabel? (name : Text) : Option SettingKey :=
  all.find? fun key => key.label.toList == name

end SettingKey

end ScopedHandles
