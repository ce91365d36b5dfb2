/-
**Faults.**

What keeps a run from starting: a settings file that cannot be read or makes no sense, a value that no
run can work with, a root that is no directory. Each cause has a code, a message and details.
-/

import ScopedHandles.Json.Reader
import ScopedHandles.Settings.Key

namespace ScopedHandles

/-- Why a file cannot be read as text. -/
inductive ReadError where
  | missing
  | isDirectory
  /-- A part of the path that has to be a directory is a file. -/
  | throughFile
  /-- The bytes are no UTF-8. -/
  | notText
  deriving DecidableEq, Repr

/-- A cause in words. -/
def ReadError.message : ReadError → String
  | missing => "No such file or directory (os error 2)"
  | isDirectory => "Is a directory (os error 21)"
  | throughFile => "Not a directory (os error 20)"
  | notText => "stream did not contain valid UTF-8"

/-- Why a file cannot be written, in the words of the system. -/
structure WriteError where
  message : String
  deriving DecidableEq, Repr

/-- Why a settings file makes no sense. -/
inductive FormatError where
  | malformed (problem : Json.Problem) (line column : Nat)
  /-- The document is neither an object nor a list. -/
  | notSettings
  /-- The value of a setting is of another kind. -/
  | wrongKind (key : SettingKey)
  /-- A setting is given twice. -/
  | repeated (key : SettingKey)
  /-- A list gives more values than there are settings. -/
  | tooMany
  /-- The name of a field is no text. -/
  | badName
  deriving DecidableEq, Repr

/-- A cause in words. -/
def FormatError.message : FormatError → String
  | malformed problem line column => s!"{problem.message} at line {line} column {column}"
  | notSettings => "invalid type, expected struct Settings"
  | wrongKind key => s!"invalid type for field `{key.label}`"
  | repeated key => s!"duplicate field `{key.label}`"
  | tooMany => "trailing characters"
  | badName => "lone leading surrogate in hex escape"

/-- Why no run can work with a value. -/
inductive ValueError where
  | emptyExtension
  | notAnIdentifier
  | sameStem
  deriving DecidableEq, Repr

/-- A cause in words. -/
def ValueError.message : ValueError → String
  | emptyExtension => "extension must not be empty"
  | notAnIdentifier => "must be a plain identifier ([A-Za-z_][A-Za-z0-9_]*)"
  | sameStem => "must differ from handle_prefix"

/-- What keeps a run from starting. -/
inductive Fault where
  | format (path : Text) (error : FormatError)
  | refused (key : SettingKey) (value : String) (error : ValueError)
  | notADirectory (path : Text)
  | unreadable (path : Text) (error : ReadError)
  deriving DecidableEq, Repr

namespace Fault

/-- The code of a fault. -/
def code : Fault → String
  | format _ _ => "config.invalid_json"
  | refused _ _ _ => "config.invalid_value"
  | notADirectory _ => "validation.invalid_argument"
  | unreadable _ _ => "internal.io_error"

/-- The message of a fault. -/
def message : Fault → String
  | format _ _ => "Invalid JSON in configuration"
  | refused _ _ _ => "Invalid configuration value"
  | notADirectory _ => "Invalid argument"
  | unreadable _ _ => "IO error"

/-- The details of a fault. -/
def details : Fault → Json
  | format path error => .ofFields [("path", .ofText path), ("error", .ofString error.message)]
  | refused key value error =>
    .ofFields [("key", .ofString key.label), ("value", .ofString value),
      ("problem", .ofString error.message)]
  | notADirectory path =>
    .ofFields [("field", .ofString "path"),
      ("problem", .ofText ("Not a directory: ".toList ++ path))]
  | unreadable path error =>
    .ofFields [("error", .ofString error.message), ("context", .ofText ("read ".toList ++ path))]

/-- The exit code of a command that meets a fault. -/
def exitCode : Fault → Nat
  | unreadable _ _ => 3
  | _ => 2

end Fault

end ScopedHandles
