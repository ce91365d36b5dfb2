/-
**Settings files.**

A settings file is an object with any of the settings, or a list that gives the first of them in order.
Settings that are not given keep their defaults. Fields with other names are skipped, whatever they
hold. A setting given twice, or with a value of another kind, is refused.
-/

import ScopedHandles.Settings.Basic

namespace ScopedHandles.Settings

/-- The settings with one of them changed, if the value is of the right kind. -/
def set? (settings : Settings) (key : SettingKey) (value : Json) : Option Settings :=
  let text := value.text?.map String.ofList
  match key with
  | .extension => text.map fun extension => { settings with extension }
  | .threads => (value.nat? threadLimit).map fun threads => { settings with threads }
  | .dryRun => value.bool?.map fun dryRun => { settings with dryRun }
  | .verbose => value.bool?.map fun verbose => { settings with verbose }
  | .handleStem => text.map fun handleStem => { settings with handleStem }
  | .statementStem => text.map fun statementStem => { settings with statementStem }
  | .queryType => text.map fun queryType => { settings with queryType }
  | .cursorType => text.map fun cursorType => { settings with cursorType }

/-- The settings with one of them changed. -/
def set (settings : Settings) (key : SettingKey) (value : Json) : Except FormatError Settings :=
  match settings.set? key value with
  | none => .error (.wrongKind key)
  | some settings => .ok settings

/-- The settings with the fields of an object, `seen` being those given before. -/
def setFields (settings : Settings) (seen : List SettingKey) :
    List (Text × Json) → Except FormatError Settings
  | [] => .ok settings
  | (spelling, value) :: rest =>
    match Json.unescape? none spelling with
    | none => .error .badName
    | some name =>
      match SettingKey.ofLabel? name with
      | none => setFields settings seen rest
      | some key =>
        if seen.contains key then .error (.repeated key)
        else do
          let settings ← settings.set key value
          setFields settings (key :: seen) rest

/-- The settings with the values of a list, for the settings of `keys` in their order. -/
def setItems (settings : Settings) :
    (keys : List SettingKey) → List Json → Except FormatError Settings
  | _, [] => .ok settings
  | [], _ :: _ => .error .tooMany
  | key :: keys, value :: rest => do
    let settings ← settings.set key value
    setItems settings keys rest

/-- The settings that a document gives. -/
def ofJson : Json → Except FormatError Settings
  | .object fields => setFields {} [] fields
  | .array items => setItems {} SettingKey.all items
  | _ => .error .notSettings

/-- The settings that a text gives. -/
def ofText (text : Text) : Except FormatError Settings :=
  match Json.read text with
  | .error unread =>
    let (line, column) := unread.position text
    .error (.malformed unread.problem line column)
  | .ok document => ofJson document

end ScopedHandles.Settings
