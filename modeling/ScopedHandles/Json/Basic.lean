/-
**JSON values and how they are written.**

Numbers and strings are held as they are spelled in a document: a number by its literal, a string by the
characters between its quotes with escapes unresolved. A value is written over several lines, two blanks
deeper at each level.
-/

import ScopedHandles.Text.Basic

namespace ScopedHandles

/-- A JSON value. -/
inductive Json where
  | null
  | bool (value : Bool)
  | number (literal : Text)
  | string (spelling : Text)
  | array (items : List Json)
  | object (fields : List (Text × Json))
  deriving Inhabited

namespace Json

/-! ### Building values -/

/-- The two hexadecimal digits of a number below 256. -/
def hexPair (n : Nat) : Text :=
  [Nat.digitChar (n / 16), Nat.digitChar (n % 16)]

/-- A character as it is spelled inside a string. -/
def escapeChar (c : Char) : Text :=
  if c = '"' then "\\\"".toList
  else if c = '\\' then "\\\\".toList
  else if c = '\n' then "\\n".toList
  else if c = '\r' then "\\r".toList
  else if c = '\t' then "\\t".toList
  else if c.toNat = 0x8 then "\\b".toList
  else if c.toNat = 0xc then "\\f".toList
  else if c.toNat < 0x20 then "\\u00".toList ++ hexPair c.toNat
  else [c]

/-- The string that stands for a text. -/
def ofText (text : Text) : Json :=
  .string (text.flatMap escapeChar)

/-- The string that stands for a text. -/
def ofString (text : String) : Json :=
  ofText text.toList

/-- The number `n`. -/
def ofNat (n : Nat) : Json :=
  .number (Nat.toDigits 10 n)

/-- Puts a field before the first field with a larger key. -/
def insertField (field : Text × Json) : List (Text × Json) → List (Text × Json)
  | [] => [field]
  | first :: rest =>
    if field.1 ≤ first.1 then field :: first :: rest else first :: insertField field rest

/-- An object whose fields are in the order of their keys. -/
def ofFields (fields : List (String × Json)) : Json :=
  .object (fields.foldr (fun field sorted => insertField (field.1.toList, field.2) sorted) [])

/-- The field of an object, left out if there is no value. -/
def field? (key : String) (value : Option Json) : List (String × Json) :=
  match value with
  | none => []
  | some value => [(key, value)]

/-- A list of values as a field, left out if it is empty. -/
def listField? (key : String) (items : List Json) : List (String × Json) :=
  if items.isEmpty then [] else [(key, .array items)]

/-! ### Writing -/

/-- Texts with a comma and a line break between them. -/
def commaLines : List Text → Text
  | [] => []
  | [line] => line
  | line :: rest => line ++ ",\n".toList ++ commaLines rest

/-- Entries between two brackets, on lines of their own. -/
def bracketed (opening closing : Char) (margin : Text) (entries : List Text) : Text :=
  if entries.isEmpty then [opening, closing]
  else opening :: '\n' :: commaLines entries ++ '\n' :: margin ++ [closing]

mutual

/-- A value, its lines after the first being indented by `margin`. -/
def renderAt (margin : Text) : Json → Text
  | .null => "null".toList
  | .bool true => "true".toList
  | .bool false => "false".toList
  | .number literal => literal
  | .string spelling => '"' :: spelling ++ ['"']
  | .array items => bracketed '[' ']' margin (renderItems (margin ++ [' ', ' ']) items)
  | .object fields => bracketed '{' '}' margin (renderFields (margin ++ [' ', ' ']) fields)

/-- The items of an array, indented by `margin`. -/
def renderItems (margin : Text) : List Json → List Text
  | [] => []
  | item :: rest => (margin ++ renderAt margin item) :: renderItems margin rest

/-- The fields of an object, indented by `margin`. -/
def renderFields (margin : Text) : List (Text × Json) → List Text
  | [] => []
  | (key, value) :: rest =>
    (margin ++ '"' :: key ++ "\": ".toList ++ renderAt margin value) :: renderFields margin rest

end

/-- A value as a document. -/
def render (value : Json) : Text :=
  renderAt [] value

end Json

end ScopedHandles
