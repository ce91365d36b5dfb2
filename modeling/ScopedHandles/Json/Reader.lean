/-
**Reading JSON.**

The reader takes exactly the documents of the grammar: no comment, no trailing comma, no byte order
mark, no control character inside a string. A fault is reported with the place where it is noticed.
Whether the escapes of a string make sense is asked only when its text is wanted (`Json.text?`).
-/

import ScopedHandles.Json.Basic

namespace ScopedHandles.Json

/-- What is wrong with a document. -/
inductive Problem where
  | endInValue
  | endInList
  | endInObject
  | endInString
  | expectedColon
  | expectedListComma
  | expectedObjectComma
  | expectedIdent
  | expectedValue
  | invalidEscape
  | invalidNumber
  | controlCharacter
  | keyNotAString
  | trailingComma
  | trailingCharacters
  deriving DecidableEq, Repr

/-- A problem in words. -/
def Problem.message : Problem → String
  | endInValue => "EOF while parsing a value"
  | endInList => "EOF while parsing a list"
  | endInObject => "EOF while parsing an object"
  | endInString => "EOF while parsing a string"
  | expectedColon => "expected `:`"
  | expectedListComma => "expected `,` or `]`"
  | expectedObjectComma => "expected `,` or `\x7d`"
  | expectedIdent => "expected ident"
  | expectedValue => "expected value"
  | invalidEscape => "invalid escape"
  | invalidNumber => "invalid number"
  | controlCharacter => "control character (\\u0000-\\u001F) found while parsing a string"
  | keyNotAString => "key must be a string"
  | trailingComma => "trailing comma"
  | trailingCharacters => "trailing characters"

/-- A fault, and the text from the character on at which it was noticed. -/
structure Unread where
  problem : Problem
  rest : Text
  deriving DecidableEq, Repr

/-- The outcome of reading: mostly a value and the text behind it. -/
abbrev Reading := Except Unread

/-- A fault noticed at the beginning of `rest`. -/
def fail {α : Type} (problem : Problem) (rest : Text) : Reading (α × Text) :=
  .error { problem, rest }

/-- A fault at `rest`, or another if the document ends there. -/
def failAt {α : Type} (problem ending : Problem) (rest : Text) : Reading (α × Text) :=
  fail (if rest.isEmpty then ending else problem) rest

/-- The text behind leading blanks and line breaks. -/
def skipBlanks (text : Text) : Text :=
  text.dropWhile fun c => c == ' ' || c == '\n' || c == '\t' || c == '\r'

/-! ### Words, numbers and strings -/

/-- Reads the characters of a word. -/
def readWord (value : Json) : (word text : Text) → Reading (Json × Text)
  | [], rest => .ok (value, rest)
  | _ :: _, [] => fail .endInValue []
  | expected :: word, c :: rest =>
    if c = expected then readWord value word rest else fail .expectedIdent (c :: rest)

/-- Reads one or more digits. -/
def readDigits (text : Text) : Reading (Text × Text) :=
  let digits := text.takeWhile Char.isDigit
  let rest := text.dropWhile Char.isDigit
  if digits.isEmpty then failAt .invalidNumber .endInValue rest else .ok (digits, rest)

/-- Reads the digits before the point. A zero stands alone. -/
def readInteger : Text → Reading (Text × Text)
  | '0' :: rest =>
    if rest.head?.any Char.isDigit then fail .invalidNumber rest else .ok (['0'], rest)
  | text => readDigits text

/-- Reads the point and the digits behind it, if there is a point. -/
def readFraction : Text → Reading (Text × Text)
  | '.' :: rest => (readDigits rest).map fun (digits, rest) => ('.' :: digits, rest)
  | text => .ok ([], text)

/-- Reads an exponent, if there is one. -/
def readExponent : Text → Reading (Text × Text)
  | [] => .ok ([], [])
  | c :: rest =>
    if c = 'e' ∨ c = 'E' then
      let sign := rest.take (if rest.head? = some '+' ∨ rest.head? = some '-' then 1 else 0)
      (readDigits (rest.drop sign.length)).map fun (digits, rest) => (c :: sign ++ digits, rest)
    else .ok ([], c :: rest)

/-- Reads a number whose sign, if any, is `sign`. -/
def readNumber (sign text : Text) : Reading (Json × Text) := do
  let (integer, rest) ← readInteger text
  let (fraction, rest) ← readFraction rest
  let (exponent, rest) ← readExponent rest
  return (.number (sign ++ integer ++ fraction ++ exponent), rest)

/-- What the next character of a string may be. -/
inductive StringMode where
  | plain
  | escape
  /-- So many hexadecimal digits are still to come. -/
  | hex (left : Nat)
  deriving DecidableEq, Repr

/-- Whether a character is a hexadecimal digit. -/
def isHexDigit (c : Char) : Bool :=
  c.isDigit || ('a' ≤ c && c ≤ 'f') || ('A' ≤ c && c ≤ 'F')

/-- Reads the spelling of a string behind its opening quote. -/
def readString : StringMode → Text → Reading (Text × Text)
  | _, [] => fail .endInString []
  | .plain, c :: rest =>
    if c = '"' then .ok ([], rest)
    else if c.toNat < 0x20 then fail .controlCharacter (c :: rest)
    else
      (readString (if c = '\\' then .escape else .plain) rest).map fun (spelling, rest) =>
        (c :: spelling, rest)
  | .escape, c :: rest =>
    if c = 'u' then
      (readString (.hex 4) rest).map fun (spelling, rest) => (c :: spelling, rest)
    else if "\"\\/bfnrt".toList.contains c then
      (readString .plain rest).map fun (spelling, rest) => (c :: spelling, rest)
    else fail .invalidEscape (c :: rest)
  | .hex left, c :: rest =>
    if isHexDigit c then
      (readString (if left ≤ 1 then .plain else .hex (left - 1)) rest).map
        fun (spelling, rest) => (c :: spelling, rest)
    else fail .invalidEscape (c :: rest)

/-! ### Values -/

/-- Reads a key and the colon behind it. -/
def readKey : Text → Reading (Text × Text)
  | '"' :: text => do
    let (key, rest) ← readString .plain text
    match skipBlanks rest with
    | ':' :: rest => return (key, rest)
    | rest => failAt .expectedColon .endInObject rest
  | text => failAt .keyNotAString .endInObject text

mutual

/-- Reads a value. Every nested value is shorter by a character, which `depth` bounds. -/
def readValue : (depth : Nat) → Text → Reading (Json × Text)
  | 0, text => fail .expectedValue text
  | depth + 1, text =>
    match skipBlanks text with
    | [] => fail .endInValue []
    | c :: rest =>
      if c = 'n' then readWord .null "ull".toList rest
      else if c = 't' then readWord (.bool true) "rue".toList rest
      else if c = 'f' then readWord (.bool false) "alse".toList rest
      else if c = '-' then readNumber ['-'] rest
      else if c.isDigit then readNumber [] (c :: rest)
      else if c = '"' then
        (readString .plain rest).map fun (spelling, rest) => (.string spelling, rest)
      else if c = '[' then
        match skipBlanks rest with
        | ']' :: rest => .ok (.array [], rest)
        | [] => fail .endInList []
        | items => (readItems depth items).map fun (items, rest) => (.array items, rest)
      else if c = '{' then
        match skipBlanks rest with
        | '}' :: rest => .ok (.object [], rest)
        | fields => (readFields depth fields).map fun (fields, rest) => (.object fields, rest)
      else fail .expectedValue (c :: rest)

/-- Reads the items of an array through its closing bracket. -/
def readItems : (depth : Nat) → Text → Reading (List Json × Text)
  | 0, text => fail .expectedValue text
  | depth + 1, text => do
    let (item, rest) ← readValue depth text
    match skipBlanks rest with
    | ']' :: rest => return ([item], rest)
    | ',' :: rest =>
      match skipBlanks rest with
      | ']' :: rest => fail .trailingComma (']' :: rest)
      | rest =>
        let (items, rest) ← readItems depth rest
        return (item :: items, rest)
    | rest => failAt .expectedListComma .endInList rest

/-- Reads the fields of an object through its closing brace. -/
def readFields : (depth : Nat) → Text → Reading (List (Text × Json) × Text)
  | 0, text => fail .expectedValue text
  | depth + 1, text => do
    let (key, rest) ← readKey text
    let (value, rest) ← readValue depth rest
    match skipBlanks rest with
    | '}' :: rest => return ([(key, value)], rest)
    | ',' :: rest =>
      match skipBlanks rest with
      | '}' :: rest => fail .trailingComma ('}' :: rest)
      | [] => fail .endInValue []
      | rest =>
        let (fields, rest) ← readFields depth rest
        return ((key, value) :: fields, rest)
    | rest => failAt .expectedObjectComma .endInObject rest

end

/-- Reads a document that is one value. -/
def read (text : Text) : Reading Json := do
  let (value, rest) ← readValue (text.length + 1) text
  match skipBlanks rest with
  | [] => return value
  | rest => throw { problem := .trailingCharacters, rest }

/-- The line and the column of a fault. The column counts bytes, the character at fault as one. -/
def Unread.position (unread : Unread) (text : Text) : Nat × Nat :=
  let before := text.take (text.length - unread.rest.length)
  let line := before.count '\n' + 1
  let column := byteSize (before.reverse.takeWhile (· != '\n'))
  match unread.rest with
  | [] => (line, column)
  | c :: _ => if c = '\n' then (line + 1, 0) else (line, column + 1)

/-! ### What a value says -/

/-- The value of a hexadecimal digit. -/
def hexValue (c : Char) : Nat :=
  if c.isDigit then c.toNat - '0'.toNat
  else if 'a' ≤ c then c.toNat - 'a'.toNat + 10
  else c.toNat - 'A'.toNat + 10

/-- The value of a run of hexadecimal digits. -/
def hexNumber (digits : Text) : Nat :=
  digits.foldl (fun sum c => sum * 16 + hexValue c) 0

/-- The character that a short escape stands for. -/
def unescapeChar (c : Char) : Char :=
  if c = 'b' then Char.ofNat 0x8
  else if c = 'f' then Char.ofNat 0xc
  else if c = 'n' then '\n'
  else if c = 'r' then '\r'
  else if c = 't' then '\t'
  else c

/-- The text that a spelling stands for. Characters outside the basic plane are spelled in two halves;
`high` is a first half that waits for its second. A half that stands alone makes no text. -/
def unescape? : (high : Option Nat) → Text → Option Text
  | none, [] => some []
  | some _, [] => none
  | high, '\\' :: 'u' :: a :: b :: c :: d :: rest =>
    let unit := hexNumber [a, b, c, d]
    let isHigh := 0xd800 ≤ unit && unit < 0xdc00
    let isLow := 0xdc00 ≤ unit && unit < 0xe000
    match high with
    | none =>
      if isHigh then unescape? (some unit) rest
      else if isLow then none
      else (unescape? none rest).map (Char.ofNat unit :: ·)
    | some high =>
      if isLow then
        let code := 0x10000 + (high - 0xd800) * 0x400 + (unit - 0xdc00)
        (unescape? none rest).map (Char.ofNat code :: ·)
      else none
  | some _, _ :: _ => none
  | none, '\\' :: c :: rest => (unescape? none rest).map (unescapeChar c :: ·)
  | none, c :: rest => (unescape? none rest).map (c :: ·)

/-- The text of a string. -/
def text? : Json → Option Text
  | .string spelling => unescape? none spelling
  | _ => none

/-- The truth value of a value. -/
def bool? : Json → Option Bool
  | .bool value => some value
  | _ => none

/-- The value of a number without sign, point and exponent that is at most `limit`. -/
def nat? (limit : Nat) : Json → Option Nat
  | .number literal =>
    let value := literal.foldl (fun sum c => sum * 10 + (c.toNat - '0'.toNat)) 0
    if literal.all Char.isDigit && value ≤ limit then some value else none
  | _ => none

end ScopedHandles.Json
