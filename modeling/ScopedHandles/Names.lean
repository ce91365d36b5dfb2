/-
**Fresh names.**

A fresh name is a stem and a number. Numbering goes on behind the largest number that the stem carries
in the text, so that output can be repeated and no name is issued that the text uses. Numbers end at
`Counter.limit`; a counter that has issued it issues no more.
-/

import ScopedHandles.Text.Search

namespace ScopedHandles

/-- A source of names with one stem. -/
structure Counter where
  stem : Text
  /-- The number of the next name, if one is left. -/
  next : Option Nat
  deriving DecidableEq, Repr

namespace Counter

/-- The largest number of a name. -/
def limit : Nat := 18446744073709551615

/-- The number behind `n`, up to the limit. -/
def after (n : Nat) : Option Nat :=
  if n < limit then some (n + 1) else none

/-- The value of a run of digits. -/
def value (digits : Text) : Nat :=
  digits.foldl (fun sum c => sum * 10 + (c.toNat - '0'.toNat)) 0

/-- Recognises the stem, and wants it if it and a number behind it are a whole identifier. -/
def numbered (stem : Text) (last : Option Char) (text : Text) : Probe Nat :=
  match after? stem text with
  | none => .miss
  | some rest =>
    let digits := rest.takeWhile Char.isDigit
    let next := (rest.dropWhile Char.isDigit).head?
    if last.any isIdentChar || digits.isEmpty || next.any isIdentChar || limit < value digits then
      .pass stem.length
    else
      .hit (value digits) stem.length

/-- The numbers that the stem carries in a text. -/
def numbers (stem text : Text) : List Nat :=
  (allHits (numbered stem) 0 0 none text).map Occurrence.value

/-- The counter behind every number that the stem carries in a text. -/
def seeded (stem text : Text) : Counter where
  stem := stem
  next :=
    match (numbers stem text).max? with
    | none => some 1
    | some n => after n

/-- The next name, and the counter behind it. -/
def allocate (counter : Counter) : Option (Text × Counter) :=
  counter.next.map fun n =>
    (counter.stem ++ Nat.toDigits 10 n, { counter with next := after n })

end Counter

/-- The two sources of names: for handles, and for statements. -/
structure Names where
  handles : Counter
  statements : Counter
  deriving DecidableEq, Repr

namespace Names

/-- The sources behind every number in use in a text. -/
def seeded (text handleStem statementStem : Text) : Names where
  handles := .seeded handleStem text
  statements := .seeded statementStem text

/-- The next name for a handle. -/
def nextHandle (names : Names) : Option (Text × Names) :=
  names.handles.allocate.map fun (name, handles) => (name, { names with handles })

/-- The next name for a statement. -/
def nextStatement (names : Names) : Option (Text × Names) :=
  names.statements.allocate.map fun (name, statements) => (name, { names with statements })

end Names

end ScopedHandles
