/-
**Placeholders.**

A placeholder is a symbol made of a stem and digits, declared wherever it stands between white space.
It is used where `.exe...` or `.next...` is called on it. A placeholder that is never used is worth a
look.
-/

import ScopedHandles.Text.Search

namespace ScopedHandles

/-- A declared placeholder, with the line of its first declaration. -/
structure Placeholder where
  symbol : Text
  line : Nat
  deriving DecidableEq, Repr

namespace Placeholder

/-- Recognises a declaration together with the white space around it. -/
def probe (stem : Text) (_last : Option Char) : Text → Probe Text
  | [] => .miss
  | c :: text =>
    match isWhiteSpace c, after? stem text with
    | true, some rest =>
      let digits := rest.takeWhile isDecimalDigit
      let next := (rest.dropWhile isDecimalDigit).head?
      if digits.isEmpty || !next.any isWhiteSpace then .miss
      else
        let symbol := stem ++ digits
        .hit symbol (symbol.length + 2)
    | _, _ => .miss

/-- Recognises a use of a symbol. -/
def useProbe (symbol : Text) (last : Option Char) (text : Text) : Probe Unit :=
  if atWordBoundary last text
      && ((symbol ++ ".exe".toList).isPrefixOf text || (symbol ++ ".next".toList).isPrefixOf text)
  then .hit () symbol.length
  else .miss

/-- Whether a text uses a symbol. -/
def isUsed (content symbol : Text) : Bool :=
  (firstHit (useProbe symbol) 0 none content).isSome

/-- The placeholders of a list without those whose symbol occurred before. -/
def distinct : (seen : List Text) → List Placeholder → List Placeholder
  | _, [] => []
  | seen, placeholder :: rest =>
    if seen.contains placeholder.symbol then distinct seen rest
    else placeholder :: distinct (placeholder.symbol :: seen) rest

/-- The placeholders that a text declares, in the order of their first declarations. -/
def declared (content stem : Text) : List Placeholder :=
  distinct [] ((allHits (probe stem) 0 0 none content).map fun found =>
    { symbol := found.value, line := lineAt content (found.place + 1) })

/-- The placeholders that a text declares and never uses. -/
def unused (content stem : Text) : List Placeholder :=
  (declared content stem).filter fun placeholder => !isUsed content placeholder.symbol

end Placeholder

end ScopedHandles
