/-
**Searching a text from left to right.**

A search asks a probe at every place. The probe sees the character before the place and the text from
there on, and recognises something or not. What it recognises is either wanted or passed over; the
search goes on behind it in both cases, so that results never overlap.

* `firstHit` — the first result at or behind a place.
* `allHits` — all results, each behind the one before.
-/

import ScopedHandles.Text.Basic

namespace ScopedHandles

/-- What a probe says about a place: nothing there, something to pass over, or a result. -/
inductive Probe (α : Type) where
  | miss
  | pass (length : Nat)
  | hit (value : α) (length : Nat)
  deriving Repr

/-- A result of a search together with its place. -/
structure Occurrence (α : Type) where
  place : Nat
  value : α
  deriving DecidableEq, Repr

/-- The same result seen from `distance` characters earlier. -/
def Occurrence.shift {α : Type} (distance : Nat) (found : Occurrence α) : Occurrence α :=
  { found with place := found.place + distance }

variable {α : Type}

/-- The first result that begins `skip` or more characters behind the beginning of the text, `last`
being the character before the text. -/
def firstHit (probe : Option Char → Text → Probe α) :
    (skip : Nat) → (last : Option Char) → Text → Option (Occurrence α)
  | _, _, [] => none
  | skip + 1, _, c :: rest => (firstHit probe skip (some c) rest).map (.shift 1)
  | 0, last, c :: rest =>
    match probe last (c :: rest) with
    | .hit value _ => some { place := 0, value }
    | .pass length => (firstHit probe (length - 1) (some c) rest).map (.shift 1)
    | .miss => (firstHit probe 0 (some c) rest).map (.shift 1)

/-- All results behind the first `skip` characters, `place` being the place of the text and `last` the
character before it. -/
def allHits (probe : Option Char → Text → Probe α) :
    (skip place : Nat) → (last : Option Char) → Text → List (Occurrence α)
  | _, _, _, [] => []
  | skip + 1, place, _, c :: rest => allHits probe skip (place + 1) (some c) rest
  | 0, place, last, c :: rest =>
    match probe last (c :: rest) with
    | .hit value length =>
      { place, value } :: allHits probe (length - 1) (place + 1) (some c) rest
    | .pass length => allHits probe (length - 1) (place + 1) (some c) rest
    | .miss => allHits probe 0 (place + 1) (some c) rest

/-- Whether a line begins behind this character. -/
def beginsLine : (last : Option Char) → Bool
  | none => true
  | some c => c == '\n'

/-- Whether a word begins or ends between a character and a text. -/
def atWordBoundary (last : Option Char) (text : Text) : Bool :=
  (last.any isWordChar) != (text.head?.any isWordChar)

end ScopedHandles
