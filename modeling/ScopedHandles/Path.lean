/-
**Paths.**

A path is a text whose segments are divided by slashes. Empty segments and dots inside a path mean
nothing, so two paths can be spelled differently and have the same components. A leading slash and a
leading dot are components.

* `components` — what a path consists of.
* `relativeTo` — a path as seen from a directory above it.
* `joinNames` — the path of something below a directory.
-/

import ScopedHandles.Text.Basic

namespace ScopedHandles

/-- The path of a file or directory. -/
abbrev Path := Text

namespace Path

/-- The segments of a path. -/
def segments : Path → List Text
  | [] => [[]]
  | c :: rest =>
    if c = '/' then [] :: segments rest
    else
      match segments rest with
      | [] => [[c]]
      | first :: others => (c :: first) :: others

/-- Whether a segment means nothing: it is empty or a dot. -/
def isIdle (segment : Text) : Bool :=
  segment == [] || segment == ['.']

/-- Segments with slashes between them. -/
def join : List Text → Path
  | [] => []
  | [segment] => segment
  | segment :: rest => segment ++ '/' :: join rest

/-- The leading slash or dot of a path, and the segments behind it. -/
def anchored (path : Path) : Option Text × List Text :=
  match segments path with
  | [] => (none, [])
  | first :: rest =>
    if first = [] ∧ rest ≠ [] then (some ['/'], rest)
    else if first = ['.'] then (some ['.'], rest)
    else (none, first :: rest)

/-- What a path consists of. -/
def components (path : Path) : List Text :=
  let (anchor, body) := anchored path
  anchor.toList ++ body.filter fun segment => !isIdle segment

/-- The segments behind the given components. -/
def behind? : (components segments : List Text) → Option (List Text)
  | [], segments => some segments
  | _ :: _, [] => none
  | component :: components, segment :: segments =>
    if isIdle segment then behind? (component :: components) segments
    else if segment = component then behind? components segments
    else none

/-- Segments without the idle ones at their end. -/
def trimIdleEnd (segments : List Text) : List Text :=
  (segments.reverse.dropWhile isIdle).reverse

/-- The path behind a directory above it. Its spelling is kept, but for slashes and dots at its
ends. -/
def below? (root path : Path) : Option Path :=
  let (anchor, body) := anchored path
  match components root, anchor with
  | [], none => some (join (trimIdleEnd body))
  | [], some anchor =>
    let rest := trimIdleEnd body
    if anchor = ['/'] then some ('/' :: join rest)
    else some (join (anchor :: rest))
  | first :: others, some anchor =>
    if first = anchor then
      (behind? others body).map fun rest => join (trimIdleEnd (rest.dropWhile isIdle))
    else none
  | first :: others, none =>
    (behind? (first :: others) body).map fun rest => join (trimIdleEnd (rest.dropWhile isIdle))

/-- The path as seen from `root`, or the whole path if it is not below. -/
def relativeTo (root path : Path) : Path :=
  (below? root path).getD path

/-- The path of the entry `name` of a directory. -/
def joinName (directory name : Path) : Path :=
  if directory.getLast? = some '/' then directory ++ name else directory ++ '/' :: name

/-- The path that is reached from a directory through `names`. -/
def joinNames (directory : Path) (names : List Text) : Path :=
  names.foldl joinName directory

/-- What follows the last dot of a name, unless that dot is its first character. -/
def extension? (name : Text) : Option Text :=
  let ending := (name.reverse.takeWhile (· != '.')).reverse
  if ending.length + 1 < name.length then some ending else none

end Path

end ScopedHandles
