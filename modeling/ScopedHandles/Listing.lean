/-
**Directory trees.**

A listing is what a directory lists: files with their bytes, and directories with listings of their own,
in the order in which they are listed. Entries are reached by the names on the way to them. In the
listing at the top the working directory stands under a dot, a name that no path spells: a path that
begins with a slash starts at the top, every other one in the working directory.

There is nothing else in a tree: no links, no files and directories that may not be opened, and no names
that are not texts of Unicode characters.

* `entry?` — the entry at a location.
* `overwrite` — other bytes for a file.
* `locate` — the location that a path leads to.
* `putAt`, `remove?` — a file put or removed where a path leads.
* `collect` — the files below a directory that a run works on.
-/

import ScopedHandles.Path
import ScopedHandles.Fault

namespace ScopedHandles

/-- The entries of a directory. -/
inductive Listing where
  | empty
  | file (name : Text) (bytes : ByteArray) (rest : Listing)
  | dir (name : Text) (inner rest : Listing)
  deriving Inhabited

/-- What stands behind a name. -/
inductive Entry where
  | file (bytes : ByteArray)
  | directory (inner : Listing)
  deriving Inhabited

namespace Listing

/-! ### Looking up -/

/-- The entry with a name. -/
def find? (name : Text) : Listing → Option Entry
  | .empty => none
  | .file other bytes rest => if other = name then some (.file bytes) else rest.find? name
  | .dir other inner rest => if other = name then some (.directory inner) else rest.find? name

/-- The entry that `names` lead to. -/
def entry? (listing : Listing) : (names : List Text) → Option Entry
  | [] => some (.directory listing)
  | name :: names =>
    match listing.find? name, names with
    | entry, [] => entry
    | some (.directory inner), names => inner.entry? names
    | _, _ => none

/-- All files, each with the names that lead to it, in the order of the listing. -/
def files : Listing → List (List Text × ByteArray)
  | .empty => []
  | .file name bytes rest => ([name], bytes) :: rest.files
  | .dir name inner rest =>
    (inner.files.map fun (names, bytes) => (name :: names, bytes)) ++ rest.files

/-! ### Changing -/

/-- The listing with other bytes for a file. Nothing changes if there is no such file. -/
def overwrite (names : List Text) (bytes : ByteArray) : Listing → Listing
  | .empty => .empty
  | .file name old rest =>
    if names = [name] then .file name bytes rest else .file name old (rest.overwrite names bytes)
  | .dir name inner rest =>
    match names with
    | [] => .dir name inner rest
    | first :: others =>
      if first = name then .dir name (inner.overwrite others bytes) rest
      else .dir name inner (rest.overwrite names bytes)

/-- The listing in which `names` lead to an entry and nothing else is listed. -/
def ofEntry (entry : Entry) : (names : List Text) → Listing
  | [] => .empty
  | [name] =>
    match entry with
    | .file bytes => .file name bytes .empty
    | .directory inner => .dir name inner .empty
  | name :: names => .dir name (ofEntry entry names) .empty

/-- The listing with an entry where `names` lead. Directories on the way are made, and an entry that is
there is replaced, but a directory does not replace a directory. -/
def put (entry : Entry) (names : List Text) : Listing → Listing
  | .empty => ofEntry entry names
  | .file name old rest =>
    if names.head? = some name then
      match entry, names with
      | .file bytes, [_] => .file name bytes rest
      | _, _ => .file name old rest
    else .file name old (rest.put entry names)
  | .dir name inner rest =>
    match names with
    | [] => .dir name inner rest
    | first :: others =>
      if first = name then .dir name (if others.isEmpty then inner else inner.put entry others) rest
      else .dir name inner (rest.put entry names)

/-- The listing without the file that `names` lead to. -/
def removeFile (names : List Text) : Listing → Listing
  | .empty => .empty
  | .file name bytes rest =>
    if names = [name] then rest else .file name bytes (rest.removeFile names)
  | .dir name inner rest =>
    match names with
    | [] => .dir name inner rest
    | first :: others =>
      if first = name then .dir name (inner.removeFile others) rest
      else .dir name inner (rest.removeFile names)

/-! ### Paths in a tree -/

/-- The location of the working directory. -/
def home : List Text :=
  [['.']]

/-- The tree in which the working directory is empty and nothing else is known. -/
def blank : Listing :=
  .dir ['.'] .empty .empty

/-- The location at which a path starts. -/
def start (path : Path) : List Text :=
  if path.head? = some '/' then [] else home

/-- Follows segments from a location. Every segment but the last has to lead to a directory. -/
def follow (listing : Listing) : (location segments : List Text) → Except ReadError (List Text)
  | location, [] => .ok location
  | location, segment :: segments =>
    match listing.entry? location with
    | none => .error .missing
    | some (.file _) => .error .throughFile
    | some (.directory inner) =>
      if Path.isIdle segment then listing.follow location segments
      else if segment = ['.', '.'] then listing.follow location.dropLast segments
      else if (inner.find? segment).isSome then listing.follow (location ++ [segment]) segments
      else .error .missing

/-- The location that a path leads to. -/
def locate (listing : Listing) (path : Path) : Except ReadError (List Text) :=
  if path.isEmpty then .error .missing else listing.follow (start path) (Path.segments path)

/-- The location and the listing of a directory. -/
def directory? (listing : Listing) (path : Path) : Option (List Text × Listing) :=
  match listing.locate path with
  | .error _ => none
  | .ok location =>
    match listing.entry? location with
    | some (.directory inner) => some (location, inner)
    | _ => none

/-- The text of a file at a location. -/
def readAt (listing : Listing) (location : List Text) : Except ReadError Text :=
  match listing.entry? location with
  | none => .error .missing
  | some (.directory _) => .error .isDirectory
  | some (.file bytes) =>
    match String.fromUTF8? bytes with
    | none => .error .notText
    | some text => .ok text.toList

/-- The text of the file that a path leads to. -/
def readText (listing : Listing) (path : Path) : Except ReadError Text := do
  let location ← listing.locate path
  listing.readAt location

/-- Puts an entry where the segments lead from a location. A directory that the segments pass through
is made, also one that they leave again by two dots. -/
def putAlong (entry : Entry) : (location segments : List Text) → Listing → Listing
  | location, [], listing => listing.put entry location
  | location, segment :: segments, listing =>
    if Path.isIdle segment then putAlong entry location segments listing
    else if segment = ['.', '.'] then
      putAlong entry location.dropLast segments (listing.put (.directory .empty) location)
    else putAlong entry (location ++ [segment]) segments listing

/-- The listing with an entry where a path leads, and with the directories on its way. -/
def putAt (entry : Entry) (path : Path) (listing : Listing) : Listing :=
  listing.putAlong entry (start path) (Path.segments path)

/-- The listing without the file that a path leads to, if it leads to a file. -/
def remove? (listing : Listing) (path : Path) : Option Listing :=
  match listing.locate path with
  | .error _ => none
  | .ok location =>
    match listing.entry? location with
    | some (.file _) => some (listing.removeFile location)
    | _ => none

/-! ### Collecting files -/

/-- Directories that are skipped wherever they are. -/
def skippedAnywhere : List Text :=
  ["node_modules".toList, "vendor".toList, ".git".toList, ".svn".toList, ".hg".toList]

/-- Directories that are skipped right below the root. -/
def skippedAtRoot : List Text :=
  ["build".toList, "dist".toList, "target".toList, "out".toList]

/-- Whether a directory is skipped. -/
def isSkipped (atRoot : Bool) (name : Text) : Bool :=
  skippedAnywhere.contains name || (atRoot && skippedAtRoot.contains name)

/-- The files with an extension, as the names that lead to them, in the order of the listing. -/
def walk (extension : Text) (atRoot : Bool) : Listing → List (List Text)
  | .empty => []
  | .file name _ rest =>
    let later := rest.walk extension atRoot
    if Path.extension? name = some extension then [name] :: later else later
  | .dir name inner rest =>
    let later := rest.walk extension atRoot
    if isSkipped atRoot name then later
    else (inner.walk extension false).map (name :: ·) ++ later

/-- Whether a name is smaller than another, by the codes of their characters. -/
def isSmaller (name other : Text) : Bool :=
  name.lex other fun c d => c.toNat < d.toNat

/-- Puts names before the first that are not smaller, name by name. -/
def insertNames (names : List Text) : List (List Text) → List (List Text)
  | [] => [names]
  | first :: rest =>
    if first.lex names isSmaller then first :: insertNames names rest else names :: first :: rest

/-- The files with an extension below a directory, as the names that lead to them, ordered name by
name. -/
def collect (extension : Text) (root : Listing) : List (List Text) :=
  (root.walk extension true).foldr insertNames []

end Listing

end ScopedHandles
