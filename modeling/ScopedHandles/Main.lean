/-
**The program.**

The files that a command is about are read into a tree, the command is run on the tree, and the files
that it changed are written. Then the command is run on the tree once more, with what became of the attempts
to write, and this is what it answers. All decisions are made on the tree. The files below a directory are
named on standard input, one path a line.
-/

import ScopedHandles.Command.Response

namespace ScopedHandles

/-- What stands at a path on disk, a directory without its entries. Reading the bytes of a directory
fails with code 21, which tells it from a path that leads nowhere. -/
def readEntry? (path : Path) : IO (Option Entry) :=
  try
    return some (.file (← IO.FS.readBinFile (String.ofList path)))
  catch
    | .inappropriateType _ 21 _ => return some (.directory .empty)
    | _ => return none

/-- The tree with what stands at a path on disk and with what its way leads through. -/
def readPath (path : Path) (tree : Listing) : IO Listing := do
  let segments := Path.segments path
  let mut tree := tree
  for length in List.range segments.length do
    let way := Path.join (segments.take (length + 1))
    if let some entry ← readEntry? way then tree := tree.putAt entry way
  return tree

/-- The paths that the lines of a stream name. -/
partial def readPaths (lines : IO.FS.Stream) : IO (List Path) := do
  let line ← lines.getLine
  if line.isEmpty then return []
  let path := line.toList.filter (· != '\n')
  let paths ← readPaths lines
  return if path.isEmpty then paths else path :: paths

/-- The paths of the files that a request may work on. -/
def Request.readPaths (request : Request) : IO (List Path) := do
  match ← readEntry? request.path with
  | some (.directory _) => ScopedHandles.readPaths (← IO.getStdin)
  | _ => return []

/-- The tree that a request is about. -/
def Request.readTree (request : Request) (paths : List Path) : IO Listing := do
  let tree ← readPath request.path .blank
  let tree ← match request.config with
    | none => pure tree
    | some config => readPath config tree
  paths.foldlM (fun tree path => readPath path tree) tree

/-- What is to be written for a file that differs between two trees. -/
def change? (location : List Text) (before after : Listing) : Option ByteArray :=
  match before.entry? location, after.entry? location with
  | some (.file old), some (.file bytes) => if old.data == bytes.data then none else some bytes
  | _, _ => none

/-- Attempts to write the files at the given paths that differ between two trees. The attempts that fail are
told with their causes. -/
def writeChanges (paths : List Path) (before after : Listing) : IO (List (List Text × WriteError)) := do
  let mut failures := []
  for path in paths do
    if let .ok location := before.locate path then
      if let some bytes := change? location before after then
        try
          IO.FS.writeBinFile (String.ofList path) bytes
        catch error =>
          failures := (location, { message := toString error }) :: failures
  return failures

/-- The disk on which the given attempts failed. No command asks what such a file holds then. -/
def Disk.ofFailures (failures : List (List Text × WriteError)) : Disk where
  write location :=
    match failures.lookup location with
    | none => .done
    | some error => .failed error .empty

end ScopedHandles

open ScopedHandles in
/-- Runs the command of a command line. -/
def main (arguments : List String) : IO UInt32 := do
  let line := arguments.map String.toList
  let (paths, tree) ← match (Command.read? line).bind Command.request? with
    | none => pure ([], .blank)
    | some request =>
      let paths ← request.readPaths
      pure (paths, ← request.readTree paths)
  let failures ← writeChanges paths tree (respond line tree).tree
  let response := respond line tree (.ofFailures failures)
  IO.print (String.ofList response.output)
  return response.exitCode.toUInt32
