/-
**Runs over trees.**

A run works on the files below a root, one after the other. A file is written only if something in it
was enclosed or mended, and never in a dry run. Whether the attempt to write it succeeds is not up to the
run: that is what a `Disk` tells.

* `Disk` — what becomes of attempts to write.
* `runFile` — one file.
* `runTree` — all files below a root.
* `loadSettings` — the settings of a file in the tree.
-/

import ScopedHandles.Listing
import ScopedHandles.Report
import ScopedHandles.Settings.Reader

namespace ScopedHandles

/-- The bytes of a text. -/
def encode (text : Text) : ByteArray :=
  (String.ofList text).toUTF8

/-- What becomes of an attempt to write a file. -/
inductive WriteResult where
  | done
  /-- The attempt fails, and the file holds the bytes `left` after it. -/
  | failed (error : WriteError) (left : ByteArray)

/-- What becomes of the attempts to write the files of a tree. A run attempts to write each file once at
most, so this is told by where the file is. -/
structure Disk where
  write : (location : List Text) → WriteResult

/-- The disk on which every attempt succeeds. -/
def Disk.willing : Disk where
  write _ := .done

/-- Works on a file: `location` is where it is, and `file` what it is called. -/
def runFile (disk : Disk) (settings : Settings) (file : Path) (location : List Text) (tree : Listing) :
    FileReport × Listing :=
  match tree.readAt location with
  | .error error => ({ file, failure := some (.unreadable error) }, tree)
  | .ok content =>
    let outcome := scopeHandles settings content
    if outcome.changed && !settings.dryRun then
      match disk.write location with
      | .done =>
        ({ file, outcome, written := true }, tree.overwrite location (encode outcome.content))
      | .failed error left =>
        ({ file, outcome, failure := some (.unwritable error) }, tree.overwrite location left)
    else ({ file, outcome }, tree)

/-- Works on files below `root`, each given by the names that lead to it from there. -/
def runFiles (disk : Disk) (settings : Settings) (root : Path) (location : List Text) :
    (files : List (List Text)) → Listing → List FileReport × Listing
  | [], tree => ([], tree)
  | names :: files, tree =>
    let file := Path.relativeTo root (Path.joinNames root names)
    let (report, tree) := runFile disk settings file (location ++ names) tree
    let (reports, tree) := runFiles disk settings root location files tree
    (report :: reports, tree)

/-- Works on the files below a root. -/
def runTree (settings : Settings) (tree : Listing) (root : Path) (disk : Disk := .willing) :
    Except Fault (RunReport × Listing) := do
  settings.validate
  match tree.directory? root with
  | none => throw (.notADirectory root)
  | some (location, inner) =>
    let (reports, tree) :=
      runFiles disk settings root location (inner.collect settings.bareExtension) tree
    return (.of root settings.dryRun reports, tree)

/-- The paths of the files with an extension below a root. -/
def collectPaths (extension : Text) (tree : Listing) (root : Path) : Except Fault (List Path) :=
  match tree.directory? root with
  | none => .error (.notADirectory root)
  | some (_, inner) => .ok ((inner.collect extension).map (Path.joinNames root))

/-- The settings that a file of the tree gives. -/
def loadSettings (tree : Listing) (path : Path) : Except Fault Settings :=
  match tree.readText path with
  | .error error => .error (.unreadable path error)
  | .ok text =>
    match Settings.ofText text with
    | .error error => .error (.format path error)
    | .ok settings => settings.validate.map fun _ => settings

end ScopedHandles
