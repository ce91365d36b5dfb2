/-
**Audits of trees.**

An audit looks for placeholders that are declared and never used in the files below a root. It changes
nothing. Files that cannot be read are named.
-/

import ScopedHandles.Figure
import ScopedHandles.Listing
import ScopedHandles.Placeholder
import ScopedHandles.Settings.Basic

namespace ScopedHandles

/-- The placeholders of a file. -/
structure FileAudit where
  file : Path
  declared : Nat
  unused : List Placeholder
  deriving DecidableEq, Repr

/-- The report on an audit. -/
structure AuditReport where
  root : Path
  stem : String
  filesScanned : Nat
  declared : Nat
  unused : Nat
  /-- The files that declare placeholders. -/
  files : List FileAudit
  unreadable : List Path
  deriving DecidableEq, Repr

/-- The audit of a text. -/
def FileAudit.of (file : Path) (stem content : Text) : FileAudit where
  file := file
  declared := (Placeholder.declared content stem).length
  unused := Placeholder.unused content stem

namespace AuditReport

/-- The report that sums up what was found in each file. -/
def of (root : Path) (stem : String) (results : List (Path × Except ReadError FileAudit)) :
    AuditReport :=
  let audits := results.filterMap fun (_, result) => result.toOption
  { root
    stem
    filesScanned := results.length
    declared := total FileAudit.declared audits
    unused := total (fun audit => audit.unused.length) audits
    files := audits.filter fun audit => 0 < audit.declared
    unreadable := results.filterMap fun (file, result) =>
      if result.toOption.isNone then some file else none }

/-- The exit code of an audit. -/
def exitCode (report : AuditReport) : Nat :=
  if 0 < report.unused then 1 else 0

end AuditReport

/-- Audits the files below a root. -/
def audit (settings : Settings) (tree : Listing) (root : Path) : Except Fault AuditReport := do
  settings.validate
  match tree.directory? root with
  | none => throw (.notADirectory root)
  | some (location, inner) =>
    let stem := settings.handleStem
    let results := (inner.collect settings.bareExtension).map fun names =>
      let file := Path.relativeTo root (Path.joinNames root names)
      (file, (tree.readAt (location ++ names)).map (FileAudit.of file stem.toList))
    return .of root stem results

/-! ### As JSON -/

/-- A placeholder as an object. -/
def Placeholder.toJson (placeholder : Placeholder) : Json :=
  .ofFields [("symbol", .ofText placeholder.symbol), ("line", .ofNat placeholder.line)]

/-- The placeholders of a file as an object. -/
def FileAudit.toJson (audit : FileAudit) : Json :=
  .ofFields [("file", .ofText audit.file), ("declared", .ofNat audit.declared),
    ("unused", .array (audit.unused.map Placeholder.toJson))]

/-- The report on an audit as an object. -/
def AuditReport.toJson (report : AuditReport) : Json :=
  .ofFields ([("root", .ofText report.root), ("prefix", .ofString report.stem),
      ("files_scanned", .ofNat report.filesScanned),
      ("placeholders_declared", .ofNat report.declared),
      ("placeholders_unused", .ofNat report.unused),
      ("files", .array (report.files.map FileAudit.toJson))]
    ++ Json.listField? "unreadable" (report.unreadable.map .ofText))

end ScopedHandles
