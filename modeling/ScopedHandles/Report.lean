/-
**Reports of runs.**

A run reports on each file and sums up. A report tells what became of the text, whether it was written,
and what failed: a file that cannot be read has no outcome, one that cannot be written has. Files without
anything to tell are summed up but not listed.
-/

import ScopedHandles.Figure
import ScopedHandles.Outcome
import ScopedHandles.Path

namespace ScopedHandles

/-! ### Files -/

/-- The kinds of failures by which the work on a file ends. -/
inductive FailureKind where
  /-- The file cannot be read or written. -/
  | io
  /-- The work on the text of the file breaks off. -/
  | unexpected
  deriving DecidableEq, Repr

/-- The name of a kind in reports. -/
def FailureKind.label : FailureKind → String
  | io => "io"
  | unexpected => "unexpected"

/-- Why the work on a file fails. -/
inductive Failure where
  | unreadable (error : ReadError)
  | unwritable (error : WriteError)
  /-- The work on the text breaks off. No run reports this, because the work on a text always ends. -/
  | unexpected (message : String)
  deriving DecidableEq, Repr

namespace Failure

/-- The kind of a failure. -/
def kind : Failure → FailureKind
  | unreadable _ => .io
  | unwritable _ => .io
  | unexpected _ => .unexpected

/-- A failure in words. -/
def message : Failure → String
  | unreadable error => s!"read: {error.message}"
  | unwritable error => s!"write: {error.message}"
  | unexpected message => message

end Failure

/-- The report on a file. -/
structure FileReport where
  /-- The path of the file below the root. -/
  file : Path
  /-- What became of the text; an unreadable file counts as an empty one. -/
  outcome : Outcome := { content := [] }
  /-- Whether the new text was written. -/
  written : Bool := false
  failure : Option Failure := none
  deriving DecidableEq, Repr

namespace FileReport

/-- The kind of the failure, if there is one. -/
def failureKind? (report : FileReport) : Option FailureKind :=
  report.failure.map Failure.kind

/-- Whether there is anything to tell about the file. -/
def isNotable (report : FileReport) : Bool :=
  0 < report.outcome.cursors.found || 0 < report.outcome.queries.found
    || 0 < report.outcome.statements.found || !report.outcome.leaks.isEmpty
    || report.failure.isSome

end FileReport

/-! ### Runs -/

/-- The figures of a run. -/
structure Summary where
  filesScanned : Nat := 0
  filesChanged : Nat := 0
  filesWritten : Nat := 0
  cursorsFound : Nat := 0
  cursorsEnclosed : Nat := 0
  queriesFound : Nat := 0
  queriesEnclosed : Nat := 0
  statementsRepaired : Nat := 0
  occurrencesSkipped : Nat := 0
  possibleLeaks : Nat := 0
  ioFailures : Nat := 0
  unexpectedFailures : Nat := 0
  deriving DecidableEq, Repr, Inhabited

/-- The figures of the given reports. -/
def Summary.of (reports : List FileReport) : Summary where
  filesScanned := reports.length
  filesChanged := total (fun report => report.outcome.changed.toNat) reports
  filesWritten := total (fun report => report.written.toNat) reports
  cursorsFound := total (fun report => report.outcome.cursors.found) reports
  cursorsEnclosed := total (fun report => report.outcome.cursors.enclosed) reports
  queriesFound := total (fun report => report.outcome.queries.found) reports
  queriesEnclosed := total (fun report => report.outcome.queries.enclosed) reports
  statementsRepaired := total (fun report => report.outcome.statements.repaired) reports
  occurrencesSkipped := total (fun report => report.outcome.skipped.length) reports
  possibleLeaks := total (fun report => report.outcome.leaks.length) reports
  ioFailures := total (fun report => (report.failureKind? == some .io).toNat) reports
  unexpectedFailures := total (fun report => (report.failureKind? == some .unexpected).toNat) reports

/-- The report on a run. -/
structure RunReport where
  root : Path
  dryRun : Bool
  summary : Summary
  files : List FileReport

namespace RunReport

/-- The report that sums up the reports on all files. -/
def of (root : Path) (dryRun : Bool) (reports : List FileReport) : RunReport where
  root := root
  dryRun := dryRun
  summary := .of reports
  files := reports.filter FileReport.isNotable

/-- The exit code of a run. -/
def exitCode (report : RunReport) : Nat :=
  if 0 < report.summary.ioFailures then 3
  else if 0 < report.summary.unexpectedFailures then 1
  else 0

end RunReport

/-! ### As JSON -/

/-- The counts of a kind of handles as an object. -/
def Counts.toJson (counts : Counts) : Json :=
  .ofFields [("found", .ofNat counts.found), ("rewritten", .ofNat counts.enclosed)]

/-- The summary of a repair as an object. -/
def RepairSummary.toJson (summary : RepairSummary) : Json :=
  .ofFields ([("found", .ofNat summary.found), ("repaired", .ofNat summary.repaired)]
    ++ Json.field? "error" (summary.error.map fun error => .ofString error.message))

/-- A skipped declaration as an object. -/
def Skipped.toJson (skipped : Skipped) : Json :=
  .ofFields [("category", .ofString skipped.kind.label), ("symbol", .ofText skipped.symbol),
    ("line", .ofNat skipped.line), ("reason", .ofString skipped.reason.label)]

/-- A possible leak as an object. -/
def Leak.toJson (leak : Leak) : Json :=
  .ofFields [("line", .ofNat leak.line), ("text", .ofText leak.text)]

/-- A failure as an object. -/
def Failure.toJson (failure : Failure) : Json :=
  .ofFields [("kind", .ofString failure.kind.label), ("message", .ofString failure.message)]

/-- The report on a file as an object. Empty lists are left out. -/
def FileReport.toJson (report : FileReport) : Json :=
  let outcome := report.outcome
  .ofFields ([("file", .ofText report.file), ("cursors", outcome.cursors.toJson),
      ("queries", outcome.queries.toJson), ("statements", outcome.statements.toJson),
      ("changed", .bool outcome.changed), ("written", .bool report.written)]
    ++ Json.listField? "skipped" (outcome.skipped.map Skipped.toJson)
    ++ Json.listField? "possible_leaks" (outcome.leaks.map Leak.toJson)
    ++ Json.field? "failure" (report.failure.map Failure.toJson)
    ++ Json.listField? "trace" (outcome.steps.map fun step => .ofText step.message))

/-- A number as a field, left out if it is zero. -/
def Json.countField? (key : String) (n : Nat) : List (String × Json) :=
  if n = 0 then [] else [(key, .ofNat n)]

/-- The figures of a run as an object. -/
def Summary.toJson (summary : Summary) : Json :=
  .ofFields ([("files_scanned", .ofNat summary.filesScanned),
      ("files_changed", .ofNat summary.filesChanged),
      ("files_written", .ofNat summary.filesWritten),
      ("cursors_found", .ofNat summary.cursorsFound),
      ("cursors_rewritten", .ofNat summary.cursorsEnclosed),
      ("queries_found", .ofNat summary.queriesFound),
      ("queries_rewritten", .ofNat summary.queriesEnclosed),
      ("statements_repaired", .ofNat summary.statementsRepaired),
      ("occurrences_skipped", .ofNat summary.occurrencesSkipped)]
    ++ Json.countField? "possible_leaks" summary.possibleLeaks
    ++ Json.countField? "io_failures" summary.ioFailures
    ++ Json.countField? "unexpected_failures" summary.unexpectedFailures)

/-- The report on a run as an object. -/
def RunReport.toJson (report : RunReport) : Json :=
  .ofFields [("root", .ofText report.root), ("dry_run", .bool report.dryRun),
    ("summary", report.summary.toJson), ("files", .array (report.files.map FileReport.toJson))]

end ScopedHandles
