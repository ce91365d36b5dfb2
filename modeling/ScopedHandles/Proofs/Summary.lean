/-
**What a run sums up is what it lists.**

The figures of a run are sums over all its files, but only files with something to tell are listed. Nothing
is lost by that: a text without declarations, loose statements and possible leaks has nothing enclosed,
skipped or mended, because no loop goes through more than was counted before it. A file that cannot be read
or written is listed in any case.

* `Outcome.Bounded`, `bounded_scopeHandles` — what is done is no more than what is found.
* `FileReport.Sound.untold` — a file that is not listed adds nothing to any figure.
* `Summary.Tells` — the figures are those of the given reports.
* `run_sums_up_listed` — the figures of a run are those of the files that it lists.
-/

import Mathlib.Algebra.GroupWithZero.Nat
import ScopedHandles.Proofs.Run

namespace ScopedHandles

/-! ### No more than is found -/

/-- What is done with declarations and loose statements is no more than what is found of them. -/
structure Outcome.Bounded (outcome : Outcome) : Prop where
  handles : ∀ kind, (outcome.counts kind).enclosed + (outcome.skipped.filter (·.kind = kind)).length ≤
    (outcome.counts kind).found
  statements : outcome.statements.repaired ≤ outcome.statements.found

/-- **No loop goes through more than was counted before it.** -/
theorem bounded_scopeHandles (settings : Settings) (source : Text) :
    (scopeHandles settings source).Bounded where
  handles kind := by
    rw [enclosed_add_skipped, found_eq]
    exact Pass.length_turns_le _ _ _ _ _
  statements := by
    rw [statements_eq]
    exact (Repair.repaired_run_le _ _ _).trans (Nat.zero_add _).le

/-! ### Files that are not listed -/

/-- The report is in order: its outcome is bounded, and what is written is changed. -/
structure FileReport.Sound (report : FileReport) : Prop where
  bounded : report.outcome.Bounded
  changed : report.written = true → report.outcome.changed = true

/-- **Every report is in order**, whatever the file holds and whatever becomes of the attempt to write
it. -/
theorem FileReport.sound_of (disk : Disk) (settings : Settings) (file : Path) (place : List Text)
    (text : Except ReadError Text) : (FileReport.of disk settings file place text).Sound := by
  cases text with
  | error error => exact ⟨⟨fun kind => by cases kind <;> rfl, le_rfl⟩, fun written => by cases written⟩
  | ok content =>
    have bounded := bounded_scopeHandles settings content
    simp only [FileReport.of]
    split_ifs with writes
    · cases disk.write place with
      | done => exact ⟨bounded, fun _ => (Bool.and_eq_true_iff.mp writes).1⟩
      | failed error left => exact ⟨bounded, fun written => by cases written⟩
    · exact ⟨bounded, fun written => by cases written⟩

theorem length_runFiles (disk : Disk) (settings : Settings) (root : Path) (location : List Text)
    (files : List (List Text)) (tree : Listing) :
    (runFiles disk settings root location files tree).1.length = files.length := by
  induction files generalizing tree with
  | nil => rfl
  | cons names files ih => rw [runFiles, List.length_cons, List.length_cons, ih]

/-- Every report of a run is about some text. -/
theorem sound_of_mem_runFiles {disk : Disk} {settings : Settings} {root : Path} {location : List Text}
    {files : List (List Text)} {tree : Listing} :
    ∀ report ∈ (runFiles disk settings root location files tree).1, report.Sound := by
  induction files generalizing tree with
  | nil => simp [runFiles]
  | cons names files ih =>
    rw [runFiles]
    refine List.forall_mem_cons.mpr ⟨?_, ih⟩
    rw [runFile_report]
    exact FileReport.sound_of disk settings _ _ _

namespace FileReport

/-- The report adds nothing to any figure. -/
structure Untold (report : FileReport) : Prop where
  found : ∀ kind, (report.outcome.counts kind).found = 0
  enclosed : ∀ kind, (report.outcome.counts kind).enclosed = 0
  repaired : report.outcome.statements.repaired = 0
  skipped : report.outcome.skipped = []
  leaks : report.outcome.leaks = []
  failureKind : report.failureKind? = none
  changed : report.outcome.changed = false
  written : report.written = false

/-- **A file that is not listed adds nothing to any figure.** -/
theorem Sound.untold {report : FileReport} (sound : report.Sound) (unlisted : report.isNotable = false) :
    report.Untold := by
  simp only [isNotable, Bool.or_eq_false_iff, decide_eq_false_iff_not, Nat.not_lt, Nat.le_zero,
    Bool.not_eq_false', List.isEmpty_iff, Option.isSome_eq_false_iff, Option.isNone_iff_eq_none]
    at unlisted
  obtain ⟨⟨⟨⟨cursors, queries⟩, statements⟩, leaks⟩, failure⟩ := unlisted
  have found : ∀ kind, (report.outcome.counts kind).found = 0 := fun kind => by
    cases kind
    · exact cursors
    · exact queries
  have none : ∀ kind, (report.outcome.counts kind).enclosed = 0 ∧
      report.outcome.skipped.filter (·.kind = kind) = [] := fun kind => by
    have bound := sound.bounded.handles kind
    rw [found kind, Nat.le_zero, Nat.add_eq_zero_iff, List.length_eq_zero_iff] at bound
    exact bound
  have repaired : report.outcome.statements.repaired = 0 :=
    Nat.le_zero.mp (sound.bounded.statements.trans statements.le)
  have skipped : report.outcome.skipped = [] := by
    refine List.eq_nil_iff_forall_not_mem.mpr fun skip mem => ?_
    have here := List.filter_eq_nil_iff.mp (none skip.kind).2 skip mem
    exact here (decide_eq_true rfl)
  have changed : report.outcome.changed = false := by
    rw [Outcome.changed, show report.outcome.cursors.enclosed = 0 from (none .cursor).1,
      show report.outcome.queries.enclosed = 0 from (none .query).1, repaired]
    rfl
  refine ⟨found, fun kind => (none kind).1, repaired, skipped, leaks, ?_, changed, ?_⟩
  · rw [failureKind?, failure, Option.map_none]
  · by_contra written
    rw [sound.changed (Bool.not_eq_false _ ▸ written)] at changed
    exact Bool.noConfusion changed

end FileReport

/-! ### Sums -/

theorem total_eq_sum {α : Type} (figure : α → Nat) (items : List α) :
    total figure items = (items.map figure).sum := by
  induction items with
  | nil => rfl
  | cons item rest ih => rw [total, ih, List.map_cons, List.sum_cons]

theorem total_eq_countP {α : Type} (p : α → Bool) (items : List α) :
    total (fun item => (p item).toNat) items = items.countP p := by
  induction items with
  | nil => rfl
  | cons item rest ih =>
    rw [total, ih, List.countP_cons, Nat.add_comm]
    cases p item <;> rfl

/-- What adds nothing can be left out of a sum. -/
theorem total_filter {α : Type} {figure : α → Nat} {p : α → Bool} {items : List α}
    (nothing : ∀ item ∈ items, p item = false → figure item = 0) :
    total figure (items.filter p) = total figure items := by
  induction items with
  | nil => rfl
  | cons item rest ih =>
    obtain ⟨here, later⟩ := List.forall_mem_cons.mp nothing
    cases kept : p item with
    | true => rw [List.filter_cons_of_pos kept, total, total, ih later]
    | false =>
      rw [List.filter_cons_of_neg (by simp [kept]), ih later, total, here kept, Nat.zero_add]

/-! ### Summaries -/

/-- The figures are those of the given reports, but for the number of files. -/
structure Summary.Tells (summary : Summary) (reports : List FileReport) : Prop where
  filesChanged : summary.filesChanged = reports.countP (·.outcome.changed)
  filesWritten : summary.filesWritten = reports.countP (·.written)
  cursorsFound : summary.cursorsFound = (reports.map (·.outcome.cursors.found)).sum
  cursorsEnclosed : summary.cursorsEnclosed = (reports.map (·.outcome.cursors.enclosed)).sum
  queriesFound : summary.queriesFound = (reports.map (·.outcome.queries.found)).sum
  queriesEnclosed : summary.queriesEnclosed = (reports.map (·.outcome.queries.enclosed)).sum
  statementsRepaired : summary.statementsRepaired = (reports.map (·.outcome.statements.repaired)).sum
  occurrencesSkipped : summary.occurrencesSkipped = (reports.map (·.outcome.skipped.length)).sum
  possibleLeaks : summary.possibleLeaks = (reports.map (·.outcome.leaks.length)).sum
  ioFailures : summary.ioFailures = reports.countP (·.failureKind? == some .io)
  unexpectedFailures : summary.unexpectedFailures = reports.countP (·.failureKind? == some .unexpected)

/-- **The figures of all reports are those of the reports that are listed.** -/
theorem Summary.tells_filter {reports : List FileReport} (sound : ∀ report ∈ reports, report.Sound) :
    (Summary.of reports).Tells (reports.filter FileReport.isNotable) := by
  have listed : ∀ {figure : FileReport → Nat}, (∀ report, report.Untold → figure report = 0) →
      total figure reports = total figure (reports.filter FileReport.isNotable) := fun nothing =>
    (total_filter fun report mem unlisted => nothing report ((sound report mem).untold unlisted)).symm
  have sums : ∀ {figure : FileReport → Nat}, (∀ report, report.Untold → figure report = 0) →
      total figure reports = ((reports.filter FileReport.isNotable).map figure).sum := fun nothing =>
    (listed nothing).trans (total_eq_sum _ _)
  have counts : ∀ {p : FileReport → Bool}, (∀ report, report.Untold → p report = false) →
      total (fun report => (p report).toNat) reports =
        (reports.filter FileReport.isNotable).countP p := fun nothing =>
    (listed fun report untold => congrArg Bool.toNat (nothing report untold)).trans (total_eq_countP _ _)
  have failures : ∀ kind, total (fun report => (report.failureKind? == some kind).toNat) reports =
      (reports.filter FileReport.isNotable).countP (·.failureKind? == some kind) := fun kind =>
    counts fun report untold => by rw [untold.failureKind]; rfl
  exact {
    filesChanged := counts fun report untold => untold.changed
    filesWritten := counts fun report untold => untold.written
    cursorsFound := sums fun report untold => untold.found .cursor
    cursorsEnclosed := sums fun report untold => untold.enclosed .cursor
    queriesFound := sums fun report untold => untold.found .query
    queriesEnclosed := sums fun report untold => untold.enclosed .query
    statementsRepaired := sums fun report untold => untold.repaired
    occurrencesSkipped := sums fun report untold => congrArg List.length untold.skipped
    possibleLeaks := sums fun report untold => congrArg List.length untold.leaks
    ioFailures := failures .io
    unexpectedFailures := failures .unexpected }

/-- **The figures of a run are those of the files that it lists**, although it sums up over all files that
it has scanned, and whatever becomes of its attempts to write. -/
theorem run_sums_up_listed (disk : Disk) {settings : Settings} {tree inner : Listing} {root : Path}
    {location : List Text} (valid : settings.validate = .ok ())
    (found : tree.directory? root = some (location, inner)) :
    ∃ report after, runTree settings tree root disk = .ok (report, after) ∧
      report.summary.filesScanned = (inner.collect settings.bareExtension).length ∧
      report.summary.Tells report.files :=
  ⟨_, _, runTree_eq valid found settings.dryRun rfl, length_runFiles _ _ _ _ _ _,
    Summary.tells_filter sound_of_mem_runFiles⟩

/-- Of three files one is changed and cannot be written, one cannot be read, and one is not listed. -/
theorem mixedTree_summed_up :
    briefSettings.validate = .ok () ∧ ∃ report after,
      runTree briefSettings mixedTree ['t'] fullDisk = .ok (report, after) ∧
      report.summary.filesScanned = 3 ∧ report.files.length = 2 ∧
      report.summary.cursorsEnclosed = 1 ∧ report.summary.filesChanged = 1 ∧
      report.summary.filesWritten = 0 ∧ report.summary.ioFailures = 2 ∧
      report.summary.Tells report.files := by
  have valid : briefSettings.validate = .ok () := by decide +kernel
  have found : mixedTree.directory? ['t'] = some (_, _) := rfl
  obtain ⟨report, after, ran, _, tells⟩ := run_sums_up_listed fullDisk valid found
  have figures : ((runTree briefSettings mixedTree ['t'] fullDisk).toOption.map fun run =>
      (run.1.files.length, run.1.summary.filesScanned, run.1.summary.cursorsEnclosed,
        run.1.summary.filesChanged, run.1.summary.filesWritten, run.1.summary.ioFailures)) =
        some (2, 3, 1, 1, 0, 2) := by
    decide +kernel
  rw [ran] at figures
  simp only [Except.toOption, Option.map_some, Option.some.injEq, Prod.mk.injEq] at figures
  obtain ⟨listed, scanned, enclosed, changed, written, failed⟩ := figures
  exact ⟨valid, report, after, ran, scanned, listed, enclosed, changed, written, failed, tells⟩

end ScopedHandles
