/-
**What a run changes.**

A run changes the files that it collects and no others, and each of them by itself: it reads, reports and
writes every file as if it were the only one. A dry run changes nothing, and reports what the run would
have reported but for what is written.

* `runFile_report`, `runFile_tree` — one file on any disk: what is reported, and what is left in the tree.
* `runFiles_reports` — every report is about the text that the file had before the run.
* `altered_runFiles` — all files, if every attempt to write succeeds: what the tree holds behind them.
* `run_alters_collected` — runs and dry runs from the same tree.
-/

import ScopedHandles.Run
import ScopedHandles.Proofs.Collect
import ScopedHandles.Proofs.Freshness

namespace ScopedHandles

/-! ### One file -/

/-- What a file holds once its text is written, if it is a text and the text is changed. -/
def rewritten (settings : Settings) (bytes : ByteArray) : ByteArray :=
  match String.fromUTF8? bytes with
  | none => bytes
  | some text =>
    let outcome := scopeHandles settings text.toList
    if outcome.changed then encode outcome.content else bytes

/-- A file that holds a text. -/
theorem rewritten_encode (settings : Settings) (source : Text) :
    rewritten settings (encode source) =
      if (scopeHandles settings source).changed then encode (scopeHandles settings source).content
      else encode source := by
  have valid : (encode source).IsValidUTF8 := (String.ofList source).isValidUTF8
  have decoded : String.fromUTF8? (encode source) = some (String.ofList source) := by
    rw [String.fromUTF8?, dif_pos valid]
    rfl
  rw [rewritten, decoded]
  simp only [String.toList_ofList]

/-- Every attempt to write succeeds. -/
def Disk.Willing (disk : Disk) : Prop :=
  ∀ location, disk.write location = .done

/-- The report on a file that reads as the given text. -/
def FileReport.of (disk : Disk) (settings : Settings) (file : Path) (place : List Text) :
    (text : Except ReadError Text) → FileReport
  | .error error => { file, failure := some (.unreadable error) }
  | .ok content =>
    let outcome := scopeHandles settings content
    if outcome.changed && !settings.dryRun then
      match disk.write place with
      | .done => { file, outcome, written := true }
      | .failed error _ => { file, outcome, failure := some (.unwritable error) }
    else { file, outcome }

/-- What the attempt to write a file that reads as the given text leaves in it, if there is one. -/
def left? (disk : Disk) (settings : Settings) (place : List Text) :
    (text : Except ReadError Text) → Option ByteArray
  | .error _ => none
  | .ok content =>
    let outcome := scopeHandles settings content
    if outcome.changed && !settings.dryRun then
      match disk.write place with
      | .done => some (encode outcome.content)
      | .failed _ left => some left
    else none

/-- The tree with these bytes for a file, if there are any. -/
def Listing.holding (listing : Listing) (place : List Text) : (bytes : Option ByteArray) → Listing
  | none => listing
  | some bytes => listing.overwrite place bytes

/-- `after` differs from `before` only in what the files at `places` hold, and there as `change` says. -/
structure Altered (change : ByteArray → ByteArray) (places : List (List Text))
    (before after : Listing) : Prop where
  blanked_eq : after.blanked = before.blanked
  bytesAt?_eq : ∀ place, after.bytesAt? place =
    if place ∈ places then (before.bytesAt? place).map change else before.bytesAt? place

theorem scopeHandles_dryRun (settings : Settings) (dryRun : Bool) (source : Text) :
    scopeHandles { settings with dryRun } source = scopeHandles settings source :=
  rfl

section File

variable (disk : Disk) (settings : Settings) (file : Path)

theorem runFile_eq (place : List Text) (tree : Listing) :
    runFile disk settings file place tree =
      (.of disk settings file place (tree.readAt place),
        tree.holding place (left? disk settings place (tree.readAt place))) := by
  rw [runFile]
  cases tree.readAt place with
  | error error => rfl
  | ok content =>
    simp only [FileReport.of, left?]
    split_ifs
    · cases disk.write place <;> rfl
    · rfl

theorem runFile_report (place : List Text) (tree : Listing) :
    (runFile disk settings file place tree).1 = .of disk settings file place (tree.readAt place) := by
  rw [runFile_eq]

theorem runFile_tree (place : List Text) (tree : Listing) :
    (runFile disk settings file place tree).2 =
      tree.holding place (left? disk settings place (tree.readAt place)) := by
  rw [runFile_eq]

/-- **Another file reads as before**, whatever becomes of the attempt to write this one. -/
theorem readAt_runFile {place other : List Text} (elsewhere : other ≠ place) (tree : Listing) :
    (runFile disk settings file place tree).2.readAt other = tree.readAt other := by
  rw [runFile_tree]
  cases left? disk settings place (tree.readAt place) with
  | none => rfl
  | some bytes =>
    refine Listing.readAt_congr (Listing.blanked_overwrite _ _ _) ?_
    rw [Listing.holding, Listing.bytesAt?_overwrite, if_neg elsewhere]

end File

theorem left?_dry (disk : Disk) {settings : Settings} (dry : settings.dryRun = true) (place : List Text)
    (text : Except ReadError Text) : left? disk settings place text = none := by
  cases text with
  | error error => rfl
  | ok content => simp [left?, dry]

namespace Altered

variable {change : ByteArray → ByteArray} {places others : List (List Text)}
  {before middle after : Listing}

/-- A tree of which no file is changed. -/
theorem of_map_eq (same : ∀ place ∈ places, (before.bytesAt? place).map change = before.bytesAt? place) :
    Altered change places before before := by
  refine ⟨rfl, fun place => ?_⟩
  split_ifs with mem
  · exact (same place mem).symm
  · rfl

/-- **Changes of different files add up.** -/
theorem append (first : Altered change places before middle) (second : Altered change others middle after)
    (apart : places.Disjoint others) : Altered change (places ++ others) before after := by
  refine ⟨second.blanked_eq.trans first.blanked_eq, fun place => ?_⟩
  rw [second.bytesAt?_eq, first.bytesAt?_eq]
  by_cases here : place ∈ places
  · have elsewhere : place ∉ others := fun there => apart here there
    simp [here, elsewhere]
  · simp [here]

theorem locate_eq (altered : Altered change places before after) (path : Path) :
    after.locate path = before.locate path := by
  rw [← Listing.locate_blanked, altered.blanked_eq, Listing.locate_blanked]

end Altered

/-- **One file is changed**, and only this file. -/
theorem altered_runFile {disk : Disk} (willing : disk.Willing) {settings : Settings}
    (writes : settings.dryRun = false) (file : Path) (place : List Text) (tree : Listing) :
    Altered (rewritten settings) [place] tree (runFile disk settings file place tree).2 := by
  rw [runFile_tree]
  rcases tree.readAt_cases place with ⟨error, read, unreadable⟩ | ⟨bytes, text, read, held, decoded⟩
  · rw [read]
    refine .of_map_eq fun other mem => ?_
    rw [List.mem_singleton.mp mem]
    cases held : tree.bytesAt? place with
    | none => rfl
    | some bytes => rw [Option.map_some, rewritten, unreadable bytes held]
  · rw [read]
    simp only [left?, writes, Bool.not_false, Bool.and_true, willing place]
    split_ifs with changed
    · refine ⟨Listing.blanked_overwrite _ _ _, fun other => ?_⟩
      rw [Listing.holding, Listing.bytesAt?_overwrite]
      by_cases here : other = place
      · simp [here, held, rewritten, decoded, changed]
      · simp [here]
    · refine .of_map_eq fun other mem => ?_
      rw [List.mem_singleton.mp mem, held]
      simp [rewritten, decoded, changed]

theorem runFile_dry (disk : Disk) {settings : Settings} (dry : settings.dryRun = true) (file : Path)
    (place : List Text) (tree : Listing) : (runFile disk settings file place tree).2 = tree := by
  rw [runFile_tree, left?_dry disk dry]
  rfl

/-! ### All files -/

section Files

variable (disk : Disk) {settings : Settings} (root : Path) (location : List Text)

theorem runFiles_dry (dry : settings.dryRun = true) (files : List (List Text)) (tree : Listing) :
    (runFiles disk settings root location files tree).2 = tree := by
  induction files generalizing tree with
  | nil => rfl
  | cons names files ih =>
    rw [runFiles]
    simp only [runFile_dry disk dry, ih]

variable {disk} in
/-- **All files are changed**, each by itself: a file is none of the others, so what is written to it is
not written over. -/
theorem altered_runFiles (willing : disk.Willing) (writes : settings.dryRun = false)
    {files : List (List Text)} (nodup : files.Nodup) (tree : Listing) :
    Altered (rewritten settings) (files.map (location ++ ·)) tree
      (runFiles disk settings root location files tree).2 := by
  induction files generalizing tree with
  | nil => exact .of_map_eq (by simp)
  | cons names files ih =>
    obtain ⟨once, later⟩ := List.nodup_cons.mp nodup
    refine (altered_runFile willing writes _ (location ++ names) tree).append (ih later _) ?_
    simpa using once

variable (settings) in
/-- **Every report is about the text that the file had before the run**, whatever was written before the
file was reached: the other files are read in the tree behind the first, but none of them is the first. -/
theorem runFiles_reports {files : List (List Text)} (nodup : files.Nodup) (tree : Listing) :
    (runFiles disk settings root location files tree).1 = files.map fun names =>
      .of disk settings (Path.relativeTo root (Path.joinNames root names)) (location ++ names)
        (tree.readAt (location ++ names)) := by
  induction files generalizing tree with
  | nil => rfl
  | cons names files ih =>
    obtain ⟨once, later⟩ := List.nodup_cons.mp nodup
    rw [runFiles, List.map_cons, ← runFile_report]
    refine congrArg (_ :: ·) ((ih later _).trans (List.map_congr_left fun other mem => ?_))
    have elsewhere : location ++ other ≠ location ++ names := fun same =>
      once (List.append_cancel_left same ▸ mem)
    rw [readAt_runFile disk settings _ elsewhere]

end Files

/-! ### Reports -/

theorem total_map {α β : Type} (figure : β → Nat) (f : α → β) (items : List α) :
    total figure (items.map f) = total (fun item => figure (f item)) items := by
  induction items with
  | nil => rfl
  | cons item rest ih => rw [List.map_cons, total, total, ih]

theorem total_congr {α : Type} {figure other : α → Nat} {items : List α}
    (same : ∀ item ∈ items, figure item = other item) : total figure items = total other items := by
  induction items with
  | nil => rfl
  | cons item rest ih =>
    obtain ⟨here, later⟩ := List.forall_mem_cons.mp same
    rw [total, total, here, ih later]

theorem total_zero {α : Type} (items : List α) : total (fun _ => 0) items = 0 := by
  induction items with
  | nil => rfl
  | cons item rest ih => rw [total, ih]

/-- The report on the file in a run that does not write. -/
def FileReport.unwritten (report : FileReport) : FileReport :=
  { report with written := false }

/-- The report on the run as one that does not write. -/
def RunReport.unwritten (report : RunReport) : RunReport :=
  { report with
    dryRun := true
    summary := { report.summary with filesWritten := 0 }
    files := report.files.map FileReport.unwritten }

section Willing

variable {disk : Disk} (willing : disk.Willing) (settings : Settings) (file : Path) (place : List Text)

include willing

theorem FileReport.of_dryRun (text : Except ReadError Text) :
    FileReport.of disk { settings with dryRun := true } file place text =
      (FileReport.of disk { settings with dryRun := false } file place text).unwritten := by
  cases text with
  | error error => rfl
  | ok content =>
    simp only [FileReport.of, scopeHandles_dryRun, Bool.not_true, Bool.and_false, Bool.not_false,
      Bool.and_true, willing place, Bool.false_eq_true, if_false]
    split_ifs <;> rfl

theorem FileReport.written_of (text : Except ReadError Text) :
    (FileReport.of disk { settings with dryRun := false } file place text).written =
      (FileReport.of disk { settings with dryRun := false } file place text).outcome.changed := by
  cases text with
  | error error => rfl
  | ok content =>
    simp only [FileReport.of, Bool.not_false, Bool.and_true, willing place]
    split_ifs with changed
    · exact changed.symm
    · exact (Bool.eq_false_iff.mpr changed).symm

end Willing

theorem Summary.of_unwritten (reports : List FileReport) :
    Summary.of (reports.map FileReport.unwritten) = { Summary.of reports with filesWritten := 0 } := by
  have none : total (fun report => report.unwritten.written.toNat) reports = 0 := total_zero reports
  simp only [Summary.of, total_map, List.length_map, none]
  rfl

/-- **The report on a run that does not write** differs from the report on a run that does in what is
written. -/
theorem RunReport.of_unwritten (root : Path) (reports : List FileReport) :
    RunReport.of root true (reports.map FileReport.unwritten) =
      (RunReport.of root false reports).unwritten := by
  rw [RunReport.of, Summary.of_unwritten, List.filter_map]
  rfl

section Modes

variable {disk : Disk} (willing : disk.Willing) (settings : Settings) (root : Path)
  (location : List Text) {files : List (List Text)}

include willing

/-- The reports on all files in a run that does not write. -/
theorem runFiles_unwritten (nodup : files.Nodup) (tree : Listing) :
    (runFiles disk { settings with dryRun := true } root location files tree).1 =
      (runFiles disk { settings with dryRun := false } root location files tree).1.map
        FileReport.unwritten := by
  rw [runFiles_reports disk _ root location nodup, runFiles_reports disk _ root location nodup,
    List.map_map]
  exact List.map_congr_left fun names _ => FileReport.of_dryRun willing settings _ _ _

/-- What is changed is written. -/
theorem written_of_mem_runFiles (nodup : files.Nodup) (tree : Listing) :
    ∀ report ∈ (runFiles disk { settings with dryRun := false } root location files tree).1,
      report.written = report.outcome.changed := by
  rw [runFiles_reports disk _ root location nodup, List.forall_mem_map]
  exact fun names _ => FileReport.written_of willing settings _ _ _

end Modes

/-! ### Runs -/

/-- A run that starts: the settings are in order and the root is a directory. -/
theorem runTree_eq {disk : Disk} {settings : Settings} {tree inner after : Listing} {root : Path}
    {location : List Text} {reports : List FileReport} (valid : settings.validate = .ok ())
    (found : tree.directory? root = some (location, inner)) (dryRun : Bool)
    (ran : runFiles disk { settings with dryRun } root location (inner.collect settings.bareExtension)
      tree = (reports, after)) :
    runTree { settings with dryRun } tree root disk = .ok (.of root dryRun reports, after) := by
  have accepted : ({ settings with dryRun } : Settings).validate = .ok () := valid
  rw [runTree, accepted, found]
  exact congrArg (fun run => Except.ok (RunReport.of root dryRun run.1, run.2)) ran

/-- **A run changes the files that it collects, and a dry run nothing**, in every tree whose directories
list a name only once, and on every disk on which all attempts to write succeed. Every path leads where it
led. Files that are not collected keep their bytes. A file that is collected holds its new text, unless it
is no text or its text is not changed: then it keeps its bytes as well. The dry run reports the same but for
what is written, and what is written in the run is what is changed. -/
theorem run_alters_collected {disk : Disk} {settings : Settings} {tree inner : Listing} {root : Path}
    {location : List Text} (willing : disk.Willing) (valid : settings.validate = .ok ())
    (distinct : tree.Distinct) (found : tree.directory? root = some (location, inner)) :
    ∃ report after,
      collectPaths settings.bareExtension tree root =
        .ok ((inner.collect settings.bareExtension).map (Path.joinNames root)) ∧
      runTree { settings with dryRun := false } tree root disk = .ok (report, after) ∧
      runTree { settings with dryRun := true } tree root disk = .ok (report.unwritten, tree) ∧
      (∀ path, after.locate path = tree.locate path) ∧
      (∀ place, place ∉ (inner.collect settings.bareExtension).map (location ++ ·) →
        after.bytesAt? place = tree.bytesAt? place) ∧
      (∀ names ∈ inner.collect settings.bareExtension, ∃ bytes,
        tree.bytesAt? (location ++ names) = some bytes ∧
        after.bytesAt? (location ++ names) = some (rewritten settings bytes) ∧
        ((∀ name ∈ names, Path.IsName name) →
          tree.locate (Path.joinNames root names) = .ok (location ++ names))) ∧
      report.dryRun = false ∧
      report.summary.filesWritten = report.summary.filesChanged ∧
      ∀ file ∈ report.files, file.written = file.outcome.changed := by
  have nodup : (inner.collect settings.bareExtension).Nodup :=
    Listing.nodup_collect (distinct.below (Listing.entry?_of_directory? found).2)
  let writing : Settings := { settings with dryRun := false }
  have writes : writing.dryRun = false := rfl
  have altered : Altered (rewritten settings) _ tree _ :=
    altered_runFiles root location willing writes nodup tree
  have written := written_of_mem_runFiles willing settings root location nodup tree
  have dry := runTree_eq valid found true
    (Prod.ext (runFiles_unwritten willing settings root location nodup tree)
      (runFiles_dry disk root location rfl _ tree))
  rw [RunReport.of_unwritten] at dry
  have paths : collectPaths settings.bareExtension tree root =
      .ok ((inner.collect settings.bareExtension).map (Path.joinNames root)) := by
    rw [collectPaths, found]
  refine ⟨_, _, paths, runTree_eq valid found false rfl, dry, altered.locate_eq, ?_, ?_, rfl, ?_, ?_⟩
  · intro place elsewhere
    exact (altered.bytesAt?_eq place).trans (if_neg elsewhere)
  · intro names mem
    obtain ⟨⟨bytes, before⟩, leads⟩ := Listing.exists_bytes_of_collected distinct found mem
    refine ⟨bytes, before, (altered.bytesAt?_eq _).trans ?_, leads⟩
    rw [if_pos (List.mem_map_of_mem mem), before]
    rfl
  · exact total_congr fun report mem => congrArg Bool.toNat (written report mem)
  · exact fun report mem => written report (List.mem_of_mem_filter mem)

/-- A text in which a cursor is enclosed. -/
def openCursor : Text :=
  "\x7b\n R a = q();\n\x7d\n".toList

/-- A directory with a text that is changed, one that is not, a file that is no text, and below a
directory that is skipped once more the first. -/
def mixedTree : Listing :=
  (((Listing.blank.putAt (.file (encode openCursor)) "t/a.java".toList).putAt
    (.file (encode ['x'])) "t/b.java".toList).putAt
    (.file ⟨#[0xff]⟩) "t/c.java".toList).putAt
    (.file (encode openCursor)) "t/vendor/d.java".toList

/-- A disk that is full: an attempt to write leaves nothing of a file. -/
def fullDisk : Disk where
  write _ := .failed { message := "No space left on device (os error 28)" } .empty

theorem mixedTree_altered :
    briefSettings.validate = .ok () ∧ mixedTree.Distinct ∧
      ∃ report after,
        runTree briefSettings mixedTree ['t'] = .ok (report, after) ∧
        runTree { briefSettings with dryRun := true } mixedTree ['t'] =
          .ok (report.unwritten, mixedTree) ∧
        after.bytesAt? [['.'], ['t'], "a.java".toList] =
          some (encode "\x7b\n try (R v1 = q()) \x7b\n \x7d\n\x7d\n".toList) ∧
        after.bytesAt? [['.'], ['t'], "b.java".toList] = some (encode ['x']) ∧
        after.bytesAt? [['.'], ['t'], "c.java".toList] = some ⟨#[0xff]⟩ ∧
        after.bytesAt? [['.'], ['t'], "vendor".toList, "d.java".toList] = some (encode openCursor) := by
  have valid : briefSettings.validate = .ok () := by decide +kernel
  have distinct : mixedTree.Distinct :=
    (((Listing.distinct_blank.putAt (Entry.distinct_file _) _).putAt (Entry.distinct_file _) _).putAt
      (Entry.distinct_file _) _).putAt (Entry.distinct_file _) _
  obtain ⟨inner, found, collected⟩ : ∃ inner,
      mixedTree.directory? ['t'] = some ([['.'], ['t']], inner) ∧
        inner.collect briefSettings.bareExtension =
          [["a.java".toList], ["b.java".toList], ["c.java".toList]] :=
    ⟨_, rfl, by decide +kernel⟩
  have willing : Disk.willing.Willing := fun _ => rfl
  obtain ⟨report, after, _, run, dry, _, kept, held, _⟩ :=
    run_alters_collected willing valid distinct found
  rw [collected] at kept held
  refine ⟨valid, distinct, report, after, run, dry, ?_, ?_, ?_, ?_⟩
  · obtain ⟨bytes, before, behind, _⟩ := held ["a.java".toList] (by decide)
    obtain rfl : encode openCursor = bytes := Option.some.inj before
    have changed : (scopeHandles briefSettings openCursor).changed = true ∧
        (scopeHandles briefSettings openCursor).content =
          "\x7b\n try (R v1 = q()) \x7b\n \x7d\n\x7d\n".toList := by
      decide +kernel
    rw [rewritten_encode, if_pos changed.1, changed.2] at behind
    exact behind
  · obtain ⟨bytes, before, behind, _⟩ := held ["b.java".toList] (by decide)
    obtain rfl : encode ['x'] = bytes := Option.some.inj before
    have unchanged : ¬(scopeHandles briefSettings ['x']).changed = true := by decide +kernel
    rw [rewritten_encode, if_neg unchanged] at behind
    exact behind
  · obtain ⟨bytes, before, behind, _⟩ := held ["c.java".toList] (by decide)
    obtain rfl : ⟨#[0xff]⟩ = bytes := Option.some.inj before
    have undecoded : String.fromUTF8? ⟨#[0xff]⟩ = none := by decide +kernel
    rw [rewritten, undecoded] at behind
    exact behind
  · exact kept _ (by decide)

end ScopedHandles
