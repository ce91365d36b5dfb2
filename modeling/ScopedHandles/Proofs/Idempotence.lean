/-
**Texts in which nothing is left to do.**

A run leaves a text as it is exactly if it can enclose no declaration of it and cannot mend its first
loose statement (`unchanged_iff_settled`). Both are told by the text alone: a run that has enclosed
nothing yet meets every declaration in the text as it was, with the names that are fresh in it.

What a run that skips nothing makes of a tidy text declares no handle (`declared_output`). So only a
loose statement can be left to do in it. If its repair is completed, a loose statement that is left stands in
a header that the run has mended (`found_output_eq_zero_iff`).
-/

import ScopedHandles.Proofs.FinalRepair

namespace ScopedHandles

/-! ### A pass that encloses nothing -/

namespace Pass

variable {kind : HandleKind} {ending source : Text} {entries : List (Occurrence Declaration)}
  {pass : Pass}

/-- **A pass through what stands in its text encloses nothing exactly if it can enclose none of it.** -/
theorem countP_turns_eq_zero_iff (all : standing kind ending pass.content pass.place = entries) :
    (turns kind ending source entries pass).countP (·.result.isOk) = 0 ↔
      ∀ found ∈ entries, (enclose found pass.content pass.names).isOk = false := by
  induction entries generalizing pass with
  | nil => simp [turns]
  | cons entry entries ih =>
    have next : nextDeclaration kind ending pass.content pass.place = some entry := by
      rw [nextDeclaration_eq_head?, all, List.head?_cons]
    rw [standing_eq_cons next, List.cons.injEq] at all
    rw [turns_cons_of_some _ _ _ _ _ next, List.countP_cons, List.forall_mem_cons]
    cases made : Turn.result { entry, found := entry, before := pass } with
    | ok pair =>
      have done : enclose entry pass.content pass.names = .ok pair := made
      simp [done, Except.isOk, Except.toBool]
    | error reason =>
      have refused : enclose entry pass.content pass.names = .error reason := made
      obtain ⟨content, place, names⟩ : (Turn.after source _).content = _ ∧ _ :=
        Turn.after_of_error made
      have later := ih (by rw [content, place]; exact all.2)
      rw [content, names] at later
      simpa [refused, Except.isOk, Except.toBool] using later

/-- A pass that encloses nothing leaves its text and its names alone. -/
theorem through_of_countP_eq_zero
    (nothing : (turns kind ending source entries pass).countP (·.result.isOk) = 0) :
    (through kind ending source entries pass).content = pass.content ∧
      (through kind ending source entries pass).names = pass.names := by
  induction entries generalizing pass with
  | nil => exact ⟨rfl, rfl⟩
  | cons entry entries ih =>
    cases next : nextDeclaration kind ending pass.content pass.place with
    | none =>
      rw [through_cons_of_none _ _ _ _ _ next]
      exact ⟨rfl, rfl⟩
    | some found =>
      rw [turns_cons_of_some _ _ _ _ _ next, List.countP_cons, Nat.add_eq_zero_iff] at nothing
      rw [through_cons_of_some _ _ _ _ _ next]
      cases made : Turn.result { entry, found, before := pass } with
      | ok pair => simp [made, Except.isOk, Except.toBool] at nothing
      | error reason =>
        obtain ⟨content, _, names⟩ := Turn.after_of_error made
        obtain ⟨laterContent, laterNames⟩ := ih nothing.1
        exact ⟨laterContent.trans content, laterNames.trans names⟩

end Pass

/-! ### A run that changes nothing -/

/-- A text in which nothing is left to do: no declaration of it can be enclosed, and its first loose
statement, if it has one, cannot be mended. -/
def Settled (settings : Settings) (text : Text) : Prop :=
  (∀ kind, ∀ found ∈ declared settings text kind,
    (enclose found text (freshNames settings text)).isOk = false) ∧
  ∀ found ∈ (LooseStatement.all text).head?,
    (Repair.mend { content := text, names := freshNames settings text } found).isOk = false

theorem repaired_run_ge (count place : Nat) (repair : Repair) :
    repair.repaired ≤ (repair.run count place).repaired := by
  refine Repair.invariant_run (fun later => repair.repaired ≤ later.repaired)
    (fun _ made enough => ?_) (fun _ enough => enough) le_rfl count place
  rw [Repair.repaired_of_mend made]
  exact Nat.le_succ_of_le enough

theorem repaired_eq_zero_iff {content : Text} {names : Names} :
    (repairStatements content names).repaired = 0 ↔
      ∀ found ∈ (LooseStatement.all content).head?,
        (Repair.mend { content, names } found).isOk = false := by
  have first : firstHit LooseStatement.probe 0 none content = (LooseStatement.all content).head? :=
    firstHit_eq_head? 0 none content
  unfold repairStatements
  cases all : LooseStatement.all content with
  | nil => simp [Repair.run]
  | cons found others =>
    rw [all] at first
    rw [List.length_cons, Repair.run, first, List.head?_cons]
    cases made : Repair.mend { content, names } found with
    | error error => simp [made, Except.isOk, Except.toBool]
    | ok later =>
      have one := Repair.repaired_of_mend made
      have more := repaired_run_ge others.length (found.place + found.value.indent.length) later
      have some : (Repair.run others.length (found.place + found.value.indent.length) later).repaired
          ≠ 0 := by omega
      simp [made, some, Except.isOk, Except.toBool]

variable {settings : Settings} {text : Text}

theorem changed_eq_false_iff :
    (scopeHandles settings text).changed = false ↔
      (∀ kind, ((scopeHandles settings text).counts kind).enclosed = 0) ∧
        (repairAfter settings text).repaired = 0 := by
  have kinds : (∀ kind, ((scopeHandles settings text).counts kind).enclosed = 0) ↔
      (scopeHandles settings text).cursors.enclosed = 0 ∧
        (scopeHandles settings text).queries.enclosed = 0 := by
    constructor
    · intro all
      exact ⟨all .cursor, all .query⟩
    · rintro ⟨cursors, queries⟩ (_ | _)
      · exact cursors
      · exact queries
  rw [kinds, Outcome.changed, decide_eq_false_iff_not, statements_eq]
  simp only [Repair.summary]
  omega

/-- A pass through a text as it was encloses nothing exactly if it can enclose none of its
declarations. -/
theorem enclosed_eq_zero_iff {kind : HandleKind}
    (content : (passBefore settings text kind).content = text)
    (names : (passBefore settings text kind).names = freshNames settings text) :
    ((scopeHandles settings text).counts kind).enclosed = 0 ↔
      ∀ found ∈ declared settings text kind,
        (enclose found text (freshNames settings text)).isOk = false := by
  have all : standing kind (settings.typeOf kind) (passBefore settings text kind).content
      (passBefore settings text kind).place = declared settings text kind := by
    rw [content]
    cases kind <;> rfl
  rw [enclosed_eq, turnsOf, Pass.countP_turns_eq_zero_iff all, content, names]

/-- A pass that encloses nothing leaves its text and its names alone. -/
theorem passAfter_of_enclosed_eq_zero {kind : HandleKind}
    (nothing : ((scopeHandles settings text).counts kind).enclosed = 0) :
    (passAfter settings text kind).content = (passBefore settings text kind).content ∧
      (passAfter settings text kind).names = (passBefore settings text kind).names := by
  rw [enclosed_eq] at nothing
  exact Pass.through_of_countP_eq_zero nothing

/-- If no cursor is enclosed, the pass for queries begins with the text as it was. -/
theorem passBefore_query_of_idle
    (idle : ((scopeHandles settings text).counts .cursor).enclosed = 0) :
    (passBefore settings text .query).content = text ∧
      (passBefore settings text .query).names = freshNames settings text :=
  passAfter_of_enclosed_eq_zero idle

/-- If nothing is enclosed, the repair begins with the text as it was. -/
theorem passAfter_query_of_idle
    (idle : ∀ kind, ((scopeHandles settings text).counts kind).enclosed = 0) :
    (passAfter settings text .query).content = text ∧
      (passAfter settings text .query).names = freshNames settings text := by
  obtain ⟨content, names⟩ := passBefore_query_of_idle (idle .cursor)
  obtain ⟨laterContent, laterNames⟩ := passAfter_of_enclosed_eq_zero (idle .query)
  exact ⟨laterContent.trans content, laterNames.trans names⟩

/-- **A run encloses nothing exactly if nothing can be enclosed in the text as it was.** -/
theorem idle_iff_refused :
    (∀ kind, ((scopeHandles settings text).counts kind).enclosed = 0) ↔
      ∀ kind, ∀ found ∈ declared settings text kind,
        (enclose found text (freshNames settings text)).isOk = false := by
  constructor
  · intro idle
    obtain ⟨content, names⟩ := passBefore_query_of_idle (idle .cursor)
    rintro (_ | _)
    · exact (enclosed_eq_zero_iff rfl rfl).mp (idle .cursor)
    · exact (enclosed_eq_zero_iff content names).mp (idle .query)
  · intro refused
    have cursors := (enclosed_eq_zero_iff rfl rfl).mpr (refused .cursor)
    obtain ⟨content, names⟩ := passBefore_query_of_idle cursors
    rintro (_ | _)
    · exact cursors
    · exact (enclosed_eq_zero_iff content names).mpr (refused .query)

theorem content_of_repaired_eq_zero {content : Text} {names : Names}
    (nothing : (repairStatements content names).repaired = 0) :
    (repairStatements content names).content = content := by
  rw [repaired_eq_zero_iff] at nothing
  have first : firstHit LooseStatement.probe 0 none content = (LooseStatement.all content).head? :=
    firstHit_eq_head? 0 none content
  unfold repairStatements
  cases all : LooseStatement.all content with
  | nil => rfl
  | cons found others =>
    rw [all] at first nothing
    rw [List.length_cons, Repair.run, first, List.head?_cons]
    cases made : Repair.mend { content, names } found with
    | error error => simp only [made]
    | ok later => simp [made, Except.isOk, Except.toBool] at nothing

/-- A run leaves the text as it is, and reports no change. -/
def Unchanged (settings : Settings) (text : Text) : Prop :=
  (scopeHandles settings text).content = text ∧ (scopeHandles settings text).changed = false

theorem unchanged_iff_settled : Unchanged settings text ↔ Settled settings text := by
  rw [Unchanged, changed_eq_false_iff, Settled, ← idle_iff_refused]
  constructor
  · rintro ⟨_, idle, repaired⟩
    obtain ⟨content, names⟩ := passAfter_query_of_idle idle
    rw [repairAfter, repaired_eq_zero_iff, content, names] at repaired
    exact ⟨idle, repaired⟩
  · rintro ⟨idle, loose⟩
    obtain ⟨content, names⟩ := passAfter_query_of_idle idle
    have repaired : (repairAfter settings text).repaired = 0 := by
      rw [repairAfter, repaired_eq_zero_iff, content, names]
      exact loose
    refine ⟨?_, idle, repaired⟩
    rw [content_eq, repairAfter, content_of_repaired_eq_zero repaired, content]

/-! ### What a run leaves -/

/-- A run that reports nothing as skipped encloses at each of its turns. -/
theorem skippedName?_eq_none (clean : (scopeHandles settings text).skipped = []) (kind : HandleKind) :
    (turnsOf settings text kind).filterMap Turn.skippedName? = [] := by
  have skips : (turnsOf settings text kind).filterMap (Turn.skip? text) = [] := by
    rw [← filter_skipped_eq, clean]
    rfl
  refine List.filterMap_eq_nil_iff.mpr fun turn mem => ?_
  have none := List.filterMap_eq_nil_iff.mp skips turn mem
  cases made : turn.result with
  | ok pair =>
    rw [Turn.skippedName?, made]
    rfl
  | error reason => simp [Turn.skip?, made] at none

/-- The headers that a run mends. -/
def mendsAfter (settings : Settings) (text : Text) : List Mend :=
  mendsOf (passAfter settings text .query).content (passAfter settings text .query).names

section Tidy

variable (valid : settings.validate = .ok ()) (apart : settings.Apart) (tidy : Tidy settings text)
  (clean : (scopeHandles settings text).skipped = [])

include valid apart tidy clean

/-- **What a run that skips nothing makes of a tidy text declares no handle.** -/
theorem declared_output (kind : HandleKind) :
    declared settings (scopeHandles settings text).content kind = [] := by
  obtain ⟨stillTidy, wordy, left⟩ := names_passAfter valid apart tidy
  have before : Bare settings (passAfter settings text .query).content :=
    bare_of_names stillTidy fun kind => (left kind).trans (skippedName?_eq_none clean kind)
  have bare : Bare settings (repairAfter settings text).content :=
    bare_run valid apart before wordy _ 0
  rw [content_eq]
  have none : (declared settings (repairAfter settings text).content kind).map (·.value.name) = [] := by
    rw [map_name_declared valid fun line mem => (bare line mem).tidy]
    exact List.filterMap_eq_nil_iff.mpr fun line mem => (bare line mem).names kind
  exact List.map_eq_nil_iff.mp none

theorem refused_output (kind : HandleKind) :
    ∀ found ∈ declared settings (scopeHandles settings text).content kind,
      (enclose found (scopeHandles settings text).content
        (freshNames settings (scopeHandles settings text).content)).isOk = false := by
  rw [declared_output valid apart tidy clean kind]
  intro found mem
  cases mem

/-- Only a loose statement can be left to do in it. -/
theorem unchanged_output_iff :
    Unchanged settings (scopeHandles settings text).content ↔
      ∀ found ∈ (LooseStatement.all (scopeHandles settings text).content).head?,
        (Repair.mend { content := (scopeHandles settings text).content
                       names := freshNames settings (scopeHandles settings text).content } found).isOk =
          false := by
  rw [unchanged_iff_settled, Settled]
  exact and_iff_right (refused_output valid apart tidy clean)

/-- Without loose statements nothing is left to do in it. -/
theorem unchanged_output_of_all_eq_nil
    (none : LooseStatement.all (scopeHandles settings text).content = []) :
    Unchanged settings (scopeHandles settings text).content := by
  rw [unchanged_output_iff valid apart tidy clean, none]
  intro found mem
  cases mem

theorem unchanged_output_of_found_eq_zero
    (nothing : (scopeHandles settings text).statements.found = 0) :
    Unchanged settings (scopeHandles settings text).content := by
  have none : LooseStatement.all (passAfter settings text .query).content = [] :=
    List.eq_nil_of_length_eq_zero nothing
  have same : (scopeHandles settings text).content = (passAfter settings text .query).content := by
    rw [content_eq, repairAfter, repairStatements, none]
    rfl
  exact unchanged_output_of_all_eq_nil valid apart tidy clean (same ▸ none)

/-- A second run finds the loose statements of what the first one has made of the text. -/
theorem found_output_eq :
    (scopeHandles settings (scopeHandles settings text).content).statements.found =
      (LooseStatement.all (scopeHandles settings text).content).length := by
  obtain ⟨content, _⟩ := passAfter_query_of_idle
    (idle_iff_refused.mpr (refused_output valid apart tidy clean))
  rw [statements_eq, Repair.summary, content]

/-- **What a completed run leaves to a second one** stands in the headers that it has mended. -/
theorem found_output_eq_zero_iff
    (complete : (scopeHandles settings text).statements.error = none) :
    (scopeHandles settings (scopeHandles settings text).content).statements.found = 0 ∧
        Unchanged settings (scopeHandles settings text).content ↔
      ∀ mend ∈ mendsAfter settings text, LooseStatement.all mend.header = [] := by
  rw [found_output_eq valid apart tidy clean, List.length_eq_zero_iff,
    and_iff_left_of_imp (unchanged_output_of_all_eq_nil valid apart tidy clean)]
  simp only [all_eq_nil_iff]
  exact headers_repaired_eq_zero_iff complete

omit clean in
/-- **When a mended header holds no other.** -/
theorem all_header_eq_nil_iff : ∀ mend ∈ mendsAfter settings text,
    (LooseStatement.all mend.header = [] ↔
      ¬ creation ++ ['.'] <:+: trim mend.loose.statement ∧
        ∀ before line, mend.loose.chain = before ++ '\n' :: line →
          LooseStatement.read? line = none) := by
  intro mend mem
  obtain ⟨_, wordy, _⟩ := names_passAfter valid apart tidy
  obtain ⟨⟨source, read⟩, isWord⟩ := Repair.forall_mem_mends wordy mend mem
  rw [all_eq_nil_iff]
  exact mend.headers_eq_zero_iff read isWord

end Tidy

/-- **A second run.** A run leaves a text as it is exactly if nothing is left to do in it. If a first run
over a tidy text skips nothing, then nothing but a loose statement is left to do in what it makes of the
text, and nothing at all if it finds no loose statement. If it finds some and completes their repair, then a
second run finds and changes nothing exactly if no header that was mended holds another: no statement is made
from another one that was just made, and no line of a chain begins a header. -/
theorem second_run_unchanged (settings : Settings) (text : Text) :
    (Unchanged settings (scopeHandles settings text).content ↔
      Settled settings (scopeHandles settings text).content) ∧
    (settings.validate = .ok () → settings.Apart → Tidy settings text →
      (scopeHandles settings text).skipped = [] →
      (∀ kind, declared settings (scopeHandles settings text).content kind = []) ∧
      ((scopeHandles settings text).statements.found = 0 →
        Unchanged settings (scopeHandles settings text).content) ∧
      ((scopeHandles settings text).statements.error = none →
        ((scopeHandles settings (scopeHandles settings text).content).statements.found = 0 ∧
            Unchanged settings (scopeHandles settings text).content ↔
          ∀ mend ∈ mendsAfter settings text, LooseStatement.all mend.header = []) ∧
        ∀ mend ∈ mendsAfter settings text, (LooseStatement.all mend.header = [] ↔
          ¬ creation ++ ['.'] <:+: trim mend.loose.statement ∧
            ∀ before line, mend.loose.chain = before ++ '\n' :: line →
              LooseStatement.read? line = none))) := by
  refine ⟨unchanged_iff_settled, fun valid apart tidy clean => ⟨?_, ?_, fun complete => ⟨?_, ?_⟩⟩⟩
  · exact declared_output valid apart tidy clean
  · exact unchanged_output_of_found_eq_zero valid apart tidy clean
  · exact found_output_eq_zero_iff valid apart tidy clean complete
  · exact all_header_eq_nil_iff valid apart tidy

/-- A query, a cursor in its block, and a handle declared as null. -/
def queryBlock : Text :=
  "\x7b\n ResultSet n = null;\n PreparedStatement p = c.prepareStatement(s);\n"
    ++ " ResultSet a = p.executeQuery();\n a.next();\n\x7d\n" |>.toList

/-- A cursor, and a header with a loose statement. -/
def looseBlock : Text :=
  "\x7b\n ResultSet a = q();\n a.next();\n\x7d\n".toList ++
    "try (B b = c.createStatement().r()) \x7b\n\x7d\n".toList

set_option maxRecDepth 100000 in
theorem queryBlock_unchanged :
    (Tidy {} queryBlock ∧ (scopeHandles {} queryBlock).changed = true ∧
      Unchanged {} (scopeHandles {} queryBlock).content) ∧
    Tidy {} looseBlock ∧ (scopeHandles {} looseBlock).cursors.enclosed = 1 ∧
      (scopeHandles {} looseBlock).statements = { found := 1, repaired := 1, error := none } ∧
      Unchanged {} (scopeHandles {} looseBlock).content := by
  have valid : Settings.validate {} = .ok () := by decide +kernel
  have tidy : Tidy {} queryBlock := by decide +kernel
  have looseTidy : Tidy {} looseBlock := by decide +kernel
  have done : (scopeHandles {} looseBlock).statements = { found := 1, repaired := 1, error := none } := by
    decide +kernel
  obtain ⟨_, idle, _⟩ := (second_run_unchanged {} queryBlock).2 valid Settings.apart_default tidy
    (by decide +kernel)
  obtain ⟨_, _, final⟩ := (second_run_unchanged {} looseBlock).2 valid Settings.apart_default looseTidy
    (by decide +kernel)
  have alone : ∀ mend ∈ mendsAfter {} looseBlock, LooseStatement.all mend.header = [] := by
    decide +kernel
  refine ⟨⟨tidy, by decide +kernel, idle (by decide +kernel)⟩, looseTidy, by decide +kernel, done, ?_⟩
  exact ((final (by rw [done])).1.mpr alone).2

/-- A cursor declared in the initializer of another. -/
def nestedBlock : Text :=
  "\x7b\n ResultSet a = run(() -> \x7b\n ResultSet b = q();\n b.next();\n \x7d);\n\x7d\n".toList

set_option maxRecDepth 100000 in
/-- The first run encloses the outer cursor and skips nothing, the second one encloses the inner one. -/
theorem nestedBlock_changes_again :
    Settings.validate {} = .ok () ∧ (scopeHandles {} nestedBlock).skipped = [] ∧
      (scopeHandles {} nestedBlock).statements.error = none ∧
      (scopeHandles {} (scopeHandles {} nestedBlock).content).changed = true := by
  decide +kernel

end ScopedHandles
