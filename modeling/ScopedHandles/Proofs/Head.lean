/-
**The layout of a head.**

A head reads indentation, a type, white space, a name, white space, an equals sign. `Layout` holds these
parts together with what makes them such parts.

* `Layout.exists_of_read?` — every head that is read has a layout.
* `Layout.unique` — a text is laid out in one way.
-/

import ScopedHandles.Declaration.Scan
import ScopedHandles.Proofs.Renaming
import ScopedHandles.Proofs.Search

namespace ScopedHandles

/-- A modifier before a type: nothing, or `final` and white space. -/
def IsMark (mark : Text) : Prop :=
  mark = [] ∨ ∃ blanks, mark = "final".toList ++ blanks ∧ blanks ≠ [] ∧
    ∀ c ∈ blanks, isWhiteSpace c = true

/-- The parts of a head whose type ends in `ending`, and the text behind its equals sign. -/
structure Layout (ending : Text) where
  indent : Text
  mark : Text
  core : Text
  gap : Text
  name : Text
  blanks : Text
  rest : Text
  indent_blank : ∀ c ∈ indent, isIndentChar c = true
  mark_final : IsMark mark
  core_dotted : ∃ run, core = run ++ ending ∧ ∀ c ∈ run, isDottedChar c = true
  gap_nonempty : gap ≠ []
  gap_blank : ∀ c ∈ gap, isWhiteSpace c = true
  name_word : Word name
  blanks_blank : ∀ c ∈ blanks, isWhiteSpace c = true

namespace Layout

variable {ending : Text}

/-- The text behind the name. -/
def behindName (layout : Layout ending) : Text :=
  layout.blanks ++ '=' :: layout.rest

/-- The text behind the type. -/
def behindType (layout : Layout ending) : Text :=
  layout.gap ++ layout.name ++ layout.behindName

/-- The text behind the indentation. -/
def line (layout : Layout ending) : Text :=
  layout.mark ++ layout.core ++ layout.behindType

/-- The text that is laid out. -/
def text (layout : Layout ending) : Text :=
  layout.indent ++ layout.line

/-- The head that is read off the text. -/
def head (layout : Layout ending) : Head where
  indent := layout.indent
  declaredType := layout.mark ++ layout.core
  name := layout.name
  rest := layout.rest

end Layout

/-! ### Reading the parts -/

namespace Head

theorem eq_of_assigned? {text name rest : Text} (read : assigned? text = some (name, rest)) :
    ∃ gap blanks, text = gap ++ name ++ (blanks ++ '=' :: rest) ∧ gap ≠ [] ∧
      (∀ c ∈ gap, isWhiteSpace c = true) ∧ Word name ∧ ∀ c ∈ blanks, isWhiteSpace c = true := by
  unfold assigned? at read
  split at read
  · simp at read
  · next named skipped =>
    obtain ⟨gap, rfl, nonempty, blank, _⟩ := eq_of_skipSome skipped
    split at read
    · simp at read
    · next sign some =>
      obtain ⟨rfl, rfl⟩ := Prod.mk.inj (Option.some.inj read)
      refine ⟨gap, (named.dropWhile isWordChar).takeWhile isWhiteSpace, ?_, nonempty, blank,
        ⟨some, fun c mem => List.mem_takeWhile_imp mem⟩,
        fun c mem => List.mem_takeWhile_imp mem⟩
      rw [List.append_assoc, ← sign, trimStart, List.takeWhile_append_dropWhile,
        List.takeWhile_append_dropWhile]
    · simp at read

theorem eq_of_typed? {ending text untyped name rest : Text}
    (read : typed? ending text = some (untyped, name, rest)) :
    ∃ run, text = run ++ ending ++ untyped ∧ (∀ c ∈ run, isDottedChar c = true) ∧
      assigned? untyped = some (name, rest) := by
  obtain ⟨run, later, rfl, dotted, found⟩ := exists_of_tryRuns read
  simp only [Option.bind_eq_bind, Option.bind_eq_some_iff, Option.pure_def, Option.some.injEq,
    Prod.mk.injEq, Prod.exists] at found
  obtain ⟨behind, after, name', rest', assigned, rfl, rfl, rfl⟩ := found
  rw [after?_eq_some_iff.mp after]
  exact ⟨run, by simp, dotted, assigned⟩

theorem eq_of_marked? {ending text untyped name rest : Text}
    (read : marked? ending text = some (untyped, name, rest)) :
    ∃ blanks typed, text = "final".toList ++ blanks ++ typed ∧ blanks ≠ [] ∧
      (∀ c ∈ blanks, isWhiteSpace c = true) ∧ typed? ending typed = some (untyped, name, rest) := by
  unfold marked? at read
  split at read
  · simp at read
  · simp at read
  · next c later after =>
    split_ifs at read with blank
    obtain ⟨run, typed, rfl, blanks, found⟩ := exists_of_tryRuns read
    refine ⟨c :: run, typed, ?_, by simp, ?_, found⟩
    · rw [after?_eq_some_iff.mp after]
      simp
    · intro d mem
      rcases List.mem_cons.mp mem with rfl | mem
      · exact blank
      · exact blanks d mem

/-- A type with or without a modifier, behind which the name is assigned. -/
theorem eq_of_marked?_or_typed? {ending line untyped name rest : Text}
    (read : (marked? ending line <|> typed? ending line) = some (untyped, name, rest)) :
    ∃ mark run, line = mark ++ (run ++ ending) ++ untyped ∧ IsMark mark ∧
      (∀ c ∈ run, isDottedChar c = true) ∧ assigned? untyped = some (name, rest) := by
  rw [Option.orElse_eq_orElse, Option.orElse_eq_or] at read
  rcases Option.or_eq_some_iff.mp read with marked | ⟨_, typed⟩
  · obtain ⟨blanks, behind, rfl, nonempty, blank, typed⟩ := eq_of_marked? marked
    obtain ⟨run, rfl, dotted, assigned⟩ := eq_of_typed? typed
    exact ⟨_, run, by simp, .inr ⟨blanks, rfl, nonempty, blank⟩, dotted, assigned⟩
  · obtain ⟨run, rfl, dotted, assigned⟩ := eq_of_typed? typed
    exact ⟨[], run, by simp, .inl rfl, dotted, assigned⟩

end Head

/-- **Every head that is read has a layout.** -/
theorem Layout.exists_of_read? {ending text : Text} {head : Head}
    (read : Head.read? ending text = some head) :
    ∃ layout : Layout ending, layout.text = text ∧ layout.head = head := by
  obtain ⟨indent, line, rfl, blank, found⟩ := exists_of_tryRuns read
  simp only [Option.bind_eq_bind, Option.bind_eq_some_iff, Option.pure_def, Option.some.injEq,
    Prod.exists] at found
  obtain ⟨untyped, name, rest, typed, rfl⟩ := found
  obtain ⟨mark, run, rfl, final, dotted, assigned⟩ := Head.eq_of_marked?_or_typed? typed
  obtain ⟨gap, blanks, rfl, nonempty, gapBlank, word, blanksBlank⟩ := Head.eq_of_assigned? assigned
  refine ⟨⟨indent, mark, run ++ ending, gap, name, blanks, rest, blank, final, ⟨run, rfl, dotted⟩,
    nonempty, gapBlank, word, blanksBlank⟩, ?_, ?_⟩
  · rfl
  · simp only [Layout.head, upTo_append]

/-! ### The layout of a text is unique -/

namespace Layout

variable {ending other : Text}

theorem isDottedChar_of_mem_core (isWord : Word ending) (layout : Layout ending) :
    ∀ c ∈ layout.core, isDottedChar c = true := by
  obtain ⟨run, same, dotted⟩ := layout.core_dotted
  intro c mem
  rw [same, List.mem_append] at mem
  rcases mem with inRun | inEnding
  · exact dotted c inRun
  · exact isDottedChar_of_isWordChar (isWord.chars c inEnding)

theorem core_nonempty (isWord : Word ending) (layout : Layout ending) : layout.core ≠ [] := by
  obtain ⟨run, same, _⟩ := layout.core_dotted
  rw [same]
  exact List.append_ne_nil_of_right_ne_nil _ isWord.nonempty

/-- A type or a modifier begins the line. -/
theorem isDottedChar_head_line (isWord : Word ending) (layout : Layout ending) :
    ∀ c ∈ layout.line.head?, isDottedChar c = true := by
  intro c first
  rcases layout.mark_final with unmarked | ⟨blanks, marked, _, _⟩
  · rw [line, unmarked, List.nil_append, List.head?_append_of_ne_nil _ (layout.core_nonempty isWord)]
      at first
    exact layout.isDottedChar_of_mem_core isWord c (List.mem_of_mem_head? first)
  · rw [line, marked] at first
    obtain rfl : 'f' = c := Option.some.inj first
    decide

/-- A dotted name does not begin with white space. -/
theorem not_isWhiteSpace_head_run {run later : Text} (some : run ≠ [])
    (dotted : ∀ c ∈ run, isDottedChar c = true) :
    ∀ c ∈ (run ++ later).head?, isWhiteSpace c = false := by
  intro c first
  rw [List.head?_append_of_ne_nil _ some] at first
  exact not_isWhiteSpace_of_isDottedChar (dotted c (List.mem_of_mem_head? first))

theorem not_isWhiteSpace_head_typed (isWord : Word ending) (layout : Layout ending) :
    ∀ c ∈ (layout.core ++ layout.behindType).head?, isWhiteSpace c = false :=
  not_isWhiteSpace_head_run (layout.core_nonempty isWord) (layout.isDottedChar_of_mem_core isWord)

theorem not_isWhiteSpace_head_named (layout : Layout ending) :
    ∀ c ∈ (layout.name ++ layout.behindName).head?, isWhiteSpace c = false :=
  not_isWhiteSpace_head_run layout.name_word.nonempty fun c mem =>
    isDottedChar_of_isWordChar (layout.name_word.chars c mem)

theorem not_isWhiteSpace_head_sign {rest : Text} :
    ∀ c ∈ ('=' :: rest).head?, isWhiteSpace c = false :=
  forall_mem_some (by decide)

theorem isWhiteSpace_head_behindType (layout : Layout ending) :
    ∀ c ∈ layout.behindType.head?, isWhiteSpace c = true := by
  intro c first
  rw [behindType, List.append_assoc, List.head?_append_of_ne_nil _ layout.gap_nonempty] at first
  exact layout.gap_blank c (List.mem_of_mem_head? first)

theorem not_isWordChar_head_behindName (layout : Layout ending) :
    ∀ c ∈ layout.behindName.head?, isWordChar c = false ∧ isDottedChar c = false := by
  intro c first
  rw [behindName] at first
  cases blanks : layout.blanks with
  | nil =>
    rw [blanks] at first
    obtain rfl : '=' = c := Option.some.inj first
    decide
  | cons blank later =>
    rw [blanks] at first
    obtain rfl : blank = c := Option.some.inj first
    have white := layout.blanks_blank blank (by rw [blanks]; exact List.mem_cons_self)
    exact ⟨not_isWordChar_of_isWhiteSpace white, not_isDottedChar_of_isWhiteSpace white⟩

/-- A name is assigned in one way. -/
theorem unique_behindType (layout : Layout ending) (twin : Layout other)
    (same : layout.behindType = twin.behindType) :
    layout.gap = twin.gap ∧ layout.name = twin.name ∧ layout.blanks = twin.blanks ∧
      layout.rest = twin.rest := by
  simp only [behindType, List.append_assoc] at same
  obtain ⟨gap, named⟩ := run_unique same layout.gap_blank layout.not_isWhiteSpace_head_named
    twin.gap_blank twin.not_isWhiteSpace_head_named
  obtain ⟨name, assigned⟩ := run_unique named layout.name_word.chars
    (fun c first => (layout.not_isWordChar_head_behindName c first).1) twin.name_word.chars
    (fun c first => (twin.not_isWordChar_head_behindName c first).1)
  obtain ⟨blanks, rest⟩ := run_unique assigned layout.blanks_blank not_isWhiteSpace_head_sign
    twin.blanks_blank not_isWhiteSpace_head_sign
  exact ⟨gap, name, blanks, (List.cons.inj rest).2⟩

theorem not_isDottedChar_head_behindType (layout : Layout ending) :
    ∀ c ∈ layout.behindType.head?, isDottedChar c = false := fun c first =>
  not_isDottedChar_of_isWhiteSpace (layout.isWhiteSpace_head_behindType c first)

/-- A type that is called `final` is not a modifier: behind the one stands an equals sign after the
next word, behind the other a second word. -/
theorem not_marked_of_unmarked {blanks : Text} (otherWord : Word other) (layout : Layout ending)
    (twin : Layout other) (blank : ∀ c ∈ blanks, isWhiteSpace c = true)
    (same : layout.behindType = blanks ++ (twin.core ++ twin.behindType)) : False := by
  rw [behindType, List.append_assoc] at same
  obtain ⟨_, named⟩ := run_unique same layout.gap_blank layout.not_isWhiteSpace_head_named blank
    (twin.not_isWhiteSpace_head_typed otherWord)
  obtain ⟨_, assigned⟩ := run_unique named
    (fun c mem => isDottedChar_of_isWordChar (layout.name_word.chars c mem))
    (fun c first => (layout.not_isWordChar_head_behindName c first).2)
    (twin.isDottedChar_of_mem_core otherWord) twin.not_isDottedChar_head_behindType
  rw [behindName, behindType, List.append_assoc] at assigned
  obtain ⟨_, sign⟩ := run_unique assigned layout.blanks_blank not_isWhiteSpace_head_sign
    twin.gap_blank twin.not_isWhiteSpace_head_named
  have word : ∀ c ∈ ('=' :: layout.rest).head?, isWordChar c = true := by
    intro c first
    rw [sign, List.head?_append_of_ne_nil _ twin.name_word.nonempty] at first
    exact twin.name_word.chars c (List.mem_of_mem_head? first)
  exact absurd (word '=' rfl) (by decide)

/-- A type with a modifier is not read as a type without one. -/
theorem unmarked_of_unmarked (isWord : Word ending) (otherWord : Word other)
    (layout : Layout ending) (twin : Layout other) (same : layout.line = twin.line)
    (unmarked : layout.mark = []) : twin.mark = [] := by
  rcases twin.mark_final with twinUnmarked | ⟨blanks, marked, some, blank⟩
  · exact twinUnmarked
  · exfalso
    simp only [line, unmarked, marked, List.append_assoc, List.nil_append] at same
    have stop : ∀ c ∈ (blanks ++ (twin.core ++ twin.behindType)).head?, isDottedChar c = false := by
      intro c first
      rw [List.head?_append_of_ne_nil _ some] at first
      exact not_isDottedChar_of_isWhiteSpace (blank c (List.mem_of_mem_head? first))
    obtain ⟨_, behind⟩ := run_unique same (layout.isDottedChar_of_mem_core isWord)
      layout.not_isDottedChar_head_behindType (List.all_eq_true.mp (by decide)) stop
    exact not_marked_of_unmarked otherWord layout twin blank behind

/-- **A text is laid out in one way.** -/
theorem unique (isWord : Word ending) (otherWord : Word other) (layout : Layout ending)
    (twin : Layout other) (same : layout.text = twin.text) :
    layout.indent = twin.indent ∧ layout.mark = twin.mark ∧ layout.core = twin.core ∧
      layout.behindType = twin.behindType := by
  have types : layout.core ++ layout.behindType = twin.core ++ twin.behindType →
      layout.core = twin.core ∧ layout.behindType = twin.behindType := fun same =>
    run_unique same (layout.isDottedChar_of_mem_core isWord) layout.not_isDottedChar_head_behindType
      (twin.isDottedChar_of_mem_core otherWord) twin.not_isDottedChar_head_behindType
  obtain ⟨indent, line⟩ := run_unique same layout.indent_blank
    (fun c first => not_isIndentChar_of_isDottedChar (layout.isDottedChar_head_line isWord c first))
    twin.indent_blank
    (fun c first => not_isIndentChar_of_isDottedChar (twin.isDottedChar_head_line otherWord c first))
  by_cases unmarked : layout.mark = []
  · have twinUnmarked := layout.unmarked_of_unmarked isWord otherWord twin line unmarked
    simp only [Layout.line, unmarked, twinUnmarked, List.nil_append] at line
    exact ⟨indent, unmarked.trans twinUnmarked.symm, types line⟩
  · have twinMarked : twin.mark ≠ [] := fun twinUnmarked =>
      unmarked (twin.unmarked_of_unmarked otherWord isWord layout line.symm twinUnmarked)
    obtain ⟨blanks, mark, _, blank⟩ := layout.mark_final.resolve_left unmarked
    obtain ⟨others, twinMark, _, otherBlank⟩ := twin.mark_final.resolve_left twinMarked
    simp only [Layout.line, mark, twinMark, List.append_assoc, List.append_cancel_left_eq] at line
    obtain ⟨sameBlanks, typed⟩ := run_unique line blank (layout.not_isWhiteSpace_head_typed isWord)
      otherBlank (twin.not_isWhiteSpace_head_typed otherWord)
    exact ⟨indent, by rw [mark, twinMark, sameBlanks], types typed⟩

end Layout

/-! ### Declarations -/

namespace Declaration

variable {kind : HandleKind} {ending : Text} {last : Option Char} {text : Text}
  {declaration : Declaration} {length : Nat}

/-- What a probe recognises is a head at the beginning of a line, and what `ofHead` makes of it. -/
theorem exists_layout_of_probe (found : probe kind ending last text = .hit declaration length) :
    ∃ layout : Layout ending, layout.text = text ∧ beginsLine last = true ∧
      ofHead kind layout.head (text.length - layout.rest.length) = .hit declaration length := by
  unfold probe at found
  split_ifs at found with begins
  split at found
  · simp at found
  · next head read =>
    obtain ⟨layout, same, rfl⟩ := Layout.exists_of_read? read
    exact ⟨layout, same, begins, found⟩

/-- A declaration has the kind that is looked for, and the indentation and the name of its head. -/
theorem eq_of_ofHead {head : Head} {size : Nat}
    (found : ofHead kind head size = .hit declaration length) :
    declaration.kind = kind ∧ declaration.indent = head.indent ∧ declaration.name = head.name ∧
      declaration.declaredType = head.declaredType ∧ length = declaration.length ∧ size ≤ length := by
  obtain ⟨indent, declaredType, name, rest⟩ := head
  simp only [ofHead] at found
  split_ifs at found
  split at found
  · obtain ⟨rfl, rfl⟩ := Probe.hit.inj found
    exact ⟨rfl, rfl, rfl, rfl, rfl, le_rfl⟩
  · split_ifs at found
    obtain ⟨rfl, rfl⟩ := Probe.hit.inj found
    exact ⟨rfl, rfl, rfl, rfl, rfl, by omega⟩

theorem advances_probe (kind : HandleKind) (ending : Text) :
    Advances (probe kind ending) Declaration.length := by
  intro last text value length found
  obtain ⟨layout, rfl, _, found⟩ := exists_layout_of_probe found
  obtain ⟨_, _, _, _, same, size⟩ := eq_of_ofHead found
  refine ⟨same, lt_of_lt_of_le ?_ size⟩
  simp only [Layout.text, Layout.line, Layout.behindType, Layout.behindName, List.length_append,
    List.length_cons]
  omega

end Declaration

end ScopedHandles
