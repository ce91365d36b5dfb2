/-
**A head is read wherever it is laid out.**

What is read of a head is its front, the text up to the equals sign, and nothing behind it. So a head
stays a head before any other text, and a text that cuts its line short has none.

* `Layout.read?_text` — a head that is laid out is read.
* `Layout.fits` — a front ends before the first character that belongs to no front.
* `Layout.renamed` — renaming keeps a front, and its name if the name is not the one exchanged.
-/

import ScopedHandles.Proofs.Head

namespace ScopedHandles

variable {ending : Text}

namespace Layout

/-! ### Reading a layout -/

theorem assigned?_behindType (layout : Layout ending) :
    Head.assigned? layout.behindType = some (layout.name, layout.rest) := by
  have skipped : skipSome isWhiteSpace layout.behindType = some (layout.name ++ layout.behindName) := by
    rw [behindType, List.append_assoc]
    exact skipSome_run layout.gap_nonempty layout.gap_blank layout.not_isWhiteSpace_head_named
  have stop : ∀ c ∈ layout.behindName.head?, isWordChar c = false := fun c first =>
    (layout.not_isWordChar_head_behindName c first).1
  have sign : trimStart layout.behindName = '=' :: layout.rest :=
    dropWhile_run layout.blanks_blank not_isWhiteSpace_head_sign
  unfold Head.assigned?
  rw [skipped]
  simp only [takeWhile_run layout.name_word.chars stop, dropWhile_run layout.name_word.chars stop, sign]
  cases name : layout.name with
  | nil => exact absurd name layout.name_word.nonempty
  | cons c rest => rfl

theorem isSome_typed? (layout : Layout ending) :
    (Head.typed? ending (layout.core ++ layout.behindType)).isSome = true := by
  obtain ⟨run, core, dotted⟩ := layout.core_dotted
  rw [core, List.append_assoc]
  refine isSome_tryRuns dotted ?_
  have after : after? ending (ending ++ layout.behindType) = some layout.behindType :=
    after?_eq_some_iff.mpr rfl
  simp [after, layout.assigned?_behindType]

theorem isSome_marked? (layout : Layout ending) {blanks : Text}
    (mark : layout.mark = "final".toList ++ blanks) (some : blanks ≠ [])
    (blank : ∀ c ∈ blanks, isWhiteSpace c = true) :
    (Head.marked? ending layout.line).isSome = true := by
  have after : after? "final".toList layout.line =
      .some (blanks ++ (layout.core ++ layout.behindType)) := by
    rw [after?_eq_some_iff, line, mark]
    simp only [List.append_assoc]
  cases blanks with
  | nil => exact absurd rfl some
  | cons c rest =>
    unfold Head.marked?
    rw [after]
    simp only [List.cons_append]
    rw [if_pos (blank c List.mem_cons_self)]
    exact isSome_tryRuns (fun d mem => blank d (List.mem_cons_of_mem _ mem)) layout.isSome_typed?

theorem isSome_read? (layout : Layout ending) : (Head.read? ending layout.text).isSome = true := by
  refine isSome_tryRuns layout.indent_blank ?_
  have typed : (Head.marked? ending layout.line <|> Head.typed? ending layout.line).isSome = true := by
    rw [Option.orElse_eq_orElse, Option.orElse_eq_or, Option.isSome_or]
    rcases layout.mark_final with unmarked | ⟨blanks, mark, some, blank⟩
    · have line : layout.line = layout.core ++ layout.behindType := by
        rw [Layout.line, unmarked, List.nil_append]
      rw [line, layout.isSome_typed?, Bool.or_true]
    · rw [layout.isSome_marked? mark some blank, Bool.true_or]
  obtain ⟨found, some⟩ := Option.isSome_iff_exists.mp typed
  simp [some]

/-- **A head that is laid out is read.** -/
theorem read?_text (isWord : Word ending) (layout : Layout ending) :
    Head.read? ending layout.text = some layout.head := by
  obtain ⟨head, read⟩ := Option.isSome_iff_exists.mp layout.isSome_read?
  obtain ⟨twin, same, rfl⟩ := exists_of_read? read
  obtain ⟨indent, mark, core, behind⟩ := twin.unique isWord isWord layout same
  obtain ⟨_, name, _, rest⟩ := twin.unique_behindType layout behind
  rw [read, Layout.head, Layout.head, indent, mark, core, name, rest]

/-! ### Fronts -/

/-- The text up to the equals sign. -/
def front (layout : Layout ending) : Text :=
  layout.indent ++ (layout.mark ++ (layout.core ++ (layout.gap ++ (layout.name ++
    (layout.blanks ++ ['='])))))

theorem text_eq (layout : Layout ending) : layout.text = layout.front ++ layout.rest := by
  simp [text, line, behindType, behindName, front]

/-- The same front before another text. -/
def before (layout : Layout ending) (rest : Text) : Layout ending :=
  { layout with rest }

theorem text_before (layout : Layout ending) (rest : Text) :
    (layout.before rest).text = layout.front ++ rest :=
  text_eq _

/-- A text has one front. -/
theorem front_unique {other : Text} (isWord : Word ending) (otherWord : Word other)
    (layout : Layout ending) (twin : Layout other) (same : layout.text = twin.text) :
    layout.front = twin.front ∧ layout.name = twin.name ∧ layout.rest = twin.rest := by
  obtain ⟨indent, mark, core, behind⟩ := layout.unique isWord otherWord twin same
  obtain ⟨gap, name, blanks, rest⟩ := layout.unique_behindType twin behind
  rw [front, front, indent, mark, core, gap, name, blanks]
  exact ⟨rfl, rfl, rest⟩

/-- The text before the equals sign. -/
def stem (layout : Layout ending) : Text :=
  layout.indent ++ (layout.mark ++ (layout.core ++ (layout.gap ++ (layout.name ++ layout.blanks))))

theorem front_eq (layout : Layout ending) : layout.front = layout.stem ++ ['='] := by
  simp only [front, stem, List.append_assoc]

/-- What a stem is made of. -/
theorem mem_stem (isWord : Word ending) (layout : Layout ending) {c : Char} (mem : c ∈ layout.stem) :
    isWhiteSpace c = true ∨ isDottedChar c = true := by
  simp only [stem, List.mem_append] at mem
  rcases mem with indent | mark | core | gap | name | blanks
  · exact .inl (isWhiteSpace_of_isIndentChar (layout.indent_blank c indent))
  · rcases layout.mark_final with unmarked | ⟨blanks, same, _, blank⟩
    · simp [unmarked] at mark
    · rw [same, List.mem_append] at mark
      rcases mark with final | blanks
      · have dotted : ∀ d ∈ "final".toList, isDottedChar d = true :=
          List.all_eq_true.mp (by decide)
        exact .inr (dotted c final)
      · exact .inl (blank c blanks)
  · exact .inr (layout.isDottedChar_of_mem_core isWord c core)
  · exact .inl (layout.gap_blank c gap)
  · exact .inr (isDottedChar_of_isWordChar (layout.name_word.chars c name))
  · exact .inl (layout.blanks_blank c blanks)

theorem not_mem_stem (isWord : Word ending) (layout : Layout ending) {stop : Char}
    (outside : isWhiteSpace stop = false ∧ isDottedChar stop = false) : stop ∉ layout.stem := by
  intro mem
  rcases layout.mem_stem isWord mem with white | dotted
  · simp [outside.1] at white
  · simp [outside.2] at dotted

theorem not_mem_front (isWord : Word ending) (layout : Layout ending) {stop : Char}
    (outside : isWhiteSpace stop = false ∧ isDottedChar stop = false ∧ stop ≠ '=') :
    stop ∉ layout.front := by
  rw [front_eq, List.mem_append, List.mem_singleton, not_or]
  exact ⟨layout.not_mem_stem isWord ⟨outside.1, outside.2.1⟩, outside.2.2⟩

theorem getLast?_front (layout : Layout ending) : layout.front.getLast? = some '=' := by
  rw [front_eq, List.getLast?_concat]

/-- **A front ends with the first equals sign.** -/
theorem stem_eq_of_sign (isWord : Word ending) (layout : Layout ending) {piece behind : Text}
    (same : layout.text = piece ++ '=' :: behind) (signless : '=' ∉ piece) :
    layout.stem = piece ∧ layout.rest = behind := by
  have split : layout.stem ++ '=' :: layout.rest = piece ++ '=' :: behind := by
    rw [← same, text_eq, front_eq, List.append_assoc, List.singleton_append]
  exact first_unique split (layout.not_mem_stem isWord (by decide)) signless

/-- **A front ends before the first character that belongs to no front**, unless an equals sign stands
between. -/
theorem fits (layout : Layout ending) {piece between behind : Text} {stop : Char}
    (same : layout.text = piece ++ (between ++ stop :: behind)) (signless : '=' ∉ between)
    (outside : stop ∉ layout.front) :
    ∃ later, piece = layout.front ++ later ∧ layout.rest = later ++ (between ++ stop :: behind) := by
  rw [text_eq] at same
  rcases List.append_eq_append_iff.mp same with ⟨more, cut, rest⟩ | ⟨later, cut, rest⟩
  · exact ⟨more, cut, rest⟩
  · by_cases empty : later = []
    · rw [empty, List.append_nil] at cut
      rw [empty, List.nil_append] at rest
      exact ⟨[], by rw [cut, List.append_nil], rest.symm⟩
    · exfalso
      have sign : '=' ∈ later := by
        have last := layout.getLast?_front
        rw [cut, List.getLast?_append_of_ne_nil _ empty] at last
        exact List.mem_of_getLast? last
      rcases List.append_eq_append_iff.mp rest with ⟨more, inside, stopped⟩ | ⟨more, inside, _⟩
      · cases more with
        | nil =>
          rw [inside, List.append_nil] at sign
          exact signless sign
        | cons c more =>
          obtain ⟨rfl, _⟩ := List.cons.inj stopped
          refine outside ?_
          rw [cut, inside]
          exact List.mem_append_right _ (List.mem_append_right _ List.mem_cons_self)
      · rw [inside] at signless
        exact signless (List.mem_append_left _ sign)

/-! ### Renamed fronts -/

section Renamed

variable {old new : Text} {allowed : Text → Prop} {last : Option Char}

/-- A type that is not called `old` keeps its ending. Otherwise the ending would begin in `old` and go on
behind it. -/
theorem core_of_renamed (isWord : Word ending) (oldWord : Word old) (newWord : Word new)
    (free : ¬ ending <:+ old) (layout : Layout ending) {result : Text}
    (renamed : Renamed old new allowed last layout.core result) :
    ∃ run, result = run ++ ending ∧ ∀ c ∈ run, isDottedChar c = true := by
  obtain ⟨run, core, dotted⟩ := layout.core_dotted
  rcases renamed.dotted_cases oldWord (layout.isDottedChar_of_mem_core isWord) with
    rfl | ⟨rest, split, rfl, _, follow⟩
  · exact ⟨run, core, dotted⟩
  · rw [core] at split
    rcases List.append_eq_append_iff.mp split with ⟨more, inOld, inEnding⟩ | ⟨more, inRun, same⟩
    · exfalso
      cases rest with
      | nil =>
        rw [List.append_nil] at inEnding
        exact free ⟨run, by rw [inEnding, ← inOld]⟩
      | cons c rest =>
        have word : isWordChar c = true :=
          isWord.chars c (inEnding ▸ List.mem_append_right _ List.mem_cons_self)
        rw [not_isWordChar_of_mayFollow follow] at word
        exact Bool.noConfusion word
    · refine ⟨new ++ more, by rw [same, List.append_assoc], ?_⟩
      intro c mem
      rcases List.mem_append.mp mem with inNew | inMore
      · exact isDottedChar_of_isWordChar (newWord.chars c inNew)
      · exact dotted c (inRun ▸ List.mem_append_right _ inMore)

/-- A modifier is kept if it is not called `old`. -/
theorem mark_of_renamed (oldWord : Word old) (unmarked : old ≠ "final".toList)
    (layout : Layout ending) {result : Text}
    (renamed : Renamed old new allowed last layout.mark result) : result = layout.mark := by
  rcases layout.mark_final with none | ⟨blanks, mark, some, blank⟩
  · rw [none] at renamed ⊢
    exact renamed.eq_of_no_word oldWord (by simp)
  · rw [mark] at renamed ⊢
    have free : ∀ c ∈ blanks, isWordChar c = false := fun c mem =>
      not_isWordChar_of_isWhiteSpace (blank c mem)
    rw [← List.append_nil blanks] at renamed
    obtain ⟨word, white, rfl, left, right⟩ := renamed.split oldWord (edge_of_right some free)
    rw [List.append_nil] at right
    rw [right.eq_of_no_word oldWord free]
    have words : ∀ c ∈ "final".toList, isWordChar c = true :=
      List.all_eq_true.mp (by decide +kernel)
    rcases left.word_cases oldWord words with rfl | ⟨same, _, _⟩
    · rfl
    · exact absurd same.symm unmarked

theorem not_isWordChar_getLast?_mark (layout : Layout ending) :
    ∀ c ∈ layout.mark.getLast?, isWordChar c = false := by
  intro c last
  rcases layout.mark_final with none | ⟨blanks, mark, some, blank⟩
  · simp [none] at last
  · rw [mark, List.getLast?_append_of_ne_nil _ some] at last
    exact not_isWordChar_of_isWhiteSpace (blank c (List.mem_of_getLast? last))

theorem edge_mark (layout : Layout ending) {later : Text} : Edge layout.mark later :=
  .inl layout.not_isWordChar_getLast?_mark

/-- **Renaming keeps a front**, if `old` is neither the modifier nor a type. Its name is kept too, or is the
one that is exchanged. The text is cut at each part of the front, and each part is kept or is a word by
itself. -/
theorem renamed (isWord : Word ending) (oldWord : Word old) (newWord : Word new)
    (unmarked : old ≠ "final".toList) (free : ¬ ending <:+ old) (layout : Layout ending)
    {result : Text} (renamed : Renamed old new allowed last layout.front result) :
    ∃ twin : Layout ending, result = twin.front ∧
      (twin.name = layout.name ∨ layout.name = old ∧ allowed (layout.blanks ++ ['='])) := by
  have indentFree : ∀ c ∈ layout.indent, isWordChar c = false := fun c mem =>
    not_isWordChar_of_isWhiteSpace (isWhiteSpace_of_isIndentChar (layout.indent_blank c mem))
  have gapFree : ∀ c ∈ layout.gap, isWordChar c = false := fun c mem =>
    not_isWordChar_of_isWhiteSpace (layout.gap_blank c mem)
  have signFree : ∀ c ∈ layout.blanks ++ ['='], isWordChar c = false := by
    intro c mem
    rcases List.mem_append.mp mem with blank | sign
    · exact not_isWordChar_of_isWhiteSpace (layout.blanks_blank c blank)
    · rw [List.mem_singleton.mp sign]
      decide
  unfold front at renamed
  obtain ⟨indent, _, rfl, onIndent, onLine⟩ := renamed.split oldWord (edge_of_left indentFree)
  obtain ⟨mark, _, rfl, onMark, onType⟩ := onLine.split oldWord layout.edge_mark
  obtain ⟨core, _, rfl, onCore, behindType⟩ :=
    onType.split oldWord (edge_of_right layout.gap_nonempty gapFree)
  obtain ⟨gap, _, rfl, onGap, behindGap⟩ := behindType.split oldWord (edge_of_left gapFree)
  obtain ⟨name, sign, rfl, onName, onSign⟩ := behindGap.split oldWord
    (.inr fun c first => signFree c (List.mem_of_mem_head? first))
  obtain rfl := onIndent.eq_of_no_word oldWord indentFree
  obtain rfl := layout.mark_of_renamed oldWord unmarked onMark
  obtain rfl := onGap.eq_of_no_word oldWord gapFree
  obtain rfl := onSign.eq_of_no_word oldWord signFree
  have dotted := layout.core_of_renamed isWord oldWord newWord free onCore
  have named := onName.word_cases oldWord layout.name_word.chars
  have nameWord : Word name := by
    rcases named with rfl | ⟨_, rfl, _⟩
    · exact layout.name_word
    · exact newWord
  refine ⟨{ layout with core, name, core_dotted := dotted, name_word := nameWord }, rfl, ?_⟩
  rcases named with same | ⟨same, _, stays⟩
  · exact .inl same
  · exact .inr ⟨same, stays⟩

end Renamed

end Layout

end ScopedHandles
