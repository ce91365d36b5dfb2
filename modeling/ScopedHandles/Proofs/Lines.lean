/-
**The lines of a text.**

A search for declarations looks at the beginnings of lines only. `linesFrom` lists the texts that begin
there, each up to the end of the whole text, and `firstWord` is the dotted name that a line begins with.

* `linesFrom_append` — the lines of two pieces.
* `Sealed` — pieces behind whose end no first word goes on.
* `Renamed.lines` — a renamed text has the same lines, renamed.
-/

import ScopedHandles.Proofs.Reading

namespace ScopedHandles

/-! ### The lines of a text -/

/-- The texts that begin with the lines of a text, where `begins` says whether a line begins with it. -/
def linesFrom (begins : Bool) : Text → List Text
  | [] => []
  | c :: rest =>
    if begins then (c :: rest) :: linesFrom (c == '\n') rest else linesFrom (c == '\n') rest

/-- Whether a line begins behind a text. -/
def endsLine (begins : Bool) : Text → Bool
  | [] => begins
  | c :: rest => endsLine (c == '\n') rest

theorem endsLine_append (begins : Bool) (text later : Text) :
    endsLine begins (text ++ later) = endsLine (endsLine begins text) later := by
  induction text generalizing begins with
  | nil => rfl
  | cons c rest ih => exact ih _

theorem endsLine_eq (last : Option Char) (text : Text) :
    endsLine (beginsLine last) text = beginsLine (text.getLast?.or last) := by
  induction text generalizing last with
  | nil => simp [endsLine]
  | cons c rest ih =>
    rw [getLast?_cons_or]
    exact ih (some c)

/-- Before the beginning of a line stands a line break, or nothing. -/
theorem eq_newline_of_endsLine {text : Text} (ends : endsLine true text = true) :
    ∀ c ∈ text.getLast?, c = '\n' := by
  intro c last
  have begins := (endsLine_eq none text).symm.trans ends
  rw [Option.mem_def.mp last] at begins
  exact beq_iff_eq.mp begins

/-- **The lines of two pieces.** Those of the first go on through the second. -/
theorem linesFrom_append (begins : Bool) (text later : Text) :
    linesFrom begins (text ++ later) =
      (linesFrom begins text).map (· ++ later) ++ linesFrom (endsLine begins text) later := by
  induction text generalizing begins with
  | nil => rfl
  | cons c rest ih =>
    rw [List.cons_append, linesFrom, linesFrom, endsLine, ih]
    cases begins <;> rfl

/-- A line is an end piece of the text, and is not empty. -/
theorem exists_of_mem_linesFrom {begins : Bool} {text line : Text} (mem : line ∈ linesFrom begins text) :
    line ≠ [] ∧ ∃ before, text = before ++ line ∧ endsLine begins before = true := by
  induction text generalizing begins with
  | nil => simp [linesFrom] at mem
  | cons c rest ih =>
    have later : line ∈ linesFrom (c == '\n') rest →
        line ≠ [] ∧ ∃ before, c :: rest = before ++ line ∧ endsLine begins before = true := by
      intro mem
      obtain ⟨some, before, rfl, ends⟩ := ih mem
      exact ⟨some, c :: before, rfl, ends⟩
    rw [linesFrom] at mem
    split_ifs at mem with first
    · rcases List.mem_cons.mp mem with rfl | mem
      · exact ⟨by simp, [], rfl, first⟩
      · exact later mem
    · exact later mem

theorem mem_linesFrom {begins : Bool} {before line : Text} (some : line ≠ [])
    (ends : endsLine begins before = true) : line ∈ linesFrom begins (before ++ line) := by
  obtain ⟨c, rest, rfl⟩ := List.exists_cons_of_ne_nil some
  rw [linesFrom_append, ends]
  exact List.mem_append_right _ List.mem_cons_self

/-- A text behind which a line begins ends with a line break. -/
theorem exists_of_endsLine {text : Text} (ends : endsLine false text = true) :
    ∃ before, text = before ++ ['\n'] := by
  obtain ⟨before, last, rfl⟩ := (List.eq_nil_or_concat text).resolve_left (by rintro rfl; cases ends)
  rw [List.concat_eq_append] at ends ⊢
  rw [endsLine_append] at ends
  exact ⟨before, by rw [beq_iff_eq.mp ends]⟩

/-- A line of a piece ends with the last character of the piece. -/
theorem exists_init_of_mem_linesFrom {begins : Bool} {body line : Text} {stop : Char}
    (mem : line ∈ linesFrom begins (body ++ [stop])) :
    ∃ before init, body = before ++ init ∧ line = init ++ [stop] := by
  obtain ⟨some, before, whole, _⟩ := exists_of_mem_linesFrom mem
  obtain ⟨init, last, rfl⟩ := (List.eq_nil_or_concat line).resolve_left some
  rw [List.concat_eq_append, ← List.append_assoc] at whole
  obtain ⟨rfl, same⟩ := List.append_inj' whole rfl
  rw [List.concat_eq_append, ← same]
  exact ⟨before, init, rfl, rfl⟩

/-- A line of a piece behind which a line begins ends with a line break. -/
theorem getLast?_of_mem_linesFrom {text line : Text} (ends : endsLine true text = true)
    (mem : line ∈ linesFrom true text) : line.getLast? = some '\n' := by
  obtain ⟨nonempty, before, rfl, _⟩ := exists_of_mem_linesFrom mem
  obtain ⟨init, last, rfl⟩ := (List.eq_nil_or_concat line).resolve_left nonempty
  have newline := eq_newline_of_endsLine ends last (by simp)
  simp [newline]

theorem mem_linesFrom_of_false {begins : Bool} {text line : Text} (mem : line ∈ linesFrom false text) :
    line ∈ linesFrom begins text := by
  cases begins with
  | false => exact mem
  | true =>
    cases text with
    | nil => exact mem
    | cons c rest => exact List.mem_cons_of_mem _ mem

/-- Lines behind a piece are lines of the text. -/
theorem mem_linesFrom_behind {begins : Bool} {piece later line : Text}
    (mem : line ∈ linesFrom (endsLine begins piece) later) :
    line ∈ linesFrom begins (piece ++ later) := by
  rw [linesFrom_append]
  exact List.mem_append_right _ mem

/-- A line of a piece is a line of the text. -/
theorem mem_linesFrom_inside {begins : Bool} {text before part later piece : Text}
    (whole : text = before ++ (part ++ later)) (mem : piece ∈ linesFrom false part) :
    piece ++ later ∈ linesFrom begins text := by
  rw [whole]
  refine mem_linesFrom_behind ?_
  rw [linesFrom_append]
  exact List.mem_append_left _ (List.mem_map_of_mem (mem_linesFrom_of_false mem))

/-! ### Pieces without a line break -/

theorem linesFrom_false_of_no_newline {text : Text} (single : '\n' ∉ text) :
    linesFrom false text = [] := by
  induction text with
  | nil => rfl
  | cons c rest ih =>
    have other : (c == '\n') = false := by
      rw [beq_eq_false_iff_ne]
      rintro rfl
      exact single List.mem_cons_self
    rw [linesFrom, other]
    exact ih fun mem => single (List.mem_cons_of_mem _ mem)

theorem endsLine_of_no_newline {text : Text} (single : '\n' ∉ text) : endsLine false text = false := by
  induction text with
  | nil => rfl
  | cons c rest ih =>
    have other : (c == '\n') = false := by
      rw [beq_eq_false_iff_ne]
      rintro rfl
      exact single List.mem_cons_self
    rw [endsLine, other]
    exact ih fun mem => single (List.mem_cons_of_mem _ mem)

/-- No line begins inside of a piece without a line end. -/
theorem linesFrom_single_append {piece : Text} (some : piece ≠ []) (single : '\n' ∉ piece)
    (begins : Bool) (later : Text) :
    linesFrom begins (piece ++ later) =
      (if begins then [piece ++ later] else []) ++ linesFrom false later := by
  have inner : linesFrom false (piece ++ later) = linesFrom false later := by
    rw [linesFrom_append, linesFrom_false_of_no_newline single, endsLine_of_no_newline single]
    rfl
  cases begins with
  | false => exact inner
  | true =>
    cases piece with
    | nil => exact absurd rfl some
    | cons c rest =>
      rw [List.cons_append, linesFrom] at inner ⊢
      simp only [if_true, List.singleton_append]
      exact congrArg _ inner

/-- A line behind a piece without a line end, or the first one. -/
theorem cases_of_mem_single {piece later line : Text} {begins : Bool} (some : piece ≠ [])
    (single : '\n' ∉ piece) (mem : line ∈ linesFrom begins (piece ++ later)) :
    (begins = true ∧ line = piece ++ later) ∨ line ∈ linesFrom false later := by
  rw [linesFrom_single_append some single] at mem
  refine (List.mem_append.mp mem).imp_left fun first => ?_
  cases begins with
  | true => exact ⟨rfl, List.mem_singleton.mp first⟩
  | false => cases first

theorem Word.newline_not_mem {word : Text} (isWord : Word word) : '\n' ∉ word := by
  intro mem
  exact absurd (isWord.chars _ mem) (by decide)

/-! ### The first word of a line -/

/-- The dotted name behind the indentation of a line. -/
def firstWord (line : Text) : Text :=
  (line.dropWhile isIndentChar).takeWhile isDottedChar

theorem firstWord_eq {indent word rest : Text} (blank : ∀ c ∈ indent, isIndentChar c = true)
    (dotted : ∀ c ∈ word, isDottedChar c = true) (stop : ∀ c ∈ rest.head?, isDottedChar c = false)
    (solid : word = [] → ∀ c ∈ rest.head?, isIndentChar c = false) :
    firstWord (indent ++ (word ++ rest)) = word := by
  have first : ∀ c ∈ (word ++ rest).head?, isIndentChar c = false := by
    intro c first
    cases word with
    | nil => exact solid rfl c first
    | cons d word =>
      obtain rfl : d = c := Option.some.inj first
      exact not_isIndentChar_of_isDottedChar (dotted d List.mem_cons_self)
  rw [firstWord, dropWhile_run blank first, takeWhile_run dotted stop]

/-- A line is its indentation, its first word and the rest. -/
theorem exists_firstWord (line : Text) :
    ∃ indent rest, line = indent ++ (firstWord line ++ rest) ∧
      (∀ c ∈ indent, isIndentChar c = true) ∧ (∀ c ∈ firstWord line, isDottedChar c = true) ∧
      (∀ c ∈ rest.head?, isDottedChar c = false) ∧
      (firstWord line = [] → ∀ c ∈ rest.head?, isIndentChar c = false) := by
  have stop : ∀ {p : Char → Bool} {text : Text}, ∀ c ∈ (text.dropWhile p).head?, p c = false := by
    intro p text c first
    have none := List.head?_dropWhile_not p text
    rw [Option.mem_def.mp first] at none
    simpa using none
  refine ⟨line.takeWhile isIndentChar, (line.dropWhile isIndentChar).dropWhile isDottedChar, ?_,
    fun c mem => List.mem_takeWhile_imp mem, fun c mem => List.mem_takeWhile_imp mem, stop, ?_⟩
  · rw [firstWord, List.takeWhile_append_dropWhile, List.takeWhile_append_dropWhile]
  · intro empty
    have same : (line.dropWhile isIndentChar).dropWhile isDottedChar = line.dropWhile isIndentChar := by
      have whole := List.takeWhile_append_dropWhile (p := isDottedChar) (l := line.dropWhile isIndentChar)
      rwa [← firstWord, empty, List.nil_append] at whole
    rw [same]
    exact stop

/-- The first word ends where a dotted name ends. -/
theorem firstWord_append {line later : Text} (stop : ∀ c ∈ later.head?, isDottedChar c = false)
    (solid : (∃ c ∈ line, isIndentChar c = false) ∨ ∀ c ∈ later.head?, isIndentChar c = false) :
    firstWord (line ++ later) = firstWord line := by
  obtain ⟨indent, rest, split, blank, dotted, restStop, restSolid⟩ := exists_firstWord line
  have whole : line ++ later = indent ++ (firstWord line ++ (rest ++ later)) := by
    simp only [← List.append_assoc] at split ⊢
    rw [← split]
  rw [whole]
  refine firstWord_eq blank dotted ?_ ?_
  · cases rest with
    | nil => exact stop
    | cons d rest => exact restStop
  · intro empty
    cases rest with
    | cons d rest => exact restSolid empty
    | nil =>
      rcases solid with ⟨c, mem, other⟩ | solid
      · rw [split, empty, List.nil_append, List.append_nil] at mem
        rw [blank c mem] at other
        exact Bool.noConfusion other
      · exact solid

/-- A character that is neither part of a dotted name nor indentation ends the first word. -/
theorem firstWord_append_stop {line later : Text} {stop : Char} (dot : isDottedChar stop = false)
    (indent : isIndentChar stop = false) : firstWord (line ++ stop :: later) = firstWord line :=
  firstWord_append (forall_mem_some dot) (.inr (forall_mem_some indent))

/-! ### Sealed pieces -/

/-- A piece behind whose end no first word goes on: its last character is neither part of a dotted name
nor white space of a line. -/
structure Sealed (piece : Text) : Prop where
  exists_stop : ∃ body stop, piece = body ++ [stop] ∧ isDottedChar stop = false ∧
    isIndentChar stop = false ∧ stop ≠ '\n'

namespace Sealed

variable {piece : Text}

theorem not_endsLine (isSealed : Sealed piece) (begins : Bool) :
    endsLine begins piece = false := by
  obtain ⟨body, stop, rfl, _, _, other⟩ := isSealed.exists_stop
  rw [endsLine_append, endsLine, endsLine, beq_eq_false_iff_ne]
  exact other

theorem beginsLine_eq (isSealed : Sealed piece) :
    beginsLine piece.getLast? = false := by
  have ends := endsLine_eq none piece
  rwa [isSealed.not_endsLine, Option.or_none, eq_comm] at ends

theorem ne_nil (isSealed : Sealed piece) : piece ≠ [] := by
  obtain ⟨body, stop, rfl, _⟩ := isSealed.exists_stop
  simp

/-- The lines of a text that begins with a sealed piece: the first one, those of the piece, and those
behind it. -/
theorem lines_append (isSealed : Sealed piece) (begins : Bool) (later : Text) :
    linesFrom begins (piece ++ later) = (if begins then [piece ++ later] else [])
      ++ ((linesFrom false piece).map (· ++ later) ++ linesFrom false later) := by
  rw [linesFrom_append, isSealed.not_endsLine]
  obtain ⟨body, stop, rfl, _⟩ := isSealed.exists_stop
  cases body <;> cases begins <;> rfl

/-- A line behind a sealed piece, or one of its own. -/
theorem cases_of_mem {piece later line : Text} (isSealed : Sealed piece)
    (mem : line ∈ linesFrom false (piece ++ later)) :
    (∃ part ∈ linesFrom false piece, part ++ later = line) ∨ line ∈ linesFrom false later := by
  rw [isSealed.lines_append false] at mem
  rcases List.mem_append.mp mem with none | mem
  · cases none
  · exact (List.mem_append.mp mem).imp_left List.mem_map.mp

/-- A line of a sealed piece ends with the seal. -/
theorem exists_last {piece line : Text} {begins : Bool} (isSealed : Sealed piece)
    (mem : line ∈ linesFrom begins piece) :
    line ≠ [] ∧ ∃ front stop, line = front ++ [stop] ∧ isDottedChar stop = false ∧
      isIndentChar stop = false := by
  obtain ⟨body, stop, rfl, dot, indent, _⟩ := isSealed.exists_stop
  obtain ⟨_, init, _, rfl⟩ := exists_init_of_mem_linesFrom mem
  exact ⟨by simp, init, stop, rfl, dot, indent⟩

end Sealed

/-! ### Renamed lines -/

namespace Renamed

variable {old new : Text} {allowed : Text → Prop} {last : Option Char} {text result : Text}

/-- **A renamed text has the same lines, renamed.** No line begins inside of a word, so behind it the two
texts go on alike. -/
theorem lines (oldWord : Word old) (newWord : Word new)
    (renamed : Renamed old new allowed last text result) (begins : Bool) :
    List.Forall₂ (fun line later => ∃ last, Renamed old new allowed last line later)
      (linesFrom begins text) (linesFrom begins result) := by
  induction renamed generalizing begins with
  | done => exact .nil
  | @keep last c text result renamed ih =>
    cases begins with
    | true => exact .cons ⟨last, .keep renamed⟩ (ih (c == '\n'))
    | false => exact ih (c == '\n')
  | @swap last text result before behind stays renamed ih =>
    rw [linesFrom_single_append oldWord.nonempty oldWord.newline_not_mem,
      linesFrom_single_append newWord.nonempty newWord.newline_not_mem]
    cases begins with
    | true => exact .cons ⟨last, .swap before behind stays renamed⟩ (ih false)
    | false => exact ih false

/-- The first word of a line is kept, or its beginning is exchanged. -/
theorem firstWord_cases (oldWord : Word old) (newWord : Word new)
    (renamed : Renamed old new allowed last text result) :
    firstWord result = firstWord text ∨ ∃ rest, firstWord text = old ++ rest ∧
      firstWord result = new ++ rest ∧ mayFollow rest.head? = true := by
  obtain ⟨indent, behind, split, blank, dotted, stop, solid⟩ := exists_firstWord text
  have indentFree : ∀ c ∈ indent, isWordChar c = false := fun c mem =>
    not_isWordChar_of_isWhiteSpace (isWhiteSpace_of_isIndentChar (blank c mem))
  have behindFree : ∀ c ∈ behind.head?, isWordChar c = false := by
    intro c first
    by_contra word
    have dot := isDottedChar_of_isWordChar (Bool.not_eq_false _ ▸ word)
    rw [stop c first] at dot
    exact Bool.noConfusion dot
  rw [split] at renamed
  obtain ⟨sameIndent, _, rfl, onIndent, onLine⟩ := renamed.split oldWord (edge_of_left indentFree)
  obtain ⟨word, later, rfl, onWord, onBehind⟩ := onLine.split oldWord (.inr behindFree)
  obtain rfl := onIndent.eq_of_no_word oldWord indentFree
  have laterFirst : later.head? = behind.head? := onBehind.head?_eq oldWord behindFree
  have firstOf : ∀ {word : Text}, (∀ c ∈ word, isDottedChar c = true) →
      (word = [] → firstWord text = []) → firstWord (sameIndent ++ (word ++ later)) = word := by
    intro word dots empty
    refine firstWord_eq blank dots (by rwa [laterFirst]) fun none => ?_
    rw [laterFirst]
    exact solid (empty none)
  rcases onWord.dotted_cases oldWord dotted with rfl | ⟨rest, same, rfl, _, follow⟩
  · exact .inl (firstOf dotted id)
  · refine .inr ⟨rest, same, firstOf ?_ ?_, follow⟩
    · intro c mem
      rcases List.mem_append.mp mem with inNew | inRest
      · exact isDottedChar_of_isWordChar (newWord.chars c inNew)
      · exact dotted c (same ▸ List.mem_append_right _ inRest)
    · intro none
      exact absurd (List.append_eq_nil_iff.mp none).1 newWord.nonempty

end Renamed

end ScopedHandles
