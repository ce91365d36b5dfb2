/-
**Where a header with a loose statement begins.**

A header is known by what stands before the dot behind its statement, and from there it goes on to the
next brace. What stands before the dot is made of few characters: white space, words, dots, parentheses
and one equals sign. Hence a brace ends the search for the dot, and text without a dot that is put behind
changes nothing.

* `Lead` — the parts of a header through that dot.
* `isLead_iff` — the beginning of a header is recognised exactly if it has these parts.
* `isLead_stop` — only what stands before the next brace counts.
* `exists_lead_of_read?` — a header that is read, and the text behind it.
-/

import ScopedHandles.LooseStatement
import ScopedHandles.Proofs.Lines

namespace ScopedHandles

open LooseStatement

/-- The call that makes a statement. -/
def creation : Text := ".createStatement()".toList

/-- The parts of a header through the dot behind its statement, and the text behind that dot. -/
structure Lead where
  indent : Text
  /-- The white space before the parenthesis, and the white space behind it. -/
  pause : Text
  inset : Text
  type : Text
  gap : Text
  name : Text
  /-- The white space before the equals sign, and the white space behind it. -/
  blanks : Text
  before : Text
  /-- What the statement is made from. -/
  source : Text
  /-- The white space behind the statement. -/
  behind : Text
  calls : Text
  indent_blank : ∀ c ∈ indent, isIndentChar c = true
  pause_blank : ∀ c ∈ pause, isWhiteSpace c = true
  inset_blank : ∀ c ∈ inset, isWhiteSpace c = true
  type_word : Word type
  gap_nonempty : gap ≠ []
  gap_blank : ∀ c ∈ gap, isWhiteSpace c = true
  name_word : Word name
  blanks_blank : ∀ c ∈ blanks, isWhiteSpace c = true
  before_blank : ∀ c ∈ before, isWhiteSpace c = true
  source_chars : ∀ c ∈ source, LooseStatement.isSourceChar c = true
  behind_blank : ∀ c ∈ behind, isWhiteSpace c = true

namespace Lead

variable (lead : Lead)

/-- What stands between the parenthesis and the equals sign. -/
def declared : Text :=
  lead.inset ++ (lead.type ++ (lead.gap ++ (lead.name ++ lead.blanks)))

/-- What stands before the equals sign. -/
def head : Text :=
  "try".toList ++ (lead.pause ++ '(' :: lead.declared)

def resource : Text :=
  lead.head ++ ['=']

/-- The expression that makes the statement. -/
def core : Text :=
  lead.source ++ creation

def statement : Text :=
  lead.before ++ (lead.core ++ lead.behind)

/-- All of the header through the dot. -/
def front : Text :=
  lead.indent ++ (lead.resource ++ (lead.statement ++ ['.']))

/-- The text that begins with the header. -/
def text : Text :=
  lead.front ++ lead.calls

/-- The same header before another text. -/
def onto (calls : Text) : Lead :=
  { lead with calls }

theorem text_onto (calls : Text) : (lead.onto calls).text = lead.front ++ calls := rfl

theorem text_eq_indent : lead.text =
    lead.indent ++ (lead.resource ++ (lead.statement ++ '.' :: lead.calls)) := by
  unfold text front
  simp only [List.append_assoc, List.singleton_append]

theorem front_eq : lead.front = (lead.indent ++ lead.head) ++ '=' :: (lead.statement ++ ['.']) := by
  unfold front resource
  simp only [List.append_assoc, List.cons_append, List.nil_append]

/-- A header is cut at its equals sign. -/
theorem text_eq_sign : lead.text =
    (lead.indent ++ lead.head) ++ '=' :: (lead.statement ++ '.' :: lead.calls) := by
  rw [text, front_eq]
  simp only [List.append_assoc, List.cons_append, List.nil_append]

/-! ### The characters of a header -/

theorem isSourceChar_of_mem_core : ∀ c ∈ lead.core, LooseStatement.isSourceChar c = true := by
  have made : ∀ c ∈ creation, LooseStatement.isSourceChar c = true := List.all_eq_true.mp (by decide +kernel)
  intro c mem
  rcases List.mem_append.mp mem with inSource | inCall
  · exact lead.source_chars c inSource
  · exact made c inCall

end Lead

/-- A character that may stand before the dot behind a statement. -/
def isLeadChar (c : Char) : Bool :=
  isWhiteSpace c || LooseStatement.isSourceChar c || c == '='

theorem isLeadChar_of_isWhiteSpace {c : Char} (blank : isWhiteSpace c = true) : isLeadChar c = true := by
  rw [isLeadChar, blank, Bool.true_or, Bool.true_or]

theorem isLeadChar_of_isSourceChar {c : Char} (source : LooseStatement.isSourceChar c = true) :
    isLeadChar c = true := by
  rw [isLeadChar, source, Bool.or_true, Bool.true_or]

theorem isSourceChar_of_isWordChar {c : Char} (word : isWordChar c = true) :
    LooseStatement.isSourceChar c = true := by
  simp [LooseStatement.isSourceChar, word]

theorem not_isWhiteSpace_of_isSourceChar {c : Char} (source : LooseStatement.isSourceChar c = true) :
    isWhiteSpace c = false := by
  by_contra white
  have isWhite : isWhiteSpace c = true := Bool.not_eq_false _ ▸ white
  simp only [LooseStatement.isSourceChar, not_isWordChar_of_isWhiteSpace isWhite, Bool.false_or,
    Bool.or_eq_true, beq_iff_eq] at source
  rcases source with (rfl | rfl) | rfl
  · exact absurd isWhite (by decide)
  · exact absurd isWhite (by decide)
  · exact absurd isWhite (by decide)

namespace Lead

variable (lead : Lead)

theorem mem_declared {c : Char} (mem : c ∈ lead.declared) :
    isWhiteSpace c = true ∨ isWordChar c = true := by
  simp only [declared, List.mem_append] at mem
  rcases mem with inset | type | gap | name | blanks
  · exact .inl (lead.inset_blank c inset)
  · exact .inr (lead.type_word.chars c type)
  · exact .inl (lead.gap_blank c gap)
  · exact .inr (lead.name_word.chars c name)
  · exact .inl (lead.blanks_blank c blanks)

theorem mem_statement {c : Char} (mem : c ∈ lead.statement) :
    isWhiteSpace c = true ∨ LooseStatement.isSourceChar c = true := by
  simp only [statement, List.mem_append] at mem
  rcases mem with before | core | behind
  · exact .inl (lead.before_blank c before)
  · exact .inr (lead.isSourceChar_of_mem_core c core)
  · exact .inl (lead.behind_blank c behind)

theorem core_nonempty : lead.core ≠ [] :=
  List.append_ne_nil_of_right_ne_nil _ (by decide)

theorem dot_mem_core : '.' ∈ lead.core :=
  List.mem_append_right _ (by decide)

/-- A statement does not begin with white space. -/
theorem solid_core (rest : Text) : ∀ c ∈ (lead.core ++ rest).head?, isWhiteSpace c = false := by
  intro c first
  rw [List.head?_append_of_ne_nil _ lead.core_nonempty] at first
  exact not_isWhiteSpace_of_isSourceChar (lead.isSourceChar_of_mem_core c (List.mem_of_mem_head? first))

/-- Only one parenthesis and no equals sign stands before the equals sign of a header. -/
theorem parenthesis_not_mem_declared : '(' ∉ lead.declared := fun mem =>
  (lead.mem_declared mem).elim (fun blank => absurd blank (by decide)) fun word => absurd word (by decide)

theorem sign_not_mem_head : '=' ∉ lead.head := by
  have declared : '=' ∉ lead.declared := fun mem =>
    (lead.mem_declared mem).elim (fun blank => absurd blank (by decide)) fun word => absurd word (by decide)
  have pause : '=' ∉ lead.pause := fun mem => absurd (lead.pause_blank _ mem) (by decide)
  simp only [head, List.mem_append, List.mem_cons, not_or]
  exact ⟨by decide, pause, by decide, declared⟩

theorem sign_not_mem_indent_head : '=' ∉ lead.indent ++ lead.head := by
  rw [List.mem_append, not_or]
  exact ⟨fun mem => absurd (lead.indent_blank _ mem) (by decide), lead.sign_not_mem_head⟩

theorem trim_statement : trim lead.statement = lead.core := by
  refine trim_eq lead.before_blank lead.behind_blank (fun c first => ?_) (fun c last => ?_)
  · exact not_isWhiteSpace_of_isSourceChar (lead.isSourceChar_of_mem_core c (List.mem_of_mem_head? first))
  · exact not_isWhiteSpace_of_isSourceChar (lead.isSourceChar_of_mem_core c (List.mem_of_getLast? last))

theorem isLeadChar_of_mem_front : ∀ c ∈ lead.front, isLeadChar c = true := by
  have opening : ∀ c ∈ "try".toList, LooseStatement.isSourceChar c = true :=
    List.all_eq_true.mp (by decide +kernel)
  intro c mem
  simp only [front, resource, head, List.mem_append, List.mem_cons, List.not_mem_nil, or_false] at mem
  rcases mem with indent | ((tried | pause | rfl | declared) | rfl) | statement | rfl
  · exact isLeadChar_of_isWhiteSpace (isWhiteSpace_of_isIndentChar (lead.indent_blank c indent))
  · exact isLeadChar_of_isSourceChar (opening c tried)
  · exact isLeadChar_of_isWhiteSpace (lead.pause_blank c pause)
  · decide
  · exact (lead.mem_declared declared).elim isLeadChar_of_isWhiteSpace fun word =>
      isLeadChar_of_isSourceChar (isSourceChar_of_isWordChar word)
  · decide
  · exact (lead.mem_statement statement).elim isLeadChar_of_isWhiteSpace isLeadChar_of_isSourceChar
  · decide

theorem not_mem_front {stop : Char} (other : isLeadChar stop = false) : stop ∉ lead.front := by
  intro mem
  rw [lead.isLeadChar_of_mem_front stop mem] at other
  exact Bool.noConfusion other

theorem getLast?_front : lead.front.getLast? = some '.' := by
  have split : lead.front = (lead.indent ++ (lead.resource ++ lead.statement)) ++ ['.'] := by
    unfold front
    simp only [List.append_assoc]
  rw [split, List.getLast?_concat]

/-- **A header stays one before another text**, if its dot stands in the piece that is left. -/
theorem within_or {piece later : Text} (same : lead.text = piece ++ later) :
    (∃ calls, piece = (lead.onto calls).text) ∨
      ∃ more, more ≠ [] ∧ lead.front = piece ++ more ∧ later = more ++ lead.calls := by
  rcases List.append_eq_append_iff.mp same with ⟨calls, cut, _⟩ | ⟨more, cut, rest⟩
  · exact .inl ⟨calls, cut⟩
  · by_cases empty : more = []
    · rw [empty, List.append_nil] at cut
      exact .inl ⟨[], by rw [text_onto, cut, List.append_nil]⟩
    · exact .inr ⟨more, empty, cut, rest⟩

end Lead

/-! ### Reading a header -/

/-- The text from the dot behind the statement on, if a header begins here. -/
def chained? (text : Text) : Option Text :=
  (afterResource? (text.dropWhile isIndentChar)).bind afterStatement?

/-- Whether a header begins here, as far as the dot behind its statement. -/
def isLead (text : Text) : Bool :=
  (chained? text).isSome

theorem exists_of_afterResource? {line assigned : Text} (read : afterResource? line = some assigned) :
    ∃ pause inset type gap name blanks : Text,
      line = "try".toList ++ (pause ++ '(' :: (inset ++ (type ++ (gap ++ (name ++ blanks)))))
        ++ ['='] ++ assigned ∧
      (∀ c ∈ pause, isWhiteSpace c = true) ∧ (∀ c ∈ inset, isWhiteSpace c = true) ∧ Word type ∧
      gap ≠ [] ∧ (∀ c ∈ gap, isWhiteSpace c = true) ∧ Word name ∧
      ∀ c ∈ blanks, isWhiteSpace c = true := by
  simp only [afterResource?, Option.bind_eq_bind, Option.bind_eq_some_iff] at read
  obtain ⟨opened, first, typed, second, named, third, spaced, fourth, signed, fifth, sixth⟩ := read
  obtain ⟨pause, split, pauseBlank⟩ := exists_trimStart opened
  obtain ⟨inset, inner, insetBlank⟩ := exists_trimStart typed
  obtain ⟨type, typeRun, typeSome, typeWord, _⟩ := eq_of_skipSome third
  obtain ⟨gap, rfl, gapSome, gapBlank, _⟩ := eq_of_skipSome fourth
  obtain ⟨name, rfl, nameSome, nameWord, _⟩ := eq_of_skipSome fifth
  obtain ⟨blanks, last, blanksBlank⟩ := exists_trimStart signed
  rw [after?_eq_some_iff.mp second] at split
  rw [after?_eq_some_iff.mp sixth] at last
  rw [typeRun] at inner
  refine ⟨pause, inset, type, gap, name, blanks, ?_, pauseBlank, insetBlank, ⟨typeSome, typeWord⟩,
    gapSome, gapBlank, ⟨nameSome, nameWord⟩, blanksBlank⟩
  rw [after?_eq_some_iff.mp first, split, inner, last]
  generalize "try".toList = opening
  simp only [List.append_assoc, List.cons_append, List.nil_append]

theorem exists_of_afterStatement? {text chained : Text} (read : afterStatement? text = some chained) :
    ∃ before source behind calls : Text,
      text = before ++ (source ++ creation ++ behind) ++ chained ∧ chained = '.' :: calls ∧
      (∀ c ∈ before, isWhiteSpace c = true) ∧ (∀ c ∈ source, LooseStatement.isSourceChar c = true) ∧
      ∀ c ∈ behind, isWhiteSpace c = true := by
  obtain ⟨source, rest, split, chars, next⟩ := exists_of_tryRuns read
  obtain ⟨before, whole, beforeBlank⟩ := exists_trimStart text
  simp only [Option.bind_eq_bind, Option.bind_eq_some_iff] at next
  obtain ⟨later, call, dotted⟩ := next
  have call : rest = creation ++ later := after?_eq_some_iff.mp call
  split_ifs at dotted with dot
  obtain rfl := Option.some.inj dotted
  obtain ⟨behind, cut, behindBlank⟩ := exists_trimStart later
  obtain ⟨calls, chain⟩ := List.head?_eq_some_iff.mp dot
  refine ⟨before, source, behind, calls, ?_, chain, beforeBlank, chars, behindBlank⟩
  rw [List.append_assoc, List.append_assoc, List.append_assoc, ← cut, ← call, ← split]
  exact whole

/-- A header that is recognised has all its parts. -/
theorem exists_lead_of_chained? {text chained : Text} (read : chained? text = some chained) :
    ∃ lead : Lead, lead.text = text ∧ chained = '.' :: lead.calls ∧
      afterResource? (text.dropWhile isIndentChar) = some (lead.statement ++ chained) ∧
      lead.indent = text.takeWhile isIndentChar ∧
      text.dropWhile isIndentChar = lead.resource ++ (lead.statement ++ chained) := by
  obtain ⟨assigned, resource, statement⟩ := Option.bind_eq_some_iff.mp read
  obtain ⟨pause, inset, type, gap, name, blanks, line, pauseBlank, insetBlank, typeWord, gapSome,
    gapBlank, nameWord, blanksBlank⟩ := exists_of_afterResource? resource
  obtain ⟨before, source, behind, calls, made, rfl, beforeBlank, chars, behindBlank⟩ :=
    exists_of_afterStatement? statement
  let lead : Lead :=
    { indent := text.takeWhile isIndentChar, pause, inset, type, gap, name, blanks, before, source, behind,
      calls, indent_blank := fun c mem => List.mem_takeWhile_imp mem, pause_blank := pauseBlank
      inset_blank := insetBlank, type_word := typeWord, gap_nonempty := gapSome, gap_blank := gapBlank
      name_word := nameWord, blanks_blank := blanksBlank, before_blank := beforeBlank
      source_chars := chars, behind_blank := behindBlank }
  have assignedEq : assigned = lead.statement ++ '.' :: calls := made
  have lineEq : text.dropWhile isIndentChar = lead.resource ++ (lead.statement ++ '.' :: calls) := by
    rw [line, assignedEq]
    rfl
  refine ⟨lead, ?_, rfl, by rw [resource, assignedEq], rfl, lineEq⟩
  rw [lead.text_eq_indent, ← lineEq]
  exact List.takeWhile_append_dropWhile

section Classes

theorem not_isWhiteSpace_of_isWordChar {c : Char} (word : isWordChar c = true) :
    isWhiteSpace c = false :=
  not_isWhiteSpace_of_isSourceChar (isSourceChar_of_isWordChar word)

theorem Word.solid_head {word : Text} (isWord : Word word) (rest : Text) :
    ∀ c ∈ (word ++ rest).head?, isWhiteSpace c = false := by
  intro c first
  rw [List.head?_append_of_ne_nil _ isWord.nonempty] at first
  exact not_isWhiteSpace_of_isWordChar (isWord.chars c (List.mem_of_mem_head? first))

theorem blank_head {blanks rest : Text} (some : blanks ≠ [])
    (blank : ∀ c ∈ blanks, isWhiteSpace c = true) :
    ∀ c ∈ (blanks ++ rest).head?, isWordChar c = false := by
  intro c first
  rw [List.head?_append_of_ne_nil _ some] at first
  exact not_isWordChar_of_isWhiteSpace (blank c (List.mem_of_mem_head? first))

end Classes

namespace Lead

variable (lead : Lead)

theorem afterResource?_resource (assigned : Text) :
    afterResource? (lead.resource ++ assigned) = some assigned := by
  have split : lead.resource ++ assigned = "try".toList ++ (lead.pause ++ '(' :: (lead.inset ++
      (lead.type ++ (lead.gap ++ (lead.name ++ (lead.blanks ++ '=' :: assigned)))))) := by
    unfold resource head declared
    generalize "try".toList = opening
    simp only [List.append_assoc, List.cons_append, List.nil_append]
  have behindName : ∀ c ∈ (lead.blanks ++ '=' :: assigned).head?, isWordChar c = false := by
    cases empty : lead.blanks with
    | nil => exact forall_mem_some (by decide)
    | cons d blanks =>
      exact blank_head (by simp) (empty ▸ lead.blanks_blank)
  have opens : ∀ (c : Char) (rest : Text), after? [c] (c :: rest) = some rest := fun c =>
    after?_append [c]
  have paused : ∀ rest, trimStart (lead.pause ++ '(' :: rest) = '(' :: rest := fun rest =>
    trimStart_append lead.pause_blank (forall_mem_some (by decide))
  have inset := trimStart_append lead.inset_blank (lead.type_word.solid_head (lead.gap ++ (lead.name ++
    (lead.blanks ++ '=' :: assigned))))
  have behindType : ∀ c ∈ (lead.gap ++ (lead.name ++ (lead.blanks ++ '=' :: assigned))).head?,
      isWordChar c = false := blank_head lead.gap_nonempty lead.gap_blank
  have typed := skipSome_run lead.type_word.nonempty lead.type_word.chars behindType
  have spaced := skipSome_run lead.gap_nonempty lead.gap_blank
    (lead.name_word.solid_head (lead.blanks ++ '=' :: assigned))
  have named := skipSome_run lead.name_word.nonempty lead.name_word.chars behindName
  have signed : trimStart (lead.blanks ++ '=' :: assigned) = '=' :: assigned :=
    trimStart_append lead.blanks_blank (forall_mem_some (by decide))
  unfold afterResource?
  rw [split]
  simp only [Option.bind_eq_bind, after?_append, Option.bind_some, paused, opens, inset, typed, spaced, named,
    signed]

theorem isSome_afterStatement? :
    (afterStatement? (lead.statement ++ '.' :: lead.calls)).isSome = true := by
  have split : lead.statement ++ '.' :: lead.calls =
      lead.before ++ (lead.core ++ (lead.behind ++ '.' :: lead.calls)) := by
    unfold statement
    simp only [List.append_assoc]
  have dotted : trimStart (lead.behind ++ '.' :: lead.calls) = '.' :: lead.calls :=
    trimStart_append lead.behind_blank (forall_mem_some (by decide))
  unfold afterStatement?
  rw [split, trimStart_append lead.before_blank (lead.solid_core _), core, List.append_assoc]
  refine isSome_tryRuns lead.source_chars ?_
  have call : after? ".createStatement()".toList (creation ++ (lead.behind ++ '.' :: lead.calls)) =
      some (lead.behind ++ '.' :: lead.calls) := after?_append creation _
  simp only [call, Option.bind_eq_bind, Option.bind_some, dotted, List.head?_cons, if_true,
    Option.isSome_some]

theorem indent_stops (rest : Text) : ∀ c ∈ (lead.resource ++ rest).head?, isIndentChar c = false := by
  unfold resource head
  exact forall_mem_some (by decide)

/-- **What has the parts of a header is recognised as one.** -/
theorem isLead_text : isLead lead.text = true := by
  unfold isLead chained?
  rw [text_eq_indent, dropWhile_run lead.indent_blank (lead.indent_stops _),
    lead.afterResource?_resource]
  exact lead.isSome_afterStatement?

end Lead

/-- **The beginning of a header is recognised exactly if it has its parts.** -/
theorem isLead_iff {text : Text} : isLead text = true ↔ ∃ lead : Lead, lead.text = text := by
  constructor
  · intro leads
    obtain ⟨chained, read⟩ := Option.isSome_iff_exists.mp leads
    obtain ⟨lead, same, _⟩ := exists_lead_of_chained? read
    exact ⟨lead, same⟩
  · rintro ⟨lead, rfl⟩
    exact lead.isLead_text

/-! ### What the beginning of a header depends on -/

theorem isLead_append {piece : Text} (leads : isLead piece = true) (later : Text) :
    isLead (piece ++ later) = true := by
  obtain ⟨lead, rfl⟩ := isLead_iff.mp leads
  refine isLead_iff.mpr ⟨lead.onto (lead.calls ++ later), ?_⟩
  rw [lead.text_onto, Lead.text, List.append_assoc]

/-- **Only what stands before the next brace counts**, or before any other character that belongs to no
header. -/
theorem isLead_stop {stop : Char} (other : isLeadChar stop = false) (piece later : Text) :
    isLead (piece ++ stop :: later) = isLead piece := by
  refine Bool.eq_iff_iff.mpr ⟨fun leads => ?_, fun leads => isLead_append leads _⟩
  obtain ⟨lead, same⟩ := isLead_iff.mp leads
  rcases lead.within_or same with ⟨calls, inside⟩ | ⟨more, some, cut, rest⟩
  · exact isLead_iff.mpr ⟨_, inside.symm⟩
  · exfalso
    obtain ⟨c, more, rfl⟩ := List.exists_cons_of_ne_nil some
    obtain ⟨rfl, _⟩ := List.cons.inj rest
    refine lead.not_mem_front other ?_
    rw [cut]
    exact List.mem_append_right _ List.mem_cons_self

/-- What holds no dot adds no header. -/
theorem isLead_append_dotless {later : Text} (dotless : '.' ∉ later) (piece : Text) :
    isLead (piece ++ later) = isLead piece := by
  refine Bool.eq_iff_iff.mpr ⟨fun leads => ?_, fun leads => isLead_append leads _⟩
  obtain ⟨lead, same⟩ := isLead_iff.mp leads
  rcases lead.within_or same with ⟨calls, inside⟩ | ⟨more, some, cut, rest⟩
  · exact isLead_iff.mpr ⟨_, inside.symm⟩
  · exfalso
    have last := lead.getLast?_front
    rw [cut, List.getLast?_append_of_ne_nil _ some] at last
    refine dotless ?_
    rw [rest]
    exact List.mem_append_left _ (List.mem_of_getLast? last)

theorem not_isLead_of_dotless {text : Text} (dotless : '.' ∉ text) : isLead text = false :=
  isLead_append_dotless dotless []

/-! ### Whole headers -/

/-- **A header that is read, and the text behind it.** It goes on to the first brace of the text. -/
theorem exists_lead_of_read? {text : Text} {loose : LooseStatement} (read : read? text = some loose) :
    ∃ (lead : Lead) (calls later : Text), lead.text = text ∧ lead.calls = calls ++ '{' :: later ∧
      '{' ∉ calls ∧ loose = ⟨lead.indent, lead.resource, lead.statement, '.' :: calls ++ ['{']⟩ := by
  simp only [read?, Option.bind_eq_bind, Option.bind_eq_some_iff, Option.pure_def,
    Option.some.injEq] at read
  obtain ⟨assigned, resource, chained, statement, chain, brace, rfl⟩ := read
  have both : chained? text = some chained := Option.bind_eq_some_iff.mpr ⟨assigned, resource, statement⟩
  obtain ⟨lead, same, rfl, assignedEq, indent, line⟩ := exists_lead_of_chained? both
  obtain rfl := Option.some.inj (resource.symm.trans assignedEq)
  unfold throughBrace? at brace
  have whole := List.takeWhile_append_dropWhile (p := (· != '{')) (l := '.' :: lead.calls)
  have dotted : ('.' :: lead.calls).takeWhile (· != '{') = '.' :: lead.calls.takeWhile (· != '{') :=
    List.takeWhile_cons_of_pos (by decide)
  split at brace
  · simp at brace
  · next found later rest =>
    obtain rfl := Option.some.inj brace
    have first := List.head?_dropWhile_not (· != '{') ('.' :: lead.calls)
    rw [rest] at first whole
    obtain rfl : found = '{' := by simpa using first
    rw [dotted, List.cons_append] at whole
    refine ⟨lead, lead.calls.takeWhile (· != '{'), later, same, (List.cons.inj whole).2.symm, ?_, ?_⟩
    · intro mem
      simpa using List.mem_takeWhile_imp mem
    · rw [line, upTo_append, upTo_append, dotted, indent]

/-- A header is read exactly where one begins and a brace follows. -/
theorem isSome_read?_iff {text : Text} : (read? text).isSome = true ↔ isLead text = true ∧ '{' ∈ text := by
  constructor
  · intro read
    obtain ⟨loose, read⟩ := Option.isSome_iff_exists.mp read
    obtain ⟨lead, calls, later, rfl, split, _⟩ := exists_lead_of_read? read
    refine ⟨lead.isLead_text, List.mem_append_right _ ?_⟩
    rw [split]
    exact List.mem_append_right _ List.mem_cons_self
  · rintro ⟨leads, mem⟩
    obtain ⟨chained, both⟩ := Option.isSome_iff_exists.mp leads
    obtain ⟨lead, rfl, rfl, _⟩ := exists_lead_of_chained? both
    obtain ⟨assigned, resource, statement⟩ := Option.bind_eq_some_iff.mp both
    have inCalls : '{' ∈ lead.calls :=
      (List.mem_append.mp mem).resolve_left (lead.not_mem_front (by decide))
    have some : ('.' :: lead.calls).dropWhile (· != '{') ≠ [] := by
      intro none
      exact absurd (List.dropWhile_eq_nil_iff.mp none '{' (List.mem_cons_of_mem _ inCalls)) (by decide)
    obtain ⟨brace, later, rest⟩ := List.exists_cons_of_ne_nil some
    simp [read?, resource, statement, throughBrace?, rest]

/-- A header reaches through the first brace. -/
theorem length_of_read? {piece later : Text} {loose : LooseStatement}
    (read : read? (piece ++ '{' :: later) = some loose) (braceless : '{' ∉ piece) :
    loose.length = piece.length + 1 := by
  obtain ⟨lead, calls, rest, same, split, none, rfl⟩ := exists_lead_of_read? read
  have cut : (lead.front ++ calls) ++ '{' :: rest = piece ++ '{' :: later := by
    rw [List.append_assoc, ← split]
    exact same
  have outside : '{' ∉ lead.front ++ calls := by
    rw [List.mem_append, not_or]
    exact ⟨lead.not_mem_front (by decide), none⟩
  obtain ⟨rfl, _⟩ := first_unique cut outside braceless
  simp only [LooseStatement.length, Lead.front, List.length_append, List.length_cons, List.length_nil]
  omega

end ScopedHandles
