/-
**The brace that ends a header.**

A header with a loose statement reaches through the first brace behind its statement, and its block is read
as if it began in code. The resource and the statement hold no literal and no comment, so the chain decides:
the brace is code exactly if the chain leaves no literal and no comment open before it. A brace in a literal
of the chain ends the header too, and then the block begins inside of the literal.

* `LooseStatement.run_front` — a scan of a header is a scan of its chain.
* `MendedAt.putInCode` — what is put in behind a block that begins in code.
* `headerBrace_code_iff` — when the brace that ends a header is code.
-/

import ScopedHandles.Proofs.Balance
import ScopedHandles.Proofs.BlockStructure
import ScopedHandles.Proofs.MendedHeader

namespace ScopedHandles

/-! ### Nothing is open -/

namespace Scanner

/-- Neither a literal nor a comment is open. -/
def isFree (scanner : Scanner) : Bool :=
  match scanner.mode with
  | .plain _ => scanner.depth ≤ 0
  | _ => false

/-- A brace is code exactly if nothing is open. -/
theorem regionOf_brace_eq_code_iff {scanner : Scanner} :
    scanner.regionOf '{' = .code ↔ scanner.isFree = true := by
  obtain ⟨mode, depth⟩ := scanner
  cases mode with
  | plain half =>
    by_cases inside : 0 < depth
    · simp [regionOf, isFree, inside]
    · simp [regionOf, isFree, inside, Int.not_lt.mp inside]
  | lineComment => simp [regionOf, isFree]
  | literal quote escaped => simp [regionOf, isFree]

/-- **Behind a brace a scan is where it began** exactly if nothing was open, and no comment was closed that
had not been opened. A literal goes on behind a brace, which is not its quote. -/
theorem next_brace_eq_start_iff {last : Option Char} {scanner : Scanner} (behind : Behind last scanner) :
    scanner.next '{' = .start ↔ scanner.isFree = true ∧ scanner.depth = 0 := by
  obtain ⟨mode, depth⟩ := scanner
  cases mode with
  | plain half =>
    have idle : Scanner.next ⟨.plain half, depth⟩ '{' = ⟨.plain .clear, depth⟩ := by
      simp [next, Half.of]
    rw [idle, start, Scanner.mk.injEq]
    refine ⟨fun same => ⟨decide_eq_true (Int.le_of_eq same.2), same.2⟩, fun same => ⟨rfl, same.2⟩⟩
  | lineComment => simp [next, isFree, start]
  | literal quote escaped =>
    have other : '{' ≠ quote := by
      rintro rfl
      exact absurd behind.1 (by decide)
    cases escaped <;> simp [next, isFree, start, other]

/-- A literal or a line comment is open. -/
def InLine (scanner : Scanner) : Prop :=
  ∀ half, scanner.mode ≠ .plain half

/-- White space before the end of a line leaves a literal or a line comment open. -/
theorem InLine.next {last : Option Char} {scanner : Scanner} (inLine : InLine scanner)
    (behind : Behind last scanner) {c : Char} (blank : isWhiteSpace c = true) (other : c ≠ '\n') :
    InLine (scanner.next c) := by
  obtain ⟨mode, depth⟩ := scanner
  cases mode with
  | plain half => exact absurd rfl (inLine half)
  | lineComment => simp [Scanner.next, InLine, other]
  | literal quote escaped =>
    have inside : c ≠ quote := by
      rintro rfl
      rcases behind.1 with rfl | rfl
      · exact absurd blank (by decide)
      · exact absurd blank (by decide)
    have plain : c ≠ '\\' := ne_of_class blank (by decide)
    cases escaped <;> simp [Scanner.next, InLine, inside, plain, other]

theorem InLine.run {last : Option Char} {scanner : Scanner} (inLine : InLine scanner)
    (behind : Behind last scanner) {blanks : Text} (blank : ∀ c ∈ blanks, isWhiteSpace c = true)
    (single : '\n' ∉ blanks) : InLine (scanner.run blanks) := by
  induction blanks generalizing last scanner with
  | nil => exact inLine
  | cons c rest ih =>
    rw [List.mem_cons, not_or] at single
    rw [List.forall_mem_cons] at blank
    exact ih (inLine.next behind blank.1 (Ne.symm single.1)) (behind.next c) blank.2 single.2

/-- **A line break that is put in is code, or one stood there that ended the line.** -/
theorem newline_of_closes {last : Option Char} {scanner : Scanner} (behind : Behind last scanner)
    {blanks : Text} (blank : ∀ c ∈ blanks, isWhiteSpace c = true) (closes : Closes (scanner.run blanks)) :
    scanner.regionOf '\n' = .code ∨ '\n' ∈ blanks := by
  by_cases inLine : InLine scanner
  · by_contra neither
    obtain ⟨_, single⟩ := not_or.mp neither
    have still := inLine.run behind blank single
    have code := closes.code
    revert still code
    generalize scanner.run blanks = final
    obtain ⟨mode, depth⟩ := final
    intro still code
    cases mode with
    | plain half => exact still half rfl
    | lineComment => simp [regionOf] at code
    | literal quote escaped => simp [regionOf] at code
  · simp only [InLine, not_forall, not_not] at inLine
    obtain ⟨half, plain⟩ := inLine
    left
    simp [regionOf, plain, closes.depth_eq blank]

end Scanner

/-! ### The chain decides -/

/-- A header from its `try` to its brace. -/
def LooseStatement.front (loose : LooseStatement) : Text :=
  loose.resource ++ (loose.statement ++ loose.chain.dropLast)

/-- A scan of the characters of a header ends where it began. -/
theorem run_lead {text : Text} (chars : ∀ c ∈ text, isLeadChar c = true) :
    Scanner.start.run text = .start :=
  Scanner.run_start fun c mem => ⟨ne_of_class (chars c mem) (by decide), ne_of_class (chars c mem) (by decide),
    ne_of_class (chars c mem) (by decide), ne_of_class (chars c mem) (by decide)⟩

theorem LooseStatement.run_resource_statement {text : Text} {loose : LooseStatement}
    (read : LooseStatement.read? text = some loose) :
    Scanner.start.run (loose.resource ++ loose.statement) = .start := by
  obtain ⟨lead, _, _, _, _, _, rfl⟩ := exists_lead_of_read? read
  refine run_lead fun c mem => lead.isLeadChar_of_mem_front c (List.mem_append_right _ ?_)
  rw [← List.append_assoc]
  exact List.mem_append_left _ mem

/-- **A scan of a header ends as a scan of its chain does.** -/
theorem LooseStatement.run_front {text : Text} {loose : LooseStatement}
    (read : LooseStatement.read? text = some loose) :
    Scanner.start.run loose.front = Scanner.start.run loose.chain.dropLast := by
  rw [front, ← List.append_assoc, Scanner.run_append, run_resource_statement read]

/-- What is put in behind a block, and the braces of both blocks, stand outside of literals and comments.
Where a line comment ends with the block, its line break is put in again. -/
structure PutInCode (written inner indent : Text) : Prop where
  /-- The block begins in code. -/
  block : Scanner.start.run written = .start
  lineBreak : (Scanner.start.run (written ++ trimEnd inner)).regionOf '\n' = .code ∨
    '\n' ∈ trailingBlanks inner
  /-- The brace that is put in is code. -/
  closing : (Scanner.start.run (written ++ (trimEnd inner ++ '\n' :: indent))).regionOf '}' = .code
  /-- The brace that was there is code. -/
  last : (Scanner.start.run (written ++ (trimEnd inner ++ ('\n' :: indent ++
    '}' :: trailingBlanks inner)))).regionOf '}' = .code

namespace MendedAt

variable {place : Nat} {repair later : Repair} {found : Occurrence LooseStatement}
  (mended : MendedAt place repair later found)

include mended in
theorem chain_eq : found.value.chain = found.value.chain.dropLast ++ ['{'] := by
  rw [mended.site.layout.chain_eq, List.dropLast_concat]

/-- The text before, from the `try` of the header. -/
theorem drop_content : repair.content.drop (found.place + found.value.indent.length) =
    found.value.front ++ '{' :: (mended.inner ++ '}' :: mended.rest) := by
  have split : repair.content = (mended.site.above ++ found.value.indent) ++
      (found.value.front ++ '{' :: (mended.inner ++ '}' :: mended.rest)) := by
    refine mended.site.content_parts.trans ?_
    rw [mended.later_eq, mended.chain_eq]
    unfold LooseStatement.front
    simp only [List.append_assoc, List.cons_append, List.nil_append]
  rw [mended.place_cut]
  exact (congrArg _ split).trans List.drop_left

/-- The text behind, from the `try` that is put in. -/
theorem drop_later : later.content.drop (found.place + found.value.indent.length) =
    mended.written.resources ++ (trimEnd mended.inner ++ ('\n' :: found.value.indent ++
      '}' :: (trailingBlanks mended.inner ++ '}' :: mended.rest))) := by
  rw [mended.place_cut, mended.content_cut, List.drop_left, block]

/-- **The mended header is left where it began**, if the chain is. -/
theorem run_resources (isWord : Word mended.name) (back : Scanner.start.run found.value.chain = .start) :
    Scanner.start.run mended.written.resources = .start := by
  obtain ⟨lead, _, _, _, _, _, parts⟩ := exists_lead_of_read? mended.read
  have words : ∀ c ∈ mended.name, isLeadChar c = true := fun c mem =>
    isLeadChar_of_isSourceChar (isSourceChar_of_isWordChar (isWord.chars c mem))
  have made : ∀ c ∈ trim found.value.statement, isLeadChar c = true := by
    rw [parts, lead.trim_statement]
    exact fun c mem => isLeadChar_of_isSourceChar (lead.isSourceChar_of_mem_core c mem)
  have resource : ∀ c ∈ found.value.resource, isLeadChar c = true := by
    rw [parts]
    exact fun c mem => lead.isLeadChar_of_mem_front c (List.mem_append_right _ (List.mem_append_left _ mem))
  have first : Scanner.start.run "try (var ".toList = .start := by decide
  have sign : Scanner.start.run " = ".toList = .start := by decide
  have closing : Scanner.start.run ") \x7b ".toList = .start := by decide
  have blank : Scanner.start.next ' ' = .start := by decide
  unfold Mend.resources written
  simp only [Scanner.run_append, Scanner.run_cons, first, sign, closing, blank, back, run_lead words,
    run_lead made, run_lead resource]

/-- **What is put in behind a block that begins in code.** -/
theorem putInCode (isWord : Word mended.name) (back : Scanner.start.run found.value.chain = .start)
    (whole : (trimEnd mended.inner).getLast? ≠ some '\\') :
    PutInCode mended.written.resources mended.inner found.value.indent := by
  obtain ⟨_, _, _, closes⟩ := eq_of_scopeFrom_eq_ok mended.cut
  have first := mended.run_resources isWord back
  have steady := steady_of_getLast? whole
  have line := run_lineBreak closes steady mended.site.layout.indent_blank
  refine ⟨first, ?_, ?_, ?_⟩
  · rw [Scanner.run_append, first]
    rw [← trimEnd_append_trailingBlanks mended.inner, Scanner.run_append] at closes
    exact Scanner.newline_of_closes (steady.behind none) isWhiteSpace_of_mem_trailingBlanks closes
  · rw [Scanner.run_append, first, Scanner.run_append, line]
    rfl
  · have brace : Scanner.start.next '}' = .start := by decide
    rw [Scanner.run_append, first, Scanner.run_append, Scanner.run_append, line, Scanner.run_cons, brace,
      Scanner.run_blank isWhiteSpace_of_mem_trailingBlanks]
    rfl

end MendedAt

/-- **When the brace that ends a header is code.** It is exactly if the chain leaves no literal and no comment
open; and the block behind it is read as it stands in the text exactly if the chain also closes no comment
that it did not open. Then what is put in behind the block stands in code. -/
theorem headerBrace_code_iff {place : Nat} {repair later : Repair} {found : Occurrence LooseStatement}
    (next : firstHit LooseStatement.probe place none repair.content = some found)
    (done : repair.mend found = .ok later) :
    let start := found.place + found.value.indent.length
    let calls := Scanner.start.run found.value.chain.dropLast
    ((Scanner.start.labels (repair.content.drop start))[found.value.front.length]? = some ('{', .code) ↔
      calls.isFree = true) ∧
    (Scanner.start.run (found.value.front ++ ['{']) = .start ↔ calls.isFree = true ∧ calls.depth = 0) ∧
    ∃ written inner rest,
      scope (repair.content.drop (found.place + found.value.length)) = .ok inner ∧
      repair.content.drop start = found.value.front ++ '{' :: (inner ++ '}' :: rest) ∧
      later.content.drop start = written ++ (trimEnd inner ++ ('\n' :: found.value.indent ++
        '}' :: (trailingBlanks inner ++ '}' :: rest))) ∧
      (repair.names.Wordy → Scanner.start.run (found.value.front ++ ['{']) = .start →
        (trimEnd inner).getLast? ≠ some '\\' → PutInCode written inner found.value.indent) := by
  intro start calls
  obtain ⟨mended⟩ := MendedAt.nonempty next done
  have front := LooseStatement.run_front mended.read
  have behind : Scanner.start.run (found.value.front ++ ['{']) = calls.next '{' := by
    rw [Scanner.run_append, front]
    rfl
  refine ⟨?_, ?_, mended.written.resources, mended.inner, mended.rest, ?_, mended.drop_content,
    mended.drop_later, ?_⟩
  · rw [mended.drop_content, Scanner.getElem?_labels, List.getElem?_append_right (le_refl _), Nat.sub_self,
      List.take_left, front, ← Scanner.regionOf_brace_eq_code_iff]
    simp [calls]
  · rw [behind]
    exact Scanner.next_brace_eq_start_iff (Scanner.behind_start.run _)
  · rw [mended.site.drop_stop]
    exact mended.cut
  · intro wordy back whole
    obtain ⟨_, allocated, _⟩ := Names.nextStatement_eq_some mended.issued
    refine mended.putInCode (Counter.word_of_allocate wordy.statements allocated) ?_ whole
    rw [mended.chain_eq, Scanner.run_append]
    exact behind.symm.trans back

/-- A chain with a literal and a comment, and a block that ends in a line comment. -/
def quotedCall : Repair where
  content := "try (A a = c.createStatement().q(\"x\" /* y */)) \x7b\n f(\"\x7d\"); // z\n\x7d\n".toList
  names := .seeded [] ['h'] ['s']

def quotedCallHeader : Occurrence LooseStatement where
  place := 0
  value :=
    { indent := [], resource := "try (A a =".toList, statement := " c.createStatement()".toList
      chain := ".q(\"x\" /* y */)) \x7b".toList }

theorem quotedCall_in_code :
    firstHit LooseStatement.probe 0 none quotedCall.content = some quotedCallHeader ∧
      (Scanner.start.labels quotedCall.content)[47]? = some ('{', .code) ∧
      ∃ later written inner rest, quotedCall.mend quotedCallHeader = .ok later ∧
        later.content = written ++ (trimEnd inner ++ ('\n' :: '}' :: (trailingBlanks inner ++ '}' :: rest))) ∧
        PutInCode written inner [] := by
  have next : firstHit LooseStatement.probe 0 none quotedCall.content = some quotedCallHeader := by
    decide +kernel
  obtain ⟨later, done⟩ := exists_of_isOk (quotedCall.mend quotedCallHeader) (by decide +kernel)
  obtain ⟨brace, back, written, inner, rest, cut, _, behind, put⟩ := headerBrace_code_iff next done
  have wordy : quotedCall.names.Wordy :=
    ⟨List.all_eq_true.mp (by decide +kernel), List.all_eq_true.mp (by decide +kernel)⟩
  have whole : (scope (quotedCall.content.drop (quotedCallHeader.place + quotedCallHeader.value.length))).map
      (fun inner => (trimEnd inner).getLast?) = .ok (some 'z') := by
    decide +kernel
  have last : (trimEnd inner).getLast? = some 'z' := by
    rw [cut] at whole
    exact Except.ok.inj whole
  exact ⟨next, brace.mpr (by decide +kernel), later, written, inner, rest, done, behind,
    put wordy (back.mpr (by decide +kernel)) (by simp [last])⟩

/-- A chain with a brace in a literal. -/
def bracedLiteral : Repair where
  content := "try (A a = c.createStatement().q(\"\x7bx\x7d\")) \x7b\n\x7d\n".toList
  names := .seeded [] ['h'] ['s']

def bracedLiteralHeader : Occurrence LooseStatement where
  place := 0
  value :=
    { indent := [], resource := "try (A a =".toList, statement := " c.createStatement()".toList
      chain := ".q(\"\x7b".toList }

/-- **The brace in the literal ends the header, and a line break is put into the literal.** -/
theorem bracedLiteral_cut :
    firstHit LooseStatement.probe 0 none bracedLiteral.content = some bracedLiteralHeader ∧
      (Scanner.start.labels bracedLiteral.content)[34]? = some ('{', .literal) ∧
      (bracedLiteral.mend bracedLiteralHeader).map (fun later =>
          (later.content, (Scanner.start.labels later.content)[56]?)) =
        .ok ("try (var s1 = c.createStatement()) \x7b try (A a = s1.q(\"\x7bx\n\x7d\x7d\")) \x7b\n\x7d\n".toList,
          some ('\n', .literal)) := by
  decide +kernel

end ScopedHandles
