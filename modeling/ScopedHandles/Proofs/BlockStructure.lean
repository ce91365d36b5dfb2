/-
**Splices keep the blocks of a text.**

A splice puts a closing brace on a line of its own behind the body of a block. The body may end in a
line comment or in a literal that is not closed, and the line break that ended it is among the white
space that is moved behind the new brace. The line break that is put in takes its place:

```
body ↵ indent } trailing } …
```

* `scope_reclosed` — the brace that is put in closes the block of the body.
* `scope_trailing` — the brace that was there still closes the block around.
* `splices_keep_blocks` — both, for every enclosure and for every mended header.
-/

import ScopedHandles.Proofs.Enclosure

namespace ScopedHandles

/-- The number of bytes before the brace that closes the block in which a text begins. -/
def scopeEnd (text : Text) : Except SkipReason Nat :=
  (scope text).map byteSize

theorem scopeEnd_of_scope {text inner : Text} (found : scope text = .ok inner) :
    scopeEnd text = .ok (byteSize inner) := by
  rw [scopeEnd, found]
  rfl

/-! ### The two braces -/

/-- The brace behind white space closes its block if it did behind the same white space. -/
theorem Closes.depth_eq {scanner : Scanner} {blanks : Text}
    (blank : ∀ c ∈ blanks, isWhiteSpace c = true) (closes : Closes (scanner.run blanks)) :
    scanner.depth = 0 := by
  rw [← Scanner.depth_run_blank blank]
  exact closes.balanced

theorem closes_start : Closes .start :=
  ⟨by decide, rfl⟩

/-- **The line break that is put in ends what the body leaves open**, unless the body ends in an escape. -/
theorem run_lineBreak {inner indent : Text} (closes : Closes (Scanner.start.run inner))
    (steady : (Scanner.start.run (trimEnd inner)).Steady) (blank : ∀ c ∈ indent, isIndentChar c = true) :
    (Scanner.start.run (trimEnd inner)).run ('\n' :: indent) = .start := by
  rw [← trimEnd_append_trailingBlanks inner, Scanner.run_append] at closes
  rw [Scanner.run_cons, Scanner.next_newline steady, closes.depth_eq isWhiteSpace_of_mem_trailingBlanks]
  exact Scanner.run_blank fun c mem => isWhiteSpace_of_isIndentChar (blank c mem)

theorem steady_of_getLast? {body : Text} (whole : body.getLast? ≠ some '\\') :
    (Scanner.start.run body).Steady := by
  refine (Scanner.behind_start.run body).steady ?_
  rwa [Option.or_none]

/-- **The brace that is put in closes the block of the body.** What counts of the body is only how a
scan ends on it, so the body may have been renamed. -/
theorem scope_reclosed {text inner body indent : Text} (found : scope text = .ok inner)
    (whole : (trimEnd inner).getLast? ≠ some '\\')
    (sameRun : Scanner.start.run body = Scanner.start.run (trimEnd inner))
    (sameBlocks : openBlocks .start 0 body = openBlocks .start 0 (trimEnd inner))
    (blank : ∀ c ∈ indent, isIndentChar c = true) (later : Text) :
    scope (body ++ '\n' :: indent ++ '}' :: later) = .ok (body ++ '\n' :: indent) := by
  obtain ⟨_, _, blocks, closes⟩ := eq_of_scopeFrom_eq_ok found
  have bodyBlocks : openBlocks .start 0 (trimEnd inner) = some 0 := by
    rw [← trimEnd_append_trailingBlanks inner, openBlocks_append] at blocks
    obtain ⟨left, bodyLeft, blanksLeft⟩ := Option.bind_eq_some_iff.mp blocks
    rw [openBlocks_of_class (by decide) (by decide) isWhiteSpace_of_mem_trailingBlanks] at blanksLeft
    rwa [Option.some.inj blanksLeft] at bodyLeft
  have back : (Scanner.start.run body).run ('\n' :: indent) = .start := by
    rw [sameRun]
    exact run_lineBreak closes (steady_of_getLast? whole) blank
  refine scopeFrom_eq_ok_iff.mpr ⟨later, rfl, ?_, ?_⟩
  · have lineBlocks : openBlocks (Scanner.start.run body) 0 ('\n' :: indent) = some 0 := by
      refine openBlocks_of_class (p := isWhiteSpace) (by decide) (by decide) fun c mem => ?_
      rcases List.mem_cons.mp mem with rfl | mem
      · decide
      · exact isWhiteSpace_of_isIndentChar (blank c mem)
    rw [openBlocks_append, sameBlocks, bodyBlocks]
    exact lineBlocks
  · rw [Scanner.run_append, back]
    exact closes_start

/-- **The brace that was there still closes the block around.** -/
theorem scope_trailing {text inner : Text} (found : scope text = .ok inner) :
    scope (trailingBlanks inner ++ text.drop inner.length) = .ok (trailingBlanks inner) := by
  obtain ⟨later, rfl, _, _⟩ := eq_of_scopeFrom_eq_ok found
  have white : ∀ c ∈ trailingBlanks inner, isWhiteSpace c = true := isWhiteSpace_of_mem_trailingBlanks
  rw [List.drop_left]
  refine scopeFrom_eq_ok_iff.mpr ⟨later, rfl, openBlocks_of_class (by decide) (by decide) white, ?_⟩
  rw [Scanner.run_blank white]
  exact closes_start

/-! ### Every splice -/

/-- A new block with the text `body` in it, and the text that follows: the brace behind `indent` closes
the new block, and the brace that `rest` begins with closes the block around it. -/
def Reclosed (body indent trailing rest : Text) : Prop :=
  scopeEnd (body ++ '\n' :: indent ++ '}' :: trailing ++ rest) =
      .ok (byteSize (body ++ '\n' :: indent)) ∧
    scopeEnd (trailing ++ rest) = .ok (byteSize trailing)

theorem reclosed_of_scope {text inner body indent : Text} (found : scope text = .ok inner)
    (whole : (trimEnd inner).getLast? ≠ some '\\')
    (sameRun : Scanner.start.run body = Scanner.start.run (trimEnd inner))
    (sameBlocks : openBlocks .start 0 body = openBlocks .start 0 (trimEnd inner))
    (blank : ∀ c ∈ indent, isIndentChar c = true) :
    Reclosed body indent (trailingBlanks inner) (text.drop inner.length) := by
  constructor
  · have reclosed := scope_reclosed found whole sameRun sameBlocks blank
      (trailingBlanks inner ++ text.drop inner.length)
    rw [List.append_assoc, List.cons_append]
    exact scopeEnd_of_scope reclosed
  · exact scopeEnd_of_scope (scope_trailing found)

/-- A declaration that is found is indented by blanks and tabs, and its name is a word. -/
theorem indent_and_name_of_nextDeclaration {kind : HandleKind} {ending content : Text} {place : Nat}
    {found : Occurrence Declaration} (next : nextDeclaration kind ending content place = some found) :
    (∀ c ∈ found.value.indent, isIndentChar c = true) ∧ Word found.value.name := by
  obtain ⟨last, text, length, seen⟩ := exists_of_firstHit next
  obtain ⟨layout, _, _, made⟩ := Declaration.exists_layout_of_probe seen
  obtain ⟨_, indent, name, _⟩ := Declaration.eq_of_ofHead made
  rw [indent, name]
  exact ⟨layout.indent_blank, layout.name_word⟩

theorem indent_of_looseStatement {content : Text} {place : Nat} {found : Occurrence LooseStatement}
    (next : firstHit LooseStatement.probe place none content = some found) :
    ∀ c ∈ found.value.indent, isIndentChar c = true := by
  obtain ⟨last, text, length, seen⟩ := exists_of_firstHit next
  unfold LooseStatement.probe at seen
  split_ifs at seen
  split at seen
  · simp at seen
  · next loose read =>
    obtain ⟨same, _⟩ := Probe.hit.inj seen
    rw [← same]
    simp only [LooseStatement.read?, Option.bind_eq_bind, Option.bind_eq_some_iff, Option.pure_def,
      Option.some.injEq] at read
    obtain ⟨_, _, _, _, _, _, rfl⟩ := read
    exact fun c mem => List.mem_takeWhile_imp mem

/-- **Splices keep the blocks of a text.** A declaration that is enclosed, and a header that is mended,
has a scope. If the scope does not end in a backslash, the brace that is put in behind it closes the new
block, and the brace that closed the scope closes the block around the new one. -/
theorem splices_keep_blocks :
    (∀ {kind : HandleKind} {ending content : Text} {place : Nat} {found : Occurrence Declaration}
        {names later : Names} {enclosure : Enclosure},
      isPlainIdentifier names.handles.stem = true →
      nextDeclaration kind ending content place = some found →
      enclose found content names = .ok (enclosure, later) →
      ∃ inner, scope (content.drop found.stop) = .ok inner ∧
        ((trimEnd inner).getLast? ≠ some '\\' →
          ∃ body rest, body = rename (trimEnd inner) found.value.name enclosure.symbol ∧
            rest = content.drop (found.stop + inner.length) ∧
            enclosure.splice content =
              content.take found.start ++ "try (".toList ++ enclosure.header ++ ") \x7b".toList
                ++ (body ++ '\n' :: found.value.indent ++ '}' :: trailingBlanks inner ++ rest) ∧
            Reclosed body found.value.indent (trailingBlanks inner) rest)) ∧
    (∀ {place : Nat} {repair later : Repair} {found : Occurrence LooseStatement},
      firstHit LooseStatement.probe place none repair.content = some found →
      repair.mend found = .ok later →
      ∃ inner, scope (repair.content.drop (found.place + found.value.length)) = .ok inner ∧
        ((trimEnd inner).getLast? ≠ some '\\' →
          ∃ name body rest, body = trimEnd inner ∧
            rest = repair.content.drop (found.place + found.value.length + inner.length) ∧
            later.content =
              repair.content.take (found.place + found.value.indent.length)
                ++ "try (var ".toList ++ name ++ " = ".toList ++ trim found.value.statement
                ++ ") \x7b ".toList ++ found.value.resource ++ ' ' :: name ++ found.value.chain
                ++ (body ++ '\n' :: found.value.indent ++ '}' :: trailingBlanks inner ++ rest) ∧
            Reclosed body found.value.indent (trailingBlanks inner) rest)) := by
  constructor
  · intro kind ending content place found names later enclosure plain next done
    obtain ⟨header, inner, _, cut, _, handle, _, start, stop, text⟩ := enclose_eq_ok done
    obtain ⟨blank, oldWord⟩ := indent_and_name_of_nextDeclaration next
    obtain ⟨_, allocated, _⟩ := Names.nextHandle_eq_some handle
    have newWord : Word enclosure.symbol :=
      Counter.word_of_allocate (isWordChar_of_isPlainIdentifier plain) allocated
    have renamed := renamed_rename (trimEnd inner) found.value.name enclosure.symbol
    refine ⟨inner, cut, fun whole => ⟨_, _, rfl, rfl, ?_, ?_⟩⟩
    · rw [Enclosure.splice, start, stop, text, blockText_append]
    · have reclosed :=
        reclosed_of_scope cut whole (renamed.run_eq oldWord newWord Scanner.behind_start).symm
        (renamed.openBlocks_eq oldWord newWord Scanner.behind_start 0).symm blank
      rwa [List.drop_drop] at reclosed
  · intro place repair later found next done
    obtain ⟨inner, name, names, cut, _, rfl⟩ := Repair.mend_eq_ok done
    refine ⟨inner, cut, fun whole => ⟨name, _, _, rfl, rfl, ?_, ?_⟩⟩
    · exact mended_append found.value _ name inner _
    · have reclosed := reclosed_of_scope cut whole rfl rfl (indent_of_looseStatement next)
      rwa [List.drop_drop] at reclosed

/-- A block that ends in a line comment, the handle in comments, and a brace in a nested comment. -/
def commentedBlock : Text :=
  "\x7b\n ResultSet rs = q();\n rs.next(); /* \x7b /* rs */ */ // of rs \x7d\n\x7d\n".toList

def commentedHandle : Occurrence Declaration where
  place := 2
  value :=
    { kind := .cursor, indent := [' '], declaredType := "ResultSet".toList, name := "rs".toList
      initializer := some "q()".toList, length := 20 }

/-- A header that is mended, and a block that ends in a literal that is not closed. -/
def openLiteral : Repair where
  content := "try (ResultSet rs = c.createStatement().q()) \x7b \"\x7d\n \x7d".toList
  names := .seeded [] "gv".toList "st".toList

def openLiteralHeader : Occurrence LooseStatement where
  place := 0
  value :=
    { indent := [], resource := "try (ResultSet rs =".toList
      statement := " c.createStatement()".toList, chain := ".q()) \x7b".toList }

theorem exists_of_isOk {ε α : Type} (result : Except ε α) (done : result.isOk = true) :
    ∃ value, result = .ok value := by
  cases result with
  | error error => simp [Except.isOk, Except.toBool] at done
  | ok value => exact ⟨value, rfl⟩

theorem splices_keep_blocks_commented :
    (∃ enclosure later inner,
      enclose commentedHandle commentedBlock (.seeded [] "gv".toList "st".toList) =
        .ok (enclosure, later) ∧
      scope (commentedBlock.drop commentedHandle.stop) = .ok inner ∧
      (trimEnd inner).getLast? = some '}' ∧
      Reclosed (rename (trimEnd inner) "rs".toList enclosure.symbol) [' '] (trailingBlanks inner)
        (commentedBlock.drop (commentedHandle.stop + inner.length))) ∧
    (∃ later inner,
      openLiteral.mend openLiteralHeader = .ok later ∧
      scope (openLiteral.content.drop (openLiteralHeader.place + openLiteralHeader.value.length)) =
        .ok inner ∧
      (trimEnd inner).getLast? = some '}' ∧
      Reclosed (trimEnd inner) [] (trailingBlanks inner)
        (openLiteral.content.drop
          (openLiteralHeader.place + openLiteralHeader.value.length + inner.length))) := by
  constructor
  · have next : nextDeclaration .cursor "ResultSet".toList commentedBlock 0 = some commentedHandle := by
      decide +kernel
    obtain ⟨⟨enclosure, later⟩, done⟩ := exists_of_isOk
      (enclose commentedHandle commentedBlock (.seeded [] "gv".toList "st".toList))
      (by decide +kernel)
    have whole : (scope (commentedBlock.drop commentedHandle.stop)).map
        (fun inner => (trimEnd inner).getLast?) = .ok (some '}') := by
      decide +kernel
    obtain ⟨inner, cut, closed⟩ := splices_keep_blocks.1 (by decide +kernel) next done
    have last : (trimEnd inner).getLast? = some '}' := by
      rw [cut] at whole
      exact Except.ok.inj whole
    obtain ⟨_, _, rfl, rfl, _, reclosed⟩ := closed (by simp [last])
    exact ⟨enclosure, later, inner, done, cut, last, reclosed⟩
  · have next : firstHit LooseStatement.probe 0 none openLiteral.content = some openLiteralHeader := by
      decide +kernel
    obtain ⟨later, done⟩ := exists_of_isOk (openLiteral.mend openLiteralHeader) (by decide +kernel)
    have whole : (scope (openLiteral.content.drop
        (openLiteralHeader.place + openLiteralHeader.value.length))).map
        (fun inner => (trimEnd inner).getLast?) = .ok (some '}') := by
      decide +kernel
    obtain ⟨inner, cut, closed⟩ := splices_keep_blocks.2 next done
    have last : (trimEnd inner).getLast? = some '}' := by
      rw [cut] at whole
      exact Except.ok.inj whole
    obtain ⟨_, _, _, rfl, rfl, _, reclosed⟩ := closed (by simp [last])
    exact ⟨later, inner, done, cut, last, reclosed⟩

end ScopedHandles
