/-
**A declaration in its text.**

A declaration that is enclosed has an initializer. So the text around it is cut in one way: the lines
before it, its head, its statement, the rest of its block, and what follows the block.

* `HandleSite` — the parts of a text around a declaration.
* `HandleSite.splice_eq` — the text with an enclosure in place, in parts.
* `HandleSite.identifiers_splice_subset` — an enclosure brings in `try` and its own name.
-/

import ScopedHandles.Proofs.Enclosure
import ScopedHandles.Proofs.HeaderIdentifier

namespace ScopedHandles

/-- A declaration with an initializer that is found in a text. -/
structure HandleSite (ending content : Text) (found : Occurrence Declaration) where
  /-- The lines before it. -/
  above : Text
  layout : Layout ending
  /-- The text between the equals sign and the terminator. -/
  statement : Text
  /-- The text behind it. -/
  later : Text
  content_eq : content = above ++ (layout.front ++ (statement ++ [';']) ++ later)
  begins : endsLine true above = true
  place_eq : found.place = above.length
  indent_eq : found.value.indent = layout.indent
  name_eq : found.value.name = layout.name
  type_eq : found.value.declaredType = layout.mark ++ layout.core
  initializer_eq : found.value.initializer = some (trim statement)
  length_eq : found.value.length = (layout.front ++ (statement ++ [';'])).length

/-! ### Finding the site -/

namespace Declaration

/-- A declaration with an initializer goes through the end of its statement. -/
theorem exists_statement_of_ofHead {kind : HandleKind} {head : Head} {size length : Nat}
    {declaration : Declaration} {initializer : Text}
    (found : ofHead kind head size = .hit declaration length)
    (given : declaration.initializer = some initializer) :
    ∃ statement later, head.rest = statement ++ ';' :: later ∧ initializer = trim statement ∧
      declaration.length = size + (statement ++ [';']).length := by
  obtain ⟨indent, declaredType, name, rest⟩ := head
  simp only [ofHead] at found
  split_ifs at found
  split at found
  · obtain ⟨rfl, _⟩ := Probe.hit.inj found
    cases given
  · next terminator ends =>
    split_ifs at found
    obtain ⟨rfl, _⟩ := Probe.hit.inj found
    obtain ⟨statement, later, rfl, rfl, _⟩ := exists_of_statementEndFrom ends
    rw [List.take_left] at given
    refine ⟨statement, later, rfl, (Option.some.inj given).symm, ?_⟩
    rw [List.length_append, List.length_singleton, Nat.add_assoc]

end Declaration

theorem nonempty_handleSite {kind : HandleKind} {ending content : Text} {place : Nat}
    {found : Occurrence Declaration} {header : Text}
    (next : nextDeclaration kind ending content place = some found)
    (made : found.value.header = .ok header) : Nonempty (HandleSite ending content found) := by
  rw [nextDeclaration, firstHit_eq_head?] at next
  obtain ⟨above, text, _, rfl, here, _, seen⟩ := exists_of_mem_allHits (List.mem_of_mem_head? next)
  obtain ⟨layout, rfl, begins, judged⟩ := Declaration.exists_layout_of_probe seen
  obtain ⟨_, indent, name, type, _⟩ := Declaration.eq_of_ofHead judged
  obtain ⟨initializer, given⟩ := Declaration.exists_initializer_of_header made
  obtain ⟨statement, later, rest, rfl, length⟩ :=
    Declaration.exists_statement_of_ofHead judged given
  have rest : layout.rest = statement ++ ';' :: later := rest
  have whole : layout.text = layout.front ++ (statement ++ [';']) ++ later := by
    rw [layout.text_eq, rest]
    simp only [List.append_assoc, List.singleton_append]
  refine ⟨⟨above, layout, statement, later, by rw [whole], (endsLine_eq none above).trans begins,
    by rw [here, Nat.zero_add], indent, name, type, given, ?_⟩⟩
  rw [length, layout.text_eq, List.length_append, Nat.add_sub_cancel, ← List.length_append]

/-! ### The text with an enclosure in place -/

namespace HandleSite

variable {ending content : Text} {found : Occurrence Declaration} (site : HandleSite ending content found)

theorem drop_stop : content.drop found.stop = site.later := by
  have split : content = (site.above ++ (site.layout.front ++ (site.statement ++ [';']))) ++ site.later :=
    site.content_eq.trans (List.append_assoc _ _ _).symm
  rw [Occurrence.stop, site.place_eq, site.length_eq, ← List.length_append]
  exact (congrArg (List.drop _) split).trans List.drop_left

theorem take_start : content.take found.start = site.above ++ site.layout.indent := by
  have split : content = (site.above ++ site.layout.indent) ++ (site.layout.mark ++
      (site.layout.core ++ (site.layout.gap ++ (site.layout.name ++ (site.layout.blanks ++ ['=']))))
        ++ (site.statement ++ [';']) ++ site.later) := by
    refine site.content_eq.trans ?_
    simp only [Layout.front, List.append_assoc]
  rw [Occurrence.start, site.place_eq, site.indent_eq, ← List.length_append]
  exact (congrArg (List.take _) split).trans List.take_left

/-- **The text with an enclosure in place, in parts.** -/
theorem splice_eq {names left : Names} {enclosure : Enclosure}
    (done : enclose found content names = .ok (enclosure, left)) :
    ∃ header inner rest, found.value.header = .ok header ∧ site.later = inner ++ '}' :: rest ∧
      escape? found.value.name inner = none ∧ names.nextHandle = some (enclosure.symbol, left) ∧
      enclosure.splice content = site.above ++ (site.layout.indent ++
        ("try (".toList ++ (rename header found.value.name enclosure.symbol ++ ") \x7b".toList) ++
          (rename (trimEnd inner) found.value.name enclosure.symbol ++
            ('\n' :: site.layout.indent ++ '}' :: (trailingBlanks inner ++ '}' :: rest))))) := by
  obtain ⟨header, inner, made, cut, stays, next, ofHeader, start, stop, text⟩ := enclose_eq_ok done
  rw [site.drop_stop] at cut
  obtain ⟨rest, whole, _⟩ := eq_of_scopeFrom_eq_ok cut
  have after : content.drop (found.stop + inner.length) = '}' :: rest := by
    rw [← List.drop_drop, site.drop_stop, whole, List.drop_left]
  refine ⟨header, inner, rest, made, whole, stays, next, ?_⟩
  rw [Enclosure.splice, start, stop, site.take_start, after, text, ofHeader, site.indent_eq,
    blockText_append]
  generalize "try (".toList = first, ") \x7b".toList = second
  simp only [List.append_assoc, List.cons_append]

/-! ### The identifiers of the text -/

theorem seam_above {later : Text} : Seam site.above later := by
  refine .inl fun c last => ?_
  rw [eq_newline_of_endsLine site.begins c last]
  decide

theorem isWhiteSpace_indent : ∀ c ∈ site.layout.indent, isWhiteSpace c = true := fun c mem =>
  isWhiteSpace_of_isIndentChar (site.layout.indent_blank c mem)

/-- The identifiers of the parts. -/
theorem identifiers_content : identifiers content =
    identifiers site.above ++ (identifiers (site.layout.mark ++ site.layout.core) ++
      (identifiers site.layout.name ++ (identifiers site.statement ++ identifiers site.later))) := by
  have split : content = site.above ++ (site.layout.indent ++
      ((site.layout.mark ++ site.layout.core) ++ (site.layout.gap ++ ((site.layout.name ++
        site.layout.blanks) ++ '=' :: (site.statement ++ ';' :: site.later))))) := by
    refine site.content_eq.trans ?_
    simp only [Layout.front, List.append_assoc, List.cons_append, List.nil_append]
  refine (congrArg identifiers split).trans ?_
  rw [identifiers_append site.seam_above, identifiers_blank_append site.isWhiteSpace_indent,
    identifiers_append_gap site.layout.gap_blank site.layout.gap_nonempty,
    identifiers_append_cons (by decide), identifiers_append_blank site.layout.blanks_blank,
    identifiers_append_cons (by decide)]

include site in
/-- **An enclosure brings in `try` and its own name.** Each part of the text with the enclosure in place
stands behind a character of no identifier. -/
theorem identifiers_splice_subset {names left : Names} {enclosure : Enclosure}
    (done : enclose found content names = .ok (enclosure, left)) (some : enclosure.symbol ≠ [])
    (chars : ∀ c ∈ enclosure.symbol, isIdentChar c = true) :
    identifiers (enclosure.splice content) ⊆
      "try".toList :: enclosure.symbol :: identifiers content := by
  obtain ⟨header, inner, rest, made, whole, _, _, text⟩ := site.splice_eq done
  have oldWord : Word found.value.name := site.name_eq ▸ site.layout.name_word
  have shape : enclosure.splice content = site.above ++ (site.layout.indent ++ ("try".toList ++
      ' ' :: '(' :: (rename header found.value.name enclosure.symbol ++ ')' :: ' ' :: '{' ::
        (rename (trimEnd inner) found.value.name enclosure.symbol ++ '\n' :: (site.layout.indent ++
          '}' :: (trailingBlanks inner ++ '}' :: rest)))))) := by
    rw [text]
    simp
  have parts : identifiers (enclosure.splice content) = identifiers site.above ++ ("try".toList ::
      (identifiers (rename header found.value.name enclosure.symbol) ++
        (identifiers (rename (trimEnd inner) found.value.name enclosure.symbol) ++
          identifiers rest))) := by
    rw [shape, identifiers_append site.seam_above, identifiers_blank_append site.isWhiteSpace_indent,
      identifiers_append_cons (by decide), identifiers_cons_of_not (by decide),
      identifiers_append_cons (by decide), identifiers_cons_of_not (by decide),
      identifiers_cons_of_not (by decide), identifiers_append_cons (by decide),
      identifiers_blank_append site.isWhiteSpace_indent, identifiers_cons_of_not (by decide),
      identifiers_blank_append isWhiteSpace_of_mem_trailingBlanks, identifiers_cons_of_not (by decide)]
    rfl
  have ofHeader := identifiers_rename_subset oldWord some chars header
  have ofBody := identifiers_rename_subset oldWord some chars (trimEnd inner)
  have ofParts := Declaration.identifiers_header_subset made site.initializer_eq
  rw [site.type_eq, site.name_eq, identifiers_trim] at ofParts
  rw [identifiers_trimEnd] at ofBody
  have before := site.identifiers_content
  rw [whole, identifiers_append_cons (by decide)] at before
  rw [parts, before]
  intro name mem
  simp only [List.mem_append, List.mem_cons] at mem ⊢
  rcases mem with inAbove | isTry | inHeader | inBody | inRest
  · exact .inr (.inr (.inl inAbove))
  · exact .inl isTry
  · rcases List.mem_cons.mp (ofHeader inHeader) with isSymbol | inHeader
    · exact .inr (.inl isSymbol)
    · have inParts := ofParts inHeader
      simp only [List.mem_append] at inParts
      tauto
  · rcases List.mem_cons.mp (ofBody inBody) with isSymbol | inBody
    · exact .inr (.inl isSymbol)
    · tauto
  · tauto

end HandleSite

end ScopedHandles
