/-
**The name in a header.**

A header is type, name, sign and value. Its name stands between blanks and outside of literals, so it is a
reference and is renamed, whatever else in the header is called like it.

* `renameFrom_append_of_cut`, `renameFrom_append` — a text is renamed part by part where no reference goes over
  the cut, as where one may end.
* `exists_rename_named` — a name between blanks is renamed.
* `Declaration.exists_rename_header` — the renamed header, in parts.
-/

import ScopedHandles.Proofs.HeaderLines

namespace ScopedHandles

/-! ### Renaming, step by step -/

section Renaming

variable {old new text later : Text} {scanner : Scanner} {last : Option Char}

/-- Whether a reference stands at the beginning of a piece does not depend on what follows the piece, if a
reference may end there: a word that stands partly in the piece goes on behind it. -/
theorem isReference_append_eq (oldWord : Word old) (follows : mayFollow later.head? = true) :
    isReference old scanner last (text ++ later) = isReference old scanner last text := by
  refine Bool.eq_iff_iff.mpr ⟨fun found => ?_, isReference_append follows⟩
  obtain ⟨c, word, rest, same, split, outside, before, behind⟩ := isReference_iff.mp found
  refine isReference_iff.mpr ?_
  rcases List.append_eq_append_iff.mp split with ⟨more, inOld, inLater⟩ | ⟨more, inText, inRest⟩
  · have none : more = [] := by
      by_contra nonempty
      obtain ⟨d, more, rfl⟩ := List.exists_cons_of_ne_nil nonempty
      have inside := oldWord.chars d (inOld ▸ List.mem_append_right _ List.mem_cons_self)
      rw [inLater, List.cons_append, List.head?_cons] at follows
      rw [not_isWordChar_of_mayFollow follows] at inside
      exact Bool.noConfusion inside
    rw [none, List.append_nil] at inOld
    exact ⟨c, word, [], same, by rw [inOld, List.append_nil], outside, before, rfl⟩
  · refine ⟨c, word, more, same, inText, outside, before, ?_⟩
    cases more with
    | nil => rfl
    | cons d more => rwa [inRest] at behind

theorem isReference_cons_of_not {c : Char} (oldWord : Word old) (other : isWordChar c = false) :
    isReference old scanner last (c :: text) = false := by
  by_contra found
  obtain ⟨d, word, later, same, split, _⟩ := isReference_iff.mp (Bool.not_eq_false _ ▸ found)
  rw [same, List.cons_append, List.cons.injEq] at split
  have inside := oldWord.chars d (same ▸ List.mem_cons_self)
  rw [← split.1, other] at inside
  exact Bool.noConfusion inside

/-- What stands behind a reference is shorter than what begins with it. -/
theorem length_lt_of_isReference (found : isReference old scanner last text = true)
    (split : text = old ++ later) : later.length < text.length := by
  obtain ⟨_, _, nonempty, _⟩ := eq_append_of_isReference found
  have positive := List.length_pos_iff.mpr nonempty
  rw [split, List.length_append]
  omega

theorem renameFrom_cons {c : Char} (other : isReference old scanner last (c :: text) = false) :
    renameFrom old new scanner last 0 (c :: text) =
      c :: renameFrom old new (scanner.next c) (some c) 0 text := by
  rw [renameFrom, if_neg (by simp [other])]

theorem renameFrom_reference (found : isReference old scanner last (old ++ later) = true) :
    renameFrom old new scanner last 0 (old ++ later) =
      new ++ renameFrom old new (scanner.run old) (old.getLast?.or last) 0 later := by
  obtain ⟨c, word, _, rfl, _⟩ := isReference_iff.mp found
  rw [← renameFrom_skip]
  rw [List.cons_append] at found ⊢
  rw [renameFrom, if_pos found]
  rfl

/-- **A text is renamed part by part if no reference goes over the cut**: whether one stands at the
beginning of a piece must not depend on what follows the cut. -/
theorem renameFrom_append_of_cut {text : Text}
    (cut : ∀ piece, piece ≠ [] → piece <:+ text → ∀ scanner last,
      isReference old scanner last (piece ++ later) = isReference old scanner last piece)
    (scanner : Scanner) (last : Option Char) :
    renameFrom old new scanner last 0 (text ++ later) =
      renameFrom old new scanner last 0 text ++
        renameFrom old new (scanner.run text) (text.getLast?.or last) 0 later := by
  cases text with
  | nil => simp [renameFrom]
  | cons c rest =>
    have same : isReference old scanner last (c :: rest ++ later) =
        isReference old scanner last (c :: rest) :=
      cut _ (List.cons_ne_nil _ _) (List.suffix_refl _) scanner last
    cases found : isReference old scanner last (c :: rest) with
    | true =>
      obtain ⟨more, split, _⟩ := eq_append_of_isReference found
      have shorter : more.length < rest.length + 1 := length_lt_of_isReference found split
      have inner : ∀ piece, piece ≠ [] → piece <:+ more → ∀ scanner last,
          isReference old scanner last (piece ++ later) = isReference old scanner last piece :=
        fun piece some suffix => cut piece some (suffix.trans ⟨old, split.symm⟩)
      rw [found, split, List.append_assoc] at same
      rw [split] at found
      rw [split, List.append_assoc, renameFrom_reference same, renameFrom_reference found,
        renameFrom_append_of_cut inner, Scanner.run_append, List.append_assoc,
        List.getLast?_append, Option.or_assoc]
    | false =>
      have inner : ∀ piece, piece ≠ [] → piece <:+ rest → ∀ scanner last,
          isReference old scanner last (piece ++ later) = isReference old scanner last piece :=
        fun piece some suffix => cut piece some (suffix.trans (List.suffix_cons c rest))
      rw [found, List.cons_append] at same
      rw [List.cons_append, renameFrom_cons same, renameFrom_cons found,
        renameFrom_append_of_cut inner, Scanner.run_cons, getLast?_cons_or, List.cons_append]
termination_by text.length

/-- **A text that is cut where a reference may end is renamed part by part.** -/
theorem renameFrom_append (oldWord : Word old) (follows : mayFollow later.head? = true)
    (scanner : Scanner) (last : Option Char) (text : Text) :
    renameFrom old new scanner last 0 (text ++ later) =
      renameFrom old new scanner last 0 text ++
        renameFrom old new (scanner.run text) (text.getLast?.or last) 0 later :=
  renameFrom_append_of_cut (fun _ _ _ _ _ => isReference_append_eq oldWord follows) scanner last

end Renaming

/-! ### Headers -/

/-- A type neither begins nor ends with white space. -/
theorem Layout.trim_type {ending : Text} (isWord : Word ending) (layout : Layout ending) :
    trim (layout.mark ++ layout.core) = layout.mark ++ layout.core := by
  have solid := layout.core_nonempty isWord
  have nothing : ∀ c ∈ ([] : Text), isWhiteSpace c = true := by simp
  have first : ∀ c ∈ (layout.mark ++ layout.core).head?, isWhiteSpace c = false := by
    intro c first
    refine not_isWhiteSpace_of_isDottedChar (layout.isDottedChar_head_line isWord c ?_)
    rw [Layout.line, List.head?_append_of_ne_nil _ (List.append_ne_nil_of_right_ne_nil _ solid)]
    exact first
  have last : ∀ c ∈ (layout.mark ++ layout.core).getLast?, isWhiteSpace c = false := by
    intro c last
    rw [List.getLast?_append_of_ne_nil _ solid] at last
    exact not_isWhiteSpace_of_isDottedChar
      (layout.isDottedChar_of_mem_core isWord c (List.mem_of_getLast? last))
  have whole := trim_eq nothing nothing first last
  rwa [List.nil_append, List.append_nil] at whole

/-- A type opens neither a comment nor a literal. -/
theorem Layout.run_type {ending : Text} (isWord : Word ending) (layout : Layout ending) :
    Scanner.start.run (layout.mark ++ layout.core) = .start := by
  have words : ∀ c ∈ "final".toList, isDottedChar c = true := List.all_eq_true.mp (by decide +kernel)
  have plain : ∀ c ∈ layout.mark ++ layout.core, (isDottedChar c || isWhiteSpace c) = true := by
    intro c mem
    rcases List.mem_append.mp mem with inMark | inCore
    · rcases layout.mark_final with none | ⟨blanks, mark, _, blank⟩
      · simp [none] at inMark
      · rcases List.mem_append.mp (mark ▸ inMark) with inFinal | inBlanks
        · rw [words c inFinal, Bool.true_or]
        · rw [blank c inBlanks, Bool.or_true]
    · rw [layout.isDottedChar_of_mem_core isWord c inCore, Bool.true_or]
  have apart : ∀ {d : Char}, (isDottedChar d || isWhiteSpace d) = false →
      ∀ c ∈ layout.mark ++ layout.core, c ≠ d := fun other c mem =>
    ne_of_class (p := fun c => isDottedChar c || isWhiteSpace c) (plain c mem) other
  exact Scanner.run_start fun c mem => ⟨apart (by decide) c mem, apart (by decide) c mem,
    apart (by decide) c mem, apart (by decide) c mem⟩

/-- **A name between blanks is renamed**, if neither a comment nor a literal is open before it. -/
theorem exists_rename_named {old new type value : Text} (oldWord : Word old)
    (plain : Scanner.start.run type = .start) :
    ∃ rest, rename (type ++ ' ' :: (old ++ ' ' :: value)) old new =
      rename type old new ++ ' ' :: (new ++ ' ' :: rest) := by
  have blank : ∀ scanner last text, isReference old scanner last (' ' :: text) = false :=
    fun _ _ _ => isReference_cons_of_not oldWord (by decide)
  have named : isReference old .start (some ' ') (old ++ ' ' :: value) = true := by
    obtain ⟨c, word, same⟩ := List.exists_cons_of_ne_nil oldWord.nonempty
    have isWord := oldWord.chars c (same ▸ List.mem_cons_self)
    refine isReference_iff.mpr ⟨c, word, ' ' :: value, same, rfl, ?_, rfl, rfl⟩
    have double : c ≠ '"' := ne_of_class isWord (by decide)
    have single : c ≠ '\'' := ne_of_class isWord (by decide)
    simp [Scanner.start, Scanner.regionOf, double, single]
  have parts : rename (type ++ ' ' :: (old ++ ' ' :: value)) old new =
      rename type old new ++ ' ' :: (new ++ ' ' ::
        renameFrom old new ((Scanner.start.run old).next ' ') (some ' ') 0 value) := by
    unfold rename
    rw [renameFrom_append oldWord rfl, plain, renameFrom_cons (blank _ _ _),
      show Scanner.start.next ' ' = .start from rfl, renameFrom_reference named,
      renameFrom_cons (blank _ _ _)]
  exact ⟨_, parts⟩

/-- The parts of a header. -/
theorem Declaration.exists_value_of_header {declaration : Declaration} {header : Text}
    (made : declaration.header = .ok header) :
    ∃ value, header =
      trim declaration.declaredType ++ ' ' :: (declaration.name ++ ' ' :: '=' :: ' ' :: value) := by
  obtain ⟨_, given⟩ := exists_initializer_of_header made
  obtain ⟨value, _, _, same⟩ := exists_of_header made given
  exact ⟨value, same⟩

/-- **The renamed header, in parts**: its type as far as it is renamed, and its new name between blanks. -/
theorem Declaration.exists_rename_header {declaration : Declaration} {ending header : Text}
    (isWord : Word ending) (layout : Layout ending)
    (type : declaration.declaredType = layout.mark ++ layout.core)
    (name : declaration.name = layout.name) (made : declaration.header = .ok header) (symbol : Text) :
    ∃ rest, rename header layout.name symbol =
      rename (layout.mark ++ layout.core) layout.name symbol ++ ' ' :: (symbol ++ ' ' :: rest) := by
  obtain ⟨value, rfl⟩ := exists_value_of_header made
  rw [type, name, layout.trim_type isWord]
  exact exists_rename_named layout.name_word (layout.run_type isWord)

end ScopedHandles
