/-
**What a mended header holds.**

A mended header is written with two resources, and each of them may look like a header with a loose
statement again. The first one does if its statement is made from another one that was just made. Behind
the second one stands the chain of the old header, and a line of it may begin another header, which was
covered by the old one.

* `MendedAt` — a header that was mended, in the text before and in the text behind.
* `isLead_before_opening` — no header begins before a resource and goes on in it.
* `not_isLead_of_mem_resource` — no header begins inside of a resource.
* `isLead_hoisted_iff` — when the first resource looks like a header.
* `Mend.headers_eq_zero_iff` — when a mended header holds no other.
-/

import ScopedHandles.Proofs.HeaderCount

namespace ScopedHandles

/-- A header that was mended, and the name of its statement. -/
structure Mend where
  loose : LooseStatement
  name : Text
  deriving DecidableEq, Repr

/-- Both resources as they are written, from the first `try` through the brace that opens the block. -/
def Mend.resources (mend : Mend) : Text :=
  ("try (var ".toList ++ (mend.name ++ (" = ".toList ++ (trim mend.loose.statement ++ ") \x7b ".toList)))) ++
    (mend.loose.resource ++ ((' ' :: mend.name) ++ mend.loose.chain))

/-- The header as it is written, with its indentation. -/
def Mend.header (mend : Mend) : Text :=
  mend.loose.indent ++ mend.resources

/-- A header that was mended, in the text before and in the text behind. -/
structure MendedAt (place : Nat) (repair later : Repair) (found : Occurrence LooseStatement) where
  site : LooseSite repair.content found
  name : Text
  /-- The text of the block. -/
  inner : Text
  /-- What comes behind the brace that closed it. -/
  rest : Text
  next : firstHit LooseStatement.probe place none repair.content = some found
  done : repair.mend found = .ok later
  read : LooseStatement.read? site.text = some found.value
  issued : repair.names.nextStatement = some (name, later.names)
  cut : scope site.layout.later = .ok inner
  later_eq : site.layout.later = inner ++ '}' :: rest
  content_eq : later.content = site.above ++ (Mend.header ⟨found.value, name⟩ ++ (trimEnd inner ++
    ('\n' :: found.value.indent ++ '}' :: (trailingBlanks inner ++ '}' :: rest))))

namespace MendedAt

variable {place : Nat} {repair later : Repair} {found : Occurrence LooseStatement}

/-- **Every header that is mended is mended in its place.** -/
theorem nonempty (next : firstHit LooseStatement.probe place none repair.content = some found)
    (done : repair.mend found = .ok later) : Nonempty (MendedAt place repair later found) := by
  obtain ⟨site, read⟩ := exists_looseSite next
  obtain ⟨name, inner, rest, cut, issued, whole, text⟩ := site.mended_parts done
  refine ⟨⟨site, name, inner, rest, next, done, read, issued, cut, whole, ?_⟩⟩
  rw [text]
  unfold Mend.header Mend.resources LooseSite.opening
  generalize "try (var ".toList = first, " = ".toList = second, ") \x7b ".toList = third
  simp only [List.append_assoc, List.cons_append]

variable (mended : MendedAt place repair later found)

/-- The header as it is written. -/
def written : Mend := ⟨found.value, mended.name⟩

/-- The block as it is closed anew, and what comes behind it. -/
def block : Text :=
  trimEnd mended.inner ++ ('\n' :: found.value.indent ++
    '}' :: (trailingBlanks mended.inner ++ '}' :: mended.rest))

theorem begins : beginsLine mended.site.above.getLast? = true := by
  rw [← Option.or_none (o := mended.site.above.getLast?), ← endsLine_eq]
  exact mended.site.begins

/-- The text is cut behind the indentation of the header. -/
theorem content_cut : later.content =
    (mended.site.above ++ found.value.indent) ++ (mended.written.resources ++ mended.block) := by
  refine mended.content_eq.trans ?_
  unfold Mend.header written block
  simp only [List.append_assoc]

/-- The search goes on where the text is cut. -/
theorem place_cut : found.place + found.value.indent.length =
    (mended.site.above ++ found.value.indent).length := by
  rw [mended.site.place_eq, List.length_append]

/-- A mended header ends with the brace that opens its block. -/
theorem exists_init_resources : ∃ init, mended.written.resources = init ++ ['{'] := by
  unfold Mend.resources
  rw [written, mended.site.layout.chain_eq]
  simp only [← List.append_assoc]
  exact ⟨_, rfl⟩

end MendedAt

/-! ### Where a resource begins -/

/-- **A resource begins in one place.** There is no parenthesis before, because only one stands on the other
side. -/
theorem opening_unique {before indent pause other rest later : Text}
    (same : before ++ ("try".toList ++ (pause ++ '(' :: rest)) =
      indent ++ ("try".toList ++ (other ++ '(' :: later)))
    (pauseBlank : ∀ c ∈ pause, isWhiteSpace c = true) (otherBlank : ∀ c ∈ other, isWhiteSpace c = true)
    (indentBlank : ∀ c ∈ indent, isIndentChar c = true) (outside : '(' ∉ later) : before = indent := by
  have last : ∀ {text : Text}, ∀ c ∈ (text ++ "try".toList).getLast?, isWhiteSpace c = false := by
    intro text
    rw [List.getLast?_append_of_ne_nil _ (by decide)]
    exact forall_mem_some (by decide)
  have clear : '(' ∉ indent ++ "try".toList ++ other := by
    simp only [List.mem_append, not_or]
    exact ⟨⟨fun mem => absurd (indentBlank _ mem) (by decide), by decide⟩,
      fun mem => absurd (otherBlank _ mem) (by decide)⟩
  generalize "try".toList = opening at same last clear
  have whole : (before ++ opening ++ pause) ++ '(' :: rest = (indent ++ opening ++ other) ++ '(' :: later := by
    simpa only [List.append_assoc] using same
  have first : '(' ∉ before ++ opening ++ pause := by
    intro mem
    obtain ⟨piece, more, split, none⟩ := List.eq_append_cons_of_mem mem
    rw [split, List.append_assoc, List.cons_append] at whole
    obtain ⟨_, behind⟩ := first_unique whole none clear
    exact outside (behind ▸ List.mem_append_right _ List.mem_cons_self)
  obtain ⟨front, _⟩ := first_unique whole first clear
  obtain ⟨front, _⟩ := run_unique_right front pauseBlank last otherBlank last
  exact List.append_cancel_right front

/-- The text of a resource that is put in: its indentation, and what stands behind its parenthesis. -/
def opened (indent rest : Text) : Text :=
  indent ++ ("try".toList ++ ([' '] ++ '(' :: rest))

section Opened

variable {indent rest : Text} (blank : ∀ c ∈ indent, isIndentChar c = true)

include blank

theorem trimStart_opened : trimStart (opened indent rest) = "try".toList ++ ([' '] ++ '(' :: rest) :=
  trimStart_append (fun c mem => isWhiteSpace_of_isIndentChar (blank c mem)) (forall_mem_some (by decide))

/-- A resource begins with no other character and with no statement. -/
theorem opened_ne_cons {blanks later : Text} {c : Char} (white : ∀ c ∈ blanks, isWhiteSpace c = true)
    (solid : isWhiteSpace c = false) (other : c ≠ 't') : opened indent rest ≠ blanks ++ c :: later := by
  intro same
  have trimmed : trimStart (opened indent rest) = _ := trimStart_opened blank
  have behind : trimStart (blanks ++ c :: later) = c :: later := trimStart_append white (forall_mem_some solid)
  rw [same, behind] at trimmed
  exact other (List.cons.inj trimmed).1

/-- A resource is no statement. A statement goes on in one run of characters, but the run of a resource ends
behind `try`. -/
theorem opened_ne_core (lead : Lead) {blanks later : Text} (white : ∀ c ∈ blanks, isWhiteSpace c = true) :
    opened indent rest ≠ blanks ++ (lead.core ++ later) := by
  intro same
  have trimmed : trimStart (opened indent rest) = _ := trimStart_opened blank
  rw [same, trimStart_append white (lead.solid_core later)] at trimmed
  have ends : ("try".toList ++ ([' '] ++ '(' :: rest)).takeWhile LooseStatement.isSourceChar =
      "try".toList :=
    takeWhile_run (List.all_eq_true.mp (by decide +kernel)) (forall_mem_some (by decide))
  have run := congrArg (List.takeWhile LooseStatement.isSourceChar) trimmed
  rw [List.takeWhile_append_of_pos lead.isSourceChar_of_mem_core, ends] at run
  have dot : '.' ∈ "try".toList := by
    rw [← run]
    exact List.mem_append_left _ lead.dot_mem_core
  exact absurd dot (by decide)

/-- A statement whose text is broken off by a line end and a resource ends before. The statement itself holds
no line end. -/
theorem exists_of_statement_eq (lead : Lead) {tail : Text} (ended : tail.getLast? = some '\n')
    (same : lead.statement ++ '.' :: lead.calls = tail ++ opened indent rest) :
    ∃ calls, tail = lead.statement ++ '.' :: calls := by
  have nothing : ∀ c ∈ ([] : Text), isWhiteSpace c = true := by simp
  have split : lead.before ++ (lead.core ++ (lead.behind ++ '.' :: lead.calls)) =
      tail ++ opened indent rest := by
    rw [← same, Lead.statement, List.append_assoc, List.append_assoc]
  rcases List.append_eq_append_iff.mp split with ⟨piece, rfl, inner⟩ | ⟨blanks, before, next⟩
  · by_cases empty : piece = []
    · rw [empty, List.nil_append] at inner
      exact absurd inner.symm (opened_ne_core blank lead nothing)
    rw [List.getLast?_append_of_ne_nil _ empty] at ended
    rcases List.append_eq_append_iff.mp inner with ⟨piece, rfl, chained⟩ | ⟨more, core, _⟩
    · rcases List.append_eq_append_iff.mp chained with ⟨piece, rfl, dotted⟩ | ⟨blanks, behind, next⟩
      · cases piece with
        | nil => exact absurd dotted.symm (opened_ne_cons blank nothing (by decide) (by decide))
        | cons c calls =>
          obtain ⟨rfl, _⟩ := List.cons.inj dotted
          refine ⟨calls, ?_⟩
          rw [Lead.statement, List.append_assoc, List.append_assoc]
      · have white : ∀ c ∈ blanks, isWhiteSpace c = true := fun c mem =>
          lead.behind_blank c (behind ▸ List.mem_append_right _ mem)
        exact absurd next (opened_ne_cons blank white (by decide) (by decide))
    · have inside : '\n' ∈ lead.core := by
        rw [core]
        exact List.mem_append_left _ (List.mem_of_getLast? ended)
      exact absurd (lead.isSourceChar_of_mem_core _ inside) (by decide)
  · have white : ∀ c ∈ blanks, isWhiteSpace c = true := fun c mem =>
      lead.before_blank c (before ▸ List.mem_append_right _ mem)
    exact absurd next (opened_ne_core blank lead white)

/-- An equals sign stands behind the parenthesis of a resource. -/
theorem exists_of_opened_eq {piece later : Text} (same : opened indent rest = piece ++ '=' :: later) :
    ∃ behind, piece = opened indent behind := by
  have signless : '=' ∉ opened indent [] := by
    unfold opened
    simp only [List.mem_append, List.mem_singleton, not_or]
    exact ⟨fun mem => absurd (blank _ mem) (by decide), by decide, by decide, by decide⟩
  have split : opened indent [] ++ rest = piece ++ '=' :: later := by
    rw [← same]
    unfold opened
    simp only [List.append_assoc, List.cons_append, List.nil_append]
  obtain ⟨behind, rfl⟩ := exists_right_of_not_mem split signless
  refine ⟨behind, ?_⟩
  unfold opened
  simp only [List.append_assoc, List.cons_append, List.nil_append]

/-- **No header begins before a resource and goes on in it.** If its equals sign stands in the line, the dot
does too. Otherwise the line and the indentation would be the indentation of the header, but the line holds a
line end. -/
theorem isLead_before_opening {line : Text} (ended : line.getLast? = some '\n') :
    isLead (line ++ opened indent rest) = isLead line := by
  refine Bool.eq_iff_iff.mpr ⟨fun leads => ?_, fun leads => isLead_append leads _⟩
  obtain ⟨lead, same⟩ := isLead_iff.mp leads
  rw [lead.text_eq_sign] at same
  rcases List.append_eq_append_iff.mp same with ⟨tail, front, behind⟩ | ⟨more, front, next⟩
  · cases tail with
    | nil =>
      have nothing : ∀ c ∈ ([] : Text), isWhiteSpace c = true := by simp
      exact absurd behind.symm (opened_ne_cons blank nothing (by decide) (by decide))
    | cons c tail =>
      obtain ⟨rfl, statement⟩ := List.cons.inj behind
      have tailEnded : tail.getLast? = some '\n' := by
        cases tail with
        | nil => simp [front] at ended
        | cons d tail => simpa [front] using ended
      obtain ⟨calls, rfl⟩ := exists_of_statement_eq blank lead tailEnded statement
      refine isLead_iff.mpr ⟨lead.onto calls, ?_⟩
      rw [lead.text_onto, lead.front_eq, front]
      simp only [List.append_assoc, List.cons_append, List.nil_append]
  · exfalso
    obtain ⟨behind, rfl⟩ := exists_of_opened_eq blank next
    have gap : ∀ c ∈ [' '], isWhiteSpace c = true := List.all_eq_true.mp (by decide)
    have heads : (line ++ indent) ++ ("try".toList ++ ([' '] ++ '(' :: behind)) =
        lead.indent ++ ("try".toList ++ (lead.pause ++ '(' :: lead.declared)) := by
      rw [List.append_assoc]
      exact front.symm
    have indented : line ++ indent = lead.indent :=
      opening_unique heads gap lead.pause_blank lead.indent_blank lead.parenthesis_not_mem_declared
    have mem : '\n' ∈ lead.indent := by
      rw [← indented]
      exact List.mem_append_left _ (List.mem_of_getLast? ended)
    exact absurd (lead.indent_blank _ mem) (by decide)

end Opened

/-! ### Inside of a resource -/

/-- **No header begins inside of a resource**, whatever comes behind it. Its head would begin where the head
of the resource does, which is at its beginning. -/
theorem not_isLead_of_mem_resource (lead : Lead) {line : Text}
    (mem : line ∈ linesFrom false lead.resource) (later : Text) : isLead (line ++ later) = false := by
  obtain ⟨some, before, whole, ends⟩ := exists_of_mem_linesFrom mem
  obtain ⟨piece, last, rfl⟩ := (List.eq_nil_or_concat line).resolve_left some
  rw [List.concat_eq_append] at whole ⊢
  rw [Lead.resource, ← List.append_assoc] at whole
  obtain ⟨head, sign⟩ := List.append_inj' whole rfl
  obtain rfl : last = '=' := (List.singleton_inj.mp sign).symm
  by_contra leads
  obtain ⟨other, same⟩ := isLead_iff.mp (Bool.not_eq_false _ ▸ leads)
  rw [other.text_eq_sign, List.append_assoc piece, List.singleton_append] at same
  have signless : '=' ∉ piece := fun inside =>
    lead.sign_not_mem_head (head ▸ List.mem_append_right _ inside)
  obtain ⟨rfl, _⟩ := first_unique same other.sign_not_mem_indent_head signless
  have heads : (before ++ other.indent) ++ ("try".toList ++ (other.pause ++ '(' :: other.declared)) =
      [] ++ ("try".toList ++ (lead.pause ++ '(' :: lead.declared)) := by
    rw [List.append_assoc, List.nil_append]
    exact head.symm
  have nothing : before ++ other.indent = [] :=
    opening_unique heads other.pause_blank lead.pause_blank (by simp) lead.parenthesis_not_mem_declared
  rw [(List.append_eq_nil_iff.mp nothing).1] at ends
  exact Bool.noConfusion ends

theorem holdsLead_resource (lead : Lead) (later : Text) :
    holdsLead false (lead.resource ++ later) = holdsLead false later := by
  have ends : endsLine false lead.resource = false := by
    rw [Lead.resource, endsLine_append]
    rfl
  have none : (linesFrom false lead.resource).any (fun line => isLead (line ++ later)) = false := by
    rw [List.any_eq_false]
    intro line mem
    rw [not_isLead_of_mem_resource lead mem]
    exact Bool.false_ne_true
  rw [holdsLead_append, none, ends, Bool.false_or]

/-! ### The first resource -/

/-- The first resource of a mended header, through the white space before its brace. -/
def hoisted (indent name core : Text) : Text :=
  indent ++ ("try (var ".toList ++ (name ++ (" = ".toList ++ (core ++ ") ".toList))))

/-- The characters that the first resource is made of. -/
def isHoistedChar (c : Char) : Bool :=
  isIndentChar c || LooseStatement.isSourceChar c || c == '='

theorem hoisted_eq (indent name core : Text) :
    hoisted indent name core = (indent ++ ("try (var ".toList ++ (name ++ [' ']))) ++
      '=' :: ([' '] ++ core ++ ") ".toList) := by
  have sign : " = ".toList = [' '] ++ '=' :: [' '] := by decide
  unfold hoisted
  rw [sign]
  generalize "try (var ".toList = opening, ") ".toList = closing
  simp only [List.append_assoc, List.cons_append, List.nil_append]

section Hoisted

variable (lead : Lead) {indent name : Text} (blank : ∀ c ∈ indent, isIndentChar c = true)
  (isWord : Word name)

include blank isWord

theorem sign_not_mem_hoisted : '=' ∉ indent ++ ("try (var ".toList ++ (name ++ [' '])) := by
  simp only [List.mem_append, List.mem_singleton, not_or]
  exact ⟨fun mem => absurd (blank _ mem) (by decide), by decide,
    fun mem => absurd (isWord.chars _ mem) (by decide), by decide⟩

theorem isHoistedChar_of_mem : ∀ c ∈ hoisted indent name lead.core, isHoistedChar c = true := by
  have opening : ∀ c ∈ "try (var ".toList, isHoistedChar c = true := List.all_eq_true.mp (by decide)
  have sign : ∀ c ∈ " = ".toList, isHoistedChar c = true := List.all_eq_true.mp (by decide)
  have closing : ∀ c ∈ ") ".toList, isHoistedChar c = true := List.all_eq_true.mp (by decide)
  have ofSource : ∀ {c}, LooseStatement.isSourceChar c = true → isHoistedChar c = true := by
    intro c source
    rw [isHoistedChar, source, Bool.or_true, Bool.true_or]
  intro c mem
  unfold hoisted at mem
  simp only [List.mem_append] at mem
  rcases mem with white | opened | word | signed | made | closed
  · rw [isHoistedChar, blank c white, Bool.true_or, Bool.true_or]
  · exact opening c opened
  · exact ofSource (isSourceChar_of_isWordChar (isWord.chars c word))
  · exact sign c signed
  · exact ofSource (lead.isSourceChar_of_mem_core c made)
  · exact closing c closed

theorem not_mem_hoisted {c : Char} (other : isHoistedChar c = false) :
    c ∉ hoisted indent name lead.core := by
  intro mem
  rw [isHoistedChar_of_mem lead blank isWord c mem] at other
  exact Bool.noConfusion other

/-- **The first resource looks like a header exactly if its statement is made from one that was just made.**
The dot behind that one stands in the expression, and no white space does. -/
theorem isLead_hoisted_iff :
    isLead (hoisted indent name lead.core) = true ↔ creation ++ ['.'] <:+: lead.core := by
  constructor
  · intro leads
    obtain ⟨other, same⟩ := isLead_iff.mp leads
    rw [other.text_eq_sign, hoisted_eq] at same
    obtain ⟨_, behind⟩ := first_unique same other.sign_not_mem_indent_head
      (sign_not_mem_hoisted blank isWord)
    obtain ⟨calls, split⟩ := exists_left_of_not_mem behind (by decide)
    rw [Lead.statement, List.append_assoc, List.append_assoc] at split
    have trimmed : lead.core = other.core ++ (other.behind ++ '.' :: calls) := by
      have blanks : ∀ c ∈ [' '], isWhiteSpace c = true := List.all_eq_true.mp (by decide)
      have solid := lead.solid_core []
      rw [List.append_nil] at solid
      rw [← trimStart_append blanks solid, split,
        trimStart_append other.before_blank (other.solid_core _)]
    have nothing : other.behind = [] := by
      refine List.eq_nil_iff_forall_not_mem.mpr fun c mem => ?_
      have source := lead.isSourceChar_of_mem_core c
        (trimmed ▸ List.mem_append_right _ (List.mem_append_left _ mem))
      have white := other.behind_blank c mem
      rw [not_isWhiteSpace_of_isSourceChar source] at white
      exact Bool.noConfusion white
    refine ⟨other.source, calls, ?_⟩
    rw [trimmed, nothing, Lead.core]
    simp only [List.append_assoc, List.cons_append, List.nil_append]
  · rintro ⟨before, calls, split⟩
    have source : ∀ c ∈ before, LooseStatement.isSourceChar c = true := by
      intro c mem
      refine lead.isSourceChar_of_mem_core c ?_
      rw [← split]
      exact List.mem_append_left _ (List.mem_append_left _ mem)
    have single : ∀ c ∈ [' '], isWhiteSpace c = true := List.all_eq_true.mp (by decide)
    refine isLead_iff.mpr ⟨
      { indent, pause := [' '], inset := [], type := "var".toList, gap := [' '], name, blanks := [' ']
        before := [' '], source := before, behind := [], calls := calls ++ ") ".toList
        indent_blank := blank, pause_blank := single, inset_blank := by simp
        type_word := ⟨by decide, List.all_eq_true.mp (by decide +kernel)⟩, gap_nonempty := by simp
        gap_blank := single, name_word := isWord, blanks_blank := single, before_blank := single
        source_chars := source, behind_blank := by simp }, ?_⟩
    rw [Lead.text_eq_sign, hoisted_eq, ← split]
    have opening : "try (var ".toList = "try".toList ++ ([' '] ++ '(' :: ("var".toList ++ [' '])) := by decide
    simp only [Lead.head, Lead.declared, Lead.statement, Lead.core, opening]
    generalize "try".toList = first, "var".toList = second, ") ".toList = third, creation = call
    simp only [List.append_assoc, List.cons_append, List.nil_append]

end Hoisted

/-! ### Both resources -/

theorem holdsLead_single {piece : Text} (some : piece ≠ []) (single : '\n' ∉ piece) :
    holdsLead true piece = isLead piece := by
  have lines := linesFrom_single_append some single true []
  rw [List.append_nil] at lines
  rw [holdsLead, lines]
  simp [linesFrom]

/-- No line of a chain begins a header. -/
theorem holdsLead_chain_iff (calls : Text) :
    holdsLead false calls = false ↔
      ∀ before line, calls ++ ['{'] = before ++ '\n' :: line → LooseStatement.read? line = none := by
  have unread : ∀ line, LooseStatement.read? (line ++ ['{']) = none ↔ isLead line = false := by
    intro line
    rw [← Option.not_isSome_iff_eq_none, isSome_read?_iff, isLead_stop (by decide)]
    simp
  constructor
  · intro none before line split
    rcases List.eq_nil_or_concat line with rfl | ⟨line, last, rfl⟩
    · rfl
    rw [List.concat_eq_append] at split ⊢
    rw [← List.cons_append, ← List.append_assoc] at split
    obtain ⟨rfl, same⟩ := List.append_inj' split rfl
    rw [← same, unread]
    by_cases empty : line = []
    · rw [empty]
      exact not_isLead_of_dotless (by simp)
    · have mem : line ∈ linesFrom false (before ++ ['\n'] ++ line) := by
        refine mem_linesFrom empty ?_
        rw [endsLine_append]
        rfl
      rw [List.append_assoc, List.singleton_append] at mem
      exact Bool.eq_false_iff.mpr (List.any_eq_false.mp none line mem)
  · intro none
    rw [holdsLead, List.any_eq_false]
    intro line mem
    obtain ⟨_, before, rfl, ends⟩ := exists_of_mem_linesFrom mem
    obtain ⟨before, rfl⟩ := exists_of_endsLine ends
    rw [Bool.not_eq_true, ← unread]
    refine none before (line ++ ['{']) ?_
    simp only [List.append_assoc, List.cons_append, List.nil_append]

/-- **When a mended header holds no other**: its statement is made in one call, and no line of its chain
begins a header. -/
theorem Mend.headers_eq_zero_iff {mend : Mend} {text : Text}
    (read : LooseStatement.read? text = some mend.loose) (isWord : Word mend.name) :
    headers none mend.header = 0 ↔
      ¬ creation ++ ['.'] <:+: trim mend.loose.statement ∧
        ∀ before line, mend.loose.chain = before ++ '\n' :: line → LooseStatement.read? line = none := by
  obtain ⟨loose, name⟩ := mend
  obtain ⟨lead, calls, _, _, _, braceless, rfl⟩ := exists_lead_of_read? read
  have split : Mend.header ⟨⟨lead.indent, lead.resource, lead.statement, '.' :: calls ++ ['{']⟩, name⟩ =
      hoisted lead.indent name lead.core ++
        '{' :: ((' ' :: (lead.resource ++ ((' ' :: name) ++ '.' :: calls))) ++ ['{']) := by
    have closing : ") \x7b ".toList = ") ".toList ++ '{' :: [' '] := by decide
    unfold Mend.header Mend.resources hoisted
    rw [closing, lead.trim_statement]
    generalize "try (var ".toList = first, " = ".toList = second, ") ".toList = third
    simp only [List.append_assoc, List.cons_append, List.nil_append]
  have named : '\n' ∉ ' ' :: name := by
    rw [List.mem_cons, not_or]
    exact ⟨by decide, isWord.newline_not_mem⟩
  have second : holdsLead false (' ' :: (lead.resource ++ ((' ' :: name) ++ '.' :: calls))) =
      holdsLead false ('.' :: calls) := by
    rw [holdsLead_cons, Bool.false_and, Bool.false_or]
    refine (holdsLead_resource lead _).trans ?_
    rw [holdsLead_append, linesFrom_false_of_no_newline named, endsLine_of_no_newline named]
    rfl
  have firstBraceless := not_mem_hoisted lead lead.indent_blank isWord (c := '{') (by decide)
  have secondBraceless : '{' ∉ ' ' :: (lead.resource ++ ((' ' :: name) ++ '.' :: calls)) := by
    have resource : '{' ∉ lead.resource := fun mem =>
      lead.not_mem_front (by decide) (List.mem_append_right _ (List.mem_append_left _ mem))
    have word : '{' ∉ name := fun mem => absurd (isWord.chars _ mem) (by decide)
    simp only [List.mem_cons, List.mem_append, not_or]
    exact ⟨by decide, resource, ⟨by decide, word⟩, by decide, braceless⟩
  have first : holdsLead (beginsLine none) (hoisted lead.indent name lead.core) =
      isLead (hoisted lead.indent name lead.core) :=
    holdsLead_single (List.append_ne_nil_of_right_ne_nil _ (List.append_ne_nil_of_left_ne_nil (by decide) _))
      (not_mem_hoisted lead lead.indent_blank isWord (by decide))
  have later : headers (some '{') [] = 0 := rfl
  rw [split, headers_piece firstBraceless, headers_piece secondBraceless, first, later]
  change _ + ((holdsLead false _).toNat + 0) = 0 ↔ ¬ _ <:+: trim lead.statement ∧
    ∀ before line, '.' :: calls ++ ['{'] = before ++ '\n' :: line → _
  rw [second, lead.trim_statement, ← isLead_hoisted_iff lead lead.indent_blank isWord,
    ← holdsLead_chain_iff]
  cases isLead (hoisted lead.indent name lead.core) <;> cases holdsLead false ('.' :: calls) <;> simp

end ScopedHandles
