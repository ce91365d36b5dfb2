/-
**What a search for declarations finds, and what it leaves out.**

Every declaration that is found is laid out at the beginning of a line, and its statement is told by the
balance of brackets behind the equals sign. A line that is laid out as a head and lies in none of the
declarations that were found declares a handle as null, or compares. A search may begin inside of a
head that it has passed over. That loses nothing: a head in a head shares its equals sign with it.

* `openUntil_eq_zero_iff` — a counter of brackets that a character stops.
* `statementEnd_eq_some_iff_terminatesAt` — the terminator of a statement, told by counting.
* `Layout.rest_eq_of_inside` — a head in a head.
* `Declaration.rejected_of_pass` — the heads that are passed over.
* `scan_sound_and_complete` — all that is found, and all that is left out.
-/

import ScopedHandles.Proofs.Balance
import ScopedHandles.Proofs.Apart

namespace ScopedHandles

/-! ### Counters of brackets -/

/-- The number of brackets that code opens before a place, less the number of those that it closes. -/
def bracketBalance : Text → Nat → Int :=
  balanceOf opensBracket closesBracket

/-- The number of open brackets behind a character, unless it closes a bracket that was not opened or is a
`stop` outside of brackets. -/
def stepUntil (stop : Char) (scanner : Scanner) (c : Char) (depth : Nat) : Option Nat :=
  if scanner.regionOf c ≠ .code then some depth
  else if opensBracket c then some (depth + 1)
  else if closesBracket c then (if depth = 0 then none else some (depth - 1))
  else if c = stop ∧ depth = 0 then none
  else some depth

/-- The number of open brackets behind a text, if every bracket that it closes was opened and no `stop`
stands outside of brackets. -/
def openUntil (stop : Char) (scanner : Scanner) (depth : Nat) : Text → Option Nat
  | [] => some depth
  | c :: rest => (stepUntil stop scanner c depth).bind fun inner =>
      openUntil stop (scanner.next c) inner rest

/-- A statement goes on until a semicolon. -/
theorem openBrackets_eq_openUntil (scanner : Scanner) (depth : Nat) (text : Text) :
    openBrackets scanner depth text = openUntil ';' scanner depth text := by
  induction text generalizing scanner depth with
  | nil => rfl
  | cons c rest ih =>
    rw [openBrackets, openUntil]
    exact congrArg _ (funext fun inner => ih _ inner)

theorem bracketCount_openUntil {stop : Char} (opens : opensBracket stop = false) :
    BracketCount opensBracket closesBracket (stepUntil stop)
      (fun label depth => label = (stop, .code) ∧ depth = 0) (openUntil stop) where
  nil _ _ := rfl
  cons _ _ _ _ := rfl
  step_eq_some_iff scanner c depth inner := by
    rw [excess_singleton, stepUntil]
    grind [opensBracket, closesBracket]

/-- **A counter that a character stops is told by balances**: brackets are closed that were opened, and
the character stands in brackets only. -/
theorem openUntil_eq_zero_iff {stop : Char} (opens : opensBracket stop = false) {text : Text}
    (later : Text) :
    openUntil stop .start 0 text = some 0 ↔
      (∀ place < text.length, (Scanner.start.labels (text ++ later))[place]? = some (stop, .code) →
        bracketBalance (text ++ later) place ≠ 0) ∧
      (∀ place ≤ text.length, 0 ≤ bracketBalance (text ++ later) place) ∧
      bracketBalance (text ++ later) text.length = 0 := by
  rw [(bracketCount_openUntil opens).eq_some_iff_of_append later]
  refine and_congr (forall₂_congr fun place within => ?_) (and_congr_right fun _ => eq_comm)
  exact ⟨fun goesOn here level => goesOn _ here ⟨rfl, level⟩,
    fun goesOn label here ends => goesOn (ends.1 ▸ here) ends.2⟩

/-- A statement goes on as long as brackets are closed that were opened, and no semicolon ends it. -/
theorem openBrackets_eq_zero_iff {statement : Text} (later : Text) :
    openBrackets .start 0 statement = some 0 ↔
      (∀ place < statement.length,
        (Scanner.start.labels (statement ++ later))[place]? = some (';', .code) →
          bracketBalance (statement ++ later) place ≠ 0) ∧
      (∀ place ≤ statement.length, 0 ≤ bracketBalance (statement ++ later) place) ∧
      bracketBalance (statement ++ later) statement.length = 0 := by
  rw [openBrackets_eq_openUntil, openUntil_eq_zero_iff (by decide)]

/-! ### Terminators -/

/-- A statement ends at a place: at the first semicolon of code outside of brackets, with no bracket closed
before that was not opened. -/
structure TerminatesAt (text : Text) (place : Nat) : Prop where
  semicolon : (Scanner.start.labels text)[place]? = some (';', .code)
  level : bracketBalance text place = 0
  above : ∀ earlier ≤ place, 0 ≤ bracketBalance text earlier
  first : ∀ earlier < place, (Scanner.start.labels text)[earlier]? = some (';', .code) →
    bracketBalance text earlier ≠ 0

/-- **The terminator of a statement is told by counting brackets.** -/
theorem statementEnd_eq_some_iff_terminatesAt {text : Text} {place : Nat} :
    statementEnd text = some place ↔ TerminatesAt text place := by
  rw [statementEnd_eq_some_iff]
  constructor
  · rintro ⟨statement, later, rfl, rfl, closed, code⟩
    obtain ⟨first, above, level⟩ := (openBrackets_eq_zero_iff (';' :: later)).mp closed
    refine ⟨?_, level, above, first⟩
    exact Scanner.getElem?_labels_eq_some_iff.mpr ⟨statement, later, rfl, rfl, code⟩
  · rintro ⟨semicolon, level, above, first⟩
    obtain ⟨statement, later, rfl, rfl, code⟩ := Scanner.getElem?_labels_eq_some_iff.mp semicolon
    exact ⟨statement, later, rfl, rfl, (openBrackets_eq_zero_iff _).mpr ⟨first, above, level⟩, code⟩

theorem statementEnd_eq_none_iff {text : Text} :
    statementEnd text = none ↔ ∀ place, ¬ TerminatesAt text place := by
  simp only [← statementEnd_eq_some_iff_terminatesAt, Option.eq_none_iff_forall_ne_some, ne_eq]

/-! ### Initializers -/

/-- An initializer that ends in the word `null`. -/
def BareNull (initializer : Text) : Prop :=
  ∃ before, initializer = before ++ "null".toList ∧
    ∀ c ∈ before.getLast?, isAlphanumeric c = false ∧ c ≠ '_'

theorem endsInNull_trim_iff {text : Text} :
    Declaration.endsInNull (trim text) = true ↔ BareNull (trim text) := by
  obtain ⟨_, _, _, _, _, _, solid⟩ := exists_trim text
  rw [endsInNull_iff, BareNull]
  simp only [Bool.or_eq_false_iff, beq_eq_false_iff_ne]
  constructor
  · rintro ⟨before, blanks, whole, blank, edge⟩
    refine ⟨before, ?_, edge⟩
    rcases List.eq_nil_or_concat blanks with rfl | ⟨others, c, rfl⟩
    · rw [whole, List.append_nil]
    · have last : c ∈ (trim text).getLast? := by
        rw [whole, List.concat_eq_append, ← List.append_assoc, ← List.append_assoc, List.getLast?_concat]
        rfl
      have white := blank c (by simp)
      rw [solid c last] at white
      exact Bool.noConfusion white
  · rintro ⟨before, whole, edge⟩
    exact ⟨before, [], by rw [whole, List.append_nil], by simp, edge⟩

/-! ### Heads that are passed over -/

/-- What follows a head that declares nothing: a second equals sign, or null. -/
def Rejected (rest : Text) : Prop :=
  rest.head? = some '=' ∨
    ∃ terminator, TerminatesAt rest terminator ∧ BareNull (trim (rest.take terminator))

/-- **A head in a head ends with the same equals sign.** The piece before the inner head ends before the
equals sign of the outer one. -/
theorem Layout.rest_eq_of_inside {ending : Text} (isWord : Word ending) {outer inner : Layout ending}
    {piece : Text} (same : outer.text = piece ++ inner.text) (inside : piece.length < outer.front.length) :
    outer.rest = inner.rest := by
  have split : outer.text = (piece ++ inner.stem) ++ '=' :: inner.rest := by
    rw [same, inner.text_eq, inner.front_eq]
    simp
  refine (outer.stem_eq_of_sign isWord split ?_).2
  rw [List.mem_append, not_or]
  refine ⟨fun mem => ?_, inner.not_mem_stem isWord (by decide)⟩
  have begins : piece <+: outer.stem := by
    refine List.prefix_of_prefix_length_le ⟨inner.text, same.symm⟩ ?_ ?_
    · exact ⟨'=' :: outer.rest, by rw [outer.text_eq, outer.front_eq]; simp⟩
    · rw [outer.front_eq] at inside
      simpa [Nat.lt_succ_iff] using inside
  exact outer.not_mem_stem isWord (by decide) (begins.subset mem)

namespace Declaration

variable {kind : HandleKind} {head : Head} {size length : Nat} {declaration : Declaration}

/-- **The heads that are passed over.** -/
theorem rejected_of_pass (passed : ofHead kind head size = .pass length) :
    Rejected head.rest ∧ length = size := by
  obtain ⟨indent, declaredType, name, rest⟩ := head
  simp only [ofHead] at passed
  split_ifs at passed with sign
  · exact ⟨.inl sign, (Probe.pass.inj passed).symm⟩
  · split at passed
    · simp at passed
    · next terminator ends =>
      split_ifs at passed with null
      exact ⟨.inr ⟨terminator, statementEnd_eq_some_iff_terminatesAt.mp ends,
        endsInNull_trim_iff.mp null⟩, (Probe.pass.inj passed).symm⟩

theorem exists_layout_of_pass {ending text : Text} {last : Option Char}
    (passed : probe kind ending last text = .pass length) :
    ∃ layout : Layout ending, layout.text = text ∧ Rejected layout.rest ∧ length = layout.front.length := by
  unfold probe at passed
  split_ifs at passed
  split at passed
  · simp at passed
  · next head read =>
    obtain ⟨layout, rfl, rfl⟩ := Layout.exists_of_read? read
    obtain ⟨rejected, rfl⟩ := rejected_of_pass passed
    refine ⟨layout, rfl, rejected, ?_⟩
    show layout.text.length - layout.rest.length = _
    rw [layout.text_eq, List.length_append, Nat.add_sub_cancel]

/-- A head that is no declaration is passed over. -/
theorem exists_of_ofHead (kind : HandleKind) (head : Head) (size : Nat) :
    ofHead kind head size = .pass size ∨
      ∃ declaration, ofHead kind head size = .hit declaration declaration.length := by
  obtain ⟨indent, declaredType, name, rest⟩ := head
  simp only [ofHead]
  split_ifs
  · exact .inl rfl
  · split
    · exact .inr ⟨_, rfl⟩
    · split_ifs
      · exact .inl rfl
      · exact .inr ⟨_, rfl⟩

/-- What stands behind the equals sign of a declaration, `size` being the size of its head. -/
structure Stated (rest : Text) (size : Nat) (declaration : Declaration) : Prop where
  assigned : rest.head? ≠ some '='
  terminated : ∀ initializer ∈ declaration.initializer, ∃ terminator,
    TerminatesAt rest terminator ∧ initializer = trim (rest.take terminator) ∧
      ¬ BareNull initializer ∧ declaration.length = size + terminator + 1
  unterminated : declaration.initializer = none →
    (∀ terminator, ¬ TerminatesAt rest terminator) ∧ declaration.length = size

theorem stated_of_hit (found : ofHead kind head size = .hit declaration length) :
    Stated head.rest size declaration := by
  obtain ⟨indent, declaredType, name, rest⟩ := head
  simp only [ofHead] at found
  split_ifs at found with sign
  split at found
  · next unended =>
    obtain ⟨rfl, _⟩ := Probe.hit.inj found
    exact ⟨sign, by simp, fun _ => ⟨statementEnd_eq_none_iff.mp unended, rfl⟩⟩
  · next terminator ends =>
    split_ifs at found with null
    obtain ⟨rfl, _⟩ := Probe.hit.inj found
    refine ⟨sign, fun initializer given => ?_, by simp⟩
    obtain rfl := Option.some.inj given
    exact ⟨terminator, statementEnd_eq_some_iff_terminatesAt.mp ends, rfl,
      fun bare => null (endsInNull_trim_iff.mpr bare), rfl⟩

end Declaration

/-! ### The search -/

/-- A declaration as it stands in a text, with the text before its line and the layout of its head. -/
structure Located (kind : HandleKind) {ending : Text} (text before : Text) (layout : Layout ending)
    (found : Occurrence Declaration) : Prop where
  text_eq : text = before ++ layout.text
  lineStart : ∀ c ∈ before.getLast?, c = '\n'
  place_eq : found.place = before.length
  kind_eq : found.value.kind = kind
  indent_eq : found.value.indent = layout.indent
  declaredType_eq : found.value.declaredType = layout.mark ++ layout.core
  name_eq : found.value.name = layout.name
  stated : Declaration.Stated layout.rest layout.front.length found.value

theorem beginsLine_iff {last : Option Char} : beginsLine last = true ↔ ∀ c ∈ last, c = '\n' := by
  cases last <;> simp [beginsLine]

section Search

variable {kind : HandleKind} {ending text : Text}

theorem exists_located {found : Occurrence Declaration}
    (mem : found ∈ declarations kind ending text) :
    ∃ (before : Text) (layout : Layout ending), Located kind text before layout found := by
  obtain ⟨before, behind, length, whole, here, _, seen⟩ := exists_of_mem_allHits mem
  obtain ⟨layout, rfl, begins, made⟩ := Declaration.exists_layout_of_probe seen
  rw [Option.or_none] at begins
  rw [layout.text_eq, List.length_append, Nat.add_sub_cancel] at made
  obtain ⟨kind_eq, indent_eq, name_eq, declaredType_eq, _⟩ := Declaration.eq_of_ofHead made
  exact ⟨before, layout, whole, beginsLine_iff.mp begins, by rw [here, Nat.zero_add], kind_eq, indent_eq,
    declaredType_eq, name_eq, Declaration.stated_of_hit made⟩

/-- **A line outside of all declarations that is laid out as a head is rejected.** It may begin inside of a
head that is passed over, which is rejected too. -/
theorem rejected_of_outside (isWord : Word ending) {before : Text} {layout : Layout ending}
    (whole : text = before ++ layout.text) (lineStart : ∀ c ∈ before.getLast?, c = '\n')
    (outside : ∀ found ∈ declarations kind ending text,
      ¬ (found.place ≤ before.length ∧ before.length < found.stop)) : Rejected layout.rest := by
  have probed : Declaration.probe kind ending (before.getLast?.or none) layout.text =
      Declaration.ofHead kind layout.head layout.front.length := by
    rw [Option.or_none]
    exact probe_text isWord (beginsLine_iff.mpr lineStart)
  rcases Declaration.exists_of_ofHead kind layout.head layout.front.length with pass | ⟨value, hit⟩
  · exact (Declaration.rejected_of_pass pass).1
  · rw [hit] at probed
    have some : layout.text ≠ [] := by
      rw [layout.text_eq, layout.front_eq]
      simp
    subst whole
    rcases mem_allHits_or_passed (@Declaration.advances_probe kind ending) 0 probed some (Nat.zero_le _) with
      mem | ⟨found, mem, covers⟩ | ⟨early, piece, reach, split, passes, covers⟩
    · have positive := (Declaration.advances_probe kind ending probed).2
      exact absurd ⟨by simp, by rw [Occurrence.stop]; simpa using positive⟩ (outside _ mem)
    · exact absurd ⟨by omega, by rw [Occurrence.stop]; omega⟩ (outside found mem)
    · obtain ⟨outer, same, rejected, rfl⟩ := Declaration.exists_layout_of_pass passes
      rw [← Layout.rest_eq_of_inside isWord same covers]
      exact rejected

end Search

/-- **What a search for declarations finds, and what it leaves out.** Each declaration that is found begins a
line, and its head and its statement are laid out as they should be; it ends before the line of the next
one begins. A line outside of all that is found that is laid out as a head is rejected. -/
theorem scan_sound_and_complete {settings : Settings} (valid : settings.validate = .ok ())
    (kind : HandleKind) (text : Text) :
    (∀ found ∈ declarations kind (settings.typeOf kind) text,
      ∃ (before : Text) (layout : Layout (settings.typeOf kind)), Located kind text before layout found) ∧
    (declarations kind (settings.typeOf kind) text).Pairwise
      (fun found later => found.stop ≤ later.place) ∧
    ∀ (before : Text) (layout : Layout (settings.typeOf kind)), text = before ++ layout.text →
      (∀ c ∈ before.getLast?, c = '\n') →
      (∀ found ∈ declarations kind (settings.typeOf kind) text,
        ¬ (found.place ≤ before.length ∧ before.length < found.stop)) →
      Rejected layout.rest :=
  ⟨fun _ mem => exists_located mem,
    pairwise_allHits (@Declaration.advances_probe kind (settings.typeOf kind)) 0 0 none text,
    fun _ _ whole lineStart outside =>
      rejected_of_outside (Settings.word_typeOf valid kind) whole lineStart outside⟩

/-- A declaration with another one in its initializer. -/
def coveringLines : Text :=
  "final\n ResultSet a = run(() -> \x7b\n ResultSet b = q();\n \x7d);\nfinal\n".toList

/-- The rest of a head that is passed over, a comparison, and a declaration that is not terminated. -/
def rejectedLines : Text :=
  " ResultSet c = null;\nResultSet d == e;\n ResultSet f =\n\x7d\n".toList

theorem rejectedLines_found :
    Settings.validate {} = .ok () ∧
      (declarations .cursor (Settings.typeOf {} .cursor) (coveringLines ++ rejectedLines)).map
        (fun found => (found.place, found.value.name, found.stop)) =
          [(0, ['a'], 57), (103, ['f'], 117)] ∧
      Rejected " null;\nResultSet d == e;\n ResultSet f =\n\x7d\n".toList := by
  have valid : Settings.validate {} = .ok () := by decide +kernel
  have all : (declarations .cursor (Settings.typeOf {} .cursor) (coveringLines ++ rejectedLines)).map
      (fun found => (found.place, found.value.name, found.stop)) =
        [(0, ['a'], 57), (103, ['f'], 117)] := by decide +kernel
  have read : Head.read? (Settings.typeOf {} .cursor) rejectedLines = some
      { indent := [' '], declaredType := "ResultSet".toList, name := ['c']
        rest := " null;\nResultSet d == e;\n ResultSet f =\n\x7d\n".toList } := by decide +kernel
  have size : coveringLines.length = 64 := by decide
  have newline : coveringLines.getLast? = some '\n' := by decide
  obtain ⟨layout, same, head⟩ := Layout.exists_of_read? read
  obtain ⟨_, _, complete⟩ := scan_sound_and_complete valid .cursor (coveringLines ++ rejectedLines)
  have rejected := complete coveringLines layout (by rw [same])
    (by rw [newline]; exact forall_mem_some rfl) fun found mem => by
      have spans := List.mem_map_of_mem (f := fun found : Occurrence Declaration =>
        (found.place, found.value.name, found.stop)) mem
      rw [all] at spans
      simp only [List.mem_cons, Prod.mk.injEq, List.not_mem_nil, or_false] at spans
      omega
  rw [show layout.rest = layout.head.rest from rfl, head] at rejected
  exact ⟨valid, all, rejected⟩

end ScopedHandles
