/-
**Where a text first differs from what it was.**

Headers are laid out anew, so a text may become shorter while handles are enclosed, and what is put in may
be edited again. Still nothing that is put in is ever taken back. At the first place that was edited stands
the opening of a block that is not there in the text as it was. A later splice leaves that opening alone,
or it is at or before that place and puts another such opening there.

* `Divergence` — the first place at which two texts differ.
* `Divergence.cases_of_site` — a splice is at or before that place, or behind the opening.
* `Told.splice` — one splice.
* `changed_iff_content_ne` — a text is reported as changed exactly if it differs.
-/

import ScopedHandles.Proofs.Freshness
import ScopedHandles.Proofs.Mending

namespace ScopedHandles

/-- How a block that is put in begins. -/
def blockOpening : Text :=
  "try (".toList

/-- A place at which `content` differs from `source`: an opening is there that is not in the source. -/
structure Divergence (source content : Text) where
  /-- The text before the place. -/
  same : Text
  /-- The source from the place on. -/
  original : Text
  opening : Text
  rest : Text
  source_eq : source = same ++ original
  content_eq : content = same ++ (opening ++ rest)
  begins : blockOpening <+: opening
  single : '\n' ∉ opening
  novel : ¬ opening <+: original

namespace Divergence

variable {source content : Text} (divergence : Divergence source content)

include divergence in
theorem content_ne : content ≠ source := by
  intro same
  rw [divergence.content_eq] at same
  have both := List.append_cancel_left (same.trans divergence.source_eq)
  exact divergence.novel ⟨divergence.rest, both⟩

/-- A line and its indentation do not end inside of an opening: no line begins there, and an opening does
not begin with a blank. -/
theorem opening_prefix {above indent extra piece : Text} (begins : endsLine true above = true)
    (blank : ∀ c ∈ indent, isIndentChar c = true) (some : extra ≠ [])
    (cut : above ++ indent = divergence.same ++ extra)
    (rest : divergence.opening ++ divergence.rest = extra ++ piece) :
    divergence.opening <+: extra := by
  rcases List.prefix_or_prefix_of_prefix ⟨divergence.rest, rest⟩ (List.prefix_append extra piece) with
    done | inside
  · exact done
  · exfalso
    obtain ⟨c, later, rfl⟩ := List.exists_cons_of_ne_nil some
    have first : c = 't' := by
      obtain ⟨more, whole⟩ := inside
      obtain ⟨behind, opening⟩ := divergence.begins
      rw [← whole] at opening
      exact (List.cons.inj opening).1.symm
    have unblank : c ∉ indent := by
      intro mem
      rw [first] at mem
      exact absurd (blank _ mem) (by decide)
    rcases List.append_eq_append_iff.mp cut with ⟨gap, _, split⟩ | ⟨gap, longer, split⟩
    · exact unblank (split ▸ List.mem_append_right _ List.mem_cons_self)
    · by_cases none : gap = []
      · rw [none, List.nil_append] at split
        exact unblank (split ▸ List.mem_cons_self)
      · have newline : '\n' ∈ gap := by
          have last := List.getLast?_eq_some_getLast none
          have same := eq_newline_of_endsLine begins (gap.getLast none)
            (by rw [longer, List.getLast?_append_of_ne_nil _ none, last]; rfl)
          rw [← same]
          exact List.getLast_mem none
        exact divergence.single (inside.subset (split ▸ List.mem_append_left _ newline))

/-- **A splice is at or before the place, or behind the opening.** -/
theorem cases_of_site {above indent piece : Text} (whole : content = above ++ (indent ++ piece))
    (begins : endsLine true above = true) (blank : ∀ c ∈ indent, isIndentChar c = true) :
    (∃ more, divergence.same = above ++ (indent ++ more) ∧
      piece = more ++ (divergence.opening ++ divergence.rest)) ∨
    ∃ between, above ++ indent = divergence.same ++ (divergence.opening ++ between) := by
  have both : (above ++ indent) ++ piece =
      divergence.same ++ (divergence.opening ++ divergence.rest) := by
    rw [List.append_assoc, ← whole]
    exact divergence.content_eq
  rcases List.append_eq_append_iff.mp both with ⟨more, longer, cut⟩ | ⟨extra, longer, cut⟩
  · rw [List.append_assoc] at longer
    exact .inl ⟨more, longer, cut⟩
  · by_cases none : extra = []
    · rw [none, List.append_nil] at longer
      rw [none, List.nil_append] at cut
      refine .inl ⟨[], ?_, cut.symm⟩
      rw [List.append_nil, longer]
    · obtain ⟨between, rfl⟩ := divergence.opening_prefix begins blank none longer cut
      exact .inr ⟨between, longer⟩

end Divergence

/-! ### One splice -/

/-- What stands in the source where `piece` stands in a text: the same, or the same up to the opening of a
block. -/
inductive Aligned : (piece original : Text) → Prop where
  | same (piece : Text) : Aligned piece piece
  | opened (more rest original : Text) : Aligned (more ++ (blockOpening ++ rest)) (more ++ original)

/-- A text behind `count` splices: it is the source, or differs from it. -/
def Told (source : Text) (count : Nat) (content : Text) : Prop :=
  if count = 0 then content = source else Nonempty (Divergence source content)

/-- **One splice.** What it puts in must not stand in the source at its place, whatever was done behind
that place before. -/
theorem Told.splice {source content : Text} {count : Nat} (told : Told source count content)
    {above indent piece opening rest : Text} (whole : content = above ++ (indent ++ piece))
    (begins : endsLine true above = true) (blank : ∀ c ∈ indent, isIndentChar c = true)
    (opens : blockOpening <+: opening) (single : '\n' ∉ opening)
    (novel : ∀ original, source = above ++ (indent ++ original) → Aligned piece original →
      ¬ opening <+: original) :
    Told source (count + 1) (above ++ (indent ++ (opening ++ rest))) := by
  have here : ∀ original, source = above ++ (indent ++ original) → Aligned piece original →
      Told source (count + 1) (above ++ (indent ++ (opening ++ rest))) := by
    intro original split aligned
    rw [Told, if_neg (Nat.succ_ne_zero count)]
    rw [← List.append_assoc] at split ⊢
    exact ⟨⟨above ++ indent, original, opening, rest, split, rfl, opens, single,
      novel original (by rw [split, List.append_assoc]) aligned⟩⟩
  rw [Told] at told
  split_ifs at told with zero
  · exact here piece (told ▸ whole) (.same piece)
  · obtain ⟨divergence⟩ := told
    rcases divergence.cases_of_site whole begins blank with ⟨more, longer, cut⟩ | ⟨between, cut⟩
    · obtain ⟨later, opening⟩ := divergence.begins
      refine here (more ++ divergence.original) ?_ ?_
      · refine divergence.source_eq.trans ?_
        rw [longer]
        simp only [List.append_assoc]
      · rw [cut, ← opening, List.append_assoc]
        exact .opened more _ _
    · rw [Told, if_neg (Nat.succ_ne_zero count), ← List.append_assoc, cut, List.append_assoc,
        List.append_assoc]
      exact ⟨{ divergence with rest := between ++ (opening ++ rest), content_eq := rfl }⟩

/-! ### Enclosing -/

/-- No block opens before the equals sign of a head. -/
theorem not_opening_of_head {head behind : Text} (outside : '(' ∉ head) :
    ¬ blockOpening <+: head ++ '=' :: behind := by
  rintro ⟨rest, same⟩
  have opens : '(' ∈ blockOpening := by decide
  rcases List.append_eq_append_iff.mp same with ⟨more, longer, _⟩ | ⟨more, longer, cut⟩
  · exact outside (longer ▸ List.mem_append_left _ opens)
  · cases more with
    | nil =>
      rw [List.append_nil] at longer
      exact outside (longer ▸ opens)
    | cons c more =>
      obtain ⟨rfl, _⟩ := List.cons.inj cut
      have sign : '=' ∈ blockOpening := longer ▸ List.mem_append_right _ List.mem_cons_self
      exact absurd sign (by decide)

/-- Where a head stands there is no opening in the source: before an opening the two texts are the same. -/
theorem Aligned.not_opening {head behind original : Text} (outside : '(' ∉ head)
    (aligned : Aligned (head ++ '=' :: behind) original) : ¬ blockOpening <+: original := by
  generalize whole : head ++ '=' :: behind = piece at aligned
  cases aligned with
  | same =>
    rw [← whole]
    exact not_opening_of_head outside
  | opened more rest original =>
    rcases List.append_eq_append_iff.mp whole with ⟨gap, longer, cut⟩ | ⟨gap, longer, cut⟩
    · cases gap with
      | nil =>
        obtain ⟨sign, _⟩ := List.cons.inj cut
        exact absurd sign (by decide)
      | cons c gap =>
        obtain ⟨rfl, _⟩ := List.cons.inj cut
        rw [longer, List.append_assoc, List.cons_append]
        exact not_opening_of_head outside
    · refine absurd ⟨rest, cut⟩ (not_opening_of_head fun mem => outside ?_)
      exact longer ▸ List.mem_append_right _ mem

/-- **An enclosure makes a text differ.** -/
theorem Told.enclose {source ending content : Text} {count : Nat} {found : Occurrence Declaration}
    {names left : Names} {enclosure : Enclosure} (isWord : Word ending)
    (site : HandleSite ending content found) (told : Told source count content)
    (done : enclose found content names = .ok (enclosure, left)) :
    Told source (count + 1) (enclosure.splice content) := by
  obtain ⟨header, inner, rest, _, _, _, _, text⟩ := site.splice_eq done
  have whole : content = site.above ++ (site.layout.indent ++ ((site.layout.mark ++ (site.layout.core ++
      (site.layout.gap ++ (site.layout.name ++ site.layout.blanks)))) ++
        '=' :: (site.statement ++ ';' :: site.later))) := by
    refine site.content_eq.trans ?_
    simp only [Layout.front, List.append_assoc, List.cons_append, List.nil_append]
  have outside : '(' ∉ site.layout.mark ++ (site.layout.core ++ (site.layout.gap ++
      (site.layout.name ++ site.layout.blanks))) := by
    intro mem
    exact site.layout.not_mem_stem isWord (by decide) (List.mem_append_right _ mem)
  rw [text, List.append_assoc "try (".toList]
  exact told.splice whole site.begins site.layout.indent_blank (List.prefix_refl _) (by decide)
    fun original _ aligned => aligned.not_opening outside

/-! ### Mending -/

/-- A name between blanks is an identifier. -/
theorem mem_identifiers_of_blanks {before name behind : Text} (some : name ≠ [])
    (chars : ∀ c ∈ name, isIdentChar c = true) :
    name ∈ identifiers (before ++ ' ' :: (name ++ ' ' :: behind)) := by
  rw [identifiers_append_cons (by decide), identifiers_append_cons (by decide),
    identifiers_of_all some chars]
  exact List.mem_append_right _ (List.mem_append_left _ List.mem_cons_self)

/-- **A mended header makes a text differ**, if the name of its statement is no identifier of the source. -/
theorem Told.mend {source : Text} {count : Nat} {repair later : Repair}
    {found : Occurrence LooseStatement} {name : Text}
    (site : LooseSite repair.content found) (told : Told source count repair.content)
    (done : repair.mend found = .ok later)
    (next : repair.names.nextStatement = some (name, later.names)) (isWord : Word name)
    (chars : ∀ c ∈ name, isIdentChar c = true) (fresh : name ∉ identifiers source) :
    Told source (count + 1) later.content := by
  obtain ⟨issued, inner, rest, other, _, text⟩ := site.mended_eq done
  obtain ⟨rfl, _⟩ := Prod.mk.inj (Option.some.inj (next.symm.trans other))
  have whole : repair.content = site.above ++ (found.value.indent ++ (found.value.resource ++
      (found.value.statement ++ (found.value.chain ++ site.layout.later)))) :=
    site.content_parts
  rw [text, List.append_assoc found.value.indent]
  refine told.splice whole site.begins site.layout.indent_blank ?_ ?_ ?_
  · exact ⟨"var ".toList ++ (name ++ (" = ".toList ++ (trim found.value.statement ++ ") \x7b ".toList))),
      rfl⟩
  · intro newline
    exact site.newline_not_mem_opening isWord (List.mem_append_right _ newline)
  · rintro original split _ ⟨behind, same⟩
    refine fresh ?_
    have shape : source = (site.above ++ (found.value.indent ++ "try (var".toList)) ++ ' ' ::
        (name ++ ' ' :: ("= ".toList ++ (trim found.value.statement ++ ") \x7b ".toList) ++ behind)) := by
      rw [split, ← same]
      unfold LooseSite.opening
      simp
    rw [shape]
    exact mem_identifiers_of_blanks isWord.nonempty chars

/-! ### A whole run -/

/-- A pass behind `base` enclosures of the passes before it. The names of statements are not touched. -/
structure Pass.Traced (source : Text) (base : Nat) (statements : Counter) (pass : Pass) : Prop where
  told : Told source (base + pass.enclosed) pass.content
  statements_eq : pass.names.statements = statements

/-- **One turn.** -/
theorem Pass.Traced.after {source text : Text} {base : Nat} {statements : Counter} {kind : HandleKind}
    {ending : Text} {turn : Turn} (isWord : Word ending)
    (next : nextDeclaration kind ending turn.before.content turn.before.place = some turn.found)
    (traced : turn.before.Traced source base statements) :
    (turn.after text).Traced source base statements := by
  cases made : turn.result with
  | error reason =>
    obtain ⟨content, _, names⟩ : (turn.after text).content = _ ∧ _ := Turn.after_of_error made
    have enclosed : (turn.after text).enclosed = turn.before.enclosed := by
      rw [Turn.enclosed_after, made]
      rfl
    refine ⟨?_, ?_⟩
    · rw [content, enclosed]
      exact traced.told
    · rw [names]
      exact traced.statements_eq
  | ok pair =>
    obtain ⟨enclosure, names⟩ := pair
    have done : enclose turn.found turn.before.content turn.before.names = .ok (enclosure, names) := made
    obtain ⟨header, _, ofHeader, _, _, issued, _⟩ := enclose_eq_ok done
    obtain ⟨site⟩ := nonempty_handleSite next ofHeader
    obtain ⟨_, _, rfl⟩ := Names.nextHandle_eq_some issued
    rw [Turn.after, Pass.advance_of_ok done]
    exact ⟨traced.told.enclose isWord site done, traced.statements_eq⟩

/-- A repair behind `base` enclosures, where `highest` is the largest number of a statement in use. -/
structure Repair.Traced (source : Text) (base : Nat) (stem : Text) (highest : Nat) (repair : Repair) :
    Prop where
  told : Told source (base + repair.repaired) repair.content
  statements_eq : repair.names.statements =
    { stem, next := Counter.after (highest + repair.repaired) }

/-- **One mended header.** -/
theorem Repair.Traced.mend {source : Text} {base : Nat} {stem : Text} {highest : Nat}
    (chars : ∀ c ∈ stem, isIdentChar c = true) (words : ∀ c ∈ stem, isWordChar c = true)
    (most : Counter.Highest stem source highest) {place : Nat} {repair later : Repair}
    {found : Occurrence LooseStatement}
    (next : firstHit LooseStatement.probe place none repair.content = some found)
    (done : repair.mend found = .ok later) (traced : repair.Traced source base stem highest) :
    later.Traced source base stem highest := by
  obtain ⟨site⟩ := nonempty_looseSite next
  obtain ⟨name, _, _, issued, _, _⟩ := site.mended_eq done
  obtain ⟨statements, allocated, names⟩ := Names.nextStatement_eq_some issued
  rw [traced.statements_eq] at allocated
  have isWord := Counter.word_of_allocate words allocated
  obtain ⟨left, named, moved⟩ := Counter.allocate_eq_some allocated
  have nameChars : ∀ c ∈ name, isIdentChar c = true := by
    rw [named]
    exact Counter.isIdentChar_of_mem_name chars Counter.isDigit_of_mem_toDigits
  have fresh : name ∉ identifiers source := by
    rw [named]
    exact Counter.not_mem_identifiers most (by omega) left
  refine ⟨?_, ?_⟩
  · rw [Repair.repaired_of_mend done]
    exact traced.told.mend site done issued isWord nameChars fresh
  · rw [Repair.repaired_of_mend done, names]
    exact moved

section Run

variable {settings : Settings} (valid : settings.validate = .ok ()) (source : Text)

include valid

/-- Both passes. -/
theorem traced_passAfter (kind : HandleKind) :
    (passAfter settings source kind).Traced source (enclosedBefore settings source kind)
      (.seeded settings.statementStem.toList source) := by
  have through : ∀ kind, (passBefore settings source kind).Traced source
      (enclosedBefore settings source kind) (.seeded settings.statementStem.toList source) →
      (passAfter settings source kind).Traced source (enclosedBefore settings source kind)
        (.seeded settings.statementStem.toList source) := by
    intro kind before
    exact (Pass.invariant_through kind (settings.typeOf kind) source (declared settings source kind)
      (passBefore settings source kind) before
      fun turn next => Pass.Traced.after (Settings.word_typeOf valid kind) next).1
  have cursors := through .cursor ⟨rfl, rfl⟩
  cases kind with
  | cursor => exact cursors
  | query =>
    refine through .query ⟨?_, cursors.statements_eq⟩
    have told := cursors.told
    rw [enclosedBefore, Nat.zero_add] at told
    exact told

/-- **The text at the end**, behind all enclosures and repairs. -/
theorem told_content :
    Told source ((scopeHandles settings source).cursors.enclosed
      + (scopeHandles settings source).queries.enclosed
      + (scopeHandles settings source).statements.repaired) (scopeHandles settings source).content := by
  have chars := Settings.isIdentChar_statementStem valid
  obtain ⟨highest, most, seeded⟩ := Counter.exists_seeded chars source
  have passes := traced_passAfter valid source .query
  have start : Repair.Traced source ((scopeHandles settings source).cursors.enclosed
      + (scopeHandles settings source).queries.enclosed) settings.statementStem.toList highest
      { content := (passAfter settings source .query).content
        names := (passAfter settings source .query).names } :=
    ⟨passes.told, passes.statements_eq.trans seeded⟩
  exact (Repair.invariant_run _ (Repair.Traced.mend chars (Names.wordy_seeded valid source).statements most)
    (fun _ traced => ⟨traced.told, traced.statements_eq⟩) start _ 0).told

end Run

/-- **A text is reported as changed exactly if it differs.** -/
theorem changed_iff_content_ne {settings : Settings} (valid : settings.validate = .ok ())
    (source : Text) :
    (scopeHandles settings source).changed = true ↔ (scopeHandles settings source).content ≠ source := by
  have told := told_content valid source
  rw [Outcome.changed, decide_eq_true_iff, Nat.pos_iff_ne_zero]
  rw [Told] at told
  split_ifs at told with none
  · exact ⟨fun some => absurd none some, fun differs => absurd told differs⟩
  · obtain ⟨divergence⟩ := told
    exact ⟨fun _ => divergence.content_ne, fun _ => none⟩

/-- A cursor that comes from a loose statement: the header that encloses it is mended at its `try`. -/
def looseCursor : Text :=
  "\x7b\n R a = c.createStatement().q();\n\x7d\n".toList

theorem looseCursor_differs :
    briefSettings.validate = .ok () ∧
      (scopeHandles briefSettings looseCursor).cursors.enclosed = 1 ∧
      (scopeHandles briefSettings looseCursor).statements.repaired = 1 ∧
      (scopeHandles briefSettings looseCursor).changed = true ∧
      (scopeHandles briefSettings looseCursor).content ≠ looseCursor := by
  have valid : briefSettings.validate = .ok () := by decide +kernel
  have figures : (scopeHandles briefSettings looseCursor).cursors.enclosed = 1 ∧
      (scopeHandles briefSettings looseCursor).statements.repaired = 1 := by
    decide +kernel
  have changed : (scopeHandles briefSettings looseCursor).changed = true := by
    rw [Outcome.changed, figures.1, figures.2, decide_eq_true_iff]
    omega
  exact ⟨valid, figures.1, figures.2, changed, (changed_iff_content_ne valid looseCursor).mp changed⟩

end ScopedHandles
