/-
**Lines that keep what they declare.**

A line of a tidy text declares its handle by itself. So it declares the same when the text behind it is
exchanged, and when words of its block are renamed that are neither modifier nor type nor assigned to.

* `Kept` — a line that is tidy and declares what another line declares.
* `kept_before` — the lines before a declaration, when a block is put in its place.
* `kept_renamed` — the lines of a block that is renamed.
-/

import ScopedHandles.Proofs.HeaderLines
import ScopedHandles.Proofs.Enclosure

namespace ScopedHandles

/-- A word that can be exchanged: it neither leads nor ends in `null`. -/
structure Neutral (settings : Settings) (word : Text) : Prop where
  isWord : Word word
  free : settings.leads word = false
  some : Declaration.endsInNull word = false

/-- A text behind a name that does not assign to it. -/
def Unassigned (later : Text) : Prop :=
  ∀ more, trimStart later = '=' :: more → more.head? = some '='

/-- A line is tidy and declares what the line `before` declares. -/
structure Kept (settings : Settings) (before line : Text) : Prop where
  tidy : isTidyLine settings line = true
  names : ∀ kind, nameAt settings kind line = nameAt settings kind before

/-! ### Where pieces end -/

/-- A quiet piece ends before a line that begins with a word that leads. -/
theorem Sealed.fits {settings : Settings} {part later piece next : Text} (isSealed : Sealed part)
    (silent : quiet settings part = true) (same : part ++ later = piece ++ next)
    (ends : endsLine false piece = true) (leading : settings.leads (firstWord next) = true) :
    ∃ more, piece = part ++ more ∧ later = more ++ next := by
  rcases List.append_eq_append_iff.mp same with ⟨more, cut, rest⟩ | ⟨more, cut, rest⟩
  · exact ⟨more, cut, rest⟩
  · cases more with
    | nil =>
      rw [List.append_nil] at cut
      exact ⟨[], by rw [cut, List.append_nil], rest.symm⟩
    | cons c more =>
      exfalso
      have mem : c :: more ∈ linesFrom false part := by
        rw [cut, linesFrom_append, ends]
        exact List.mem_append_right _ List.mem_cons_self
      have none : settings.leads (firstWord (c :: more ++ later)) = false :=
        isSealed.silent silent mem
      rw [← rest, leading] at none
      exact Bool.noConfusion none

theorem head?_append_stop {statement : Text} (later other : Text) :
    (statement ++ ';' :: later).head? = (statement ++ ';' :: other).head? := by
  cases statement <;> rfl

theorem sign_not_mem_of_blank {white : Text} (blank : ∀ c ∈ white, isWhiteSpace c = true) :
    '=' ∉ white := by
  intro mem
  exact absurd (blank _ mem) (by decide)

/-- A statement ends before white space and a character that is not in it. -/
theorem statement_fits {statement later piece white behind : Text} {stop : Char}
    (outside : stop ∉ statement) (different : stop ≠ ';') (blank : ∀ c ∈ white, isWhiteSpace c = true)
    (same : statement ++ ';' :: later = piece ++ (white ++ stop :: behind)) :
    ∃ more, piece = statement ++ ';' :: more := by
  rcases List.append_eq_append_iff.mp same with ⟨more, cut, rest⟩ | ⟨more, cut, rest⟩
  · cases more with
    | nil =>
      exfalso
      cases white with
      | nil => exact absurd (List.cons.inj rest).1.symm different
      | cons c white =>
        obtain ⟨rfl, _⟩ := List.cons.inj rest
        exact absurd (blank ';' List.mem_cons_self) (by decide)
    | cons c more =>
      obtain ⟨rfl, _⟩ := List.cons.inj rest
      exact ⟨more, cut⟩
  · exfalso
    rcases List.append_eq_append_iff.mp rest with ⟨others, inMore, behindMore⟩ | ⟨others, inWhite, ended⟩
    · cases others with
      | nil => exact absurd (List.cons.inj behindMore).1 different
      | cons c others =>
        obtain ⟨rfl, _⟩ := List.cons.inj behindMore
        refine outside ?_
        rw [cut, inMore]
        exact List.mem_append_right _ (List.mem_append_right _ List.mem_cons_self)
    · cases others with
      | nil => exact absurd (List.cons.inj ended).1.symm different
      | cons c others =>
        obtain ⟨rfl, _⟩ := List.cons.inj ended
        refine absurd (blank ';' ?_) (by decide)
        rw [inWhite]
        exact List.mem_append_right _ List.mem_cons_self

section Kept

variable {settings : Settings} (words : ∀ kind, Word (settings.typeOf kind))

include words

/-- A line with a layout for each layout of another line, which declares the same, is kept. -/
theorem kept_of_layouts {before line : Text}
    (back : ∀ {kind} (layout : Layout (settings.typeOf kind)), layout.text = line →
      ∃ twin : Layout (settings.typeOf kind), twin.text = before)
    (forth : ∀ {kind} (layout : Layout (settings.typeOf kind)), layout.text = before →
      ∃ twin : Layout (settings.typeOf kind), twin.text = line ∧
        Fine settings twin.front twin.name twin.rest ∧
        nameAt settings kind line = nameAt settings kind before) : Kept settings before line := by
  constructor
  · rw [isTidyLine_iff words]
    intro kind layout same
    obtain ⟨first, there⟩ := back layout same
    obtain ⟨twin, here, fine, _⟩ := forth first there
    obtain ⟨front, name, rest⟩ :=
      layout.front_unique (words kind) (words kind) twin (same.trans here.symm)
    rw [front, name, rest]
    exact fine
  · intro kind
    cases read : Head.read? (settings.typeOf kind) before with
    | some head =>
      obtain ⟨layout, same, _⟩ := Layout.exists_of_read? read
      obtain ⟨_, _, _, named⟩ := forth layout same
      exact named
    | none =>
      have silent : Head.read? (settings.typeOf kind) line = none := by
        cases found : Head.read? (settings.typeOf kind) line with
        | none => rfl
        | some head =>
          obtain ⟨layout, same, _⟩ := Layout.exists_of_read? found
          obtain ⟨twin, there⟩ := back layout same
          rw [← there, twin.read?_text (words kind)] at read
          simp at read
      rw [nameAt, nameAt, probe_of_silent read, probe_of_silent silent]

/-- **Lines before a declaration are kept** when a line that is no declaration takes its place. -/
theorem kept_before {piece next between behind : Text} {stop : Char}
    (tidy : isTidyLine settings (piece ++ next) = true) (ends : endsLine false piece = true)
    (leading : settings.leads (firstWord next) = true) (signless : '=' ∉ between)
    (outside : isWhiteSpace stop = false ∧ isDottedChar stop = false ∧ stop ≠ '=') :
    Kept settings (piece ++ next) (piece ++ (between ++ stop :: behind)) := by
  refine kept_of_layouts words (fun {kind} layout same => ?_) (fun {kind} layout same => ?_)
  · obtain ⟨later, cut, _⟩ := layout.fits same signless (layout.not_mem_front (words kind) outside)
    exact ⟨layout.before (later ++ next), by rw [layout.text_before, cut, List.append_assoc]⟩
  · have fine := (isTidyLine_iff words).mp tidy kind layout same
    have split := layout.text_eq.symm.trans same
    cases fine with
    | comparison later double silent =>
      obtain ⟨more, cut, rest⟩ := layout.sealed_front.fits silent split ends leading
      cases more with
      | nil =>
        rw [cut, List.append_nil, layout.sealed_front.not_endsLine] at ends
        exact Bool.noConfusion ends
      | cons c more =>
        rw [double] at rest
        obtain ⟨rfl, _⟩ := List.cons.inj rest
        have text : (layout.before ('=' :: (more ++ (between ++ stop :: behind)))).text =
            piece ++ (between ++ stop :: behind) := by
          rw [layout.text_before, cut, List.append_assoc, List.cons_append]
        refine ⟨_, text, .comparison _ rfl silent, ?_⟩
        rw [← text, ← same, nameAt_of_comparison (words kind) rfl,
          nameAt_of_comparison (words kind) double]
    | declaration statement later ended single plain =>
      have whole : layout.front ++ (statement ++ [';']) ++ later = piece ++ next := by
        rw [← split, ended]
        simp only [List.append_assoc, List.singleton_append]
      obtain ⟨more, cut, _⟩ :=
        (sealed_declaration layout.front statement).fits plain.quiet whole ends leading
      have text : (layout.before (statement ++ ';' :: (more ++ (between ++ stop :: behind)))).text =
          piece ++ (between ++ stop :: behind) := by
        rw [layout.text_before, cut]
        simp only [List.append_assoc, List.cons_append, List.nil_append]
      have stillSingle : (statement ++ ';' :: (more ++ (between ++ stop :: behind))).head? ≠
          some '=' := by
        rw [head?_append_stop _ later, ← ended]
        exact single
      refine ⟨_, text, .declaration statement _ rfl stillSingle plain, ?_⟩
      rw [← text, ← same, nameAt_of_declaration (words kind) rfl stillSingle plain.ends,
        nameAt_of_declaration (words kind) ended single plain.ends]
      rfl

end Kept

/-! ### Lines of a renamed block -/

section Renamed

variable {settings : Settings} {old new : Text} {last : Option Char}

/-- A front that is cut off a renamed line is a renamed front. -/
theorem Layout.renamed_front {ending : Text} {allowed : Text → Prop} (isWord : Word ending)
    (oldWord : Word old) (newWord : Word new) (unmarked : old ≠ "final".toList)
    (free : ¬ ending <:+ old) (layout : Layout ending) {rest result : Text}
    (renamed : Renamed old new allowed last (layout.front ++ rest) result) :
    ∃ (twin : Layout ending) (later : Text), result = twin.front ++ later ∧
      (∃ allowed, Renamed old new allowed last layout.front twin.front) ∧
      Renamed old new allowed (some '=') rest later ∧
      (twin.name = layout.name ∨ allowed (layout.blanks ++ '=' :: rest)) := by
  have edge : Edge layout.front rest := by
    refine .inl ?_
    rw [layout.getLast?_front]
    exact forall_mem_some (by decide)
  obtain ⟨front, later, rfl, onFront, onRest⟩ := renamed.split oldWord edge
  obtain ⟨twin, rfl, named⟩ := layout.renamed isWord oldWord newWord unmarked free onFront
  rw [layout.getLast?_front, Option.some_or] at onRest
  refine ⟨twin, later, rfl, ⟨_, onFront⟩, onRest, ?_⟩
  rcases named with same | ⟨_, stays⟩
  · exact .inl same
  · refine .inr ?_
    rwa [List.append_assoc, List.singleton_append] at stays

/-- An initializer that is `null` is not renamed. -/
theorem eq_null_of_renamed {statement other : Text} {allowed : Text → Prop}
    (neutral : Neutral settings old) (fresh : Neutral settings new)
    (renamed : Renamed old new allowed last statement other) (null : trim statement = "null".toList) :
    trim other = "null".toList := by
  obtain ⟨_, _, trimmed⟩ := renamed.trim neutral.isWord fresh.isWord
  rw [null] at trimmed
  rcases trimmed.word_cases neutral.isWord (List.all_eq_true.mp (by decide +kernel)) with
    same | ⟨isOld, _, _⟩
  · exact same
  · have none := neutral.some
    rw [← isOld] at none
    exact absurd none (by decide +kernel)

variable (words : ∀ kind, Word (settings.typeOf kind))

include words

/-- **A renamed plain declaration is plain, and declares the same name.** The declaration is cut off, then
its front, then its terminator. -/
theorem plain_of_renamed {kind : HandleKind} (neutral : Neutral settings old)
    (fresh : Neutral settings new) {layout : Layout (settings.typeOf kind)} {statement more result : Text}
    (plain : Plain settings layout.front layout.name statement)
    (single : (statement ++ ';' :: more).head? ≠ some '=')
    (renamed : Renamed old new Unassigned last (layout.front ++ (statement ++ ';' :: more)) result) :
    ∃ (twin : Layout (settings.typeOf kind)) (other later : Text),
      result = twin.front ++ (other ++ ';' :: later) ∧ (other ++ ';' :: later).head? ≠ some '=' ∧
      Plain settings twin.front twin.name other ∧ twin.name = layout.name ∧
      Declaration.endsInNull (trim other) = Declaration.endsInNull (trim statement) := by
  obtain ⟨unmarked, _, untyped⟩ := Settings.leads_eq_false_iff.mp neutral.free
  have whole : layout.front ++ (statement ++ ';' :: more) =
      (layout.front ++ (statement ++ [';'])) ++ more := by
    simp only [List.append_assoc, List.cons_append, List.nil_append]
  have semicolon : ∀ c ∈ [';'], isWordChar c = false := by
    intro c mem
    obtain rfl := List.mem_singleton.mp mem
    decide
  have edge : Edge (layout.front ++ (statement ++ [';'])) more := by
    refine .inl fun c mem => semicolon c ?_
    rw [← List.append_assoc, List.getLast?_append_of_ne_nil _ (by simp)] at mem
    exact List.mem_of_getLast? mem
  rw [whole] at renamed
  obtain ⟨declaration, later, rfl, onDeclaration, _⟩ := renamed.split neutral.isWord edge
  have silent := onDeclaration.quiet_eq words neutral.isWord fresh.isWord neutral.free fresh.free
  obtain ⟨twin, _, rfl, _, onRest, named⟩ := layout.renamed_front (words kind) neutral.isWord
    fresh.isWord unmarked (untyped kind) onDeclaration
  obtain ⟨other, _, rfl, onStatement, onEnd⟩ := onRest.split neutral.isWord
    (.inr fun c first => semicolon c (List.mem_of_mem_head? first))
  obtain rfl := onEnd.eq_of_no_word neutral.isWord semicolon
  have sameName : twin.name = layout.name := by
    refine named.resolve_right fun stays => single ?_
    refine stays (statement ++ ';' :: more) ?_
    rw [List.append_assoc, trimStart, dropWhile_run layout.blanks_blank]
    · simp only [List.append_assoc, List.cons_append, List.nil_append]
    · exact forall_mem_some (by decide)
  obtain ⟨_, _, trimmed⟩ := onStatement.trim neutral.isWord fresh.isWord
  have sameNull := trimmed.endsInNull_eq neutral.isWord fresh.isWord neutral.some fresh.some
  refine ⟨twin, other, later, ?_, ?_, ?_, sameName, sameNull⟩
  · simp only [List.append_assoc, List.cons_append, List.nil_append]
  · intro double
    refine single ?_
    have back := onRest.symm neutral.isWord fresh.isWord
    rw [head?_append_stop later []] at double
    rw [head?_append_stop more [], back.head?_eq fresh.isWord, double]
    rw [double]
    exact forall_mem_some (by decide)
  · refine ⟨onStatement.ends neutral.isWord fresh.isWord plain.ends, ?_, ?_, ?_, ?_, ?_⟩
    · rw [silent]
      exact plain.quiet
    · intro mem
      rcases onStatement.mem_of_mem fresh.isWord mem with inStatement | word
      · exact plain.unclosed inStatement
      · exact absurd word (by decide)
    · rw [sameName]
      exact plain.free
    · rw [sameName]
      exact plain.some
    · intro ends
      rw [sameNull] at ends
      exact eq_null_of_renamed neutral fresh onStatement (plain.null ends)

/-- **The lines of a renamed block are kept.** The second sign of a comparison stands in the block, since
what follows the block is blank or a brace. -/
theorem kept_renamed (neutral : Neutral settings old) (fresh : Neutral settings new)
    {line later white behind otherWhite otherBehind : Text}
    (renamed : Renamed old new Unassigned last line later)
    (blank : ∀ c ∈ white, isWhiteSpace c = true) (otherBlank : ∀ c ∈ otherWhite, isWhiteSpace c = true)
    (tidy : isTidyLine settings (line ++ (white ++ '}' :: behind)) = true) :
    Kept settings (line ++ (white ++ '}' :: behind))
      (later ++ (otherWhite ++ '}' :: otherBehind)) := by
  obtain ⟨unmarked, _, untyped⟩ := Settings.leads_eq_false_iff.mp neutral.free
  obtain ⟨freshUnmarked, _, freshUntyped⟩ := Settings.leads_eq_false_iff.mp fresh.free
  refine kept_of_layouts words (fun {kind} layout same => ?_) (fun {kind} layout same => ?_)
  · obtain ⟨rest, cut, _⟩ := layout.fits same (sign_not_mem_of_blank otherBlank)
      (layout.not_mem_front (words kind) (by decide))
    have back := renamed.symm neutral.isWord fresh.isWord
    rw [cut] at back
    obtain ⟨twin, more, rfl, _⟩ := layout.renamed_front (words kind) fresh.isWord neutral.isWord
      freshUnmarked (freshUntyped kind) back
    exact ⟨twin.before (more ++ (white ++ '}' :: behind)), by
      rw [twin.text_before, List.append_assoc]⟩
  · have fine := (isTidyLine_iff words).mp tidy kind layout same
    obtain ⟨rest, rfl, split⟩ := layout.fits same (sign_not_mem_of_blank blank)
      (layout.not_mem_front (words kind) (by decide))
    cases fine with
    | comparison more double silent =>
      obtain ⟨twin, after, rfl, ⟨_, onFront⟩, onRest, _⟩ := layout.renamed_front (words kind)
        neutral.isWord fresh.isWord unmarked (untyped kind) renamed
      have second : rest.head? = some '=' := by
        rw [double] at split
        cases rest with
        | nil =>
          cases white with
          | nil => simp at split
          | cons c white =>
            obtain ⟨rfl, _⟩ := List.cons.inj split
            exact absurd (blank '=' List.mem_cons_self) (by decide)
        | cons c rest =>
          obtain ⟨rfl, _⟩ := List.cons.inj split
          rfl
      have stillSecond : after.head? = some '=' := by
        rw [onRest.head?_eq neutral.isWord, second]
        rw [second]
        exact forall_mem_some (by decide)
      obtain ⟨further, rfl⟩ := List.head?_eq_some_iff.mp stillSecond
      have text : (twin.before ('=' :: (further ++ (otherWhite ++ '}' :: otherBehind)))).text =
          twin.front ++ '=' :: further ++ (otherWhite ++ '}' :: otherBehind) := by
        rw [twin.text_before, List.append_assoc, List.cons_append]
      refine ⟨_, text, .comparison _ rfl ?_, ?_⟩
      · rw [← silent]
        exact onFront.quiet_eq words neutral.isWord fresh.isWord neutral.free fresh.free
      · rw [← text, ← same, nameAt_of_comparison (words kind) rfl,
          nameAt_of_comparison (words kind) double]
    | declaration statement more ended single plain =>
      obtain ⟨inside, rfl⟩ := statement_fits plain.unclosed (by decide) blank (ended.symm.trans split)
      have here : (statement ++ ';' :: inside).head? ≠ some '=' := by
        rw [head?_append_stop inside more, ← ended]
        exact single
      obtain ⟨twin, other, after, rfl, stillSingle, stillPlain, name, null⟩ :=
        plain_of_renamed words neutral fresh plain here renamed
      have text : (twin.before (other ++ ';' :: (after ++ (otherWhite ++ '}' :: otherBehind)))).text =
          twin.front ++ (other ++ ';' :: after) ++ (otherWhite ++ '}' :: otherBehind) := by
        rw [twin.text_before]
        simp only [List.append_assoc, List.cons_append]
      have further : (other ++ ';' :: (after ++ (otherWhite ++ '}' :: otherBehind))).head? ≠
          some '=' := by
        rw [head?_append_stop _ after]
        exact stillSingle
      refine ⟨_, text, .declaration other _ rfl further stillPlain, ?_⟩
      rw [← text, ← same, nameAt_of_declaration (words kind) rfl further stillPlain.ends,
        nameAt_of_declaration (words kind) ended single plain.ends, null]
      show (if _ then none else some twin.name) = _
      rw [name]

end Renamed

end ScopedHandles
