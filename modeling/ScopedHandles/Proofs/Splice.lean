/-
**What an enclosure leaves declared.**

An enclosure in a tidy text takes its own declaration away and leaves every other one in its place: the
lines before it and the lines of its block declare what they declared, and the lines that are put in
declare nothing. The text stays tidy.

* `Retold` — lines that declare, in their order, what other lines declare.
* `retold_before`, `retold_block` — the lines before an enclosure, and those of its block.
* `Site` — a plain declaration in its text.
* `Site.removed` — the text with the enclosure in place.
-/

import Mathlib.Data.List.Forall2
import ScopedHandles.Proofs.Apart
import ScopedHandles.Proofs.HandleSite
import ScopedHandles.Proofs.Pass

namespace ScopedHandles

/-- Tidy lines that declare what `lines` declare, in the same order. -/
structure Retold (settings : Settings) (lines others : List Text) : Prop where
  tidy : ∀ line ∈ others, isTidyLine settings line = true
  names : ∀ kind, others.filterMap (nameAt settings kind) = lines.filterMap (nameAt settings kind)

section Retold

variable {settings : Settings} {lines others more further : List Text}

theorem Retold.append (first : Retold settings lines others) (second : Retold settings more further) :
    Retold settings (lines ++ more) (others ++ further) := by
  constructor
  · intro line mem
    rcases List.mem_append.mp mem with inFirst | inSecond
    · exact first.tidy line inFirst
    · exact second.tidy line inSecond
  · intro kind
    rw [List.filterMap_append, List.filterMap_append, first.names, second.names]

theorem retold_of_kept (kept : List.Forall₂ (Kept settings) lines others) :
    Retold settings lines others := by
  induction kept with
  | nil => exact ⟨by simp, fun _ => rfl⟩
  | cons one _ ih =>
    constructor
    · intro line mem
      rcases List.mem_cons.mp mem with rfl | inner
      · exact one.tidy
      · exact ih.tidy line inner
    · intro kind
      rw [List.filterMap_cons, List.filterMap_cons, one.names, ih.names]

/-- A line at whose beginning no head is read. -/
def Unread (settings : Settings) (line : Text) : Prop :=
  ∀ kind, Head.read? (settings.typeOf kind) line = none

theorem Unread.tidy {line : Text} (unread : Unread settings line) : isTidyLine settings line = true := by
  simp [isTidyLine, unread .cursor, unread .query]

theorem Unread.nameAt {line : Text} (unread : Unread settings line) (kind : HandleKind) :
    nameAt settings kind line = none := by
  rw [ScopedHandles.nameAt, probe_of_silent (unread kind)]

theorem retold_of_unread (unread : ∀ line ∈ lines, Unread settings line)
    (othersUnread : ∀ line ∈ others, Unread settings line) : Retold settings lines others := by
  constructor
  · exact fun line mem => (othersUnread line mem).tidy
  · intro kind
    rw [List.filterMap_eq_nil_iff.mpr fun line mem => (unread line mem).nameAt kind,
      List.filterMap_eq_nil_iff.mpr fun line mem => (othersUnread line mem).nameAt kind]

variable (words : ∀ kind, Word (settings.typeOf kind))

include words

theorem unread_of_silent {line : Text} (silent : settings.leads (firstWord line) = false) :
    Unread settings line :=
  read?_eq_none words silent

/-- No head is read where a character that belongs to none stands before the first equals sign. -/
theorem unread_of_stop {between behind : Text} {stop : Char} (signless : '=' ∉ between)
    (outside : isWhiteSpace stop = false ∧ isDottedChar stop = false ∧ stop ≠ '=') :
    Unread settings (between ++ stop :: behind) := by
  intro kind
  cases read : Head.read? (settings.typeOf kind) (between ++ stop :: behind) with
  | none => rfl
  | some head =>
    obtain ⟨layout, same, _⟩ := Layout.exists_of_read? read
    have whole : layout.text = [] ++ (between ++ stop :: behind) := same
    obtain ⟨later, empty, _⟩ := layout.fits whole signless (layout.not_mem_front (words kind) outside)
    exact absurd (List.append_eq_nil_iff.mp empty.symm).1 layout.sealed_front.ne_nil

end Retold

/-! ### Lines before an enclosure -/

theorem endsLine_of_mem_linesFrom {above piece : Text} (ends : endsLine true above = true)
    (mem : piece ∈ linesFrom true above) : endsLine false piece = true := by
  obtain ⟨some, before, rfl, _⟩ := exists_of_mem_linesFrom mem
  rw [endsLine_append] at ends
  cases piece with
  | nil => exact absurd rfl some
  | cons c rest => exact ends

section Around

variable {settings : Settings} (words : ∀ kind, Word (settings.typeOf kind))

include words

/-- **The lines before an enclosure declare what they declared.** -/
theorem retold_before {above next between behind : Text} {stop : Char}
    (tidy : ∀ line ∈ (linesFrom true above).map (· ++ next), isTidyLine settings line = true)
    (ends : endsLine true above = true) (leading : settings.leads (firstWord next) = true)
    (signless : '=' ∉ between)
    (outside : isWhiteSpace stop = false ∧ isDottedChar stop = false ∧ stop ≠ '=') :
    Retold settings ((linesFrom true above).map (· ++ next))
      ((linesFrom true above).map (· ++ (between ++ stop :: behind))) := by
  refine retold_of_kept ?_
  rw [List.forall₂_map_left_iff, List.forall₂_map_right_iff, List.forall₂_same]
  intro piece mem
  exact kept_before words (tidy _ (List.mem_map_of_mem mem)) (endsLine_of_mem_linesFrom ends mem)
    leading signless outside

/-! ### Lines of a block -/

/-- Before the rest of a text, white space and a brace add only lines at which nothing is read. -/
theorem exists_linesFrom_closing {white : Text} (blank : ∀ c ∈ white, isWhiteSpace c = true)
    (begins : Bool) (later : Text) :
    ∃ silent, linesFrom begins (white ++ '}' :: later) = silent ++ linesFrom false later ∧
      ∀ line ∈ silent, Unread settings line := by
  refine ⟨(linesFrom begins (white ++ ['}'])).map (· ++ later), ?_, ?_⟩
  · have ends : endsLine begins (white ++ ['}']) = false := by
      rw [endsLine_append]
      rfl
    rw [← ends, ← linesFrom_append, List.append_assoc, List.singleton_append]
  · intro line mem
    obtain ⟨piece, pieceMem, rfl⟩ := List.mem_map.mp mem
    obtain ⟨before, init, rfl, rfl⟩ := exists_init_of_mem_linesFrom pieceMem
    rw [List.append_assoc, List.singleton_append]
    refine unread_of_stop words (fun sign => ?_) (by decide)
    exact absurd (blank '=' (List.mem_append_right _ sign)) (by decide)

/-- **The lines of a block that is renamed, and of the text behind it, declare what they declared.** -/
theorem retold_block {old new body renamedBody white indent rest : Text} {last : Option Char}
    (neutral : Neutral settings old) (fresh : Neutral settings new)
    (renamed : Renamed old new Unassigned last body renamedBody)
    (blank : ∀ c ∈ white, isWhiteSpace c = true) (indentBlank : ∀ c ∈ indent, isWhiteSpace c = true)
    (tidy : ∀ line ∈ linesFrom false (body ++ (white ++ '}' :: rest)),
      isTidyLine settings line = true) :
    Retold settings (linesFrom false (body ++ (white ++ '}' :: rest)))
      (linesFrom false (renamedBody ++ (indent ++ '}' :: (white ++ '}' :: rest)))) := by
  rw [linesFrom_append false body] at tidy ⊢
  rw [linesFrom_append false renamedBody]
  refine Retold.append ?_ ?_
  · have each : ∀ line ∈ linesFrom false body,
        isTidyLine settings (line ++ (white ++ '}' :: rest)) = true := fun line mem =>
      tidy _ (List.mem_append_left _ (List.mem_map_of_mem mem))
    refine retold_of_kept ?_
    rw [List.forall₂_map_left_iff, List.forall₂_map_right_iff]
    refine ((List.forall₂_and_left _ _).mpr
      ⟨each, renamed.lines neutral.isWord fresh.isWord false⟩).imp ?_
    rintro line later ⟨tidyLine, last, onLine⟩
    exact kept_renamed words neutral fresh onLine blank indentBlank tidyLine
  · obtain ⟨silent, before, silently⟩ :=
      exists_linesFrom_closing words blank (endsLine false body) rest
    obtain ⟨first, behind, firstly⟩ := exists_linesFrom_closing words indentBlank
      (endsLine false renamedBody) (white ++ '}' :: rest)
    obtain ⟨second, further, secondly⟩ := exists_linesFrom_closing words blank false rest
    rw [before, behind, further, ← List.append_assoc]
    refine Retold.append (retold_of_unread silently ?_) ⟨?_, fun _ => rfl⟩
    · intro line mem
      rcases List.mem_append.mp mem with inFirst | inSecond
      · exact firstly line inFirst
      · exact secondly line inSecond
    · intro line mem
      refine tidy line (List.mem_append_right _ ?_)
      rw [before]
      exact List.mem_append_right _ mem

end Around

/-! ### A declaration in its text -/

/-- A plain declaration that is found in a text. -/
structure Site (settings : Settings) (kind : HandleKind) (content : Text)
    (found : Occurrence Declaration) where
  /-- The lines before it. -/
  above : Text
  layout : Layout (settings.typeOf kind)
  statement : Text
  /-- The text behind it. -/
  later : Text
  content_eq : content = above ++ (layout.front ++ (statement ++ [';']) ++ later)
  begins : endsLine true above = true
  place_eq : found.place = above.length
  value_eq : found.value = layout.declaration kind statement
  single : (statement ++ ';' :: later).head? ≠ some '='
  plain : Plain settings layout.front layout.name statement
  notNull : Declaration.endsInNull (trim statement) = false

namespace Site

variable {settings : Settings} {kind : HandleKind} {content : Text} {found : Occurrence Declaration}
  (site : Site settings kind content found)

/-- The text of the declaration. -/
def text (site : Site settings kind content found) : Text :=
  site.layout.front ++ (site.statement ++ [';'])

theorem isSealed : Sealed site.text :=
  sealed_declaration _ _

theorem name_eq : found.value.name = site.layout.name := by
  rw [site.value_eq]
  rfl

theorem start_eq : found.start = (site.above ++ site.layout.indent).length := by
  rw [Occurrence.start, site.place_eq, site.value_eq, List.length_append]
  rfl

theorem stop_eq : found.stop = (site.above ++ site.text).length := by
  rw [Occurrence.stop, site.place_eq, site.value_eq, List.length_append, text, List.length_append,
    List.length_append]
  rfl

/-- The lines of the text: those before the declaration, its own, and those behind it. -/
theorem lines_eq :
    linesFrom true content = (linesFrom true site.above).map (· ++ (site.text ++ site.later)) ++
      ([site.text ++ site.later] ++ ((linesFrom false site.text).map (· ++ site.later) ++
        linesFrom false site.later)) := by
  refine (congrArg (linesFrom true) site.content_eq).trans ?_
  rw [linesFrom_append, site.begins]
  exact congrArg _ (site.isSealed.lines_append true site.later)

theorem layout_text : (site.layout.before (site.statement ++ ';' :: site.later)).text =
    site.text ++ site.later := by
  rw [site.layout.text_before, text]
  simp only [List.append_assoc, List.singleton_append]

theorem neutral_name (site : Site settings kind content found) : Neutral settings found.value.name := by
  rw [site.name_eq]
  exact ⟨site.layout.name_word, site.plain.free, site.plain.some⟩

/-- The declaration in its text, plain or not. -/
def toHandleSite : HandleSite (settings.typeOf kind) content found where
  above := site.above
  layout := site.layout
  statement := site.statement
  later := site.later
  content_eq := site.content_eq
  begins := site.begins
  place_eq := site.place_eq
  indent_eq := by rw [site.value_eq]; rfl
  name_eq := site.name_eq
  type_eq := by rw [site.value_eq]; rfl
  initializer_eq := by rw [site.value_eq]; rfl
  length_eq := by rw [site.value_eq, List.length_append, List.length_append]; rfl

/-- The text with an enclosure in place, in parts. -/
theorem splice_eq {names left : Names} {enclosure : Enclosure}
    (done : enclose found content names = .ok (enclosure, left)) :
    ∃ header inner rest, found.value.header = .ok header ∧ site.later = inner ++ '}' :: rest ∧
      escape? found.value.name inner = none ∧ names.nextHandle = some (enclosure.symbol, left) ∧
      enclosure.splice content = site.above ++ (site.layout.indent ++
        ("try (".toList ++ (rename header found.value.name enclosure.symbol ++ ") \x7b".toList) ++
          (rename (trimEnd inner) found.value.name enclosure.symbol ++
            ('\n' :: site.layout.indent ++ '}' :: (trailingBlanks inner ++ '}' :: rest))))) :=
  site.toHandleSite.splice_eq done

end Site

section Site

variable {settings : Settings} (words : ∀ kind, Word (settings.typeOf kind)) {kind : HandleKind}
  {content : Text} {found : Occurrence Declaration}

include words

/-- **The names at or behind a place of a tidy text are those that its lines declare.** -/
theorem map_name_standing {before rest : Text} (tidy : Tidy settings (before ++ rest)) :
    (standing kind (settings.typeOf kind) (before ++ rest) before.length).map (·.value.name) =
      namesFrom settings kind (endsLine true before) rest := by
  have ends : endsLine true before = beginsLine (before.getLast?.or none) := endsLine_eq none before
  rw [standing, allHits_skip, ends]
  refine map_name_allHits words _ _ rest fun line mem => tidy line (mem_linesFrom_behind ?_)
  rwa [ends]

/-- A declaration that is found in a tidy text is plain. -/
theorem nonempty_site {place : Nat} (tidy : Tidy settings content)
    (mem : found ∈ standing kind (settings.typeOf kind) content place) :
    Nonempty (Site settings kind content found) := by
  obtain ⟨above, line, _, rfl, here, _, seen⟩ := exists_of_mem_allHits mem
  have first : beginsLine (above.getLast?.or none) = true := by
    by_contra inside
    rw [probe_of_inside (Bool.not_eq_true _ ▸ inside)] at seen
    cases seen
  have begins : endsLine true above = true := (endsLine_eq none above).trans first
  cases read : Head.read? (settings.typeOf kind) line with
  | none =>
    rw [probe_of_silent read] at seen
    cases seen
  | some head =>
    obtain ⟨layout, rfl, _⟩ := Layout.exists_of_read? read
    have inside : layout.text ∈ linesFrom true (above ++ layout.text) := by
      refine mem_linesFrom_behind ?_
      rw [begins, layout.text_eq, layout.sealed_front.lines_append]
      exact List.mem_cons_self
    cases (isTidyLine_iff words).mp (tidy _ inside) kind layout rfl with
    | comparison later double silent =>
      rw [probe_of_comparison (words kind) first double] at seen
      cases seen
    | declaration statement later ended single plain =>
      rw [probe_of_declaration (words kind) first ended single plain.ends] at seen
      split_ifs at seen with null
      obtain ⟨value, _⟩ := Probe.hit.inj seen
      have whole : layout.text = layout.front ++ (statement ++ [';']) ++ later := by
        rw [layout.text_eq, ended]
        simp only [List.append_assoc, List.singleton_append]
      exact ⟨⟨above, layout, statement, later, by rw [whole], begins, by rw [here, Nat.zero_add],
        value.symm, ended ▸ single, plain, by simpa using null⟩⟩

namespace Site

variable (site : Site settings kind content found)

/-- The line of a declaration declares its name. -/
theorem nameAt_self : nameAt settings kind (site.text ++ site.later) = some found.value.name := by
  have named :
      nameAt settings kind (site.layout.before (site.statement ++ ';' :: site.later)).text = _ :=
    nameAt_of_declaration (words kind) rfl site.single site.plain.ends
  rw [site.layout_text, site.notNull] at named
  rw [named, site.name_eq]
  rfl

/-- It declares no handle of the other kind. -/
theorem nameAt_other (apart : settings.Apart) {other : HandleKind} (different : other ≠ kind) :
    nameAt settings other (site.text ++ site.later) = none := by
  rw [nameAt, probe_of_silent]
  cases read : Head.read? (settings.typeOf other) (site.text ++ site.later) with
  | none => rfl
  | some head =>
    exfalso
    obtain ⟨twin, same, _⟩ := Layout.exists_of_read? read
    rw [← site.layout_text] at same
    obtain ⟨_, _, core, _⟩ := twin.unique (words other) (words kind) _ same
    obtain ⟨run, ofTwin, _⟩ := twin.core_dotted
    obtain ⟨otherRun, ofLayout, _⟩ := site.layout.core_dotted
    have twinEnds : settings.typeOf other <:+ site.layout.core := ⟨run, by rw [← ofTwin, core]; rfl⟩
    have layoutEnds : settings.typeOf kind <:+ site.layout.core := ⟨otherRun, ofLayout.symm⟩
    rcases List.suffix_or_suffix_of_suffix twinEnds layoutEnds with inner | outer
    · exact apart.types other kind different inner
    · exact apart.types kind other different.symm outer

/-- The names that the lines before the declaration declare. -/
def earlier (site : Site settings kind content found) (other : HandleKind) : List Text :=
  ((linesFrom true site.above).map (· ++ (site.text ++ site.later))).filterMap (nameAt settings other)

/-- What the text declares: what the lines before the declaration do, itself, and what is behind it. -/
theorem names_eq (other : HandleKind) :
    namesFrom settings other true content = site.earlier other ++
      ((nameAt settings other (site.text ++ site.later)).toList ++
        namesFrom settings other false site.later) := by
  have whole : namesFrom settings other true content =
      namesFrom settings other true (site.above ++ (site.text ++ site.later)) :=
    congrArg _ site.content_eq
  have own : namesFrom settings other true (site.text ++ site.later) = _ :=
    namesFrom_append_of_quiet words site.isSealed site.plain.quiet true site.later
  rw [whole, namesFrom, linesFrom_append, site.begins, List.filterMap_append]
  exact congrArg _ own

theorem map_name_behind (tidy : Tidy settings content) :
    (standing kind (settings.typeOf kind) content found.stop).map (·.value.name) =
      namesFrom settings kind false site.later := by
  have split : content = (site.above ++ site.text) ++ site.later :=
    site.content_eq.trans (List.append_assoc _ _ _).symm
  have ends : endsLine true (site.above ++ site.text) = false := by
    rw [endsLine_append, site.isSealed.not_endsLine]
  have names : (standing kind (settings.typeOf kind) (site.above ++ site.text ++ site.later)
      (site.above ++ site.text).length).map (·.value.name) = _ := map_name_standing words (split ▸ tidy)
  rw [ends, ← site.stop_eq] at names
  rw [← names]
  exact congrArg (fun content => (standing kind (settings.typeOf kind) content found.stop).map _) split

end Site

end Site

/-! ### The block that is put in -/

/-- The beginning of a block that is put in. Nothing is read in its lines. -/
structure Opening (settings : Settings) (opening : Text) : Prop where
  isSealed : Sealed opening
  silent : quiet settings opening = true
  begins : ∃ tail, opening = "try ".toList ++ '(' :: tail

namespace Opening

variable {settings : Settings} {opening indent : Text} (isOpening : Opening settings opening)

include isOpening

/-- Before its first equals sign, an opening has a character that belongs to no head. -/
theorem exists_stop (blank : ∀ c ∈ indent, isIndentChar c = true) (later : Text) :
    ∃ between behind, indent ++ (opening ++ later) = between ++ '(' :: behind ∧ '=' ∉ between := by
  obtain ⟨tail, rfl⟩ := isOpening.begins
  refine ⟨indent ++ "try ".toList, tail ++ later, ?_, ?_⟩
  · rw [List.append_assoc, List.append_assoc, List.cons_append]
  · intro sign
    rcases List.mem_append.mp sign with inIndent | inTry
    · exact absurd (blank _ inIndent) (by decide)
    · exact absurd inTry (by decide)

variable (words : ∀ kind, Word (settings.typeOf kind))

include words

theorem unread (blank : ∀ c ∈ indent, isIndentChar c = true) (later : Text) :
    Unread settings (indent ++ (opening ++ later)) := by
  obtain ⟨between, behind, same, signless⟩ := isOpening.exists_stop blank later
  rw [same]
  exact unread_of_stop words signless (by decide)

/-- An opening declares nothing. -/
theorem namesFrom_eq (begins : Bool) (block : Text) :
    namesFrom settings kind begins (opening ++ block) = namesFrom settings kind false block := by
  have unread : Unread settings ([] ++ (opening ++ block)) := isOpening.unread words (by simp) block
  rw [List.nil_append] at unread
  rw [namesFrom_append_of_quiet words isOpening.isSealed isOpening.silent, unread.nameAt kind]
  cases begins <;> rfl

/-- Nothing is read in the lines of an opening. -/
theorem exists_lines (blank : ∀ c ∈ indent, isIndentChar c = true) (block : Text) :
    ∃ put, linesFrom true (indent ++ (opening ++ block)) = put ++ linesFrom false block ∧
      ∀ line ∈ put, Unread settings line := by
  have single : '\n' ∉ indent := fun mem => absurd (blank _ mem) (by decide)
  have isSealed : Sealed (indent ++ opening) := by
    obtain ⟨body, stop, rfl, dot, apart, other⟩ := isOpening.isSealed.exists_stop
    exact ⟨⟨indent ++ body, stop, by rw [List.append_assoc], dot, apart, other⟩⟩
  have silent : quiet settings (indent ++ opening) = true :=
    quiet_append_of_single single isOpening.silent
  refine ⟨[indent ++ opening ++ block] ++ (linesFrom false (indent ++ opening)).map (· ++ block), ?_, ?_⟩
  · rw [← List.append_assoc, isSealed.lines_append true block, ← List.append_assoc]
    rfl
  · intro line mem
    rcases List.mem_append.mp mem with first | inner
    · rw [List.mem_singleton.mp first, List.append_assoc]
      exact isOpening.unread words blank block
    · obtain ⟨piece, pieceMem, rfl⟩ := List.mem_map.mp inner
      exact unread_of_silent words (isSealed.silent silent pieceMem)

end Opening

/-! ### The text with an enclosure -/

/-- One declaration is taken away from a text, and every other one is left in its place. -/
structure Removed (settings : Settings) (kind : HandleKind) (found : Occurrence Declaration)
    (content result : Text) : Prop where
  tidy : Tidy settings result
  others : ∀ other, other ≠ kind →
    namesFrom settings other true result = namesFrom settings other true content
  ahead : (standing kind (settings.typeOf kind) result found.start).map (·.value.name) =
    (standing kind (settings.typeOf kind) content found.stop).map (·.value.name)
  own : ∃ earlier,
    namesFrom settings kind true content = earlier ++ found.value.name ::
      (standing kind (settings.typeOf kind) content found.stop).map (·.value.name) ∧
    namesFrom settings kind true result = earlier ++
      (standing kind (settings.typeOf kind) content found.stop).map (·.value.name)

section Removed

variable {settings : Settings} (valid : settings.validate = .ok ()) (apart : settings.Apart)
  {kind : HandleKind} {content : Text} {found : Occurrence Declaration}
  (site : Site settings kind content found)

include valid apart site

namespace Site

/-- **An enclosure puts in a beginning and an end, and keeps what the rest of the text declares.** -/
theorem exists_opening (tidy : Tidy settings content) {names left : Names} (wordy : names.Wordy)
    {enclosure : Enclosure} (done : enclose found content names = .ok (enclosure, left)) :
    ∃ opening block, Opening settings opening ∧
      enclosure.splice content = site.above ++ (site.layout.indent ++ (opening ++ block)) ∧
      Retold settings (linesFrom false site.later) (linesFrom false block) := by
  have words := Settings.word_typeOf valid
  obtain ⟨header, inner, rest, made, whole, stays, next, spliced⟩ := site.splice_eq done
  obtain ⟨handles, allocated, _⟩ := Names.nextHandle_eq_some next
  have neutral := site.neutral_name
  have fresh := neutral_of_allocate valid apart wordy.handles allocated
  refine ⟨_, _, ⟨?_, ?_, ?_⟩, spliced, ?_⟩
  · have brace : ") \x7b".toList = ") ".toList ++ ['{'] := by decide
    rw [brace, ← List.append_assoc, ← List.append_assoc]
    exact ⟨⟨_, '{', rfl, by decide, by decide, by decide⟩⟩
  · have silent : quiet settings header = true := by
      rw [site.value_eq] at made
      exact quiet_header words site.plain made
    refine quiet_opening words ?_
    rw [← silent]
    exact (renamed_rename header _ _).quiet_eq words neutral.isWord fresh.isWord neutral.free fresh.free
  · exact ⟨_, rfl⟩
  · have split : site.later = trimEnd inner ++ (trailingBlanks inner ++ '}' :: rest) := by
      rw [← List.append_assoc, trimEnd_append_trailingBlanks, whole]
    rw [split]
    refine retold_block words neutral fresh (renamed_body _ stays) isWhiteSpace_of_mem_trailingBlanks
      ?_ ?_
    · intro c mem
      rcases List.mem_cons.mp mem with rfl | inIndent
      · decide
      · exact isWhiteSpace_of_isIndentChar (site.layout.indent_blank c inIndent)
    · intro line mem
      refine tidy line ?_
      rw [site.lines_eq, split]
      exact List.mem_append_right _ (List.mem_append_right _ (List.mem_append_right _ mem))

/-- **An enclosure in a tidy text takes its own declaration away and no other one.** -/
theorem removed (tidy : Tidy settings content) {names left : Names} (wordy : names.Wordy)
    {enclosure : Enclosure} (done : enclose found content names = .ok (enclosure, left)) :
    Removed settings kind found content (enclosure.splice content) := by
  have words := Settings.word_typeOf valid
  have blank := site.layout.indent_blank
  obtain ⟨opening, block, isOpening, spliced, behind⟩ := site.exists_opening valid apart tidy wordy done
  obtain ⟨put, putLines, unread⟩ := isOpening.exists_lines words blank block
  have before : Retold settings ((linesFrom true site.above).map (· ++ (site.text ++ site.later)))
      ((linesFrom true site.above).map (· ++ (site.layout.indent ++ (opening ++ block)))) := by
    obtain ⟨between, rest, same, signless⟩ := isOpening.exists_stop blank block
    rw [same]
    refine retold_before words (fun line mem => tidy line ?_) site.begins ?_ signless (by decide)
    · rw [site.lines_eq]
      exact List.mem_append_left _ mem
    · rw [← site.layout_text]
      exact leads_of_layout words _
  have lines : linesFrom true (enclosure.splice content) =
      (linesFrom true site.above).map (· ++ (site.layout.indent ++ (opening ++ block))) ++
        (put ++ linesFrom false block) := by
    rw [spliced, linesFrom_append, site.begins, putLines]
  have newTidy : Tidy settings (enclosure.splice content) := by
    intro line mem
    rw [lines] at mem
    rcases List.mem_append.mp mem with inBefore | mem
    · exact before.tidy line inBefore
    · rcases List.mem_append.mp mem with inPut | inBlock
      · exact (unread line inPut).tidy
      · exact behind.tidy line inBlock
  have newNames : ∀ other, namesFrom settings other true (enclosure.splice content) =
      site.earlier other ++ namesFrom settings other false site.later := by
    intro other
    rw [namesFrom, lines, List.filterMap_append, List.filterMap_append, before.names,
      List.filterMap_eq_nil_iff.mpr fun line mem => (unread line mem).nameAt other, List.nil_append,
      behind.names]
    rfl
  refine ⟨newTidy, fun other different => ?_, ?_, ?_⟩
  · rw [newNames, site.names_eq words, site.nameAt_other words apart different]
    rfl
  · rw [site.map_name_behind words tidy, site.start_eq]
    rw [spliced, ← List.append_assoc] at newTidy ⊢
    rw [map_name_standing words newTidy, isOpening.namesFrom_eq words]
    exact behind.names kind
  · refine ⟨site.earlier kind, ?_, ?_⟩
    · rw [site.names_eq words, site.nameAt_self words, site.map_name_behind words tidy]
      rfl
    · rw [newNames, site.map_name_behind words tidy]

end Site

end Removed

end ScopedHandles
