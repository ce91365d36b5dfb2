/-
**Mending a text that declares nothing.**

A text is *bare* if it is tidy and declares no handle. Its lines hold no head, or a comparison, or a handle
that is declared as null. A mended header stays a header, and the lines around it stay what they were.
So a bare text stays bare while its loose statements are mended.

* `LooseLayout` — the parts of a header with a loose statement.
* `Bare` — texts that declare nothing.
* `bare_mend` — one header.
* `bare_run` — all headers of a text.
-/

import ScopedHandles.Proofs.LooseHead
import ScopedHandles.Proofs.TidyRun

namespace ScopedHandles

/-! ### The layout of a header -/

/-- The parts of a header with a loose statement, and the text behind it. -/
structure LooseLayout (loose : LooseStatement) (text : Text) where
  /-- The resource without its equals sign. -/
  front : Text
  /-- The white space before the statement. -/
  before : Text
  /-- The expression that makes the statement. -/
  core : Text
  /-- The white space behind the statement. -/
  behind : Text
  /-- The chain without its brace. -/
  calls : Text
  later : Text
  text_eq : text = loose.indent ++ (loose.resource ++ (loose.statement ++ (loose.chain ++ later)))
  indent_blank : ∀ c ∈ loose.indent, isIndentChar c = true
  resource_eq : loose.resource = front ++ ['=']
  front_opens : ∃ blanks tail, front = "try".toList ++ (blanks ++ '(' :: tail) ∧
    ∀ c ∈ blanks, isWhiteSpace c = true
  front_signless : '=' ∉ front
  statement_eq : loose.statement = before ++ (core ++ behind)
  before_blank : ∀ c ∈ before, isWhiteSpace c = true
  behind_blank : ∀ c ∈ behind, isWhiteSpace c = true
  core_source : ∀ c ∈ core, LooseStatement.isSourceChar c = true
  core_call : '(' ∈ core
  chain_eq : loose.chain = calls ++ ['{']

/-- **Every header that is read has a layout.** -/
theorem nonempty_looseLayout {text : Text} {loose : LooseStatement}
    (read : LooseStatement.read? text = some loose) : Nonempty (LooseLayout loose text) := by
  obtain ⟨lead, calls, later, rfl, split, _, rfl⟩ := exists_lead_of_read? read
  refine ⟨⟨lead.head, lead.before, lead.core, lead.behind, '.' :: calls, later, ?_, lead.indent_blank, rfl,
    ⟨lead.pause, lead.declared, rfl, lead.pause_blank⟩, lead.sign_not_mem_head, rfl, lead.before_blank,
    lead.behind_blank, lead.isSourceChar_of_mem_core, List.mem_append_right _ (by decide), rfl⟩⟩
  rw [lead.text_eq_indent, split]
  simp only [List.append_assoc, List.cons_append, List.nil_append]

namespace LooseLayout

variable {loose : LooseStatement} {text : Text} (layout : LooseLayout loose text)

theorem trim_statement : trim loose.statement = layout.core := by
  rw [layout.statement_eq]
  refine trim_eq layout.before_blank layout.behind_blank (fun c first => ?_) (fun c last => ?_)
  · exact not_isWhiteSpace_of_isSourceChar (layout.core_source c (List.mem_of_mem_head? first))
  · exact not_isWhiteSpace_of_isSourceChar (layout.core_source c (List.mem_of_getLast? last))

include layout

theorem sealed_resource : Sealed loose.resource :=
  ⟨⟨layout.front, '=', layout.resource_eq, by decide, by decide, by decide⟩⟩

theorem sealed_chain : Sealed loose.chain :=
  ⟨⟨layout.calls, '{', layout.chain_eq, by decide, by decide, by decide⟩⟩

theorem mem_statement {c : Char} (mem : c ∈ loose.statement) :
    isWhiteSpace c = true ∨ LooseStatement.isSourceChar c = true := by
  rw [layout.statement_eq, List.mem_append, List.mem_append] at mem
  rcases mem with before | core | behind
  · exact .inl (layout.before_blank c before)
  · exact .inr (layout.core_source c core)
  · exact .inl (layout.behind_blank c behind)

theorem call_mem_statement : '(' ∈ loose.statement := by
  rw [layout.statement_eq]
  exact List.mem_append_right _ (List.mem_append_left _ layout.core_call)

/-- A statement does not begin with an equals sign. -/
theorem head?_statement (rest : Text) : (loose.statement ++ rest).head? ≠ some '=' := by
  intro first
  rw [List.head?_append_of_ne_nil _ (List.ne_nil_of_mem layout.call_mem_statement)] at first
  rcases layout.mem_statement (List.mem_of_mem_head? first) with white | source
  · exact absurd white (by decide)
  · exact absurd source (by decide)

/-- A statement is not `null`. -/
theorem not_null {rest statement more : Text}
    (same : loose.statement ++ rest = statement ++ ';' :: more) :
    trim statement ≠ "null".toList := by
  intro null
  have inside : '(' ∈ statement := by
    rcases List.append_eq_append_iff.mp same with ⟨extra, longer, _⟩ | ⟨extra, shorter, ended⟩
    · rw [longer]
      exact List.mem_append_left _ layout.call_mem_statement
    · cases extra with
      | nil =>
        rw [List.append_nil] at shorter
        exact shorter ▸ layout.call_mem_statement
      | cons c extra =>
        obtain ⟨rfl, _⟩ := List.cons.inj ended
        have mem : ';' ∈ loose.statement := shorter ▸ List.mem_append_right _ List.mem_cons_self
        rcases layout.mem_statement mem with white | source
        · exact absurd white (by decide)
        · exact absurd source (by decide)
  obtain ⟨first, last, cut, firstBlank, lastBlank, _⟩ := exists_trim statement
  rw [cut, null, List.mem_append, List.mem_append] at inside
  rcases inside with before | word | behind
  · exact absurd (firstBlank _ before) (by decide)
  · exact absurd word (by decide)
  · exact absurd (lastBlank _ behind) (by decide)

end LooseLayout

/-! ### Lines that declare nothing -/

/-- A tidy line that declares no handle. -/
structure Void (settings : Settings) (line : Text) : Prop where
  tidy : isTidyLine settings line = true
  names : ∀ kind, nameAt settings kind line = none

/-- A text whose lines declare no handle. -/
def Bare (settings : Settings) (text : Text) : Prop :=
  ∀ line ∈ linesFrom true text, Void settings line

section Bare

variable {settings : Settings}

theorem bare_of_names {text : Text} (tidy : Tidy settings text)
    (none : ∀ kind, namesFrom settings kind true text = []) : Bare settings text := by
  intro line mem
  exact ⟨tidy line mem, fun kind => List.filterMap_eq_nil_iff.mp (none kind) line mem⟩

theorem Kept.void {before line : Text} (kept : Kept settings before line) (void : Void settings before) :
    Void settings line :=
  ⟨kept.tidy, fun kind => (kept.names kind).trans (void.names kind)⟩

theorem Unread.void {line : Text} (unread : Unread settings line) : Void settings line :=
  ⟨unread.tidy, unread.nameAt⟩

theorem Retold.void {lines others : List Text} (retold : Retold settings lines others)
    (void : ∀ line ∈ lines, Void settings line) : ∀ line ∈ others, Void settings line := by
  intro line mem
  refine ⟨retold.tidy line mem, fun kind => ?_⟩
  have none : lines.filterMap (nameAt settings kind) = [] :=
    List.filterMap_eq_nil_iff.mpr fun line mem => (void line mem).names kind
  exact List.filterMap_eq_nil_iff.mp ((retold.names kind).trans none) line mem

variable (words : ∀ kind, Word (settings.typeOf kind))

include words

/-- A declaration of a void line is `null`. -/
theorem Void.eq_null {kind : HandleKind} {layout : Layout (settings.typeOf kind)} {statement later : Text}
    (void : Void settings layout.text) (ended : layout.rest = statement ++ ';' :: later)
    (single : layout.rest.head? ≠ some '=')
    (plain : Plain settings layout.front layout.name statement) :
    trim statement = "null".toList := by
  have named := nameAt_of_declaration (words kind) ended single plain.ends
  rw [void.names kind] at named
  refine plain.null ?_
  by_contra some
  rw [if_neg some] at named
  cases named

/-- **A line that declares nothing declares nothing before another block.** -/
theorem Void.exchange {piece behind : Text} (void : Void settings (piece ++ '{' :: behind))
    (other : Text) : Void settings (piece ++ '{' :: other) := by
  refine Kept.void (kept_of_layouts words (fun {kind} layout same => ?_)
    (fun {kind} layout same => ?_)) void
  · have whole : layout.text = piece ++ ([] ++ '{' :: other) := same
    obtain ⟨later, cut, _⟩ := layout.fits whole (by simp) (layout.not_mem_front (words kind) (by decide))
    exact ⟨layout.before (later ++ '{' :: behind), by rw [layout.text_before, cut, List.append_assoc]⟩
  · have fine := (isTidyLine_iff words).mp void.tidy kind layout same
    have whole : layout.text = piece ++ ([] ++ '{' :: behind) := same
    obtain ⟨later, rfl, rest⟩ :=
      layout.fits whole (by simp) (layout.not_mem_front (words kind) (by decide))
    cases fine with
    | comparison more double silent =>
      cases later with
      | nil => simp [double] at rest
      | cons c later =>
        obtain ⟨rfl, _⟩ := List.cons.inj (double.symm.trans rest)
        have text : (layout.before ('=' :: (later ++ '{' :: other))).text =
            layout.front ++ '=' :: later ++ '{' :: other := by
          rw [layout.text_before, List.append_assoc, List.cons_append]
        refine ⟨_, text, .comparison _ rfl silent, ?_⟩
        rw [← text, ← same, nameAt_of_comparison (words kind) rfl,
          nameAt_of_comparison (words kind) double]
    | declaration statement more ended single plain =>
      have null := Void.eq_null words (same ▸ void) ended single plain
      have outside : '{' ∉ statement := by
        obtain ⟨first, last, cut, firstBlank, lastBlank, _⟩ := exists_trim statement
        rw [cut, null, List.mem_append, List.mem_append, not_or, not_or]
        exact ⟨fun mem => absurd (firstBlank _ mem) (by decide), by decide,
          fun mem => absurd (lastBlank _ mem) (by decide)⟩
      obtain ⟨inner, rfl⟩ := statement_fits outside (by decide) (by simp) (ended.symm.trans rest)
      have text : (layout.before (statement ++ ';' :: (inner ++ '{' :: other))).text =
          layout.front ++ (statement ++ ';' :: inner) ++ '{' :: other := by
        rw [layout.text_before]
        simp only [List.append_assoc, List.cons_append]
      have stillSingle : (statement ++ ';' :: (inner ++ '{' :: other)).head? ≠ some '=' := by
        rw [head?_append_stop _ more, ← ended]
        exact single
      refine ⟨_, text, .declaration statement _ rfl stillSingle plain, ?_⟩
      rw [← text, ← same, nameAt_of_declaration (words kind) rfl stillSingle plain.ends,
        nameAt_of_declaration (words kind) ended single plain.ends]
      rfl

/-- **The line of a resource declares nothing behind its equals sign**, whatever comes there. -/
theorem unread_resource {loose : LooseStatement} {text front rest : Text}
    (layout : LooseLayout loose text) (signless : '=' ∉ front)
    (void : Void settings (front ++ '=' :: (loose.statement ++ rest))) (other : Text) :
    Unread settings (front ++ '=' :: other) := by
  intro kind
  cases read : Head.read? (settings.typeOf kind) (front ++ '=' :: other) with
  | none => rfl
  | some head =>
    exfalso
    obtain ⟨head, same, _⟩ := Layout.exists_of_read? read
    obtain ⟨rfl, _⟩ := head.stem_eq_of_sign (words kind) same signless
    have before : (head.before (loose.statement ++ rest)).text =
        head.stem ++ '=' :: (loose.statement ++ rest) := by
      rw [head.text_before, head.front_eq, List.append_assoc, List.singleton_append]
    have fine := (isTidyLine_iff words).mp void.tidy kind _ before
    cases fine with
    | comparison later double silent =>
      refine layout.head?_statement rest ?_
      rw [show loose.statement ++ rest = _ from double]
      rfl
    | declaration statement later ended single plain =>
      exact layout.not_null ended (Void.eq_null words (before ▸ void) ended single plain)

end Bare

/-! ### A header in its text -/

/-- A header with a loose statement that is found in a text. -/
structure LooseSite (content : Text) (found : Occurrence LooseStatement) where
  /-- The lines before it. -/
  above : Text
  text : Text
  layout : LooseLayout found.value text
  content_eq : content = above ++ text
  begins : endsLine true above = true
  place_eq : found.place = above.length

theorem exists_looseSite {place : Nat} {content : Text} {found : Occurrence LooseStatement}
    (next : firstHit LooseStatement.probe place none content = some found) :
    ∃ site : LooseSite content found, LooseStatement.read? site.text = some found.value := by
  rw [firstHit_eq_head?] at next
  obtain ⟨above, text, _, whole, here, _, seen⟩ := exists_of_mem_allHits (List.mem_of_mem_head? next)
  unfold LooseStatement.probe at seen
  split_ifs at seen with begins
  split at seen
  · cases seen
  · next loose read =>
    obtain ⟨same, _⟩ := Probe.hit.inj seen
    rw [same] at read
    obtain ⟨layout⟩ := nonempty_looseLayout read
    exact ⟨⟨above, text, layout, whole, (endsLine_eq none above).trans begins, by
      rw [here, Nat.zero_add]⟩, read⟩

theorem nonempty_looseSite {place : Nat} {content : Text} {found : Occurrence LooseStatement}
    (next : firstHit LooseStatement.probe place none content = some found) :
    Nonempty (LooseSite content found) := by
  obtain ⟨site, _⟩ := exists_looseSite next
  exact ⟨site⟩

namespace LooseSite

variable {content : Text} {found : Occurrence LooseStatement} (site : LooseSite content found)

theorem content_parts : content = site.above ++ (found.value.indent ++ (found.value.resource ++
    (found.value.statement ++ (found.value.chain ++ site.layout.later)))) :=
  site.content_eq.trans (congrArg _ site.layout.text_eq)

theorem drop_stop : content.drop (found.place + found.value.length) = site.layout.later := by
  have split : content = (site.above ++ found.value.indent ++ found.value.resource
      ++ found.value.statement ++ found.value.chain) ++ site.layout.later := by
    refine site.content_parts.trans ?_
    simp only [List.append_assoc]
  have length : found.place + found.value.length = (site.above ++ found.value.indent
      ++ found.value.resource ++ found.value.statement ++ found.value.chain).length := by
    simp only [site.place_eq, LooseStatement.length, List.length_append]
    omega
  rw [length]
  exact (congrArg _ split).trans List.drop_left

theorem take_start : content.take (found.place + found.value.indent.length) =
    site.above ++ found.value.indent := by
  have split : content = (site.above ++ found.value.indent) ++ (found.value.resource ++
      (found.value.statement ++ (found.value.chain ++ site.layout.later))) := by
    refine site.content_parts.trans ?_
    simp only [List.append_assoc]
  rw [site.place_eq, ← List.length_append]
  exact (congrArg _ split).trans List.take_left

/-- What is put before the resource of a header that is mended. -/
def opening (_ : LooseSite content found) (name : Text) : Text :=
  "try (var ".toList ++ (name ++ (" = ".toList ++ (trim found.value.statement ++ ") \x7b ".toList)))

/-- The scope of a mended header, and the text with the header, in parts. -/
theorem mended_parts {repair later : Repair} (site : LooseSite repair.content found)
    (done : repair.mend found = .ok later) :
    ∃ name inner rest, scope site.layout.later = .ok inner ∧
      repair.names.nextStatement = some (name, later.names) ∧
      site.layout.later = inner ++ '}' :: rest ∧
      later.content = site.above ++ ((found.value.indent ++ site.opening name) ++
        (found.value.resource ++ ((' ' :: name) ++ (found.value.chain ++ (trimEnd inner ++
          ('\n' :: found.value.indent ++ '}' :: (trailingBlanks inner ++ '}' :: rest))))))) := by
  obtain ⟨inner, name, names, cut, next, rfl⟩ := Repair.mend_eq_ok done
  rw [site.drop_stop] at cut
  obtain ⟨rest, whole, _⟩ := eq_of_scopeFrom_eq_ok cut
  have after : repair.content.drop (found.place + found.value.length + inner.length) = '}' :: rest := by
    rw [← List.drop_drop, site.drop_stop, whole, List.drop_left]
  have text := mended_append found.value (site.above ++ found.value.indent) name inner ('}' :: rest)
  rw [← site.take_start, ← after] at text
  refine ⟨name, inner, rest, cut, next, whole, text.trans ?_⟩
  rw [site.take_start, after]
  unfold opening
  generalize "try (var ".toList = first, " = ".toList = second, ") \x7b ".toList = third
  simp only [List.append_assoc, List.cons_append]

/-- The text with a mended header, in parts. -/
theorem mended_eq {repair later : Repair} (site : LooseSite repair.content found)
    (done : repair.mend found = .ok later) :
    ∃ name inner rest, repair.names.nextStatement = some (name, later.names) ∧
      site.layout.later = inner ++ '}' :: rest ∧
      later.content = site.above ++ ((found.value.indent ++ site.opening name) ++
        (found.value.resource ++ ((' ' :: name) ++ (found.value.chain ++ (trimEnd inner ++
          ('\n' :: found.value.indent ++ '}' :: (trailingBlanks inner ++ '}' :: rest))))))) := by
  obtain ⟨name, inner, rest, _, parts⟩ := site.mended_parts done
  exact ⟨name, inner, rest, parts⟩

theorem opening_nonempty (name : Text) : found.value.indent ++ site.opening name ≠ [] := by
  unfold opening
  intro empty
  have first := (List.append_eq_nil_iff.mp (List.append_eq_nil_iff.mp empty).2).1
  exact absurd first (by decide)

theorem newline_not_mem_opening {name : Text} (isWord : Word name) :
    '\n' ∉ found.value.indent ++ site.opening name := by
  have core : '\n' ∉ site.layout.core := by
    intro mem
    have white := not_isWhiteSpace_of_isSourceChar (site.layout.core_source _ mem)
    exact absurd white (by decide)
  intro mem
  unfold opening at mem
  rw [site.layout.trim_statement] at mem
  rcases List.mem_append.mp mem with indent | mem
  · exact absurd (site.layout.indent_blank _ indent) (by decide)
  rcases List.mem_append.mp mem with first | mem
  · exact absurd first (by decide)
  rcases List.mem_append.mp mem with inName | mem
  · exact isWord.newline_not_mem inName
  rcases List.mem_append.mp mem with sign | mem
  · exact absurd sign (by decide)
  rcases List.mem_append.mp mem with inCore | last
  · exact core inCore
  · exact absurd last (by decide)

/-- The line of a header begins with `try`. -/
theorem leads_text (settings : Settings) : settings.leads (firstWord site.text) = true := by
  obtain ⟨blanks, tail, front, blank⟩ := site.layout.front_opens
  have stops : ∀ later : Text, ∀ c ∈ (blanks ++ '(' :: later).head?, isDottedChar c = false := by
    intro later c first
    cases blanks with
    | nil =>
      obtain rfl : '(' = c := Option.some.inj first
      decide
    | cons d blanks =>
      obtain rfl : d = c := Option.some.inj first
      exact not_isDottedChar_of_isWhiteSpace (blank d List.mem_cons_self)
  have split : site.text = found.value.indent ++ ("try".toList ++ (blanks ++ '(' ::
      (tail ++ ('=' :: (found.value.statement ++ (found.value.chain ++ site.layout.later)))))) := by
    refine site.layout.text_eq.trans ?_
    rw [site.layout.resource_eq, front]
    generalize "try".toList = word
    simp only [List.append_assoc, List.cons_append, List.nil_append]
  rw [split, firstWord_eq site.layout.indent_blank (List.all_eq_true.mp (by decide)) (stops _)
    (fun empty => absurd empty (by decide))]
  simp [Settings.leads]

/-- What is put before a resource begins with `try (`. -/
theorem exists_stop (name later : Text) :
    ∃ between behind, found.value.indent ++ site.opening name ++ later = between ++ '(' :: behind ∧
      '=' ∉ between := by
  refine ⟨found.value.indent ++ "try ".toList, "var ".toList ++ (name ++ (" = ".toList ++
    (trim found.value.statement ++ ") \x7b ".toList))) ++ later, ?_, ?_⟩
  · unfold opening
    have first : "try (var ".toList = "try ".toList ++ '(' :: "var ".toList := by decide
    rw [first]
    generalize "try ".toList = word, "var ".toList = kind, " = ".toList = sign,
      ") \x7b ".toList = brace
    simp only [List.append_assoc, List.cons_append]
  · intro sign
    rcases List.mem_append.mp sign with inIndent | inTry
    · exact absurd (site.layout.indent_blank _ inIndent) (by decide)
    · exact absurd inTry (by decide)

end LooseSite

/-! ### Mending keeps a text bare -/

theorem Renamed.refl (old new : Text) {allowed : Text → Prop} {last : Option Char} (text : Text) :
    Renamed old new allowed last text text := by
  induction text generalizing last with
  | nil => exact .done
  | cons c rest ih => exact .keep ih

theorem Names.nextStatement_eq_some {names later : Names} {name : Text}
    (next : names.nextStatement = some (name, later)) :
    ∃ statements, names.statements.allocate = some (name, statements) ∧
      later = { names with statements } := by
  obtain ⟨⟨issued, statements⟩, allocated, pair⟩ := Option.map_eq_some_iff.mp next
  obtain ⟨rfl, rfl⟩ := Prod.mk.inj pair
  exact ⟨statements, allocated, rfl⟩

theorem Names.Wordy.of_nextStatement {names later : Names} {name : Text} (wordy : names.Wordy)
    (next : names.nextStatement = some (name, later)) : later.Wordy := by
  obtain ⟨statements, allocated, rfl⟩ := Names.nextStatement_eq_some next
  refine ⟨wordy.handles, ?_⟩
  show ∀ c ∈ statements.stem, isWordChar c = true
  rw [Counter.stem_of_allocate allocated]
  exact wordy.statements

namespace LooseSite

variable {content : Text} {found : Occurrence LooseStatement} (site : LooseSite content found)
  {settings : Settings} (words : ∀ kind, Word (settings.typeOf kind)) (bare : Bare settings content)

include site words bare

/-- Nothing is read in the lines of the resource, whatever comes behind it. -/
theorem unread_of_mem_resource {piece : Text} (mem : piece ∈ linesFrom false found.value.resource)
    (other : Text) : Unread settings (piece ++ other) := by
  have inside : piece ++ (found.value.statement ++ (found.value.chain ++ site.layout.later)) ∈
      linesFrom true content := by
    have split := site.content_parts
    rw [← List.append_assoc] at split
    exact mem_linesFrom_inside split mem
  rw [site.layout.resource_eq] at mem
  obtain ⟨before, init, front, rfl⟩ := exists_init_of_mem_linesFrom mem
  have signless : '=' ∉ init := by
    intro sign
    refine site.layout.front_signless ?_
    rw [front]
    exact List.mem_append_right _ sign
  have void := bare _ inside
  rw [List.append_assoc, List.singleton_append] at void ⊢
  exact unread_resource words site.layout signless void other

/-- The lines of the chain declare nothing, whatever comes behind it. -/
theorem void_of_mem_chain {piece : Text} (mem : piece ∈ linesFrom false found.value.chain)
    (other : Text) : Void settings (piece ++ other) := by
  have inside : piece ++ site.layout.later ∈ linesFrom true content := by
    have split : content = (site.above ++ (found.value.indent ++ (found.value.resource ++
        found.value.statement))) ++ (found.value.chain ++ site.layout.later) := by
      refine site.content_parts.trans ?_
      simp only [List.append_assoc]
    exact mem_linesFrom_inside split mem
  rw [site.layout.chain_eq] at mem
  obtain ⟨_, init, _, rfl⟩ := exists_init_of_mem_linesFrom mem
  have void := bare _ inside
  rw [List.append_assoc, List.singleton_append] at void ⊢
  exact void.exchange words other

/-- The lines before the header declare nothing, whatever header takes its place. -/
theorem void_of_mem_above {between behind line : Text} (signless : '=' ∉ between)
    (mem : line ∈ (linesFrom true site.above).map (· ++ (between ++ '(' :: behind))) :
    Void settings line := by
  have inside : ∀ line ∈ (linesFrom true site.above).map (· ++ site.text),
      line ∈ linesFrom true content := by
    intro line mem
    have lines : linesFrom true content = (linesFrom true site.above).map (· ++ site.text) ++ _ :=
      (congrArg _ site.content_eq).trans (linesFrom_append true site.above site.text)
    rw [lines]
    exact List.mem_append_left _ mem
  have retold : Retold settings ((linesFrom true site.above).map (· ++ site.text))
      ((linesFrom true site.above).map (· ++ (between ++ '(' :: behind))) :=
    retold_before words (fun line mem => (bare line (inside line mem)).tidy) site.begins
      (site.leads_text settings) signless (by decide)
  exact retold.void (fun line mem => bare line (inside line mem)) line mem

/-- The lines of the block declare nothing when it is closed anew. The block is renamed to itself. -/
theorem void_of_mem_block {name inner rest line : Text} (whole : site.layout.later = inner ++ '}' :: rest)
    (fresh : Neutral settings name)
    (mem : line ∈ linesFrom false (trimEnd inner ++ ('\n' :: found.value.indent ++
      '}' :: (trailingBlanks inner ++ '}' :: rest)))) : Void settings line := by
  have split : content = (site.above ++ (found.value.indent ++ (found.value.resource ++
      (found.value.statement ++ found.value.chain)))) ++
        (trimEnd inner ++ (trailingBlanks inner ++ '}' :: rest)) := by
    refine site.content_parts.trans ?_
    rw [whole, ← List.append_assoc (trimEnd inner), trimEnd_append_trailingBlanks]
    simp only [List.append_assoc]
  have inside : ∀ line ∈ linesFrom false (trimEnd inner ++ (trailingBlanks inner ++ '}' :: rest)),
      Void settings line := by
    intro line mem
    refine bare line ?_
    rw [split]
    exact mem_linesFrom_behind (mem_linesFrom_of_false mem)
  have blank : ∀ c ∈ '\n' :: found.value.indent, isWhiteSpace c = true := by
    intro c mem
    rcases List.mem_cons.mp mem with rfl | inIndent
    · decide
    · exact isWhiteSpace_of_isIndentChar (site.layout.indent_blank c inIndent)
  have same : Renamed name name Unassigned none (trimEnd inner) (trimEnd inner) := .refl _ _ _
  have retold := retold_block words fresh fresh same isWhiteSpace_of_mem_trailingBlanks blank
    fun line mem => (inside line mem).tidy
  exact retold.void inside line mem

end LooseSite

section Mend

variable {settings : Settings} (valid : settings.validate = .ok ()) (apart : settings.Apart)

include valid apart

/-- **A mended header leaves a bare text bare.** -/
theorem bare_mend {repair later : Repair} {found : Occurrence LooseStatement}
    (site : LooseSite repair.content found) (bare : Bare settings repair.content)
    (wordy : repair.names.Wordy) (done : repair.mend found = .ok later) :
    Bare settings later.content ∧ later.names.Wordy := by
  have words := Settings.word_typeOf valid
  obtain ⟨name, inner, rest, next, whole, text⟩ := site.mended_eq done
  obtain ⟨_, allocated, _⟩ := Names.nextStatement_eq_some next
  have fresh := neutral_of_allocate valid apart wordy.statements allocated
  refine ⟨?_, wordy.of_nextStatement next⟩
  intro line mem
  rw [text, linesFrom_append, site.begins] at mem
  obtain ⟨between, behind, same, signless⟩ := site.exists_stop name (found.value.resource ++
    ((' ' :: name) ++ (found.value.chain ++ (trimEnd inner ++ ('\n' :: found.value.indent ++
      '}' :: (trailingBlanks inner ++ '}' :: rest))))))
  have named : '\n' ∉ ' ' :: name := by
    rw [List.mem_cons, not_or]
    exact ⟨by decide, fresh.isWord.newline_not_mem⟩
  rcases List.mem_append.mp mem with inAbove | mem
  · rw [same] at inAbove
    exact site.void_of_mem_above words bare signless inAbove
  rcases cases_of_mem_single (site.opening_nonempty name)
    (site.newline_not_mem_opening fresh.isWord) mem with ⟨_, rfl⟩ | mem
  · rw [same]
    exact (unread_of_stop words signless (by decide)).void
  rcases site.layout.sealed_resource.cases_of_mem mem with ⟨piece, inResource, rfl⟩ | mem
  · exact (site.unread_of_mem_resource words bare inResource _).void
  rcases cases_of_mem_single (by simp) named mem with ⟨inside, _⟩ | mem
  · cases inside
  rcases site.layout.sealed_chain.cases_of_mem mem with ⟨piece, inChain, rfl⟩ | mem
  · exact site.void_of_mem_chain words bare inChain _
  exact site.void_of_mem_block words bare whole fresh mem

/-- **Mending leaves a bare text bare.** -/
theorem bare_run {repair : Repair} (bare : Bare settings repair.content) (wordy : repair.names.Wordy)
    (count place : Nat) : Bare settings (repair.run count place).content := by
  have kept := Repair.invariant_run
    (fun later => Bare settings later.content ∧ later.names.Wordy)
    (fun next made both => by
      obtain ⟨site⟩ := nonempty_looseSite next
      exact bare_mend valid apart site both.1 both.2 made)
    (fun _ both => both) ⟨bare, wordy⟩ count place
  exact kept.1

end Mend

end ScopedHandles
