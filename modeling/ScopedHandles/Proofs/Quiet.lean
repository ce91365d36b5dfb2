/-
**Quiet texts.**

A line that declares a handle begins with a word that `leads`: the modifier or a type. So does the line of
a block that is put in. A text is `quiet` if no line that begins inside of it begins with such a word.

* `quiet_infix`, `quiet_append` — quiet pieces and quiet texts.
* `leads_of_layout` — a line that declares a handle begins with a word that leads.
* `Renamed.quiet_eq` — renaming keeps a text quiet.
-/

import ScopedHandles.Proofs.Lines

namespace ScopedHandles

/-- Whether a word begins a line that declares a handle, or a block. -/
def Settings.leads (settings : Settings) (word : Text) : Bool :=
  word == "final".toList || word == "try".toList || (settings.typeOf .cursor).isSuffixOf word
    || (settings.typeOf .query).isSuffixOf word

/-- Whether no line that begins inside of a text begins with a word that leads. -/
def quiet (settings : Settings) (text : Text) : Bool :=
  (linesFrom false text).all fun line => !settings.leads (firstWord line)

theorem quiet_iff {settings : Settings} {text : Text} :
    quiet settings text = true ↔
      ∀ line ∈ linesFrom false text, settings.leads (firstWord line) = false := by
  rw [quiet, List.all_eq_true]
  refine forall₂_congr fun line _ => ?_
  rw [Bool.not_eq_true']

section Leads

variable {settings : Settings}

theorem Settings.leads_eq_false_iff {word : Text} :
    settings.leads word = false ↔ word ≠ "final".toList ∧ word ≠ "try".toList ∧
      ∀ kind, ¬ settings.typeOf kind <:+ word := by
  have kinds : (∀ kind, ¬ settings.typeOf kind <:+ word) ↔
      ¬ settings.typeOf .cursor <:+ word ∧ ¬ settings.typeOf .query <:+ word := by
    constructor
    · intro all
      exact ⟨all .cursor, all .query⟩
    · rintro ⟨cursor, query⟩ (_ | _)
      · exact cursor
      · exact query
  rw [kinds]
  simp [Settings.leads, ← List.isSuffixOf_iff_suffix, and_assoc]

theorem quiet_of_no_newline {text : Text} (single : '\n' ∉ text) : quiet settings text = true := by
  rw [quiet, linesFrom_false_of_no_newline single, List.all_nil]

/-- A text without line breaks stands before a quiet one. -/
theorem quiet_append_of_single {text later : Text} (single : '\n' ∉ text)
    (silent : quiet settings later = true) : quiet settings (text ++ later) = true := by
  rw [quiet_iff] at silent ⊢
  rw [linesFrom_append, linesFrom_false_of_no_newline single, endsLine_of_no_newline single]
  exact silent

/-- The lines of a quiet piece stay silent before any text. -/
theorem Sealed.silent {piece later line : Text} (isSealed : Sealed piece)
    (silent : quiet settings piece = true) (mem : line ∈ linesFrom false piece) :
    settings.leads (firstWord (line ++ later)) = false := by
  have here := quiet_iff.mp silent line mem
  obtain ⟨_, front, stop, rfl, dot, indent⟩ := isSealed.exists_last mem
  rw [firstWord_append_stop dot indent] at here
  rw [List.append_assoc, List.singleton_append, firstWord_append_stop dot indent, here]

theorem Sealed.quiet_left {piece later : Text} (isSealed : Sealed piece)
    (whole : quiet settings (piece ++ later) = true) : quiet settings piece = true := by
  rw [quiet_iff] at whole ⊢
  intro line mem
  have here := whole (line ++ later) (by
    rw [linesFrom_append]
    exact List.mem_append_left _ (List.mem_map.mpr ⟨line, mem, rfl⟩))
  obtain ⟨some, front, stop, rfl, dot, indent⟩ := isSealed.exists_last mem
  rw [List.append_assoc, List.singleton_append, firstWord_append_stop dot indent] at here
  rw [firstWord_append_stop dot indent, here]

variable (words : ∀ kind, Word (settings.typeOf kind))

include words

theorem leads_nil : settings.leads [] = false := by
  rw [Settings.leads_eq_false_iff]
  refine ⟨by decide, by decide, fun kind final => ?_⟩
  exact (words kind).nonempty (List.suffix_nil.mp final)

/-- What stands before a character that belongs to no word does not lead. -/
theorem suffix_append_iff {kind : HandleKind} {c : Char} (edge : isWordChar c = false)
    (word rest : Text) :
    settings.typeOf kind <:+ word ++ c :: rest ↔ settings.typeOf kind <:+ rest := by
  have outside : c ∉ settings.typeOf kind := by
    intro mem
    rw [(words kind).chars c mem] at edge
    exact Bool.noConfusion edge
  constructor
  · intro final
    rcases List.suffix_or_suffix_of_suffix final (List.suffix_append word (c :: rest)) with
      inside | beyond
    · rcases List.suffix_cons_iff.mp inside with same | inner
      · exact absurd (same ▸ List.mem_cons_self) outside
      · exact inner
    · exact absurd (beyond.mem List.mem_cons_self) outside
  · intro final
    exact final.trans ((List.suffix_cons c rest).trans (List.suffix_append word _))

theorem leads_append_eq {c : Char} (edge : isWordChar c = false) (word other rest : Text) :
    settings.leads (word ++ c :: rest) = settings.leads (other ++ c :: rest) := by
  have named : ∀ {text : Text} (first : Text), (∀ d ∈ text, isWordChar d = true) →
      first ++ c :: rest ≠ text := by
    rintro text first all rfl
    rw [all c (List.mem_append_right _ List.mem_cons_self)] at edge
    exact Bool.noConfusion edge
  have final : ∀ d ∈ "final".toList, isWordChar d = true := List.all_eq_true.mp (by decide +kernel)
  have block : ∀ d ∈ "try".toList, isWordChar d = true := List.all_eq_true.mp (by decide +kernel)
  have same : settings.leads (word ++ c :: rest) = false ↔
      settings.leads (other ++ c :: rest) = false := by
    simp only [Settings.leads_eq_false_iff, suffix_append_iff words edge, ne_eq,
      named word final, named other final, named word block, named other block]
  cases left : settings.leads (word ++ c :: rest) with
  | false => rw [same.mp left]
  | true =>
    cases right : settings.leads (other ++ c :: rest) with
    | true => rfl
    | false =>
      rw [same.mpr right] at left
      exact Bool.noConfusion left

/-! ### Quiet pieces and quiet texts -/

theorem leads_firstWord_blank {line : Text} (blank : ∀ c ∈ line, isIndentChar c = true) :
    settings.leads (firstWord line) = false := by
  have none : firstWord (line ++ ([] ++ [])) = [] :=
    firstWord_eq blank (by simp) (by simp) (by simp)
  rw [List.append_nil, List.append_nil] at none
  rw [none]
  exact leads_nil words

/-- **A piece of a quiet text is quiet**, if no dotted name goes on behind it. -/
theorem quiet_infix {before piece behind : Text}
    (whole : quiet settings (before ++ (piece ++ behind)) = true)
    (stop : ∀ c ∈ behind.head?, isDottedChar c = false) : quiet settings piece = true := by
  rw [quiet_iff] at whole ⊢
  intro line mem
  by_cases blank : ∀ c ∈ line, isIndentChar c = true
  · exact leads_firstWord_blank words blank
  · have solid : ∃ c ∈ line, isIndentChar c = false := by simpa using blank
    rw [← firstWord_append stop (.inl solid)]
    refine whole _ ?_
    rw [linesFrom_append, linesFrom_append]
    refine List.mem_append_right _ (List.mem_append_left _ ?_)
    exact List.mem_map.mpr ⟨line, mem_linesFrom_of_false mem, rfl⟩

/-- **Two quiet pieces are a quiet text**, if a first word neither goes on from one to the other nor
begins between them. -/
theorem quiet_append {text later : Text} (first : quiet settings text = true)
    (second : quiet settings later = true) (stop : ∀ c ∈ later.head?, isDottedChar c = false)
    (solid : (∀ c ∈ text.getLast?, isWhiteSpace c = false) ∨
      ∀ c ∈ later.head?, isIndentChar c = false) : quiet settings (text ++ later) = true := by
  rw [quiet_iff] at first second ⊢
  intro line mem
  rw [linesFrom_append, List.mem_append] at mem
  rcases mem with inFirst | inSecond
  · obtain ⟨piece, mem, rfl⟩ := List.mem_map.mp inFirst
    rw [firstWord_append stop]
    · exact first piece mem
    · rcases solid with solid | solid
      · obtain ⟨some, before, rfl, _⟩ := exists_of_mem_linesFrom mem
        refine .inl ⟨piece.getLast some, List.getLast_mem some, ?_⟩
        have white := solid (piece.getLast some) (by
          rw [List.getLast?_append_of_ne_nil _ some, List.getLast?_eq_some_getLast some]
          rfl)
        by_contra indent
        rw [isWhiteSpace_of_isIndentChar (Bool.not_eq_false _ ▸ indent)] at white
        exact Bool.noConfusion white
      · exact .inr solid
  · cases ends : endsLine false text with
    | false =>
      rw [ends] at inSecond
      exact second line inSecond
    | true =>
      rw [ends] at inSecond
      rcases solid with solid | solid
      · exfalso
        have newline := endsLine_eq (some ' ') text
        rw [show beginsLine (some ' ') = false from rfl, ends] at newline
        cases last : text.getLast? with
        | none => simp [last, beginsLine] at newline
        | some c =>
          have white := solid c last
          rw [last, Option.some_or, beginsLine, eq_comm, beq_iff_eq] at newline
          rw [newline] at white
          exact absurd white (by decide)
      · cases later with
        | nil => simp [linesFrom] at inSecond
        | cons c rest =>
          rcases List.mem_cons.mp inSecond with rfl | inner
          · have none : firstWord ([] ++ ([] ++ c :: rest)) = [] :=
              firstWord_eq (by simp) (by simp) stop fun _ => solid
            rw [List.nil_append, List.nil_append] at none
            rw [none]
            exact leads_nil words
          · exact second line inner

/-! ### Heads lead -/

/-- A line that is laid out as a head begins with a word that leads. -/
theorem leads_of_layout {kind : HandleKind} (layout : Layout (settings.typeOf kind)) :
    settings.leads (firstWord layout.text) = true := by
  by_contra silent
  obtain ⟨unmarked, _, untyped⟩ := Settings.leads_eq_false_iff.mp (Bool.not_eq_true _ ▸ silent)
  rcases layout.mark_final with none | ⟨blanks, mark, some, blank⟩
  · have word : firstWord layout.text = layout.core := by
      rw [Layout.text, Layout.line, none, List.nil_append]
      exact firstWord_eq layout.indent_blank (layout.isDottedChar_of_mem_core (words kind))
        layout.not_isDottedChar_head_behindType fun empty =>
          absurd empty (layout.core_nonempty (words kind))
    obtain ⟨run, core, _⟩ := layout.core_dotted
    exact untyped kind (by rw [word, core]; exact List.suffix_append run _)
  · have word : firstWord layout.text = "final".toList := by
      rw [Layout.text, Layout.line, mark, List.append_assoc, List.append_assoc]
      refine firstWord_eq layout.indent_blank (List.all_eq_true.mp (by decide)) ?_ fun empty =>
        absurd empty (by decide)
      intro c first
      rw [List.head?_append_of_ne_nil _ some] at first
      exact not_isDottedChar_of_isWhiteSpace (blank c (List.mem_of_mem_head? first))
    exact unmarked word

/-- A line that begins with another word is no head. -/
theorem read?_eq_none {line : Text} (silent : settings.leads (firstWord line) = false)
    (kind : HandleKind) : Head.read? (settings.typeOf kind) line = none := by
  cases read : Head.read? (settings.typeOf kind) line with
  | none => rfl
  | some head =>
    obtain ⟨layout, rfl, _⟩ := Layout.exists_of_read? read
    rw [leads_of_layout words layout] at silent
    exact Bool.noConfusion silent

end Leads

/-! ### Renamed texts -/

namespace Renamed

variable {old new : Text} {allowed : Text → Prop} {last : Option Char} {text result : Text}

variable {settings : Settings} (words : ∀ kind, Word (settings.typeOf kind))

include words

/-- Renaming does not change whether a line begins with a word that leads. -/
theorem leads_eq (oldWord : Word old) (newWord : Word new) (oldFree : settings.leads old = false)
    (newFree : settings.leads new = false) (renamed : Renamed old new allowed last text result) :
    settings.leads (firstWord result) = settings.leads (firstWord text) := by
  rcases renamed.firstWord_cases oldWord newWord with same | ⟨rest, inText, inResult, follow⟩
  · rw [same]
  · rw [inText, inResult]
    cases rest with
    | nil => rw [List.append_nil, List.append_nil, oldFree, newFree]
    | cons c rest => exact leads_append_eq words (not_isWordChar_of_mayFollow follow) new old rest

/-- **Renaming keeps a text quiet.** -/
theorem quiet_eq (oldWord : Word old) (newWord : Word new) (oldFree : settings.leads old = false)
    (newFree : settings.leads new = false) (renamed : Renamed old new allowed last text result) :
    quiet settings result = quiet settings text := by
  have lines := renamed.lines oldWord newWord false
  unfold quiet
  generalize linesFrom false text = before at lines ⊢
  generalize linesFrom false result = behind at lines ⊢
  induction lines with
  | nil => rfl
  | cons one _ ih =>
    obtain ⟨last, line⟩ := one
    rw [List.all_cons, List.all_cons, line.leads_eq words oldWord newWord oldFree newFree, ih]

end Renamed

end ScopedHandles
