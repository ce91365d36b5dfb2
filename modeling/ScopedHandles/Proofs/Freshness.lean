/-
**The names of handles are fresh and consecutive.**

The numbers in use are looked up once, in the text as it was. While handles are enclosed the text
changes: names are exchanged, comment lines are dropped, calls are laid out anew. None of this makes an
identifier, so an identifier of the text at any moment is one of the text as it was, or the `try` of a
block that was put in, or a name that was issued before. The next number is behind all of them.

* `Pass.Numbered` — what holds of a pass before each of its turns.
* `Pass.Numbered.fresh` — the name that a turn issues.
* `Pass.Numbered.after` — one turn.
* `handles_fresh_and_consecutive` — both passes of a run.
-/

import ScopedHandles.Proofs.Apart
import ScopedHandles.Proofs.BlockStructure
import ScopedHandles.Proofs.HandleSite
import ScopedHandles.Proofs.Numbering
import ScopedHandles.Proofs.Outcome

namespace ScopedHandles

/-! ### Stems -/

section Stems

variable {settings : Settings} (valid : settings.validate = .ok ())

include valid

theorem Settings.isIdentChar_handleStem : ∀ c ∈ settings.handleStem.toList, isIdentChar c = true :=
  isIdentChar_of_isPlainIdentifier (Settings.plain_of_validate valid (.handleStem, settings.handleStem)
    (by simp [Settings.identifiers]))

theorem Settings.isIdentChar_statementStem :
    ∀ c ∈ settings.statementStem.toList, isIdentChar c = true :=
  isIdentChar_of_isPlainIdentifier (Settings.plain_of_validate valid
    (.statementStem, settings.statementStem) (by simp [Settings.identifiers]))

end Stems

/-! ### The names that are issued -/

/-- The name that a step issues. -/
def Step.symbol? : Step → Option Text
  | enclosed _ _ _ symbol _ => some symbol
  | skipped _ _ _ _ => none

/-- The names that a pass and those before it have issued, in their order. -/
def Pass.symbols (pass : Pass) : List Text :=
  pass.steps.filterMap Step.symbol?

theorem Turn.symbols_after (turn : Turn) (source : Text) :
    (turn.after source).symbols = turn.before.symbols ++ (turn.step source).symbol?.toList := by
  rw [Pass.symbols, Turn.steps_after, List.filterMap_append]
  rfl

/-- A pass behind `base` enclosures of the passes before it, in a run that starts with `source`, where
`highest` is the largest number in use there. -/
structure Pass.Numbered (stem source : Text) (highest base : Nat) (pass : Pass) : Prop where
  most : Counter.Highest stem source highest
  handles_eq : pass.names.handles = { stem, next := Counter.after (highest + (base + pass.enclosed)) }
  symbols_eq : pass.symbols = Counter.issued stem highest (base + pass.enclosed)
  known : ∀ name ∈ identifiers pass.content,
    name ∈ identifiers source ∨ name = "try".toList ∨ name ∈ pass.symbols

namespace Pass.Numbered

variable {stem source : Text} {highest base : Nat}

section Turn

variable {turn : Turn} (numbered : turn.before.Numbered stem source highest base)
  {enclosure : Enclosure} {names : Names} (done : turn.result = .ok (enclosure, names))

include numbered done

/-- The number of the next name. -/
theorem symbol_eq :
    enclosure.symbol = stem ++ Nat.toDigits 10 (highest + (base + turn.before.enclosed + 1)) ∧
      highest + (base + turn.before.enclosed + 1) ≤ Counter.limit ∧
      names.handles = { stem, next := Counter.after (highest + (base + turn.before.enclosed + 1)) } := by
  obtain ⟨_, _, _, _, _, next, _⟩ := enclose_eq_ok done
  obtain ⟨handles, allocated, rfl⟩ := Names.nextHandle_eq_some next
  rw [numbered.handles_eq] at allocated
  obtain ⟨left, symbol, later⟩ := Counter.allocate_eq_some allocated
  exact ⟨symbol, left, later⟩

/-- **The name that a turn issues** is no identifier of the text, and was not issued before. It ends in a
digit, so it is not `try` either. -/
theorem fresh :
    enclosure.symbol ∉ identifiers turn.before.content ∧ enclosure.symbol ∉ turn.before.symbols := by
  obtain ⟨symbol, bound, _⟩ := numbered.symbol_eq done
  have unissued : enclosure.symbol ∉ turn.before.symbols := by
    rw [numbered.symbols_eq, symbol]
    intro mem
    obtain ⟨k, inRange, same⟩ := List.mem_map.mp mem
    have numbers := Counter.append_toDigits_inj.mp same
    have less := List.mem_range.mp inRange
    omega
  refine ⟨fun mem => ?_, unissued⟩
  rcases numbered.known _ mem with inSource | isTry | wasIssued
  · rw [symbol] at inSource
    exact Counter.not_mem_identifiers numbered.most (by omega) bound inSource
  · have last := congrArg List.getLast? (symbol.symm.trans isTry)
    rw [List.getLast?_append_of_ne_nil _ Nat.toDigits_ne_nil] at last
    have digit := Counter.isDigit_of_mem_toDigits _ (List.mem_of_getLast? last)
    exact absurd digit (by decide)
  · exact unissued wasIssued

/-- **What a turn adds to the identifiers of the text** is the keyword and the name. -/
theorem known_splice {kind : HandleKind} {ending : Text} (chars : ∀ c ∈ stem, isIdentChar c = true)
    (next : nextDeclaration kind ending turn.before.content turn.before.place = some turn.found) :
    ∀ name ∈ identifiers (enclosure.splice turn.before.content),
      name ∈ identifiers source ∨ name = "try".toList ∨
        name ∈ turn.before.symbols ++ [enclosure.symbol] := by
  obtain ⟨symbol, _, _⟩ := numbered.symbol_eq done
  have some : enclosure.symbol ≠ [] := by
    rw [symbol]
    exact List.append_ne_nil_of_right_ne_nil _ Nat.toDigits_ne_nil
  have symbolChars : ∀ c ∈ enclosure.symbol, isIdentChar c = true := by
    rw [symbol]
    exact Counter.isIdentChar_of_mem_name chars Counter.isDigit_of_mem_toDigits
  obtain ⟨header, _, ofHeader, _⟩ := enclose_eq_ok done
  obtain ⟨site⟩ := nonempty_handleSite next ofHeader
  intro name mem
  rw [List.mem_append, List.mem_singleton]
  rcases List.mem_cons.mp (site.identifiers_splice_subset done some symbolChars mem) with isTry | mem
  · exact .inr (.inl isTry)
  · rcases List.mem_cons.mp mem with isSymbol | mem
    · exact .inr (.inr (.inr isSymbol))
    · exact (numbered.known name mem).imp_right (Or.imp_right .inl)

end Turn

/-- **One turn.** -/
theorem after {kind : HandleKind} {ending : Text} {turn : Turn}
    (chars : ∀ c ∈ stem, isIdentChar c = true)
    (next : nextDeclaration kind ending turn.before.content turn.before.place = some turn.found)
    (numbered : turn.before.Numbered stem source highest base) :
    (turn.after source).Numbered stem source highest base := by
  have symbols := turn.symbols_after source
  cases made : turn.result with
  | error reason =>
    obtain ⟨content, _, names⟩ : (turn.after source).content = _ ∧ _ := Turn.after_of_error made
    have enclosed : (turn.after source).enclosed = turn.before.enclosed := by
      rw [Turn.enclosed_after, made]
      rfl
    have none : (turn.step source).symbol? = none := by
      rw [Turn.step, made]
      rfl
    rw [none, Option.toList_none, List.append_nil] at symbols
    refine ⟨numbered.most, ?_, ?_, ?_⟩
    · rw [names, enclosed]
      exact numbered.handles_eq
    · rw [symbols, enclosed]
      exact numbered.symbols_eq
    · rw [content, symbols]
      exact numbered.known
  | ok pair =>
    obtain ⟨enclosure, names⟩ := pair
    have done : enclose turn.found turn.before.content turn.before.names = .ok (enclosure, names) := made
    obtain ⟨symbol, _, handles⟩ := numbered.symbol_eq made
    have content : (turn.after source).content = enclosure.splice turn.before.content := by
      rw [Turn.after, Pass.advance_of_ok done]
    have enclosed : (turn.after source).enclosed = turn.before.enclosed + 1 := by
      rw [Turn.enclosed_after, made]
      rfl
    have one : (turn.step source).symbol? = some enclosure.symbol := by
      rw [Turn.step, made]
      rfl
    rw [one, Option.toList_some] at symbols
    refine ⟨numbered.most, ?_, ?_, ?_⟩
    · rw [enclosed, Turn.after, Pass.advance_of_ok done]
      exact handles
    · rw [symbols, enclosed, ← Nat.add_assoc, Counter.issued_succ, numbered.symbols_eq, symbol]
    · rw [content, symbols]
      exact numbered.known_splice made chars next

end Pass.Numbered

/-! ### Both passes -/

section Run

variable {settings : Settings} {source : Text} {highest : Nat}

/-- The number of enclosures before the pass of a kind. -/
def enclosedBefore (settings : Settings) (source : Text) : HandleKind → Nat
  | .cursor => 0
  | .query => (scopeHandles settings source).cursors.enclosed

variable (valid : settings.validate = .ok ())

include valid

theorem exists_numbered (source : Text) :
    ∃ highest, (passBefore settings source .cursor).Numbered settings.handleStem.toList source highest
      (enclosedBefore settings source .cursor) := by
  obtain ⟨highest, most, seeded⟩ :=
    Counter.exists_seeded (Settings.isIdentChar_handleStem valid) source
  exact ⟨highest, most, seeded, rfl, fun name mem => .inl mem⟩

/-- **A whole pass.** -/
theorem numbered_passAfter {kind : HandleKind}
    (numbered : (passBefore settings source kind).Numbered settings.handleStem.toList source highest
      (enclosedBefore settings source kind)) :
    (passAfter settings source kind).Numbered settings.handleStem.toList source highest
        (enclosedBefore settings source kind) ∧
      ∀ turn ∈ turnsOf settings source kind, turn.before.Numbered settings.handleStem.toList source
        highest (enclosedBefore settings source kind) := by
  obtain ⟨after, before⟩ := Pass.invariant_through kind (settings.typeOf kind) source
    (declared settings source kind) (passBefore settings source kind) numbered
    fun turn next => Pass.Numbered.after (Settings.isIdentChar_handleStem valid) next
  exact ⟨after, fun turn mem => (before turn mem).1⟩

/-- The pass for queries goes on where the pass for cursors ended. -/
theorem numbered_passBefore
    (numbered : (passBefore settings source .cursor).Numbered settings.handleStem.toList source highest
      (enclosedBefore settings source .cursor)) (kind : HandleKind) :
    (passBefore settings source kind).Numbered settings.handleStem.toList source highest
      (enclosedBefore settings source kind) := by
  cases kind with
  | cursor => exact numbered
  | query =>
    obtain ⟨after, _⟩ := numbered_passAfter valid numbered
    refine ⟨after.most, ?_, ?_, after.known⟩
    · exact after.handles_eq.trans (by rw [enclosedBefore, Nat.zero_add]; rfl)
    · exact after.symbols_eq.trans (by rw [enclosedBefore, Nat.zero_add]; rfl)

end Run

/-- **The names of handles are fresh and consecutive.** At every turn that encloses a declaration, the
name is no identifier of the text as it is then, was not issued before, and bears the number behind the
largest in use by as much as names are issued. The turns are the steps of the run, and the names of its
steps are numbered without a gap, over cursors and queries. -/
theorem handles_fresh_and_consecutive {settings : Settings} (valid : settings.validate = .ok ())
    (source : Text) :
    ∃ highest, Counter.Highest settings.handleStem.toList source highest ∧
      (∀ kind, ∀ turn ∈ turnsOf settings source kind, ∀ enclosure names,
        turn.result = .ok (enclosure, names) →
          enclosure.symbol ∉ identifiers turn.before.content ∧
          enclosure.symbol ∉ turn.before.symbols ∧
          enclosure.symbol = settings.handleStem.toList ++
            Nat.toDigits 10 (highest + (turn.before.symbols.length + 1))) ∧
      (scopeHandles { settings with verbose := true } source).steps =
        (turnsOf settings source .cursor ++ turnsOf settings source .query).map (Turn.step source) ∧
      (scopeHandles { settings with verbose := true } source).steps.filterMap Step.symbol? =
        Counter.issued settings.handleStem.toList highest
          ((scopeHandles settings source).cursors.enclosed
            + (scopeHandles settings source).queries.enclosed) := by
  obtain ⟨highest, first⟩ := exists_numbered valid source
  have start := numbered_passBefore valid first
  refine ⟨highest, first.most, ?_, steps_eq, ?_⟩
  · intro kind turn mem enclosure names done
    have numbered := (numbered_passAfter valid (start kind)).2 turn mem
    obtain ⟨unknown, unissued⟩ := numbered.fresh done
    refine ⟨unknown, unissued, ?_⟩
    rw [numbered.symbols_eq, Counter.length_issued]
    exact (numbered.symbol_eq done).1
  · exact (numbered_passAfter valid (start .query)).1.symbols_eq

/-- Short stems and types. -/
def briefSettings : Settings :=
  { handleStem := "v", statementStem := "s", queryType := "Q", cursorType := "R" }

/-- A block with numbers in a comment, of which the second belongs to another identifier and the third is
beyond the limit; a cursor and a query that are enclosed, and between them a cursor that is not. -/
def numberedBlock : Text :=
  ("\x7b\n // v007 $v9 v18446744073709551616\n R a = q();\n R b = r();\n Q p = c.q(a);\n" ++
    " return b;\n\x7d\n").toList

theorem numberedBlock_fresh :
    briefSettings.validate = .ok () ∧
      Counter.Highest ['v'] numberedBlock 7 ∧
      (∃ turn ∈ turnsOf briefSettings numberedBlock .query, ∃ enclosure names,
        turn.result = .ok (enclosure, names) ∧ enclosure.symbol = ['v', '9'] ∧
        enclosure.symbol ∉ identifiers turn.before.content) ∧
      (scopeHandles { briefSettings with verbose := true } numberedBlock).steps.filterMap
          Step.symbol? = [['v', '8'], ['v', '9']] := by
  have valid : briefSettings.validate = .ok () := by decide +kernel
  obtain ⟨highest, most, turns, _, symbols⟩ := handles_fresh_and_consecutive valid numberedBlock
  have steps : (scopeHandles { briefSettings with verbose := true } numberedBlock).steps.filterMap
      Step.symbol? = [['v', '8'], ['v', '9']] := by
    decide +kernel
  rw [steps] at symbols
  have two := congrArg List.length symbols
  rw [Counter.length_issued] at two
  rw [← two] at symbols
  have seven : highest = 7 := by
    have first : ['v'] ++ Nat.toDigits 10 8 = ['v'] ++ Nat.toDigits 10 (highest + (0 + 1)) :=
      (List.cons.inj symbols).1
    have number := Counter.append_toDigits_inj.mp first
    omega
  subst seven
  refine ⟨valid, most, ?_, steps⟩
  have query : (turnsOf briefSettings numberedBlock .query).any
      (fun turn => turn.result.isOk && turn.before.symbols.length == 1) = true := by
    decide +kernel
  obtain ⟨turn, mem, both⟩ := List.any_eq_true.mp query
  rw [Bool.and_eq_true, beq_iff_eq] at both
  obtain ⟨⟨enclosure, names⟩, done⟩ := exists_of_isOk turn.result both.1
  obtain ⟨unknown, _, symbol⟩ := turns .query turn mem enclosure names done
  rw [both.2] at symbol
  exact ⟨turn, mem, enclosure, names, done, symbol, unknown⟩

end ScopedHandles
