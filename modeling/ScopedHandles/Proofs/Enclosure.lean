/-
**What an enclosure is made of.**

`enclose` and `mend` succeed in one way only. Both find the scope behind a header, take a fresh name, and
put the scope back with a brace of its own. Here each success is taken apart, so that no later proof has
to open the two definitions.

* `enclose_eq_ok` — the parts of an enclosure.
* `Repair.mend_eq_ok` — the parts of a mended header.
* `Repair.invariant_run` — what every mended header keeps, a whole repair keeps.
* `Counter.word_of_allocate` — a fresh name is a word.
-/

import ScopedHandles.Outcome
import ScopedHandles.Proofs.Head

namespace ScopedHandles

/-! ### Fresh names -/

/-- **A fresh name is a word**, if the stem is made of the characters of words. -/
theorem Counter.word_of_allocate {counter later : Counter} {name : Text}
    (stem : ∀ c ∈ counter.stem, isWordChar c = true)
    (allocated : counter.allocate = some (name, later)) : Word name := by
  obtain ⟨n, _, pair⟩ := Option.map_eq_some_iff.mp allocated
  obtain ⟨rfl, _⟩ := Prod.mk.inj pair
  constructor
  · intro empty
    have digits : 0 < (Nat.toDigits 10 n).length := Nat.length_toDigits_pos
    simp_all
  · intro c mem
    rcases List.mem_append.mp mem with inStem | inDigits
    · exact stem c inStem
    · have digit := Nat.isDigit_of_mem_toDigits (by decide) (by decide) inDigits
      exact isWordChar_of_ascii (by simp [Char.isAlphanum, digit])

theorem Names.nextHandle_eq_some {names later : Names} {name : Text}
    (next : names.nextHandle = some (name, later)) :
    ∃ handles, names.handles.allocate = some (name, handles) ∧ later = { names with handles } := by
  obtain ⟨⟨issued, handles⟩, allocated, pair⟩ := Option.map_eq_some_iff.mp next
  obtain ⟨rfl, rfl⟩ := Prod.mk.inj pair
  exact ⟨handles, allocated, rfl⟩

/-! ### Enclosing -/

/-- **The parts of an enclosure.** -/
theorem enclose_eq_ok {found : Occurrence Declaration} {content : Text} {names later : Names}
    {enclosure : Enclosure} (done : enclose found content names = .ok (enclosure, later)) :
    ∃ header inner, found.value.header = .ok header ∧
      scope (content.drop found.stop) = .ok inner ∧
      escape? found.value.name inner = none ∧
      names.nextHandle = some (enclosure.symbol, later) ∧
      enclosure.header = rename header found.value.name enclosure.symbol ∧
      enclosure.start = found.start ∧ enclosure.stop = found.stop + inner.length ∧
      enclosure.text = blockText enclosure.header
        (rename (trimEnd inner) found.value.name enclosure.symbol) found.value.indent
        (trailingBlanks inner) := by
  unfold enclose at done
  cases made : found.value.header with
  | error reason => simp [made, bind, Except.bind] at done
  | ok header =>
    cases cut : scope (content.drop found.stop) with
    | error reason => simp [made, cut, bind, Except.bind] at done
    | ok inner =>
      simp only [made, cut, bind, Except.bind] at done
      split at done
      · simp [throw, throwThe, MonadExceptOf.throw] at done
      · simp [throw, throwThe, MonadExceptOf.throw] at done
      · next symbol names' stays next =>
        obtain ⟨rfl, rfl⟩ := Prod.mk.inj (Except.ok.inj done)
        exact ⟨header, inner, rfl, rfl, stays, next, rfl, rfl, rfl, rfl⟩

/-- The text around a block. Literal texts are generalised before lists are regrouped, because their
characters do not matter. -/
theorem blockText_append (before header body indent trailing rest : Text) :
    before ++ blockText header body indent trailing ++ rest =
      before ++ "try (".toList ++ header ++ ") \x7b".toList
        ++ (body ++ '\n' :: indent ++ '}' :: trailing ++ rest) := by
  unfold blockText
  generalize "try (".toList = opening
  generalize ") \x7b".toList = brace
  simp only [List.append_assoc, List.cons_append]

/-! ### Mending -/

/-- The text around a mended header. -/
theorem mended_append (loose : LooseStatement) (before name inner rest : Text) :
    before ++ loose.mended name inner ++ rest =
      before ++ "try (var ".toList ++ name ++ " = ".toList ++ trim loose.statement
        ++ ") \x7b ".toList ++ loose.resource ++ ' ' :: name ++ loose.chain
        ++ (trimEnd inner ++ '\n' :: loose.indent ++ '}' :: trailingBlanks inner ++ rest) := by
  unfold LooseStatement.mended
  generalize "try (var ".toList = opening
  generalize " = ".toList = sign
  generalize ") \x7b ".toList = brace
  simp only [List.append_assoc, List.cons_append]

namespace Repair

/-- **The parts of a mended header.** -/
theorem mend_eq_ok {repair later : Repair} {found : Occurrence LooseStatement}
    (done : repair.mend found = .ok later) :
    ∃ inner name names, scope (repair.content.drop (found.place + found.value.length)) = .ok inner ∧
      repair.names.nextStatement = some (name, names) ∧
      later = { repair with
        content := repair.content.take (found.place + found.value.indent.length)
          ++ found.value.mended name inner
          ++ repair.content.drop (found.place + found.value.length + inner.length)
        names, repaired := repair.repaired + 1 } := by
  unfold mend at done
  simp only at done
  split at done
  · simp at done
  · next inner cut =>
    split at done
    · simp at done
    · next name names next =>
      obtain rfl := Except.ok.inj done
      exact ⟨inner, name, names, cut, next, rfl⟩

theorem repaired_of_mend {repair later : Repair} {found : Occurrence LooseStatement}
    (done : repair.mend found = .ok later) : later.repaired = repair.repaired + 1 := by
  obtain ⟨_, _, _, _, _, rfl⟩ := mend_eq_ok done
  rfl

/-- **What every mended header keeps, the mending of a text keeps.** -/
theorem invariant_run (invariant : Repair → Prop)
    (keeps : ∀ {place : Nat} {repair later : Repair} {found : Occurrence LooseStatement},
      firstHit LooseStatement.probe place none repair.content = some found →
        repair.mend found = .ok later → invariant repair → invariant later)
    (stops : ∀ {repair : Repair} (error : RepairError),
      invariant repair → invariant { repair with error := some error })
    {repair : Repair} (start : invariant repair) (count place : Nat) :
    invariant (repair.run count place) := by
  induction count generalizing repair place with
  | zero => exact start
  | succ count ih =>
    rw [run]
    cases next : firstHit LooseStatement.probe place none repair.content with
    | none => exact start
    | some found =>
      cases made : repair.mend found with
      | error error =>
        simp only [made]
        exact stops error start
      | ok later =>
        simp only [made]
        exact ih (keeps next made start) _

/-- A repair mends no more headers than it is told to. -/
theorem repaired_run_le (count place : Nat) (repair : Repair) :
    (repair.run count place).repaired ≤ repair.repaired + count := by
  induction count generalizing place repair with
  | zero => exact le_rfl
  | succ count ih =>
    rw [run]
    cases firstHit LooseStatement.probe place none repair.content with
    | none => exact Nat.le_add_right _ _
    | some found =>
      cases made : repair.mend found with
      | error error => simp only [made, Nat.le_add_right]
      | ok later =>
        simp only [made]
        have others := ih (found.place + found.value.indent.length) later
        rw [repaired_of_mend made] at others
        omega

end Repair

end ScopedHandles
