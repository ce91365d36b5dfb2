/-
**A pass, turn by turn.**

A pass has a turn for each declaration of the text as it was. At its turn a declaration of the text as
it was (the *entry*) is met by a declaration of the text as it is now (the one that is *found*). The pass
ends early when nothing is found any more.

* `Pass.turns` — the turns of a pass.
* `Pass.invariant_through` — what every turn keeps, a pass keeps.
* `Pass.skipped_through`, `Pass.enclosed_through` — what a pass reports is told by its turns.
* `Pass.turns_balance` — what is left to be found at the end is what stood at the beginning, with what
  was uncovered, without what had its turn.
* `Pass.length_turns_eq_iff` — when every entry has its turn.
-/

import ScopedHandles.Proofs.Enclosure

namespace ScopedHandles

/-- The declarations of a kind at or behind a place. -/
def standing (kind : HandleKind) (ending content : Text) (place : Nat) :
    List (Occurrence Declaration) :=
  allHits (Declaration.probe kind ending) place 0 none content

section Standing

variable {kind : HandleKind} {ending content : Text} {place : Nat} {found : Occurrence Declaration}

theorem nextDeclaration_eq_head? :
    nextDeclaration kind ending content place = (standing kind ending content place).head? :=
  firstHit_eq_head? place none content

theorem standing_eq_nil_iff :
    standing kind ending content place = [] ↔ nextDeclaration kind ending content place = none := by
  rw [nextDeclaration_eq_head?, List.head?_eq_none_iff]

/-- Behind the next declaration stand the others. -/
theorem standing_eq_cons (next : nextDeclaration kind ending content place = some found) :
    standing kind ending content place = found :: standing kind ending content found.stop := by
  rw [nextDeclaration_eq_head?] at next
  obtain ⟨others, all⟩ := List.head?_eq_some_iff.mp next
  obtain ⟨distance, here, _, same⟩ := allHits_eq_cons (Declaration.advances_probe kind ending) all
  rw [all, same, standing, Occurrence.stop, here, Nat.zero_add]

theorem kind_of_nextDeclaration (next : nextDeclaration kind ending content place = some found) :
    found.value.kind = kind := by
  obtain ⟨_, _, _, seen⟩ := exists_of_firstHit next
  obtain ⟨_, _, _, made⟩ := Declaration.exists_layout_of_probe seen
  exact (Declaration.eq_of_ofHead made).1

end Standing

/-! ### Turns -/

/-- A turn of a pass. -/
structure Turn where
  /-- The declaration of the text as it was. -/
  entry : Occurrence Declaration
  /-- The declaration that is found in the text as it is now. -/
  found : Occurrence Declaration
  /-- The pass before the turn. -/
  before : Pass

namespace Turn

/-- The line that is reported for the turn. -/
def line (source : Text) (turn : Turn) : Nat :=
  lineAt source turn.entry.start

/-- The pass behind the turn. -/
def after (source : Text) (turn : Turn) : Pass :=
  turn.before.advance (turn.line source) turn.found

/-- What the turn encloses, or why it does not. -/
def result (turn : Turn) : Except SkipReason (Enclosure × Names) :=
  enclose turn.found turn.before.content turn.before.names

/-- What is reported if the turn encloses nothing. -/
def skip? (source : Text) (turn : Turn) : Option Skipped :=
  match turn.result with
  | .ok _ => none
  | .error reason =>
    some { kind := turn.found.value.kind, symbol := turn.found.value.name, line := turn.line source,
           reason }

/-- The step that is reported for the turn. -/
def step (source : Text) (turn : Turn) : Step :=
  match turn.result with
  | .ok (enclosure, _) =>
    .enclosed (turn.line source) turn.found.value.kind turn.found.value.name enclosure.symbol
      enclosure.header
  | .error reason =>
    .skipped (turn.line source) turn.found.value.kind turn.found.value.name reason

/-- How many declarations the turn uncovers: those that stand at or behind the place where the search
goes on, without those that stood behind the one that was found. -/
def uncovered (kind : HandleKind) (ending source : Text) (turn : Turn) : Int :=
  (standing kind ending (turn.after source).content (turn.after source).place).length
    - (standing kind ending turn.before.content turn.found.stop).length

end Turn

namespace Pass

/-- The turns of a pass, one for each entry until nothing is found. -/
def turns (kind : HandleKind) (ending source : Text) :
    (entries : List (Occurrence Declaration)) → Pass → List Turn
  | [], _ => []
  | entry :: entries, pass =>
    match nextDeclaration kind ending pass.content pass.place with
    | none => []
    | some found =>
      let turn : Turn := { entry, found, before := pass }
      turn :: turns kind ending source entries (turn.after source)

/-! ### One turn -/

theorem advance_of_ok {pass : Pass} {line : Nat} {found : Occurrence Declaration}
    {enclosure : Enclosure} {names : Names}
    (done : enclose found pass.content pass.names = .ok (enclosure, names)) :
    pass.advance line found =
      { pass with
        content := enclosure.splice pass.content
        place := found.start
        names
        enclosed := pass.enclosed + 1
        steps := pass.steps ++
          [.enclosed line found.value.kind found.value.name enclosure.symbol enclosure.header] } := by
  simp only [advance, done]

theorem advance_of_error {pass : Pass} {line : Nat} {found : Occurrence Declaration}
    {reason : SkipReason} (refused : enclose found pass.content pass.names = .error reason) :
    pass.advance line found =
      { pass with
        place := found.stop
        skipped := pass.skipped ++
          [{ kind := found.value.kind, symbol := found.value.name, line, reason }]
        steps := pass.steps ++ [.skipped line found.value.kind found.value.name reason] } := by
  simp only [advance, refused]

end Pass

namespace Turn

variable {source : Text} {turn : Turn}

theorem skipped_after :
    (turn.after source).skipped = turn.before.skipped ++ (turn.skip? source).toList := by
  unfold after skip?
  cases made : turn.result with
  | ok pair => rw [Pass.advance_of_ok made]; simp
  | error reason => rw [Pass.advance_of_error made]; simp

theorem steps_after : (turn.after source).steps = turn.before.steps ++ [turn.step source] := by
  unfold after step
  cases made : turn.result with
  | ok pair => rw [Pass.advance_of_ok made]
  | error reason => rw [Pass.advance_of_error made]

theorem enclosed_after :
    (turn.after source).enclosed = turn.before.enclosed + if turn.result.isOk then 1 else 0 := by
  unfold after
  cases made : turn.result with
  | ok pair => rw [Pass.advance_of_ok made]; simp [Except.isOk, Except.toBool]
  | error reason => rw [Pass.advance_of_error made]; simp [Except.isOk, Except.toBool]

/-- A turn that encloses nothing leaves the text and the names alone, and goes on behind what it
found. -/
theorem after_of_error {reason : SkipReason} (refused : turn.result = .error reason) :
    (turn.after source).content = turn.before.content ∧
      (turn.after source).place = turn.found.stop ∧
      (turn.after source).names = turn.before.names := by
  unfold after
  rw [Pass.advance_of_error refused]
  exact ⟨rfl, rfl, rfl⟩

end Turn

/-! ### A whole pass -/

namespace Pass

variable (kind : HandleKind) (ending source : Text) (entries : List (Occurrence Declaration))
  (pass : Pass)

/-- The pass through the entries, each reported with its line in the text as it was. -/
def through : Pass :=
  run kind ending (entries.map fun entry => lineAt source entry.start) pass

theorem through_cons_of_none {entry : Occurrence Declaration}
    (none : nextDeclaration kind ending pass.content pass.place = none) :
    through kind ending source (entry :: entries) pass = pass := by
  rw [through, List.map_cons, run, none]

theorem through_cons_of_some {entry found : Occurrence Declaration}
    (next : nextDeclaration kind ending pass.content pass.place = some found) :
    through kind ending source (entry :: entries) pass =
      through kind ending source entries (Turn.after source { entry, found, before := pass }) := by
  rw [through, List.map_cons, run, next]
  rfl

theorem turns_cons_of_none {entry : Occurrence Declaration}
    (none : nextDeclaration kind ending pass.content pass.place = none) :
    turns kind ending source (entry :: entries) pass = [] := by
  rw [turns, none]

theorem turns_cons_of_some {entry found : Occurrence Declaration}
    (next : nextDeclaration kind ending pass.content pass.place = some found) :
    turns kind ending source (entry :: entries) pass =
      { entry, found, before := pass } ::
        turns kind ending source entries (Turn.after source { entry, found, before := pass }) := by
  rw [turns, next]

/-- **What every turn keeps, a pass keeps**, and it holds before each of its turns. -/
theorem invariant_through {invariant : Pass → Prop} (start : invariant pass)
    (keeps : ∀ turn : Turn,
      nextDeclaration kind ending turn.before.content turn.before.place = some turn.found →
        invariant turn.before → invariant (turn.after source)) :
    invariant (through kind ending source entries pass) ∧
      ∀ turn ∈ turns kind ending source entries pass, invariant turn.before ∧
        nextDeclaration kind ending turn.before.content turn.before.place = some turn.found := by
  induction entries generalizing pass with
  | nil => exact ⟨start, by simp [turns]⟩
  | cons entry entries ih =>
    cases next : nextDeclaration kind ending pass.content pass.place with
    | none =>
      rw [through_cons_of_none _ _ _ _ _ next, turns_cons_of_none _ _ _ _ _ next]
      exact ⟨start, by simp⟩
    | some found =>
      rw [through_cons_of_some _ _ _ _ _ next, turns_cons_of_some _ _ _ _ _ next]
      obtain ⟨later, others⟩ := ih _ (keeps { entry, found, before := pass } next start)
      refine ⟨later, fun turn mem => ?_⟩
      rcases List.mem_cons.mp mem with rfl | mem
      · exact ⟨start, next⟩
      · exact others turn mem

/-- **What a pass reports as skipped is told by its turns.** -/
theorem skipped_through :
    (through kind ending source entries pass).skipped =
      pass.skipped ++ (turns kind ending source entries pass).filterMap (Turn.skip? source) := by
  induction entries generalizing pass with
  | nil => simp [through, run, turns]
  | cons entry entries ih =>
    cases next : nextDeclaration kind ending pass.content pass.place with
    | none => simp [through_cons_of_none, turns_cons_of_none, next]
    | some found =>
      rw [through_cons_of_some _ _ _ _ _ next, turns_cons_of_some _ _ _ _ _ next, ih,
        Turn.skipped_after, List.append_assoc, List.filterMap_cons]
      congr 1
      cases Turn.skip? source { entry, found, before := pass } <;> rfl

/-- **Every turn is a step, and there are no others.** -/
theorem steps_through :
    (through kind ending source entries pass).steps =
      pass.steps ++ (turns kind ending source entries pass).map (Turn.step source) := by
  induction entries generalizing pass with
  | nil => simp [through, run, turns]
  | cons entry entries ih =>
    cases next : nextDeclaration kind ending pass.content pass.place with
    | none => simp [through_cons_of_none, turns_cons_of_none, next]
    | some found =>
      rw [through_cons_of_some _ _ _ _ _ next, turns_cons_of_some _ _ _ _ _ next, ih,
        Turn.steps_after, List.append_assoc, List.map_cons]
      rfl

/-- **What a pass reports as enclosed is told by its turns.** -/
theorem enclosed_through :
    (through kind ending source entries pass).enclosed =
      pass.enclosed + (turns kind ending source entries pass).countP (·.result.isOk) := by
  induction entries generalizing pass with
  | nil => simp [through, run, turns]
  | cons entry entries ih =>
    cases next : nextDeclaration kind ending pass.content pass.place with
    | none => simp [through_cons_of_none, turns_cons_of_none, next]
    | some found =>
      rw [through_cons_of_some _ _ _ _ _ next, turns_cons_of_some _ _ _ _ _ next, ih,
        Turn.enclosed_after, List.countP_cons, Nat.add_right_comm, Nat.add_assoc]

/-- A pass takes no more turns than there are entries. -/
theorem length_turns_le : (turns kind ending source entries pass).length ≤ entries.length := by
  induction entries generalizing pass with
  | nil => simp [turns]
  | cons entry entries ih =>
    cases next : nextDeclaration kind ending pass.content pass.place with
    | none => simp [turns_cons_of_none, next]
    | some found =>
      rw [turns_cons_of_some _ _ _ _ _ next, List.length_cons, List.length_cons]
      exact Nat.succ_le_succ (ih _)

/-- A pass that ends early has nothing left to find. -/
theorem standing_eq_nil_of_early
    (early : (turns kind ending source entries pass).length < entries.length) :
    standing kind ending (through kind ending source entries pass).content
      (through kind ending source entries pass).place = [] := by
  induction entries generalizing pass with
  | nil => simp at early
  | cons entry entries ih =>
    cases next : nextDeclaration kind ending pass.content pass.place with
    | none =>
      rw [through_cons_of_none _ _ _ _ _ next]
      exact standing_eq_nil_iff.mpr next
    | some found =>
      rw [through_cons_of_some _ _ _ _ _ next]
      rw [turns_cons_of_some _ _ _ _ _ next, List.length_cons, List.length_cons] at early
      exact ih _ (Nat.lt_of_succ_lt_succ early)

/-- How many declarations the turns of a pass uncover together. -/
def uncovered : Int :=
  (turns kind ending source entries pass).foldr (fun turn others =>
    turn.uncovered kind ending source + others) 0

/-- **The balance of a pass.** -/
theorem turns_balance :
    ((turns kind ending source entries pass).length : Int)
        + (standing kind ending (through kind ending source entries pass).content
            (through kind ending source entries pass).place).length =
      (standing kind ending pass.content pass.place).length
        + uncovered kind ending source entries pass := by
  induction entries generalizing pass with
  | nil => simp [through, run, turns, uncovered]
  | cons entry entries ih =>
    cases next : nextDeclaration kind ending pass.content pass.place with
    | none => simp [through_cons_of_none, turns_cons_of_none, uncovered, next]
    | some found =>
      have later := ih (Turn.after source { entry, found, before := pass })
      rw [through_cons_of_some _ _ _ _ _ next, turns_cons_of_some _ _ _ _ _ next,
        standing_eq_cons next]
      simp only [uncovered, turns_cons_of_some _ _ _ _ _ next, List.foldr_cons, List.length_cons,
        Turn.uncovered] at later ⊢
      omega

/-- **A pass has a turn for every entry exactly if the declarations that stood at its beginning, with
those that it uncovers, are as many.** -/
theorem length_turns_eq_iff :
    (turns kind ending source entries pass).length = entries.length ↔
      (entries.length : Int) ≤ (standing kind ending pass.content pass.place).length
        + uncovered kind ending source entries pass := by
  have balance := turns_balance kind ending source entries pass
  have most := length_turns_le kind ending source entries pass
  constructor
  · intro all
    omega
  · intro enough
    by_contra early
    have nothing := standing_eq_nil_of_early kind ending source entries pass (by omega)
    rw [nothing, List.length_nil] at balance
    omega

end Pass

end ScopedHandles
