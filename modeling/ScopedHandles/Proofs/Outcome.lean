/-
**The outcome, told by the turns of its passes.**

`scopeHandles` makes a pass for cursors, then one for queries, and mends loose statements last. The
figures of its outcome are those of the turns of the two passes.

* `found_eq`, `enclosed_eq` — found and enclosed declarations of a kind.
* `skipped_eq`, `filter_skipped_eq` — the declarations that are reported as skipped.
* `steps_eq` — the steps that are reported.
-/

import ScopedHandles.Proofs.Pass

namespace ScopedHandles

/-- The counts of a kind. -/
def Outcome.counts (outcome : Outcome) : HandleKind → Counts
  | .cursor => outcome.cursors
  | .query => outcome.queries

section Passes

variable (settings : Settings) (source : Text)

/-- The names that are fresh in a text. -/
def freshNames : Names :=
  .seeded source settings.handleStem.toList settings.statementStem.toList

/-- The declarations of a kind in a text. -/
def declared (kind : HandleKind) : List (Occurrence Declaration) :=
  declarations kind (settings.typeOf kind) source

/-- The pass of a kind through the declarations of the text. -/
def passFrom (kind : HandleKind) (pass : Pass) : Pass :=
  Pass.through kind (settings.typeOf kind) source (declared settings source kind) pass

/-- The pass of a kind at its beginning: the text is the source for cursors, and what the pass for
cursors has made of it for queries. -/
def passBefore : (kind : HandleKind) → Pass
  | .cursor => { content := source, names := freshNames settings source }
  | .query =>
    { passFrom settings source .cursor { content := source, names := freshNames settings source } with
      place := 0, enclosed := 0 }

/-- The pass of a kind at its end. -/
def passAfter (kind : HandleKind) : Pass :=
  passFrom settings source kind (passBefore settings source kind)

/-- The turns of the pass of a kind. -/
def turnsOf (kind : HandleKind) : List Turn :=
  Pass.turns kind (settings.typeOf kind) source (declared settings source kind)
    (passBefore settings source kind)

/-- The last part of the work: the loose statements of what the passes made of the text. -/
def repairAfter : Repair :=
  repairStatements (passAfter settings source .query).content (passAfter settings source .query).names

end Passes

variable {settings : Settings} {source : Text} {kind : HandleKind}

/-! ### The figures of the outcome -/

theorem content_eq : (scopeHandles settings source).content = (repairAfter settings source).content :=
  rfl

theorem statements_eq :
    (scopeHandles settings source).statements =
      (repairAfter settings source).summary (passAfter settings source .query).content :=
  rfl

theorem found_eq :
    ((scopeHandles settings source).counts kind).found = (declared settings source kind).length := by
  cases kind <;> rfl

theorem enclosed_eq :
    ((scopeHandles settings source).counts kind).enclosed =
      (turnsOf settings source kind).countP (·.result.isOk) := by
  have enclosed := Pass.enclosed_through kind (settings.typeOf kind) source
    (declared settings source kind) (passBefore settings source kind)
  cases kind with
  | cursor =>
    rw [show (passBefore settings source .cursor).enclosed = 0 from rfl, Nat.zero_add] at enclosed
    exact enclosed
  | query =>
    rw [show (passBefore settings source .query).enclosed = 0 from rfl, Nat.zero_add] at enclosed
    exact enclosed

theorem skipped_eq :
    (scopeHandles settings source).skipped =
      (turnsOf settings source .cursor).filterMap (Turn.skip? source)
        ++ (turnsOf settings source .query).filterMap (Turn.skip? source) := by
  have cursors := Pass.skipped_through .cursor (settings.typeOf .cursor) source
    (declared settings source .cursor) (passBefore settings source .cursor)
  have queries := Pass.skipped_through .query (settings.typeOf .query) source
    (declared settings source .query) (passBefore settings source .query)
  have between : (passBefore settings source .query).skipped =
      (turnsOf settings source .cursor).filterMap (Turn.skip? source) := cursors
  rw [between] at queries
  exact queries

/-- The steps of a run that reports them are its turns. -/
theorem steps_eq :
    (scopeHandles { settings with verbose := true } source).steps =
      (turnsOf settings source .cursor ++ turnsOf settings source .query).map (Turn.step source) := by
  have cursors := Pass.steps_through .cursor (settings.typeOf .cursor) source
    (declared settings source .cursor) (passBefore settings source .cursor)
  have queries := Pass.steps_through .query (settings.typeOf .query) source
    (declared settings source .query) (passBefore settings source .query)
  have between : (passBefore settings source .query).steps =
      (turnsOf settings source .cursor).map (Turn.step source) := cursors
  rw [between, ← turnsOf, ← List.map_append] at queries
  exact queries

/-! ### Skips by kind -/

theorem kind_of_mem_turns {ending : Text} {entries : List (Occurrence Declaration)} {pass : Pass}
    {turn : Turn} (mem : turn ∈ Pass.turns kind ending source entries pass) :
    turn.found.value.kind = kind := by
  induction entries generalizing pass with
  | nil => simp [Pass.turns] at mem
  | cons entry entries ih =>
    cases next : nextDeclaration kind ending pass.content pass.place with
    | none => simp [Pass.turns_cons_of_none, next] at mem
    | some found =>
      rw [Pass.turns_cons_of_some _ _ _ _ _ next, List.mem_cons] at mem
      rcases mem with rfl | mem
      · exact kind_of_nextDeclaration next
      · exact ih mem

theorem kind_of_skip? {turn : Turn} {skipped : Skipped} (skip : turn.skip? source = some skipped) :
    skipped.kind = turn.found.value.kind := by
  unfold Turn.skip? at skip
  split at skip
  · simp at skip
  · obtain rfl := Option.some.inj skip
    rfl

theorem kind_of_mem_skips {skipped : Skipped}
    (mem : skipped ∈ (turnsOf settings source kind).filterMap (Turn.skip? source)) :
    skipped.kind = kind := by
  obtain ⟨turn, turnMem, skip⟩ := List.mem_filterMap.mp mem
  rw [kind_of_skip? skip]
  exact kind_of_mem_turns turnMem

/-- **The skips of a kind are those of its pass.** -/
theorem filter_skipped_eq :
    (scopeHandles settings source).skipped.filter (·.kind = kind) =
      (turnsOf settings source kind).filterMap (Turn.skip? source) := by
  have own : ∀ other, ((turnsOf settings source other).filterMap (Turn.skip? source)).filter
      (·.kind = kind) =
        if other = kind then (turnsOf settings source other).filterMap (Turn.skip? source) else [] := by
    intro other
    split_ifs with same
    · refine List.filter_eq_self.mpr fun skipped mem => ?_
      simp [kind_of_mem_skips mem, same]
    · refine List.filter_eq_nil_iff.mpr fun skipped mem => ?_
      rw [kind_of_mem_skips mem]
      simpa using same
  rw [skipped_eq, List.filter_append, own, own]
  cases kind <;> simp

theorem countP_add_length_filterMap (turns : List Turn) :
    turns.countP (·.result.isOk) + (turns.filterMap (Turn.skip? source)).length = turns.length := by
  induction turns with
  | nil => rfl
  | cons turn turns ih =>
    rw [List.countP_cons, List.filterMap_cons, List.length_cons, ← ih, Turn.skip?]
    cases turn.result with
    | ok pair => simp [Except.isOk, Except.toBool]; omega
    | error reason => simp [Except.isOk, Except.toBool]; omega

/-- **Every turn encloses its declaration or reports it.** -/
theorem enclosed_add_skipped :
    ((scopeHandles settings source).counts kind).enclosed
        + ((scopeHandles settings source).skipped.filter (·.kind = kind)).length =
      (turnsOf settings source kind).length := by
  rw [enclosed_eq, filter_skipped_eq]
  exact countP_add_length_filterMap _

end ScopedHandles
