/-
**What becomes of every declaration.**

A declaration that is counted is enclosed or skipped exactly if every entry of its pass has its turn.
A pass that finds too little ends early: an enclosure renames the handle wherever the rest of the block
refers to it, and can hide a later declaration by that. In a tidy text no declaration is hidden.
-/

import ScopedHandles.Proofs.TidyRun

namespace ScopedHandles

variable (settings : Settings) (source : Text) (kind : HandleKind)

/-- Every declaration of a kind that is counted is enclosed or reported as skipped. -/
def Accounted : Prop :=
  ((scopeHandles settings source).counts kind).found =
    ((scopeHandles settings source).counts kind).enclosed
      + ((scopeHandles settings source).skipped.filter (·.kind = kind)).length

/-- How many declarations the pass of a kind uncovers. -/
def uncoveredBy : Int :=
  Pass.uncovered kind (settings.typeOf kind) source (declared settings source kind)
    (passBefore settings source kind)

/-- How many declarations the pass of a kind meets and uncovers. -/
def met : Int :=
  (standing kind (settings.typeOf kind) (passBefore settings source kind).content
    (passBefore settings source kind).place).length + uncoveredBy settings source kind

theorem accounted_iff_length_turnsOf :
    Accounted settings source kind ↔
      (turnsOf settings source kind).length = (declared settings source kind).length := by
  rw [Accounted, enclosed_add_skipped, found_eq, eq_comm]

/-- **No declaration is lost exactly if the pass meets and uncovers as many as were counted.** It is so
in every tidy text. -/
theorem declarations_accounted :
    (Accounted settings source kind ↔
      (((scopeHandles settings source).counts kind).found : Int) ≤ met settings source kind) ∧
    (settings.validate = .ok () → settings.Apart → Tidy settings source →
      Accounted settings source kind) := by
  rw [accounted_iff_length_turnsOf]
  constructor
  · rw [found_eq]
    exact Pass.length_turns_eq_iff kind (settings.typeOf kind) source
      (declared settings source kind) (passBefore settings source kind)
  · intro valid apart tidy
    exact (turnsOf_paired valid apart tidy kind).1

/-- A query and a cursor in its block, with a second cursor that is handed on. -/
def returningBlock : Text :=
  "\x7b\n PreparedStatement p = c.prepareStatement(s);\n ResultSet a = p.executeQuery();\n"
    ++ " ResultSet b = q(a);\n return b;\n\x7d\n" |>.toList

set_option maxRecDepth 100000 in
theorem returningBlock_accounted :
    Tidy {} returningBlock ∧ (scopeHandles {} returningBlock).skipped ≠ [] ∧
      Accounted {} returningBlock .cursor :=
  have tidy : Tidy {} returningBlock := by decide +kernel
  ⟨tidy, by decide +kernel, (declarations_accounted {} returningBlock .cursor).2 (by decide +kernel)
    Settings.apart_default tidy⟩

/-- A query whose type is also the name of a cursor. -/
def typeNamedBlock : Text :=
  "\x7b\n ResultSet PreparedStatement = q();\n PreparedStatement p = c.prepare(s);\n\x7d\n".toList

set_option maxRecDepth 100000 in
/-- The renaming of the cursor renames the type of the query, which is neither enclosed nor skipped. -/
theorem typeNamedBlock_loses_query :
    Settings.validate {} = .ok () ∧
      (scopeHandles {} typeNamedBlock).queries = { found := 1, enclosed := 0 } ∧
      (scopeHandles {} typeNamedBlock).skipped = [] ∧ ¬ Accounted {} typeNamedBlock .query := by
  unfold Accounted
  decide +kernel

end ScopedHandles
