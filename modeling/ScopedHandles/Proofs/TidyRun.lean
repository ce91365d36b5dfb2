/-
**A run through a tidy text.**

In a tidy text the declarations that a pass finds are those that it counted, one for one: what is found
at a turn bears the name of the entry whose turn it is, and every entry has its turn. At the end of its
pass, the declarations of a kind that are left are those that were skipped.

* `Pass.Follows` — what holds of a pass before each of its turns.
* `Pass.Follows.after` — one turn.
* `Pass.Follows.through` — a whole pass.
* `turnsOf_paired`, `names_passAfter` — both passes of a run.
-/

import ScopedHandles.Proofs.Splice
import ScopedHandles.Proofs.Outcome

namespace ScopedHandles

/-- A pass of a kind whose text is tidy: the declarations before the place of the search are called
`left`, and those at or behind it `ahead`. -/
structure Pass.Follows (settings : Settings) (kind : HandleKind) (left ahead : List Text)
    (pass : Pass) : Prop where
  tidy : Tidy settings pass.content
  wordy : pass.names.Wordy
  ahead_eq : (standing kind (settings.typeOf kind) pass.content pass.place).map (·.value.name) = ahead
  names_eq : namesFrom settings kind true pass.content = left ++ ahead

/-- The name of a declaration that a turn skips. -/
def Turn.skippedName? (turn : Turn) : Option Text :=
  if turn.result.isOk then none else some turn.found.value.name

theorem Names.Wordy.of_nextHandle {names later : Names} {name : Text} (wordy : names.Wordy)
    (next : names.nextHandle = some (name, later)) : later.Wordy := by
  obtain ⟨handles, allocated, rfl⟩ := Names.nextHandle_eq_some next
  refine ⟨?_, wordy.statements⟩
  show ∀ c ∈ handles.stem, isWordChar c = true
  rw [Counter.stem_of_allocate allocated]
  exact wordy.handles

theorem filterMap_cons_eq {α β : Type} (f : α → Option β) (a : α) (rest : List α) :
    (a :: rest).filterMap f = (f a).toList ++ rest.filterMap f := by
  rw [List.filterMap_cons]
  cases f a <;> rfl

section Follows

variable {settings : Settings} (valid : settings.validate = .ok ()) (apart : settings.Apart)
  {kind : HandleKind} {left ahead : List Text} {name : Text} {pass : Pass}

/-- The next declaration is the one that is expected. -/
theorem Pass.Follows.exists_next (follows : pass.Follows settings kind left (name :: ahead)) :
    ∃ found, nextDeclaration kind (settings.typeOf kind) pass.content pass.place = some found ∧
      found.value.name = name ∧
      (standing kind (settings.typeOf kind) pass.content found.stop).map (·.value.name) = ahead := by
  obtain ⟨found, others, all, named, behind⟩ := List.map_eq_cons_iff.mp follows.ahead_eq
  have next : nextDeclaration kind (settings.typeOf kind) pass.content pass.place = some found := by
    rw [nextDeclaration_eq_head?, all, List.head?_cons]
  rw [standing_eq_cons next, List.cons.injEq] at all
  exact ⟨found, next, named, by rw [all.2, behind]⟩

include valid apart

/-- **One turn.** A declaration that is enclosed is gone, one that is skipped is left. Declarations of
the other kind stay. -/
theorem Pass.Follows.after (follows : pass.Follows settings kind left (name :: ahead)) (turn : Turn)
    (before : turn.before = pass)
    (next : nextDeclaration kind (settings.typeOf kind) pass.content pass.place = some turn.found)
    (source : Text) :
    (turn.after source).Follows settings kind (left ++ turn.skippedName?.toList) ahead ∧
      ∀ other, other ≠ kind → namesFrom settings other true (turn.after source).content =
        namesFrom settings other true pass.content := by
  obtain ⟨found, first, named, behind⟩ := follows.exists_next
  obtain rfl : turn.found = found := Option.some.inj (next.symm.trans first)
  obtain rfl := before
  cases made : turn.result with
  | error reason =>
    obtain ⟨content, place, names⟩ : (turn.after source).content = _ ∧ _ := Turn.after_of_error made
    have skipped : turn.skippedName? = some name := by
      rw [Turn.skippedName?, made, named]
      rfl
    refine ⟨⟨?_, ?_, ?_, ?_⟩, fun other _ => by rw [content]⟩
    · rw [content]
      exact follows.tidy
    · rw [names]
      exact follows.wordy
    · rw [content, place]
      exact behind
    · rw [content, follows.names_eq, skipped, List.append_assoc]
      rfl
  | ok pair =>
    obtain ⟨enclosure, names⟩ := pair
    have done : enclose turn.found turn.before.content turn.before.names = .ok (enclosure, names) := made
    have mem : turn.found ∈ standing kind (settings.typeOf kind) turn.before.content turn.before.place :=
      List.mem_of_mem_head? (by rw [← nextDeclaration_eq_head?, first]; rfl)
    obtain ⟨site⟩ := nonempty_site (Settings.word_typeOf valid) follows.tidy mem
    have removed := site.removed valid apart follows.tidy follows.wordy done
    obtain ⟨_, _, _, _, _, issued, _⟩ := enclose_eq_ok done
    obtain ⟨earlier, old, new⟩ := removed.own
    have skipped : turn.skippedName? = none := by
      rw [Turn.skippedName?, made]
      rfl
    rw [Turn.after, Pass.advance_of_ok done, skipped]
    refine ⟨⟨removed.tidy, follows.wordy.of_nextHandle issued, removed.ahead.trans behind, ?_⟩,
      removed.others⟩
    rw [behind, named] at old
    rw [behind] at new
    obtain rfl : left = earlier := List.append_cancel_right (follows.names_eq.symm.trans old)
    rw [Option.toList_none, List.append_nil]
    exact new

/-- **A whole pass.** It has a turn for every entry, finds what bears the name of the entry, and leaves
what it skips. -/
theorem Pass.Follows.through {entries : List (Occurrence Declaration)}
    (follows : pass.Follows settings kind left (entries.map (·.value.name))) (source : Text) :
    (turns kind (settings.typeOf kind) source entries pass).length = entries.length ∧
      (∀ turn ∈ turns kind (settings.typeOf kind) source entries pass,
        turn.found.value.name = turn.entry.value.name) ∧
      (through kind (settings.typeOf kind) source entries pass).Follows settings kind
        (left ++ (turns kind (settings.typeOf kind) source entries pass).filterMap Turn.skippedName?)
        [] ∧
      ∀ other, other ≠ kind →
        namesFrom settings other true
            (through kind (settings.typeOf kind) source entries pass).content =
          namesFrom settings other true pass.content := by
  induction entries generalizing left pass with
  | nil =>
    refine ⟨rfl, by simp [turns], ?_, fun _ _ => rfl⟩
    rw [turns, List.filterMap_nil, List.append_nil]
    exact follows
  | cons entry entries ih =>
    obtain ⟨found, next, named, _⟩ := follows.exists_next
    obtain ⟨later, others⟩ :=
      follows.after valid apart { entry, found, before := pass } rfl next source
    obtain ⟨length, paired, rest, further⟩ := ih later
    rw [turns_cons_of_some _ _ _ _ _ next, through_cons_of_some _ _ _ _ _ next]
    refine ⟨by rw [List.length_cons, List.length_cons, length], ?_, ?_, ?_⟩
    · intro turn mem
      rcases List.mem_cons.mp mem with rfl | mem
      · exact named
      · exact paired turn mem
    · rw [List.append_assoc] at rest
      rwa [filterMap_cons_eq]
    · intro other different
      rw [further other different, others other different]

end Follows

/-! ### Both passes -/

section Run

variable {settings : Settings} (valid : settings.validate = .ok ()) (apart : settings.Apart)
  {source : Text} (tidy : Tidy settings source)

include valid tidy

theorem map_name_declared (kind : HandleKind) :
    (declared settings source kind).map (·.value.name) = namesFrom settings kind true source := by
  have all : (standing kind (settings.typeOf kind) ([] ++ source) 0).map (·.value.name) = _ :=
    map_name_standing (Settings.word_typeOf valid) tidy
  exact all

include apart

/-- Each pass begins with the names that were counted. The pass for cursors keeps the queries. -/
theorem follows_passBefore (kind : HandleKind) :
    (passBefore settings source kind).Follows settings kind []
      ((declared settings source kind).map (·.value.name)) := by
  have cursors : (passBefore settings source .cursor).Follows settings .cursor []
      ((declared settings source .cursor).map (·.value.name)) :=
    ⟨tidy, Names.wordy_seeded valid source, rfl, (map_name_declared valid tidy .cursor).symm⟩
  cases kind with
  | cursor => exact cursors
  | query =>
    obtain ⟨_, _, between, others⟩ := cursors.through valid apart source
    have names : namesFrom settings .query true (passBefore settings source .query).content =
        (declared settings source .query).map (·.value.name) := by
      rw [map_name_declared valid tidy]
      exact others .query (by decide)
    have all : (declared settings (passBefore settings source .query).content .query).map
        (·.value.name) = _ := map_name_declared valid between.tidy .query
    exact ⟨between.tidy, between.wordy, all.trans names, names⟩

/-- **Every entry has its turn**, and what is found at its turn bears its name. -/
theorem turnsOf_paired (kind : HandleKind) :
    (turnsOf settings source kind).length = (declared settings source kind).length ∧
      ∀ turn ∈ turnsOf settings source kind, turn.found.value.name = turn.entry.value.name := by
  obtain ⟨length, paired, _⟩ := (follows_passBefore valid apart tidy kind).through valid apart source
  exact ⟨length, paired⟩

/-- **What the passes leave declared is what they skip.** -/
theorem names_passAfter :
    Tidy settings (passAfter settings source .query).content ∧
      (passAfter settings source .query).names.Wordy ∧
      ∀ kind, namesFrom settings kind true (passAfter settings source .query).content =
        (turnsOf settings source kind).filterMap Turn.skippedName? := by
  obtain ⟨_, _, cursors, _⟩ := (follows_passBefore valid apart tidy .cursor).through valid apart source
  obtain ⟨_, _, queries, others⟩ :=
    (follows_passBefore valid apart tidy .query).through valid apart source
  refine ⟨queries.tidy, queries.wordy, fun kind => ?_⟩
  cases kind with
  | query =>
    have left := queries.names_eq
    rw [List.nil_append, List.append_nil] at left
    exact left
  | cursor =>
    have left := cursors.names_eq
    rw [List.nil_append, List.append_nil] at left
    exact (others .cursor (by decide)).trans left

end Run

end ScopedHandles
