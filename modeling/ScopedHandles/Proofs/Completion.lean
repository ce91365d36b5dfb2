/-
**A repair is complete, or says why it is not.**

Headers are counted before the first is mended, but each is searched for in the text as it is by then. A
header that is mended is one header less, and the others stay: those inside of its block, those behind it,
and one whose chain goes on beyond the end of the block. So a search that the count allows never fails.

* `remaining_of_firstHit` — the headers that are left where the next one is known.
* `MendedAt.remaining_le` — one header that is mended takes no other away.
* `Repair.run_induction` — a repair goes from one mended header to the next.
* `Repair.run_complete_iff` — a repair that counts no more headers than there are.
* `repair_complete_iff_no_error` — the repair of a text.
-/

import ScopedHandles.Proofs.MendedHeader

namespace ScopedHandles

/-- The number of headers whose lines begin at or behind a place. -/
def remaining (place : Nat) (content : Text) : Nat :=
  (allHits LooseStatement.probe place 0 none content).length

theorem remaining_append (piece text : Text) :
    remaining piece.length (piece ++ text) = headers piece.getLast? text := by
  unfold remaining headers
  rw [allHits_skip, length_allHits_place, Option.or_none]

theorem advances_looseStatement : Advances LooseStatement.probe LooseStatement.length := by
  intro last text loose length seen
  unfold LooseStatement.probe at seen
  split_ifs at seen
  split at seen
  · cases seen
  · next read =>
    obtain ⟨rfl, rfl⟩ := Probe.hit.inj seen
    obtain ⟨_, _, _, _, _, _, rfl⟩ := exists_lead_of_read? read
    refine ⟨rfl, ?_⟩
    simp only [LooseStatement.length, List.length_append, List.length_cons]
    omega

/-! ### One header -/

namespace LooseSite

variable {content : Text} {found : Occurrence LooseStatement} (site : LooseSite content found)

/-- **The headers that are left where the next one is known**: this one, and those behind it. -/
theorem remaining_of_firstHit {place : Nat}
    (next : firstHit LooseStatement.probe place none content = some found) :
    remaining place content = headers (some '{') site.layout.later + 1 := by
  rw [firstHit_eq_head?] at next
  obtain ⟨others, all⟩ := List.head?_eq_some_iff.mp next
  obtain ⟨distance, here, _, same⟩ := allHits_eq_cons advances_looseStatement all
  rw [Nat.zero_add] at here
  have split : content = (site.above ++ (found.value.indent ++ (found.value.resource ++
      (found.value.statement ++ found.value.chain)))) ++ site.layout.later := by
    refine site.content_parts.trans ?_
    simp only [List.append_assoc]
  have size : distance + found.value.length = (site.above ++ (found.value.indent ++
      (found.value.resource ++ (found.value.statement ++ found.value.chain)))).length := by
    simp only [← here, site.place_eq, LooseStatement.length, List.length_append]
    omega
  have last : (site.above ++ (found.value.indent ++ (found.value.resource ++
      (found.value.statement ++ found.value.chain)))).getLast? = some '{' := by
    rw [site.layout.chain_eq]
    simp only [← List.append_assoc, List.getLast?_concat]
  have behind : others.length = headers (some '{') site.layout.later := by
    have skipped := congrArg List.length same
    rw [size] at skipped
    refine skipped.trans ?_
    rw [← last, ← remaining_append, ← split]
    rfl
  unfold remaining
  rw [all, List.length_cons, behind]

/-- The block of a header holds as many headers when it is closed anew. -/
theorem headers_block {inner rest : Text} (whole : site.layout.later = inner ++ '}' :: rest)
    (last : Option Char) :
    headers last (trimEnd inner ++ ('\n' :: found.value.indent ++
      '}' :: (trailingBlanks inner ++ '}' :: rest))) = headers last site.layout.later := by
  have blank : ∀ c ∈ '\n' :: found.value.indent, isWhiteSpace c = true := by
    intro c mem
    rcases List.mem_cons.mp mem with rfl | inIndent
    · decide
    · exact isWhiteSpace_of_isIndentChar (site.layout.indent_blank c inIndent)
  rw [headers_reclosed isWhiteSpace_of_mem_trailingBlanks blank, ← List.append_assoc,
    trimEnd_append_trailingBlanks, whole]

end LooseSite

namespace MendedAt

variable {place : Nat} {repair later : Repair} {found : Occurrence LooseStatement}
  (mended : MendedAt place repair later found)

theorem headers_behind (last : Option Char) (text : Text) :
    headers last (text ++ (mended.written.resources ++ mended.block)) =
      headers last (text ++ mended.written.resources) + headers (some '{') mended.site.layout.later := by
  obtain ⟨init, same⟩ := mended.exists_init_resources
  have split : text ++ (init ++ ['{'] ++ mended.block) = (text ++ init) ++ '{' :: mended.block := by
    simp only [List.append_assoc, List.cons_append, List.nil_append]
  rw [same, split, headers_append_brace, ← List.append_assoc, block,
    mended.site.headers_block mended.later_eq]

include mended in
/-- **A header that is mended takes no other away.** -/
theorem remaining_le : remaining place repair.content ≤
    remaining (found.place + found.value.indent.length) later.content + 1 := by
  have behind := mended.headers_behind (mended.site.above ++ found.value.indent).getLast? []
  rw [List.nil_append, List.nil_append] at behind
  rw [mended.site.remaining_of_firstHit mended.next, mended.place_cut, mended.content_cut,
    remaining_append, behind]
  omega

end MendedAt

/-! ### All headers of a text -/

namespace Repair

/-- The headers that a repair mends, in their order. -/
def mends : (count place : Nat) → Repair → List Mend
  | 0, _, _ => []
  | count + 1, place, repair =>
    match firstHit LooseStatement.probe place none repair.content with
    | none => []
    | some found =>
      match repair.mend found, repair.names.nextStatement with
      | .ok later, some (name, _) =>
        ⟨found.value, name⟩ :: later.mends count (found.place + found.value.indent.length)
      | _, _ => []

theorem mends_of_mend (count : Nat) {place : Nat} {repair later : Repair}
    {found : Occurrence LooseStatement} (mended : MendedAt place repair later found) :
    repair.mends (count + 1) place =
      mended.written :: later.mends count (found.place + found.value.indent.length) := by
  rw [mends, mended.next]
  simp only [mended.done, mended.issued]
  rfl

/-- **A repair goes from one mended header to the next**, until it has mended as many as it counts, none is
left, or an error stops it. -/
@[elab_as_elim]
theorem run_induction {motive : Nat → Nat → Repair → Prop}
    (ends : ∀ count place repair, repair.run count place = repair → repair.mends count place = [] →
      (count = 0 ∨ remaining place repair.content = 0) → motive count place repair)
    (stops : ∀ count place repair error,
      repair.run (count + 1) place = { repair with error := some error } →
      repair.mends (count + 1) place = [] → motive (count + 1) place repair)
    (step : ∀ count place repair later found, ∀ mended : MendedAt place repair later found,
      repair.run (count + 1) place = later.run count (found.place + found.value.indent.length) →
      repair.mends (count + 1) place =
        mended.written :: later.mends count (found.place + found.value.indent.length) →
      motive count (found.place + found.value.indent.length) later → motive (count + 1) place repair)
    (count place : Nat) (repair : Repair) : motive count place repair := by
  induction count generalizing place repair with
  | zero => exact ends 0 place repair rfl rfl (.inl rfl)
  | succ count ih =>
    cases next : firstHit LooseStatement.probe place none repair.content with
    | none =>
      refine ends _ _ _ (by simp only [run, next]) (by simp only [mends, next]) (.inr ?_)
      rw [firstHit_eq_head?, List.head?_eq_none_iff] at next
      rw [remaining, next]
      rfl
    | some found =>
      cases done : repair.mend found with
      | error error =>
        exact stops _ _ _ error (by simp only [run, next, done]) (by simp only [mends, next, done])
      | ok later =>
        obtain ⟨mended⟩ := MendedAt.nonempty next done
        exact step _ _ _ _ _ mended (by simp only [run, next, done]) (mends_of_mend count mended) (ih _ _)

theorem repaired_run (count place : Nat) (repair : Repair) :
    (repair.run count place).repaired = repair.repaired + (repair.mends count place).length := by
  induction count, place, repair using run_induction with
  | ends count place repair same none _ => rw [same, none, List.length_nil, Nat.add_zero]
  | stops count place repair error same none => rw [same, none, List.length_nil, Nat.add_zero]
  | step count place repair later found mended same first ih =>
    rw [same, first, ih, repaired_of_mend mended.done, List.length_cons]
    omega

theorem error_of_mend {repair later : Repair} {found : Occurrence LooseStatement}
    (done : repair.mend found = .ok later) : later.error = repair.error := by
  obtain ⟨_, _, _, _, _, rfl⟩ := mend_eq_ok done
  rfl

/-- **A repair that counts no more headers than there are** mends all that it counts, or stops with an
error. -/
theorem run_complete_iff {count place : Nat} {repair : Repair} (clean : repair.error = none)
    (enough : count ≤ remaining place repair.content) :
    (repair.run count place).error = none ↔
      (repair.run count place).repaired = repair.repaired + count := by
  induction count, place, repair using run_induction with
  | ends count place repair same _ left =>
    have zero : count = 0 := left.elim id fun none => by omega
    rw [same, zero]
    exact iff_of_true clean rfl
  | stops count place repair error same _ =>
    rw [same]
    refine iff_of_false (fun none => by cases none) ?_
    simp only
    omega
  | step count place repair later found mended same _ ih =>
    have left := mended.remaining_le
    have others := ih ((error_of_mend mended.done).trans clean) (by omega)
    rw [same, others, repaired_of_mend mended.done, Nat.add_right_comm, Nat.add_assoc]

end Repair

/-- **A repair is complete, or says why it is not.** No more headers are mended than were found, and all of
them are exactly if there is no error. -/
theorem repair_complete_iff_no_error (content : Text) (names : Names) :
    ((repairStatements content names).summary content).repaired ≤
        ((repairStatements content names).summary content).found ∧
      (((repairStatements content names).summary content).error = none ↔
        ((repairStatements content names).summary content).repaired =
          ((repairStatements content names).summary content).found) := by
  unfold Repair.summary repairStatements
  refine ⟨(Repair.repaired_run_le _ _ _).trans (Nat.zero_add _).le, ?_⟩
  have complete := Repair.run_complete_iff (show Repair.error { content, names } = none from rfl)
    (le_refl (remaining 0 content))
  rwa [Nat.zero_add] at complete

end ScopedHandles
