/-
**When a repair is final.**

Mended headers stay in the text, and a second repair reads them like any other line. A completed repair
leaves no header that was there before, so what a second one finds stands in the headers that the first one
has written. It finds nothing exactly if none of them holds a header.

* `mendsOf` — the headers that a repair mends.
* `Repair.headers_run_ge` — the headers inside of mended ones are left behind.
* `Repair.headers_run_eq_zero` — nothing else is.
* `repair_final_iff` — when a second repair finds nothing.
-/

import ScopedHandles.Proofs.Completion

namespace ScopedHandles

/-- The headers that the repair of a text mends. -/
def mendsOf (content : Text) (names : Names) : List Mend :=
  Repair.mends (LooseStatement.all content).length 0 { content, names }

/-! ### One header -/

/-- A header reaches through its first brace. -/
theorem exists_front_of_read? {text : Text} {loose : LooseStatement}
    (read : LooseStatement.read? text = some loose) :
    ∃ front, '{' ∉ front ∧
      loose.indent ++ (loose.resource ++ (loose.statement ++ loose.chain)) = front ++ ['{'] := by
  obtain ⟨lead, calls, _, _, _, braceless, rfl⟩ := exists_lead_of_read? read
  refine ⟨lead.front ++ calls, ?_, ?_⟩
  · rw [List.mem_append, not_or]
    exact ⟨lead.not_mem_front (by decide), braceless⟩
  · unfold Lead.front
    simp only [List.append_assoc, List.cons_append, List.nil_append]

namespace MendedAt

variable {place : Nat} {repair later : Repair} {found : Occurrence LooseStatement}
  (mended : MendedAt place repair later found)

/-- **One header is mended, and those inside of it come in its place.** -/
theorem headers_add_le :
    headers none repair.content + headers none mended.written.header ≤ headers none later.content + 1 := by
  obtain ⟨front, braceless, same⟩ := exists_front_of_read? mended.read
  have before : repair.content = mended.site.above ++ (front ++ '{' :: mended.site.layout.later) := by
    refine mended.site.content_parts.trans ?_
    rw [List.append_cons front, ← same]
    simp only [List.append_assoc]
  have content : later.content = mended.site.above ++ (found.value.indent ++
      (mended.written.resources ++ mended.block)) := by
    rw [mended.content_cut, List.append_assoc]
  have begins := mended.begins
  rw [← Option.or_none (o := mended.site.above.getLast?)] at begins
  have exchange := headers_exchange braceless begins mended.site.layout.later
    (found.value.indent ++ (mended.written.resources ++ mended.block))
  rw [mended.headers_behind, ← before, ← content] at exchange
  change _ + headers none (found.value.indent ++ mended.written.resources) ≤ _
  omega

end MendedAt

/-! ### Nothing begins before the search -/

/-- No header begins in a piece of a text, `text` being what comes behind the piece. -/
def Clear (before text : Text) : Prop :=
  ∀ line ∈ linesFrom true before, LooseStatement.read? (line ++ text) = none

theorem Clear.headers_eq_zero {before text : Text} (clear : Clear before text)
    (none : headers before.getLast? text = 0) : headers .none (before ++ text) = 0 := by
  rw [headers_eq_zero_iff] at none ⊢
  rw [← Option.or_none (o := before.getLast?), ← endsLine_eq] at none
  intro line mem
  rw [linesFrom_append] at mem
  rcases List.mem_append.mp mem with inside | behind
  · obtain ⟨piece, inBefore, rfl⟩ := List.mem_map.mp inside
    exact clear piece inBefore
  · exact none line behind

theorem headers_of_remaining {place : Nat} {content : Text} (none : remaining place content = 0) :
    headers (content.take place).getLast? (content.drop place) = 0 := by
  by_cases inside : place ≤ content.length
  · have split := remaining_append (content.take place) (content.drop place)
    rwa [List.take_append_drop, List.length_take_of_le inside, none, eq_comm] at split
  · rw [List.drop_of_length_le (by omega)]
    rfl

theorem passesNone_looseStatement (last : Option Char) (text : Text) (length : Nat) :
    LooseStatement.probe last text ≠ .pass length := by
  unfold LooseStatement.probe
  split_ifs
  · split <;> simp
  · simp

namespace MendedAt

variable {place : Nat} {repair later : Repair} {found : Occurrence LooseStatement}
  (mended : MendedAt place repair later found)

/-- Before the header that is found none begins. A place is one where the search has looked, or it stands
before the search. -/
theorem clear_above (clear : Clear (repair.content.take place) (repair.content.drop place)) :
    Clear mended.site.above mended.site.text := by
  intro line mem
  obtain ⟨some, early, above, ends⟩ := exists_of_mem_linesFrom mem
  have whole : repair.content = early ++ (line ++ mended.site.text) := by
    rw [← List.append_assoc, ← above]
    exact mended.site.content_eq
  by_cases searched : place ≤ early.length
  · cases read : LooseStatement.read? (line ++ mended.site.text) with
    | none => rfl
    | some loose =>
      exfalso
      have next := mended.next
      rw [whole] at next
      have sooner : early.length < found.place := by
        rw [mended.site.place_eq, above, List.length_append]
        have := List.length_pos_of_ne_nil some
        omega
      have seen : LooseStatement.probe (early.getLast?.or .none) (line ++ mended.site.text) =
          .hit loose loose.length := by
        unfold LooseStatement.probe
        rw [← endsLine_eq, show endsLine (beginsLine .none) early = true from ends, if_pos rfl, read]
      exact ne_hit_of_firstHit advances_looseStatement passesNone_looseStatement next searched sooner seen
  · obtain ⟨distance, rfl⟩ := Nat.exists_eq_add_of_lt (Nat.lt_of_not_le searched)
    rw [Nat.add_assoc, whole, List.take_length_add_append, List.drop_length_add_append] at clear
    have begins : (line ++ mended.site.text).take (distance + 1) ≠ [] := by
      obtain ⟨c, rest, rfl⟩ := List.exists_cons_of_ne_nil some
      exact List.cons_ne_nil _ _
    have read := clear _ (mem_linesFrom begins ends)
    rwa [List.take_append_drop] at read

/-- The text that is put in begins with a resource, in the indentation of the header. -/
theorem exists_opened : ∃ rest, found.value.indent ++ (mended.written.resources ++ mended.block) =
    opened found.value.indent rest := by
  have first : "try (var ".toList = "try".toList ++ ([' '] ++ '(' :: "var ".toList) := by decide
  unfold Mend.resources opened written
  rw [first]
  simp only [List.append_assoc, List.cons_append, List.nil_append]
  exact ⟨_, rfl⟩

/-- A mended header that holds none is none itself. -/
theorem read?_written (none : headers none mended.written.header = 0) :
    LooseStatement.read? (found.value.indent ++ (mended.written.resources ++ mended.block)) = .none := by
  obtain ⟨init, same⟩ := mended.exists_init_resources
  have header : mended.written.header = (found.value.indent ++ init) ++ ['{'] := by
    rw [Mend.header, same, List.append_assoc]
    rfl
  have some : mended.written.header ≠ [] := header ▸ List.append_ne_nil_of_right_ne_nil _ (by simp)
  have first : mended.written.header ∈ linesFrom true ([] ++ mended.written.header) := mem_linesFrom some rfl
  have unread := (headers_eq_zero_iff _ _).mp none mended.written.header first
  have split : found.value.indent ++ (mended.written.resources ++ mended.block) =
      (found.value.indent ++ init) ++ '{' :: mended.block := by
    rw [same]
    simp only [List.append_assoc, List.cons_append, List.nil_append]
  rw [← Option.not_isSome_iff_eq_none, isSome_read?_iff, header, isLead_stop (by decide)] at unread
  rw [← Option.not_isSome_iff_eq_none, isSome_read?_iff, split, isLead_stop (by decide)]
  exact fun both => unread ⟨both.1, List.mem_append_right _ List.mem_cons_self⟩

/-- **Before a mended header that holds none, none begins.** In its indentation only the header itself
begins. -/
theorem clear_written (clear : Clear mended.site.above mended.site.text)
    (none : headers none mended.written.header = 0) :
    Clear (later.content.take (found.place + found.value.indent.length))
      (later.content.drop (found.place + found.value.indent.length)) := by
  rw [mended.place_cut, mended.content_cut, List.take_left, List.drop_left]
  intro line mem
  rw [linesFrom_append, mended.site.begins] at mem
  rcases List.mem_append.mp mem with inside | first
  · obtain ⟨piece, inAbove, rfl⟩ := List.mem_map.mp inside
    obtain ⟨resource, opens⟩ := mended.exists_opened
    have unread := clear piece inAbove
    rw [← Option.not_isSome_iff_eq_none, isSome_read?_iff] at unread ⊢
    rw [List.append_assoc, opens, isLead_before_opening mended.site.layout.indent_blank
      (getLast?_of_mem_linesFrom mended.site.begins inAbove)]
    refine fun both => unread ⟨isLead_append both.1 _, List.mem_append_right _ ?_⟩
    rw [mended.site.layout.text_eq, mended.site.layout.chain_eq]
    simp
  · obtain ⟨some, early, indent, ends⟩ := exists_of_mem_linesFrom first
    have single : '\n' ∉ found.value.indent := fun mem =>
      absurd (mended.site.layout.indent_blank _ mem) (by decide)
    obtain rfl : line = found.value.indent := by
      rw [← List.append_nil found.value.indent] at first
      have nonempty : found.value.indent ≠ [] := by
        rw [indent]
        exact List.append_ne_nil_of_right_ne_nil _ some
      rcases cases_of_mem_single nonempty single first with ⟨_, same⟩ | none
      · rwa [List.append_nil] at same
      · cases none
    exact mended.read?_written none

/-- **A mended header that holds none is one header less.** -/
theorem remaining_lt (none : headers none mended.written.header = 0) :
    remaining (found.place + found.value.indent.length) later.content < remaining place repair.content := by
  have suffix := headers_le_append mended.site.above.getLast? found.value.indent
    (mended.written.resources ++ mended.block)
  rw [headers_of_begins mended.begins, mended.headers_behind] at suffix
  change _ ≤ headers .none mended.written.header + _ at suffix
  rw [mended.site.remaining_of_firstHit mended.next, mended.place_cut, mended.content_cut, remaining_append,
    List.getLast?_append]
  omega

end MendedAt

/-! ### All headers of a text -/

namespace Repair

/-- **A header inside of a mended one is left behind**, for each of those that hold one. -/
theorem headers_run_ge (count place : Nat) (repair : Repair) :
    headers none repair.content +
        (repair.mends count place).countP (fun mend => 0 < headers none mend.header) ≤
      headers none (repair.run count place).content + (repair.mends count place).length := by
  induction count, place, repair using run_induction with
  | ends count place repair same none _ =>
    rw [same, none]
    exact le_refl _
  | stops count place repair error same none =>
    rw [same, none]
    exact le_refl _
  | step count place repair later found mended same first ih =>
    have one := mended.headers_add_le
    rw [same, first, List.countP_cons, List.length_cons]
    by_cases holds : 0 < headers none mended.written.header
    · rw [if_pos (decide_eq_true holds)]
      omega
    · rw [if_neg (by simpa using holds)]
      omega

/-- **Nothing else is left behind**, if no error stops the repair. -/
theorem headers_run_eq_zero {count place : Nat} {repair : Repair}
    (clear : Clear (repair.content.take place) (repair.content.drop place))
    (enough : remaining place repair.content ≤ count)
    (complete : (repair.run count place).error = none)
    (none : ∀ mend ∈ repair.mends count place, headers none mend.header = 0) :
    headers .none (repair.run count place).content = 0 := by
  induction count, place, repair using run_induction with
  | ends count place repair same _ left =>
    have done : remaining place repair.content = 0 := left.elim (fun zero => by omega) id
    have behind := clear.headers_eq_zero (headers_of_remaining done)
    rwa [same, ← List.take_append_drop place repair.content]
  | stops count place repair error same _ =>
    rw [same] at complete
    cases complete
  | step count place repair later found mended same first ih =>
    rw [same] at complete ⊢
    rw [first] at none
    have written := none mended.written List.mem_cons_self
    have fewer := mended.remaining_lt written
    exact ih (mended.clear_written (mended.clear_above clear) written) (by omega) complete
      fun mend mem => none mend (List.mem_cons_of_mem _ mem)

/-- What is mended was read, and the names of statements are words. -/
theorem forall_mem_mends {count place : Nat} {repair : Repair} (wordy : repair.names.Wordy) :
    ∀ mend ∈ repair.mends count place,
      (∃ text, LooseStatement.read? text = some mend.loose) ∧ Word mend.name := by
  induction count, place, repair using run_induction with
  | ends count place repair _ none _ => simp [none]
  | stops count place repair error _ none => simp [none]
  | step count place repair later found mended _ first ih =>
    obtain ⟨_, allocated, _⟩ := Names.nextStatement_eq_some mended.issued
    rw [first, List.forall_mem_cons]
    exact ⟨⟨⟨_, mended.read⟩, Counter.word_of_allocate wordy.statements allocated⟩,
      ih (wordy.of_nextStatement mended.issued)⟩

end Repair

/-! ### The second repair -/

theorem all_eq_nil_iff (text : Text) : LooseStatement.all text = [] ↔ headers none text = 0 :=
  List.length_eq_zero_iff.symm

/-- A repair that finds nothing leaves the text as it is. -/
theorem content_of_no_headers {content : Text} (names : Names) (none : headers none content = 0) :
    (repairStatements content names).content = content := by
  rw [repairStatements, (all_eq_nil_iff content).mpr none]
  rfl

/-- **What a completed repair leaves** stands in the headers that it has written. As many are mended as there
were, and those inside of them are left. -/
theorem headers_repaired_eq_zero_iff {content : Text} {names : Names}
    (complete : (repairStatements content names).error = none) :
    headers none (repairStatements content names).content = 0 ↔
      ∀ mend ∈ mendsOf content names, headers none mend.header = 0 := by
  constructor
  · intro none mend mem
    have counted : (LooseStatement.all content).length = remaining 0 content := rfl
    have before : headers .none content = (LooseStatement.all content).length := rfl
    have all := (Repair.run_complete_iff (show Repair.error { content, names } = .none from rfl) counted.le).mp
      complete
    rw [Repair.repaired_run] at all
    have left := Repair.headers_run_ge (LooseStatement.all content).length 0 { content, names }
    unfold repairStatements at none
    dsimp only at left
    have nowhere : (mendsOf content names).countP (fun mend => 0 < headers .none mend.header) = 0 := by
      unfold mendsOf
      omega
    have free := List.countP_eq_zero.mp nowhere mend mem
    rwa [decide_eq_true_eq, Nat.not_lt, Nat.le_zero] at free
  · intro none
    refine Repair.headers_run_eq_zero (fun line mem => ?_) (le_refl (remaining 0 content)) complete none
    cases mem

/-- **When a completed repair is final**: a second one finds nothing and leaves the text as it is exactly if
no header that was written holds another. If names are words, that is so exactly if no statement is made from
another one that was just made, and no line of a chain begins a header. -/
theorem repair_final_iff {content : Text} {names : Names}
    (complete : (repairStatements content names).error = none) :
    let once := repairStatements content names
    let again := repairStatements once.content once.names
    ((again.summary once.content).found = 0 ∧ again.content = once.content ↔
      ∀ mend ∈ mendsOf content names, LooseStatement.all mend.header = []) ∧
    (names.Wordy → ∀ mend ∈ mendsOf content names,
      (LooseStatement.all mend.header = [] ↔
        ¬ creation ++ ['.'] <:+: trim mend.loose.statement ∧
          ∀ before line, mend.loose.chain = before ++ '\n' :: line → LooseStatement.read? line = none)) := by
  intro once again
  simp only [all_eq_nil_iff]
  constructor
  · rw [← headers_repaired_eq_zero_iff complete]
    exact ⟨And.left, fun none => ⟨none, content_of_no_headers once.names none⟩⟩
  · intro wordy mend mem
    obtain ⟨⟨text, read⟩, isWord⟩ := Repair.forall_mem_mends wordy mend mem
    exact mend.headers_eq_zero_iff read isWord

/-- A header in the block of another, with a chain that goes on in the next line. -/
def nestedStatements : Text :=
  "try (A a = c.createStatement()\n  .q(x)) \x7b\n".toList ++
    " try (B b = d.e().createStatement().r()) \x7b\n \x7d\n\x7d\n".toList

/-- Sources of short names. -/
def briefNames : Names where
  handles := .seeded ['h'] []
  statements := .seeded ['s'] []

theorem nestedStatements_final :
    let once := repairStatements nestedStatements briefNames
    let again := repairStatements once.content once.names
    once.error = none ∧ briefNames.Wordy ∧ (mendsOf nestedStatements briefNames).length = 2 ∧
      (again.summary once.content).found = 0 ∧ again.content = once.content ∧
      ∀ mend ∈ mendsOf nestedStatements briefNames, ¬ creation ++ ['.'] <:+: trim mend.loose.statement := by
  have complete : (repairStatements nestedStatements briefNames).error = none := by decide +kernel
  have wordy : briefNames.Wordy :=
    ⟨List.all_eq_true.mp (by decide +kernel), List.all_eq_true.mp (by decide +kernel)⟩
  have none : ∀ mend ∈ mendsOf nestedStatements briefNames, LooseStatement.all mend.header = [] := by
    decide +kernel
  obtain ⟨final, parts⟩ := repair_final_iff complete
  obtain ⟨found, same⟩ := final.mpr none
  exact ⟨complete, wordy, by decide +kernel, found, same, fun mend mem =>
    ((parts wordy mend mem).mp (none mend mem)).1⟩

/-- A statement that is made from another one that was just made. -/
def statementOfStatement : Text :=
  "try (A a = c.createStatement().b.createStatement().q()) \x7b\n\x7d\n".toList

theorem statementOfStatement_not_final :
    let once := repairStatements statementOfStatement briefNames
    let again := repairStatements once.content once.names
    once.error = none ∧ (again.summary once.content).found = 1 ∧ again.content ≠ once.content := by
  decide +kernel

/-- A line of a chain that begins another header. -/
example :
    let once := repairStatements
      "try (A a = c.createStatement().q(\ntry (B b = d.createStatement().r()) \x7b\n\x7d\n".toList briefNames
    once.error = none ∧ once.repaired = 1 ∧ (LooseStatement.all once.content).length = 1 := by
  decide +kernel

end ScopedHandles
