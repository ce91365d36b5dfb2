/-
**Skips and the lines they are reported for.**

A skip is reported with the name of the declaration that is found and the line of the entry whose turn
it is. Declarations stand on different lines (`pairwise_line`), so the line tells which entry is meant:
a skip names a declaration of the source on its line exactly if what is found bears the name of the
entry (`attributed_iff`). In a tidy text it always does.
-/

import ScopedHandles.Proofs.TidyRun

namespace ScopedHandles

/-! ### Lines -/

theorem lineAt_le {text : Text} {place later : Nat} (order : place ≤ later) :
    lineAt text place ≤ lineAt text later := by
  unfold lineAt
  have initial : text.take place <+: text.take later := List.take_prefix_take_left order
  exact Nat.succ_le_succ (initial.sublist.count_le '\n')

/-- Between two places lies a line break, so the second is on a later line. -/
theorem lineAt_lt {before behind : Text} {place later : Nat}
    (line : before.getLast? = some '\n') (inside : place < before.length)
    (order : before.length ≤ later) :
    lineAt (before ++ behind) place < lineAt (before ++ behind) later := by
  obtain ⟨start, rfl⟩ := List.getLast?_eq_some_iff.mp line
  have shorter : place ≤ start.length := by
    rw [List.length_append, List.length_singleton] at inside
    omega
  calc lineAt (start ++ ['\n'] ++ behind) place
      ≤ lineAt (start ++ ['\n'] ++ behind) start.length := lineAt_le shorter
    _ < lineAt (start ++ ['\n'] ++ behind) (start ++ ['\n']).length := by
        unfold lineAt
        rw [List.append_assoc, List.take_left, ← List.append_assoc, List.take_left, List.count_append]
        simp
    _ ≤ lineAt (start ++ ['\n'] ++ behind) later := lineAt_le order

/-- A declaration begins a line, and the declared type stands on that line before its end. -/
theorem exists_line_of_mem {kind : HandleKind} {ending source : Text}
    {found : Occurrence Declaration} (mem : found ∈ declarations kind ending source) :
    ∃ before behind, source = before ++ behind ∧ found.place = before.length ∧
      beginsLine before.getLast? = true ∧ found.start < found.stop := by
  obtain ⟨before, behind, length, rfl, here, _, seen⟩ := exists_of_mem_allHits mem
  obtain ⟨layout, rfl, begins, made⟩ := Declaration.exists_layout_of_probe seen
  obtain ⟨_, indent, _, _, same, size⟩ := Declaration.eq_of_ofHead made
  rw [Option.or_none] at begins
  refine ⟨before, layout.text, rfl, by rw [here, Nat.zero_add], begins, ?_⟩
  rw [Occurrence.start, Occurrence.stop, indent, ← same]
  have longer : layout.indent.length < layout.text.length - layout.rest.length := by
    simp only [Layout.text, Layout.line, Layout.behindType, Layout.behindName, List.length_append,
      List.length_cons]
    omega
  exact Nat.add_lt_add_left (lt_of_lt_of_le longer size) _

/-- **Declarations stand on different lines.** -/
theorem pairwise_line (kind : HandleKind) (ending source : Text) :
    (declarations kind ending source).Pairwise fun found later =>
      lineAt source found.start < lineAt source later.start := by
  have apart := pairwise_allHits (@Declaration.advances_probe kind ending) 0 0 none source
  refine List.Pairwise.imp_of_mem (fun {found later} mem laterMem order => ?_) apart
  obtain ⟨_, _, _, _, _, inside⟩ := exists_line_of_mem mem
  obtain ⟨before, behind, rfl, here, begins, _⟩ := exists_line_of_mem laterMem
  have ordered : found.start < before.length := by
    rw [← here]
    exact lt_of_lt_of_le inside order
  have line : before.getLast? = some '\n' := by
    cases last : before.getLast? with
    | none =>
      rw [List.getLast?_eq_none_iff] at last
      simp [last] at ordered
    | some c =>
      rw [last] at begins
      simpa [beginsLine] using begins
  exact lineAt_lt line ordered (by rw [Occurrence.start, here]; omega)

theorem eq_of_line_eq {kind : HandleKind} {ending source : Text} {found other : Occurrence Declaration}
    (mem : found ∈ declarations kind ending source) (otherMem : other ∈ declarations kind ending source)
    (same : lineAt source found.start = lineAt source other.start) : found = other := by
  obtain ⟨index, inside, rfl⟩ := List.mem_iff_getElem.mp mem
  obtain ⟨otherIndex, otherInside, rfl⟩ := List.mem_iff_getElem.mp otherMem
  have ordered := List.pairwise_iff_getElem.mp (pairwise_line kind ending source)
  rcases Nat.lt_trichotomy index otherIndex with before | rfl | behind
  · have := ordered _ _ inside otherInside before
    omega
  · rfl
  · have := ordered _ _ otherInside inside behind
    omega

/-! ### Skips -/

variable {settings : Settings} {source : Text}

theorem entry_mem_of_mem_turns {kind : HandleKind} {ending : Text}
    {entries : List (Occurrence Declaration)} {pass : Pass} {turn : Turn}
    (mem : turn ∈ Pass.turns kind ending source entries pass) : turn.entry ∈ entries := by
  induction entries generalizing pass with
  | nil => simp [Pass.turns] at mem
  | cons entry entries ih =>
    cases next : nextDeclaration kind ending pass.content pass.place with
    | none => simp [Pass.turns_cons_of_none, next] at mem
    | some found =>
      rw [Pass.turns_cons_of_some _ _ _ _ _ next, List.mem_cons] at mem
      rcases mem with rfl | mem
      · exact List.mem_cons_self
      · exact List.mem_cons_of_mem _ (ih mem)

/-- A skip names a declaration of the source on its line. -/
def Attributed (settings : Settings) (source : Text) (skipped : Skipped) : Prop :=
  ∃ declaration ∈ declarations skipped.kind (settings.typeOf skipped.kind) source,
    declaration.value.name = skipped.symbol ∧ lineAt source declaration.start = skipped.line

/-- The turns at which a declaration is skipped find one with the name of the entry. -/
def Paired (turns : List Turn) : Prop :=
  ∀ turn ∈ turns, turn.result.isOk = false → turn.found.value.name = turn.entry.value.name

theorem attributed_skip_iff {kind : HandleKind} {turn : Turn} {skipped : Skipped}
    (mem : turn ∈ turnsOf settings source kind) (skip : turn.skip? source = some skipped) :
    Attributed settings source skipped ↔ turn.found.value.name = turn.entry.value.name := by
  have entryMem : turn.entry ∈ declarations kind (settings.typeOf kind) source :=
    entry_mem_of_mem_turns mem
  have sameKind : skipped.kind = kind := (kind_of_skip? skip).trans (kind_of_mem_turns mem)
  have parts : skipped.symbol = turn.found.value.name ∧
      skipped.line = lineAt source turn.entry.start := by
    unfold Turn.skip? at skip
    split at skip
    · simp at skip
    · obtain rfl := Option.some.inj skip
      exact ⟨rfl, rfl⟩
  rw [Attributed, sameKind, parts.1, parts.2]
  constructor
  · rintro ⟨declaration, declared, name, line⟩
    rw [← name, eq_of_line_eq declared entryMem line]
  · intro name
    exact ⟨turn.entry, entryMem, name.symm, rfl⟩

theorem attributed_iff :
    (∀ skipped ∈ (scopeHandles settings source).skipped, Attributed settings source skipped) ↔
      ∀ kind, Paired (turnsOf settings source kind) := by
  have skips : ∀ kind, (∀ skipped ∈ (turnsOf settings source kind).filterMap (Turn.skip? source),
      Attributed settings source skipped) ↔ Paired (turnsOf settings source kind) := by
    intro kind
    constructor
    · intro all turn mem refused
      cases made : turn.result with
      | ok pair => simp [made, Except.isOk, Except.toBool] at refused
      | error reason =>
        have skip : turn.skip? source = some
            { kind := turn.found.value.kind, symbol := turn.found.value.name
              line := turn.line source, reason } := by
          rw [Turn.skip?, made]
        exact (attributed_skip_iff mem skip).mp (all _ (List.mem_filterMap.mpr ⟨turn, mem, skip⟩))
    · intro paired skipped skippedMem
      obtain ⟨turn, mem, skip⟩ := List.mem_filterMap.mp skippedMem
      refine (attributed_skip_iff mem skip).mpr (paired turn mem ?_)
      cases made : turn.result with
      | ok pair => simp [Turn.skip?, made] at skip
      | error reason => rfl
  rw [skipped_eq]
  constructor
  · intro all kind
    refine (skips kind).mp fun skipped mem => all skipped ?_
    cases kind with
    | cursor => exact List.mem_append_left _ mem
    | query => exact List.mem_append_right _ mem
  · intro paired skipped mem
    rcases List.mem_append.mp mem with inCursors | inQueries
    · exact (skips .cursor).mpr (paired .cursor) skipped inCursors
    · exact (skips .query).mpr (paired .query) skipped inQueries

/-- **Every skip names a declaration of the source on its line exactly if the declarations that are
skipped bear the names of the entries whose turns they take.** It is so in every tidy text. -/
theorem skips_attributed (settings : Settings) (source : Text) :
    ((∀ skipped ∈ (scopeHandles settings source).skipped, Attributed settings source skipped) ↔
      ∀ kind, Paired (turnsOf settings source kind)) ∧
    (settings.validate = .ok () → settings.Apart → Tidy settings source →
      ∀ skipped ∈ (scopeHandles settings source).skipped, Attributed settings source skipped) := by
  refine ⟨attributed_iff, fun valid apart tidy => attributed_iff.mpr ?_⟩
  intro kind turn mem _
  exact (turnsOf_paired valid apart tidy kind).2 turn mem

instance (settings : Settings) (source : Text) (skipped : Skipped) :
    Decidable (Attributed settings source skipped) :=
  inferInstanceAs (Decidable (∃ declaration ∈ _, _))

/-- A cursor that is enclosed, and behind it one that is handed on. -/
def handedOnBlock : Text :=
  "\x7b\n ResultSet a = q();\n ResultSet b = a.rows();\n return b;\n\x7d\n".toList

set_option maxRecDepth 100000 in
theorem handedOnBlock_attributed :
    Tidy {} handedOnBlock ∧
      (scopeHandles {} handedOnBlock).skipped =
        [{ kind := .cursor, symbol := "b".toList, line := 3, reason := .returnsHandle }] ∧
      ∀ skipped ∈ (scopeHandles {} handedOnBlock).skipped, Attributed {} handedOnBlock skipped :=
  have tidy : Tidy {} handedOnBlock := by decide +kernel
  ⟨tidy, by decide +kernel, (skips_attributed {} handedOnBlock).2 (by decide +kernel)
    Settings.apart_default tidy⟩

/-- A cursor whose modifier stands on a line of its own. -/
def markedBlock : Text :=
  "\x7b\nfinal\n ResultSet a = q1();\n ResultSet b = q2();\n\x7d\n".toList

set_option maxRecDepth 100000 in
/-- The second turn finds the enclosed cursor once more, on the line of its type, and skips it in the
place of the second cursor. -/
theorem markedBlock_misattributes :
    Settings.validate {} = .ok () ∧ (scopeHandles {} markedBlock).skipped =
        [{ kind := .cursor, symbol := "generatedVariable1".toList, line := 4,
           reason := .noInitializer }] ∧
      ¬ ∀ skipped ∈ (scopeHandles {} markedBlock).skipped, Attributed {} markedBlock skipped := by
  decide +kernel

end ScopedHandles
