/-
**Tidy texts.**

In a tidy text a declaration is known by its own lines. It has a terminator, no brace closes in it, and
no other line in it begins with a word that leads, so that no declaration stands in another one. Its name
is no word that leads and does not end in `null`. An initializer that ends in `null` is `null`.

Then the declarations of a text are what the single lines declare, whatever stands around them.

* `isTidyLine_iff` — tidiness told by the layouts of a line.
* `map_name_allHits` — the names that are declared, line by line.
-/

import ScopedHandles.Proofs.Quiet
import ScopedHandles.Proofs.Statement

namespace ScopedHandles

/-! ### Tidiness -/

/-- Whether a declaration is plain, where `front` is its text up to the equals sign and `statement` the
text from there to the terminator. -/
def isPlain (settings : Settings) (front name statement : Text) : Bool :=
  quiet settings (front ++ (statement ++ [';'])) && !statement.contains '}' && !settings.leads name
    && !Declaration.endsInNull name
    && (!Declaration.endsInNull (trim statement) || trim statement == "null".toList)

/-- Whether a head at the beginning of `line` is that of a plain declaration, or is no declaration
because a second equals sign follows. -/
def isTidyHead (settings : Settings) (line : Text) (head : Head) : Bool :=
  if head.rest.head? = some '=' then quiet settings (upTo head.rest line)
  else
    match statementEnd head.rest with
    | none => false
    | some terminator =>
      isPlain settings (upTo head.rest line) head.name (head.rest.take terminator)

/-- Whether a line declares nothing, or declares a handle plainly. -/
def isTidyLine (settings : Settings) (line : Text) : Bool :=
  [HandleKind.cursor, HandleKind.query].all fun kind =>
    (Head.read? (settings.typeOf kind) line).all (isTidyHead settings line)

/-- A text whose declarations are plain. -/
def Tidy (settings : Settings) (text : Text) : Prop :=
  ∀ line ∈ linesFrom true text, isTidyLine settings line = true

instance (settings : Settings) (text : Text) : Decidable (Tidy settings text) :=
  inferInstanceAs (Decidable (∀ line ∈ _, _))

/-- A plain declaration. -/
structure Plain (settings : Settings) (front name statement : Text) : Prop where
  ends : Ends statement
  quiet : quiet settings (front ++ (statement ++ [';'])) = true
  unclosed : '}' ∉ statement
  free : settings.leads name = false
  some : Declaration.endsInNull name = false
  null : Declaration.endsInNull (trim statement) = true → trim statement = "null".toList

/-- A front and a name before the rest of a plain declaration, or of a comparison. -/
inductive Fine (settings : Settings) (front name rest : Text) : Prop where
  | comparison (later : Text) : rest = '=' :: later → quiet settings front = true →
      Fine settings front name rest
  | declaration (statement later : Text) : rest = statement ++ ';' :: later →
      rest.head? ≠ some '=' → Plain settings front name statement → Fine settings front name rest

section Tidy

variable {settings : Settings} {ending : Text}

theorem isPlain_iff {front name statement : Text} (ends : Ends statement) :
    isPlain settings front name statement = true ↔ Plain settings front name statement := by
  have parts : isPlain settings front name statement = true ↔
      quiet settings (front ++ (statement ++ [';'])) = true ∧ '}' ∉ statement ∧
        settings.leads name = false ∧ Declaration.endsInNull name = false ∧
        (Declaration.endsInNull (trim statement) = true → trim statement = "null".toList) := by
    simp only [isPlain, Bool.and_eq_true, Bool.not_eq_true', Bool.or_eq_true, beq_iff_eq, and_assoc,
      List.contains_eq_mem, decide_eq_false_iff_not]
    refine and_congr_right fun _ => and_congr_right fun _ => and_congr_right fun _ =>
      and_congr_right fun _ => ?_
    cases Declaration.endsInNull (trim statement) <;> simp
  rw [parts]
  constructor
  · rintro ⟨quiet, unclosed, free, some, null⟩
    exact ⟨ends, quiet, unclosed, free, some, null⟩
  · rintro ⟨_, quiet, unclosed, free, some, null⟩
    exact ⟨quiet, unclosed, free, some, null⟩

theorem isTidyHead_iff (layout : Layout ending) :
    isTidyHead settings layout.text layout.head = true ↔
      Fine settings layout.front layout.name layout.rest := by
  have front : upTo layout.rest layout.text = layout.front := by
    rw [layout.text_eq]
    exact upTo_append _ _
  unfold isTidyHead
  rw [show layout.head.rest = layout.rest from rfl, front]
  split_ifs with double
  · obtain ⟨later, rest⟩ := List.head?_eq_some_iff.mp double
    constructor
    · exact .comparison later rest
    · rintro (⟨_, _, silent⟩ | ⟨_, _, _, single, _⟩)
      · exact silent
      · exact absurd double single
  · constructor
    · intro tidy
      split at tidy
      · exact Bool.noConfusion tidy
      · next terminator found =>
        obtain ⟨statement, later, rest, rfl, ends⟩ := statementEnd_eq_some_iff.mp found
        rw [rest, List.take_left] at tidy
        exact .declaration statement later rest double ((isPlain_iff ends).mp tidy)
    · rintro (⟨later, rest, _⟩ | ⟨statement, later, rest, _, plain⟩)
      · exact absurd (by rw [rest]; rfl) double
      · have found : statementEnd layout.rest = some statement.length :=
          statementEnd_eq_some_iff.mpr ⟨statement, later, rest, rfl, plain.ends⟩
        rw [found]
        show isPlain settings layout.front layout.name (layout.rest.take statement.length) = true
        rw [rest, List.take_left]
        exact (isPlain_iff plain.ends).mpr plain

/-- **A line is tidy if all its layouts are fine.** -/
theorem isTidyLine_iff (words : ∀ kind, Word (settings.typeOf kind)) {line : Text} :
    isTidyLine settings line = true ↔
      ∀ kind, ∀ layout : Layout (settings.typeOf kind), layout.text = line →
        Fine settings layout.front layout.name layout.rest := by
  have kinds : isTidyLine settings line = true ↔
      ∀ kind, (Head.read? (settings.typeOf kind) line).all (isTidyHead settings line) = true := by
    rw [isTidyLine, List.all_eq_true]
    constructor
    · intro all kind
      exact all kind (by cases kind <;> decide)
    · intro all kind _
      exact all kind
  rw [kinds]
  refine forall_congr' fun kind => ?_
  constructor
  · rintro tidy layout rfl
    rw [layout.read?_text (words kind)] at tidy
    exact (isTidyHead_iff layout).mp tidy
  · intro fine
    cases read : Head.read? (settings.typeOf kind) line with
    | none => rfl
    | some head =>
      obtain ⟨layout, rfl, rfl⟩ := Layout.exists_of_read? read
      exact (isTidyHead_iff layout).mpr (fine layout rfl)

/-! ### What a line declares -/

/-- The name that a line declares. -/
def nameAt (settings : Settings) (kind : HandleKind) (line : Text) : Option Text :=
  match Declaration.probe kind (settings.typeOf kind) none line with
  | .hit declaration _ => some declaration.name
  | _ => none

/-- The declaration with a layout and a statement. -/
def Layout.declaration (layout : Layout ending) (kind : HandleKind) (statement : Text) :
    Declaration where
  kind := kind
  indent := layout.indent
  declaredType := layout.mark ++ layout.core
  name := layout.name
  initializer := some (trim statement)
  length := layout.front.length + statement.length + 1

section Probe

variable {kind : HandleKind} {last : Option Char} {layout : Layout ending} {statement later : Text}

theorem probe_of_silent {text : Text} (silent : Head.read? ending text = none) :
    Declaration.probe kind ending last text = .miss := by
  unfold Declaration.probe
  rw [silent, ite_self]

theorem probe_of_inside {text : Text} (inside : beginsLine last = false) :
    Declaration.probe kind ending last text = .miss := by
  unfold Declaration.probe
  rw [inside]
  rfl

theorem probe_text (isWord : Word ending) (begins : beginsLine last = true) :
    Declaration.probe kind ending last layout.text =
      Declaration.ofHead kind layout.head layout.front.length := by
  unfold Declaration.probe
  rw [if_pos begins, layout.read?_text isWord]
  show Declaration.ofHead kind layout.head (layout.text.length - layout.rest.length) = _
  rw [layout.text_eq, List.length_append, Nat.add_sub_cancel]

theorem probe_of_comparison (isWord : Word ending) (begins : beginsLine last = true)
    (rest : layout.rest = '=' :: later) :
    Declaration.probe kind ending last layout.text = .pass layout.front.length := by
  rw [probe_text isWord begins]
  simp [Declaration.ofHead, Layout.head, rest]

theorem probe_of_declaration (isWord : Word ending) (begins : beginsLine last = true)
    (rest : layout.rest = statement ++ ';' :: later) (single : layout.rest.head? ≠ some '=')
    (ends : Ends statement) :
    Declaration.probe kind ending last layout.text =
      if Declaration.endsInNull (trim statement) then .pass layout.front.length
      else .hit (layout.declaration kind statement) (layout.declaration kind statement).length := by
  have found : statementEnd layout.rest = some statement.length :=
    statementEnd_eq_some_iff.mpr ⟨statement, later, rest, rfl, ends⟩
  have cut : layout.rest.take statement.length = statement := by rw [rest, List.take_left]
  rw [probe_text isWord begins]
  simp only [Declaration.ofHead, Layout.head, if_neg single, found, cut]
  rfl

end Probe

section NameAt

variable {kind : HandleKind} {layout : Layout (settings.typeOf kind)} {statement later : Text}

theorem nameAt_of_comparison (isWord : Word (settings.typeOf kind))
    (rest : layout.rest = '=' :: later) : nameAt settings kind layout.text = none := by
  rw [nameAt, probe_of_comparison isWord rfl rest]

theorem nameAt_of_declaration (isWord : Word (settings.typeOf kind))
    (rest : layout.rest = statement ++ ';' :: later) (single : layout.rest.head? ≠ some '=')
    (ends : Ends statement) :
    nameAt settings kind layout.text =
      if Declaration.endsInNull (trim statement) then none else some layout.name := by
  rw [nameAt, probe_of_declaration isWord rfl rest single ends]
  cases Declaration.endsInNull (trim statement) <;> rfl

end NameAt

/-! ### Sealed fronts -/

theorem Layout.sealed_front (layout : Layout ending) : Sealed layout.front :=
  ⟨⟨layout.stem, '=', layout.front_eq, by decide, by decide, by decide⟩⟩

theorem sealed_declaration (front statement : Text) : Sealed (front ++ (statement ++ [';'])) :=
  ⟨⟨front ++ statement, ';', by rw [List.append_assoc], by decide, by decide, by decide⟩⟩

/-! ### The names that a text declares -/

/-- The names that the lines of a text declare. -/
def namesFrom (settings : Settings) (kind : HandleKind) (begins : Bool) (text : Text) : List Text :=
  (linesFrom begins text).filterMap (nameAt settings kind)

section Names

variable (words : ∀ kind, Word (settings.typeOf kind)) {kind : HandleKind}

include words

theorem nameAt_of_silent {line : Text} (silent : settings.leads (firstWord line) = false) :
    nameAt settings kind line = none := by
  rw [nameAt, probe_of_silent (read?_eq_none words silent kind)]

/-- A quiet piece declares nothing but what its first line declares. -/
theorem namesFrom_append_of_quiet {piece : Text} (isSealed : Sealed piece)
    (silent : quiet settings piece = true) (begins : Bool) (later : Text) :
    namesFrom settings kind begins (piece ++ later) =
      (if begins then (nameAt settings kind (piece ++ later)).toList else [])
        ++ namesFrom settings kind false later := by
  have inner : ((linesFrom false piece).map (· ++ later)).filterMap (nameAt settings kind) = [] := by
    rw [List.filterMap_map, List.filterMap_eq_nil_iff]
    intro line mem
    exact nameAt_of_silent words (isSealed.silent silent mem)
  unfold namesFrom
  rw [isSealed.lines_append, List.filterMap_append, List.filterMap_append, inner,
    List.nil_append]
  congr 1
  cases begins with
  | false => rfl
  | true => cases named : nameAt settings kind (piece ++ later) <;> simp [named]

/-- **The names of the declarations of a tidy text are those that its lines declare.** Behind a piece that is
recognised, the rest is searched as a text of its own. -/
theorem map_name_allHits (place : Nat) (last : Option Char) (text : Text)
    (tidy : ∀ line ∈ linesFrom (beginsLine last) text, isTidyLine settings line = true) :
    (allHits (Declaration.probe kind (settings.typeOf kind)) 0 place last text).map (·.value.name) =
      namesFrom settings kind (beginsLine last) text := by
  cases text with
  | nil => rfl
  | cons c rest =>
    have behind : ∀ {piece later : Text}, c :: rest = piece ++ later → Sealed piece →
        beginsLine last = true →
        (allHits (Declaration.probe kind (settings.typeOf kind)) (piece.length - 1) (place + 1)
          (some c) rest).map (·.value.name) = namesFrom settings kind false later := by
      intro piece later split isSealed begins
      have shorter : later.length < (c :: rest).length := by
        have positive := List.length_pos_iff.mpr isSealed.ne_nil
        rw [split, List.length_append]
        omega
      rw [allHits_behind split isSealed.ne_nil, ← isSealed.beginsLine_eq]
      refine map_name_allHits _ _ later fun line mem => tidy line ?_
      rw [begins, split]
      refine mem_linesFrom_behind ?_
      rwa [isSealed.not_endsLine, ← isSealed.beginsLine_eq]
    have next := map_name_allHits (place + 1) (some c) rest
    cases begins : beginsLine last with
    | false =>
      rw [begins] at tidy
      simp only [allHits, probe_of_inside begins]
      exact next tidy
    | true =>
      rw [begins] at tidy
      have later := next fun line mem => tidy line (List.mem_cons_of_mem _ mem)
      cases read : Head.read? (settings.typeOf kind) (c :: rest) with
      | none =>
        have silent : nameAt settings kind (c :: rest) = none := by
          rw [nameAt, probe_of_silent read]
        simp only [allHits, probe_of_silent read, later]
        simp [namesFrom, linesFrom, silent, beginsLine]
      | some head =>
        obtain ⟨layout, same, _⟩ := Layout.exists_of_read? read
        have fine := (isTidyLine_iff words).mp (tidy _ List.mem_cons_self) kind layout same
        have split : c :: rest = layout.front ++ layout.rest := same.symm.trans layout.text_eq
        have front := layout.sealed_front
        cases fine with
        | comparison later double silent =>
          have seen : Declaration.probe kind (settings.typeOf kind) last layout.text = _ :=
            probe_of_comparison (words kind) begins double
          have named := nameAt_of_comparison (words kind) double
          rw [same] at seen named
          simp only [allHits, seen]
          rw [split, namesFrom_append_of_quiet words front silent, ← split, named]
          exact behind split front begins
        | declaration statement later ended single plain =>
          have seen : Declaration.probe kind (settings.typeOf kind) last layout.text = _ :=
            probe_of_declaration (words kind) begins ended single plain.ends
          have named := nameAt_of_declaration (words kind) ended single plain.ends
          rw [same] at seen named
          cases null : Declaration.endsInNull (trim statement) with
          | true =>
            have silent := front.quiet_left plain.quiet
            simp only [null, if_true] at seen named
            simp only [allHits, seen]
            rw [split, namesFrom_append_of_quiet words front silent, ← split, named]
            exact behind split front begins
          | false =>
            have whole : c :: rest = layout.front ++ (statement ++ [';']) ++ later := by
              rw [split, ended]
              simp only [List.append_assoc, List.singleton_append]
            have isSealed := sealed_declaration layout.front statement
            have length : (layout.declaration kind statement).length =
                (layout.front ++ (statement ++ [';'])).length := by
              rw [List.length_append, List.length_append]
              rfl
            simp only [null, Bool.false_eq_true, if_false] at seen named
            simp only [allHits, seen, List.map_cons, length, behind whole isSealed begins]
            rw [whole, namesFrom_append_of_quiet words isSealed plain.quiet, ← whole, named]
            rfl
termination_by text.length

end Names

end Tidy

end ScopedHandles
