/-
**The lines of a header.**

The header of a plain declaration is quiet. Its lines are lines of the initializer: comment lines are
dropped, white space is trimmed off, and what is put in between has no line break. So no line of a block
that is put in declares a handle.

* `quiet_withoutCommentLines` — dropping comment lines.
* `quiet_render` — laying out a call anew.
* `quiet_header` — a header is quiet.
-/

import ScopedHandles.Header
import ScopedHandles.Proofs.Tidy

namespace ScopedHandles

/-! ### Pieces of a text -/

/-- A piece of a text behind which no dotted name goes on. -/
def Piece (piece text : Text) : Prop :=
  ∃ before behind, text = before ++ (piece ++ behind) ∧ ∀ c ∈ behind.head?, isDottedChar c = false

namespace Piece

theorem refl (text : Text) : Piece text text :=
  ⟨[], [], by simp, by simp⟩

theorem trans {inner piece text : Text} (first : Piece inner piece) (second : Piece piece text) :
    Piece inner text := by
  obtain ⟨before, behind, rfl, stop⟩ := first
  obtain ⟨farBefore, farBehind, rfl, farStop⟩ := second
  refine ⟨farBefore ++ before, behind ++ farBehind, by simp only [List.append_assoc], ?_⟩
  cases behind with
  | nil => exact farStop
  | cons d behind => exact stop

theorem trim (text : Text) : Piece (trim text) text := by
  obtain ⟨before, behind, split, _, blank, _⟩ := exists_trim text
  refine ⟨before, behind, split, fun c first => ?_⟩
  exact not_isDottedChar_of_isWhiteSpace (blank c (List.mem_of_mem_head? first))

theorem trimEnd (text : Text) : Piece (trimEnd text) text := by
  refine ⟨[], trailingBlanks text, (trimEnd_append_trailingBlanks text).symm, fun c first => ?_⟩
  exact not_isDottedChar_of_isWhiteSpace
    (isWhiteSpace_of_mem_trailingBlanks c (List.mem_of_mem_head? first))

end Piece

/-! ### Comment lines -/

/-- The part of a text before its first line break. -/
def firstLine (text : Text) : Text :=
  text.takeWhile (· != '\n')

theorem firstWord_firstLine (text : Text) : firstWord (firstLine text) = firstWord text := by
  have whole : firstLine text ++ text.dropWhile (· != '\n') = text :=
    List.takeWhile_append_dropWhile
  cases rest : text.dropWhile (· != '\n') with
  | nil =>
    rw [rest, List.append_nil] at whole
    rw [whole]
  | cons c later =>
    have newline : c = '\n' := by
      have none := List.head?_dropWhile_not (· != '\n') text
      rw [rest] at none
      simpa using none
    rw [rest, newline] at whole
    rw [← firstWord_append_stop (by decide : isDottedChar '\n' = false) (by decide), whole]

theorem dropCommentLines_false_cons (c : Char) (rest : Text) :
    dropCommentLines false false (c :: rest) = c :: dropCommentLines (c == '\n') false rest := by
  simp [dropCommentLines]

theorem firstLine_dropCommentLines (text : Text) :
    firstLine (dropCommentLines false false text) = firstLine text := by
  induction text with
  | nil => rfl
  | cons c rest ih =>
    rw [dropCommentLines_false_cons, firstLine, firstLine, List.takeWhile_cons, List.takeWhile_cons]
    by_cases newline : c = '\n'
    · simp [newline]
    · have other : (c == '\n') = false := beq_eq_false_iff_ne.mpr newline
      rw [other]
      exact congrArg (fun line => if (c != '\n') = true then c :: line else []) ih

/-- No line of a text begins with a word that leads, and neither does the text if a line begins with
it. -/
def Silent (settings : Settings) (begins : Bool) (text : Text) : Prop :=
  ∀ line ∈ linesFrom begins text, settings.leads (firstWord line) = false

section Silent

variable {settings : Settings}

theorem Silent.tail {begins : Bool} {c : Char} {rest : Text}
    (silent : Silent settings begins (c :: rest)) :
    Silent settings (c == '\n') rest := by
  intro line mem
  refine silent line ?_
  rw [linesFrom]
  split_ifs
  · exact List.mem_cons_of_mem _ mem
  · exact mem

theorem Silent.of_true {begins : Bool} {text : Text} (silent : Silent settings true text) :
    Silent settings begins text := by
  intro line mem
  refine silent line ?_
  cases begins with
  | true => exact mem
  | false => exact mem_linesFrom_of_false mem

theorem Silent.weaken {begins : Bool} {text : Text} (silent : Silent settings begins text) :
    Silent settings false text := fun line mem =>
  silent line (mem_linesFrom_of_false mem)

/-- **Dropping comment lines keeps a text silent.** Behind a dropped line a line begins. -/
theorem silent_dropCommentLines (text : Text) :
    (∀ {begins : Bool} (lineStart : Bool), Silent settings begins text →
      Silent settings begins (dropCommentLines lineStart false text)) ∧
    ∀ (lineStart : Bool), Silent settings false text →
      Silent settings true (dropCommentLines lineStart true text) := by
  induction text with
  | nil =>
    refine ⟨fun _ silent => silent, fun _ _ line mem => ?_⟩
    simp [dropCommentLines, linesFrom] at mem
  | cons c rest ih =>
    obtain ⟨outside, inside⟩ := ih
    refine ⟨fun {begins} lineStart silent => ?_, fun lineStart silent => ?_⟩
    · rw [dropCommentLines, if_neg Bool.false_ne_true]
      split_ifs
      · exact (inside false silent.tail.weaken).of_true
      · have later := outside (c == '\n') silent.tail
        intro line mem
        rw [linesFrom] at mem
        split_ifs at mem with first
        · rcases List.mem_cons.mp mem with rfl | mem
          · rw [← dropCommentLines_false_cons, ← firstWord_firstLine, firstLine_dropCommentLines,
              firstWord_firstLine]
            refine silent _ ?_
            rw [linesFrom, if_pos first]
            exact List.mem_cons_self
          · exact later line mem
        · exact later line mem
    · have later := silent.tail
      rw [dropCommentLines, if_pos rfl]
      by_cases newline : c = '\n'
      · subst newline
        exact outside true later
      · have other : (c == '\n') = false := beq_eq_false_iff_ne.mpr newline
        have differs : (c != '\n') = true := bne_iff_ne.mpr newline
        rw [other] at later ⊢
        rw [differs]
        exact inside false later

theorem quiet_withoutCommentLines {text : Text} (silent : quiet settings text = true) :
    quiet settings (withoutCommentLines text) = true :=
  quiet_iff.mpr ((silent_dropCommentLines text).1 true (quiet_iff.mp silent))

end Silent

/-! ### Calls -/

theorem newline_not_mem_collapseFrom {last : Option Char} {blank : Bool} {text : Text} :
    '\n' ∉ collapseFrom last blank text := by
  induction text generalizing last blank with
  | nil => simp [collapseFrom]
  | cons c rest ih =>
    have other : ∀ {c : Char}, isWhiteSpace c = false → '\n' ≠ c := by
      rintro c solid rfl
      exact absurd solid (by decide)
    rw [collapseFrom]
    split_ifs with white
    · exact ih
    · simp [ih, other (Bool.not_eq_true _ ▸ white)]
    · simp [ih, other (Bool.not_eq_true _ ▸ white)]

/-- Nothing is cut off an argument list, or a dotted name behind its last comma. -/
theorem Call.splitKeys_cases (inner : Text) :
    Call.splitKeys inner = (inner, none) ∨
      ∃ arguments last, inner = arguments ++ ',' :: last ∧
        Call.splitKeys inner = (trimEnd arguments, some (trim last)) ∧
        ∀ c ∈ trim last, isDottedChar c = true := by
  unfold Call.splitKeys
  simp only
  split
  · exact .inl rfl
  · next arguments cut =>
    split_ifs with named
    · simp only [Bool.and_eq_true, List.all_eq_true] at named
      exact .inr ⟨arguments, _, before?_eq_some_iff.mp cut, rfl, named.1⟩
    · exact .inl rfl

/-- **The parts of a call.** -/
theorem Call.exists_of_read? {expression : Text} {call : Call} (read : Call.read? expression = some call) :
    ∃ target inner blanks, expression = target ++ '(' :: (inner ++ ')' :: blanks) ∧ '(' ∉ target ∧
      (∀ c ∈ blanks, isWhiteSpace c = true) ∧ call.target = trim target ∧
      Call.splitKeys (trim inner) = (call.arguments, call.keys) := by
  unfold Call.read? at read
  simp only at read
  split at read
  · simp at read
  · next opening rest found =>
    split at read
    · simp at read
    · next inner cut =>
      split_ifs at read
      obtain rfl := Option.some.inj read
      have whole := List.takeWhile_append_dropWhile (p := (· != '(')) (l := expression)
      have first := List.head?_dropWhile_not (· != '(') expression
      rw [found] at whole first
      obtain rfl : opening = '(' := by simpa using first
      have closed : rest = inner ++ ')' :: trailingBlanks rest := by
        have parts := trimEnd_append_trailingBlanks rest
        rw [before?_eq_some_iff.mp cut, List.append_assoc, List.singleton_append] at parts
        exact parts.symm
      rw [closed] at whole
      have outside : '(' ∉ expression.takeWhile (· != '(') := fun mem => by
        simpa using List.mem_takeWhile_imp mem
      exact ⟨_, inner, _, whole.symm, outside, isWhiteSpace_of_mem_trailingBlanks, rfl, rfl⟩

theorem Call.piece_splitKeys (inner : Text) :
    Piece (Call.splitKeys inner).1 inner ∧ ∀ keys ∈ (Call.splitKeys inner).2, '\n' ∉ keys := by
  rcases Call.splitKeys_cases inner with same | ⟨arguments, last, split, same, dotted⟩
  · rw [same]
    exact ⟨.refl inner, by simp⟩
  · rw [same]
    refine ⟨(Piece.trimEnd arguments).trans ⟨[], _, split, forall_mem_some (by decide)⟩, ?_⟩
    intro keys mem newline
    obtain rfl := Option.some.inj mem
    exact absurd (dotted _ newline) (by decide)

/-- The arguments of a call are a piece of it, and the argument for keys has no line breaks. -/
theorem Call.piece_of_read? {expression : Text} {call : Call} (read : Call.read? expression = some call) :
    Piece call.arguments expression ∧ ∀ keys ∈ call.keys, '\n' ∉ keys := by
  obtain ⟨target, inner, blanks, whole, _, _, _, parts⟩ := Call.exists_of_read? read
  have isInner : Piece inner expression := by
    refine ⟨target ++ ['('], ')' :: blanks, ?_, forall_mem_some (by decide)⟩
    rw [whole, List.append_assoc, List.singleton_append]
  obtain ⟨arguments, keys⟩ := Call.piece_splitKeys (trim inner)
  rw [parts] at arguments keys
  exact ⟨arguments.trans ((Piece.trim inner).trans isInner), keys⟩

/-- Commas at the end of an argument list are dropped. -/
theorem Call.exists_of_trimArguments (arguments : Text) :
    ∃ kept commas, arguments = kept ++ commas ∧ (∀ c ∈ commas, c = ',') ∧
      Call.trimArguments arguments = trim kept := by
  refine ⟨_, (arguments.reverse.takeWhile (· == ',')).reverse, ?_, ?_, rfl⟩
  · rw [← List.reverse_append, List.takeWhile_append_dropWhile, List.reverse_reverse]
  · intro c mem
    simpa using List.mem_takeWhile_imp (List.mem_reverse.mp mem)

theorem Call.piece_trimArguments (arguments : Text) : Piece (Call.trimArguments arguments) arguments := by
  obtain ⟨kept, commas, whole, comma, same⟩ := Call.exists_of_trimArguments arguments
  rw [same]
  refine (Piece.trim kept).trans ⟨[], commas, whole, fun c first => ?_⟩
  rw [comma c (List.mem_of_mem_head? first)]
  decide

/-! ### Headers -/

namespace Declaration

/-- The value of a query is its call, laid out anew. -/
theorem exists_of_query {expression value : Text} (made : resource .query expression = .ok value) :
    ∃ call, Call.read? expression = some call ∧ value = call.render := by
  unfold resource at made
  simp only at made
  split at made
  · simp at made
  · next call read =>
    split_ifs at made
    exact ⟨call, read, (Except.ok.inj made).symm⟩

theorem exists_initializer_of_header {declaration : Declaration} {header : Text}
    (made : declaration.header = .ok header) :
    ∃ initializer, declaration.initializer = some initializer := by
  unfold Declaration.header at made
  split at made
  · cases made
  · next initializer given => exact ⟨initializer, given⟩

/-- **The parts of a header.** -/
theorem exists_of_header {declaration : Declaration} {header initializer : Text}
    (made : declaration.header = .ok header) (given : declaration.initializer = some initializer) :
    ∃ value, isSingleCall (withoutCommentLines initializer) = true ∧
      resource declaration.kind (withoutCommentLines initializer) = .ok value ∧
      header =
        trim declaration.declaredType ++ ' ' :: (declaration.name ++ ' ' :: '=' :: ' ' :: value) := by
  unfold Declaration.header at made
  rw [given] at made
  simp only at made
  split_ifs at made with single
  obtain ⟨value, resource, rfl⟩ := map_eq_ok made
  exact ⟨value, single, resource, by simp⟩

end Declaration

section Header

variable {settings : Settings} {ending front name statement : Text}

theorem piece_initializer : Piece (trim statement) (front ++ (statement ++ [';'])) := by
  exact (Piece.trim statement).trans ⟨front, [';'], rfl, forall_mem_some (by decide)⟩

theorem Layout.piece_type (layout : Layout ending) (later : Text) :
    Piece (trim (layout.mark ++ layout.core)) (layout.front ++ later) := by
  refine (Piece.trim _).trans ⟨layout.indent, layout.gap ++ (layout.name ++ (layout.blanks ++
    ('=' :: later))), by simp [Layout.front], fun c first => ?_⟩
  rw [List.head?_append_of_ne_nil _ layout.gap_nonempty] at first
  exact not_isDottedChar_of_isWhiteSpace (layout.gap_blank c (List.mem_of_mem_head? first))

variable (words : ∀ kind, Word (settings.typeOf kind))

include words

theorem Piece.quiet {piece text : Text} (isPiece : Piece piece text)
    (whole : quiet settings text = true) : quiet settings piece = true := by
  obtain ⟨before, behind, rfl, stop⟩ := isPiece
  exact quiet_infix words whole stop

/-- **A call that is laid out anew is quiet.** What follows the arguments has no line breaks, and begins with
a mark or follows nothing. -/
theorem quiet_render {expression : Text} {call : Call} (read : Call.read? expression = some call)
    (silent : quiet settings expression = true) : quiet settings call.render = true := by
  obtain ⟨piece, single⟩ := Call.piece_of_read? read
  have arguments : quiet settings (Call.trimArguments call.arguments) = true :=
    ((Call.piece_trimArguments _).trans piece).quiet words silent
  have closed : ∀ {keys : Text}, '\n' ∉ keys →
      (Call.trimArguments call.arguments = [] ∨ ∀ c ∈ (keys ++ [')']).head?,
        isDottedChar c = false ∧ isIndentChar c = false) →
      quiet settings (Call.trimArguments call.arguments ++ (keys ++ [')'])) = true := by
    intro keys single first
    have later : '\n' ∉ keys ++ [')'] := by
      simp [single]
    rcases first with empty | first
    · rw [empty]
      exact quiet_of_no_newline later
    · exact quiet_append words arguments (quiet_of_no_newline later) (fun c mem => (first c mem).1)
        (.inr fun c mem => (first c mem).2)
  have opening : '\n' ∉ collapse call.target ++ ['('] := by
    simp [collapse, newline_not_mem_collapseFrom]
  have shape : ∀ keys : Text, collapse call.target ++ '(' :: Call.trimArguments call.arguments ++ keys
      ++ [')'] =
        collapse call.target ++ ['('] ++ (Call.trimArguments call.arguments ++ (keys ++ [')'])) := by
    intro keys
    simp only [List.append_assoc, List.cons_append, List.nil_append]
  unfold Call.render
  simp only
  rw [shape]
  refine quiet_append_of_single opening (closed ?_ ?_)
  · cases some : call.keys with
    | none => simp
    | some keys =>
      have inKeys := single keys some
      simp only
      split_ifs
      · exact inKeys
      · simpa using inKeys
  · cases call.keys with
    | none =>
      exact .inr (forall_mem_some (by decide))
    | some keys =>
      simp only
      split_ifs with empty
      · exact .inl (List.isEmpty_iff.mp empty)
      · exact .inr (forall_mem_some (by decide))

/-- The initializer as it stands in a header is quiet. -/
theorem quiet_resource {kind : HandleKind} {expression value : Text}
    (made : Declaration.resource kind expression = .ok value)
    (silent : quiet settings expression = true) : quiet settings value = true := by
  cases kind with
  | cursor =>
    obtain rfl : trim expression = value := Except.ok.inj made
    exact (Piece.trim expression).quiet words silent
  | query =>
    obtain ⟨call, read, rfl⟩ := Declaration.exists_of_query made
    exact quiet_render words read silent

/-- **The header of a plain declaration is quiet.** -/
theorem quiet_header {kind : HandleKind} {layout : Layout ending} {header : Text}
    (plain : Plain settings layout.front layout.name statement)
    (made : (layout.declaration kind statement).header = .ok header) :
    quiet settings header = true := by
  have initializer : quiet settings (withoutCommentLines (trim statement)) = true :=
    quiet_withoutCommentLines (piece_initializer.quiet words plain.quiet)
  have type : quiet settings (trim (layout.mark ++ layout.core)) = true :=
    (layout.piece_type _).quiet words plain.quiet
  unfold Declaration.header Layout.declaration at made
  simp only at made
  split_ifs at made
  obtain ⟨value, resource, rfl⟩ := map_eq_ok made
  have silent := quiet_resource words resource initializer
  have named : '\n' ∉ ' ' :: layout.name ++ " = ".toList := by
    have word := layout.name_word.newline_not_mem
    simp [word]
  obtain ⟨_, _, _, _, _, _, last⟩ := exists_trim (layout.mark ++ layout.core)
  have whole := quiet_append words type (quiet_append_of_single named silent)
    (forall_mem_some (by decide)) (.inl last)
  simpa only [List.append_assoc, List.cons_append] using whole

/-- **The beginning of a block that is put in is quiet.** -/
theorem quiet_opening {header : Text} (silent : quiet settings header = true) :
    quiet settings ("try (".toList ++ (header ++ ") \x7b".toList)) = true := by
  refine quiet_append_of_single (by decide) ?_
  exact quiet_append words silent (quiet_of_no_newline (by decide)) (forall_mem_some (by decide))
    (.inr (forall_mem_some (by decide)))

end Header

end ScopedHandles
