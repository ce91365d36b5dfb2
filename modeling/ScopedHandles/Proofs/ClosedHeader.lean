/-
**Headers that are closed.**

What follows a header must be code, so the value in it has to be a single call again. The value of a cursor
always is. The call of a query is laid out anew, and with the white space the line breaks go that end line
comments and literals: a comment behind the last argument then swallows the closing parenthesis. As long as
the line breaks before the first argument end nothing, the header of a query is closed exactly if neither a
line comment nor a literal is open behind its last argument. A comment before the first argument that loses
its line break swallows the call as well, unless its arguments break the line again.

* `Call.exists_layout` — a call around the arguments that are kept.
* `Call.isSingleCall_render_iff` — when a call that is laid out anew is a single call.
* `header_closed_iff` — when a header is closed.
* `header_open` — a header in which a comment or a literal is left open.
-/

import ScopedHandles.Proofs.SingleCall
import ScopedHandles.Proofs.HeaderLines

namespace ScopedHandles

namespace Call

/-- The beginning of a call, up to its first argument. -/
def opening (expression : Text) : Text :=
  let call := expression.dropWhile (· != '(')
  expression.takeWhile (· != '(') ++ call.take 1 ++ (call.drop 1).takeWhile isWhiteSpace

theorem opening_eq {target lead later : Text} (outside : '(' ∉ target)
    (blank : ∀ c ∈ lead, isWhiteSpace c = true) (solid : ∀ c ∈ later.head?, isWhiteSpace c = false) :
    opening (target ++ '(' :: (lead ++ later)) = target ++ '(' :: lead := by
  have before := bne_of_not_mem outside
  have stop : ∀ c ∈ ('(' :: (lead ++ later)).head?, (c != '(') = false :=
    forall_mem_some (by decide)
  unfold opening
  simp only [takeWhile_run before stop, dropWhile_run before stop, List.take_succ_cons, List.take_zero,
    List.drop_succ_cons, List.drop_zero, takeWhile_run blank solid]
  simp

/-- Arguments that do not begin with white space begin with those that are kept. -/
theorem exists_filler_of_trimArguments {arguments : Text}
    (solid : ∀ c ∈ arguments.head?, isWhiteSpace c = false) :
    ∃ filler, arguments = trimArguments arguments ++ filler ∧ ∀ c ∈ filler, isFiller c = true := by
  obtain ⟨kept, commas, whole, comma, same⟩ := exists_of_trimArguments arguments
  have first : ∀ c ∈ kept.head?, isWhiteSpace c = false := by
    intro c mem
    refine solid c ?_
    rw [whole, List.head?_append, Option.mem_def.mp mem]
    rfl
  refine ⟨trailingBlanks kept ++ commas, ?_, ?_⟩
  · rw [same, trim_of_solid first, ← List.append_assoc, trimEnd_append_trailingBlanks]
    exact whole
  · intro c mem
    rcases List.mem_append.mp mem with inBlanks | inCommas
    · simp [isFiller, isWhiteSpace_of_mem_trailingBlanks c inBlanks]
    · simp [isFiller, comma c inCommas]

/-- A trimmed argument list begins with the arguments that are kept. -/
theorem exists_filler_of_splitKeys {inner : Text} {call : Call}
    (parts : splitKeys inner = (call.arguments, call.keys))
    (solid : ∀ c ∈ inner.head?, isWhiteSpace c = false) :
    ∃ filler, inner = trimArguments call.arguments ++ filler ∧ ∀ c ∈ filler, isFiller c = true := by
  rcases splitKeys_cases inner with same | ⟨arguments, last, whole, same, dotted⟩
  · obtain ⟨rfl, _⟩ := Prod.mk.inj (same.symm.trans parts)
    exact exists_filler_of_trimArguments solid
  · obtain ⟨first, _⟩ := Prod.mk.inj (same.symm.trans parts)
    have cut := trimEnd_append_trailingBlanks arguments
    have begins : ∀ c ∈ call.arguments.head?, isWhiteSpace c = false := by
      intro c mem
      refine solid c ?_
      rw [whole, ← cut, first, List.append_assoc, List.head?_append, Option.mem_def.mp mem]
      rfl
    obtain ⟨filler, kept, fills⟩ := exists_filler_of_trimArguments begins
    obtain ⟨before, behind, around, beforeBlank, behindBlank, _⟩ := exists_trim last
    refine ⟨filler ++ (trailingBlanks arguments ++ ',' :: last), ?_, ?_⟩
    · rw [← List.append_assoc, ← kept, ← first, ← List.append_assoc, cut]
      exact whole
    · have ofLast : ∀ c ∈ last, isFiller c = true := by
        intro c mem
        rw [around] at mem
        simp only [List.mem_append] at mem
        rcases mem with inBefore | inKeys | inBehind
        · simp [isFiller, beforeBlank c inBefore]
        · simp [isFiller, dotted c inKeys]
        · simp [isFiller, behindBlank c inBehind]
      intro c mem
      simp only [List.mem_append, List.mem_cons] at mem
      rcases mem with inFiller | inBlanks | rfl | inLast
      · exact fills c inFiller
      · simp [isFiller, isWhiteSpace_of_mem_trailingBlanks c inBlanks]
      · decide
      · exact ofLast c inLast

/-- **A call around the arguments that are kept.** -/
theorem exists_layout {expression : Text} {call : Call} (read : read? expression = some call) :
    ∃ target lead filler blanks,
      expression = target ++ '(' ::
        (lead ++ (trimArguments call.arguments ++ (filler ++ ')' :: blanks))) ∧
      call.target = trim target ∧ opening expression = target ++ '(' :: lead ∧
      (∀ c ∈ lead, isWhiteSpace c = true) ∧ (∀ c ∈ filler, isFiller c = true) ∧
      ∀ c ∈ blanks, isWhiteSpace c = true := by
  obtain ⟨target, inner, blanks, whole, outside, blank, ofTarget, parts⟩ := exists_of_read? read
  obtain ⟨_, _, _, _, _, first, _⟩ := exists_trim inner
  obtain ⟨filler, kept, fills⟩ := exists_filler_of_splitKeys parts first
  have leadBlank : ∀ c ∈ inner.takeWhile isWhiteSpace, isWhiteSpace c = true :=
    fun c mem => List.mem_takeWhile_imp mem
  have around : inner = inner.takeWhile isWhiteSpace ++
      (trimArguments call.arguments ++ (filler ++ trailingBlanks (trimStart inner))) := by
    have rest : trimArguments call.arguments ++ (filler ++ trailingBlanks (trimStart inner)) =
        inner.dropWhile isWhiteSpace := by
      rw [← List.append_assoc, ← kept, trim, trimEnd_append_trailingBlanks, trimStart]
    rw [rest, List.takeWhile_append_dropWhile]
  refine ⟨target, inner.takeWhile isWhiteSpace, filler ++ trailingBlanks (trimStart inner), blanks,
    ?_, ofTarget, ?_, leadBlank, ?_, blank⟩
  · rw [whole]
    conv_lhs => rw [around]
    simp only [List.append_assoc]
  · rw [whole, ← List.takeWhile_append_dropWhile (p := isWhiteSpace) (l := inner), List.append_assoc,
      opening_eq outside leadBlank, List.takeWhile_append_dropWhile]
    intro c mem
    have stop := List.head?_dropWhile_not isWhiteSpace inner
    cases rest : inner.dropWhile isWhiteSpace with
    | nil =>
      rw [rest] at mem
      exact forall_mem_some (p := fun d => isWhiteSpace d = false) (by decide) c mem
    | cons d rest' =>
      rw [rest] at mem stop
      obtain rfl : d = c := Option.some.inj mem
      simpa using stop
  · intro c mem
    rcases List.mem_append.mp mem with inFiller | inBlanks
    · exact fills c inFiller
    · simp [isFiller, isWhiteSpace_of_mem_trailingBlanks c inBlanks]

theorem isDottedChar_of_mem_keys {expression : Text} {call : Call}
    (read : read? expression = some call) : ∀ keys ∈ call.keys, ∀ c ∈ keys, isDottedChar c = true := by
  obtain ⟨_, inner, _, _, _, _, _, parts⟩ := exists_of_read? read
  intro keys mem
  rcases splitKeys_cases (trim inner) with same | ⟨_, last, _, same, dotted⟩
  · obtain ⟨_, none⟩ := Prod.mk.inj (same.symm.trans parts)
    simp [← none] at mem
  · obtain ⟨_, some⟩ := Prod.mk.inj (same.symm.trans parts)
    rw [← some] at mem
    obtain rfl := Option.some.inj mem
    exact dotted

/-- **A call that is laid out anew**, around its arguments. What follows them is on their line. -/
theorem exists_render {expression : Text} {call : Call} (read : read? expression = some call) :
    ∃ ending, call.render =
        collapse call.target ++ '(' :: (trimArguments call.arguments ++ (ending ++ [')'])) ∧
      ∀ c ∈ ending, isFiller c = true ∧ isIdle c = true := by
  have ofKeys : ∀ keys ∈ call.keys, ∀ c ∈ keys, isFiller c = true ∧ isIdle c = true := by
    intro keys some c mem
    have dotted := isDottedChar_of_mem_keys read keys some c mem
    exact ⟨by simp [isFiller, dotted],
      isIdle_of_class dotted (by decide +kernel) (ne_of_class dotted (by decide))⟩
  unfold render
  cases given : call.keys with
  | none => exact ⟨[], by simp, by simp⟩
  | some keys =>
    have ofKeys := ofKeys keys given
    by_cases empty : (trimArguments call.arguments).isEmpty = true
    · exact ⟨keys, by simp [empty], ofKeys⟩
    · refine ⟨", ".toList ++ keys, by simp [empty], fun c mem => ?_⟩
      rcases List.mem_append.mp mem with inComma | inKeys
      · have each : (", ".toList.all fun c => isFiller c && isIdle c) = true := by decide +kernel
        exact Bool.and_eq_true_iff.mp (List.all_eq_true.mp each c inComma)
      · exact ofKeys c inKeys

/-- **When a call that is laid out anew is a single call.** -/
theorem isSingleCall_render_iff {expression : Text} {call : Call} (read : read? expression = some call)
    (single : isSingleCall expression = true)
    (kept : Scanner.start.unbroken (opening expression) = true) :
    isSingleCall call.render = true ↔
      (Scanner.start.run (opening expression ++ trimArguments call.arguments)).isOpen = false := by
  obtain ⟨target, lead, filler, blanks, whole, ofTarget, opens, leadBlank, fills, blank⟩ :=
    exists_layout read
  obtain ⟨ending, rendered, closes⟩ := exists_render read
  rw [opens] at kept ⊢
  rw [rendered, ofTarget, isSingleCall, completesCall_collapse leadBlank kept]
  rw [whole, isSingleCall] at single
  have shape : ∀ later, target ++ '(' :: (lead ++ (trimArguments call.arguments ++ later)) =
      (target ++ '(' :: lead ++ trimArguments call.arguments) ++ later := by simp
  rw [shape] at single ⊢
  rcases completesCall_append_cases .start 0 false
    (target ++ '(' :: lead ++ trimArguments call.arguments) with ⟨depth, closed, leads⟩ | none
  · rw [leads] at single ⊢
    constructor
    · intro single
      by_contra unclosed
      rw [not_completesCall_of_isOpen (Scanner.behind_start.quoted.run _)
        (Bool.not_eq_false _ ▸ unclosed) fun c mem => (closes c mem).2] at single
      exact Bool.noConfusion single
    · intro plain
      rw [completesCall_closing_iff plain fills blank] at single
      exact (completesCall_closing_iff plain (fun c mem => (closes c mem).1) (by simp)).mpr single
  · rw [none] at single
    exact Bool.noConfusion single

/-- **What is open behind the last argument swallows the closing parenthesis**, wherever it begins. -/
theorem not_isSingleCall_render {expression : Text} {call : Call} (read : read? expression = some call)
    (unclosed : (Scanner.start.run (collapse call.target ++ '(' :: trimArguments call.arguments)).isOpen
      = true) : isSingleCall call.render = false := by
  obtain ⟨ending, rendered, closes⟩ := exists_render read
  have shape : call.render =
      (collapse call.target ++ '(' :: trimArguments call.arguments) ++ (ending ++ [')']) := by
    simp [rendered]
  rw [shape, isSingleCall]
  rcases completesCall_append_cases .start 0 false
    (collapse call.target ++ '(' :: trimArguments call.arguments) with ⟨depth, closed, leads⟩ | none
  · rw [leads]
    exact not_completesCall_of_isOpen (Scanner.behind_start.quoted.run _) unclosed fun c mem =>
      (closes c mem).2
  · exact none _

end Call

/-! ### Headers -/

/-- What stands behind the first equals sign of a text. -/
def behindSign (text : Text) : Text :=
  (text.dropWhile (· != '=')).drop 1

theorem behindSign_eq {before value : Text} (outside : '=' ∉ before) :
    behindSign (before ++ '=' :: value) = value := by
  have stop : ∀ c ∈ ('=' :: value).head?, (c != '=') = false := forall_mem_some (by decide)
  rw [behindSign, dropWhile_run (bne_of_not_mem outside) stop]
  rfl

/-- The initializer of a cursor is closed as it is, the call of a query as it is laid out anew. -/
theorem isSingleCall_resource_iff {kind : HandleKind} {expression value : Text}
    (single : isSingleCall expression = true)
    (made : Declaration.resource kind expression = .ok value)
    (kept : kind = .query → Scanner.start.unbroken (Call.opening expression) = true) :
    isSingleCall value = true ↔ (kind = .query → ∀ call ∈ Call.read? expression,
      (Scanner.start.run (Call.opening expression ++ Call.trimArguments call.arguments)).isOpen
        = false) := by
  cases kind with
  | cursor =>
    obtain rfl : trim expression = value := Except.ok.inj made
    simp [isSingleCall_trim, single]
  | query =>
    obtain ⟨call, read, rfl⟩ := Declaration.exists_of_query made
    rw [Call.isSingleCall_render_iff read single (kept rfl)]
    simp [read]

/-- Behind the sign of a header stands the value that is made of a single call. -/
theorem exists_value_of_header {declaration : Declaration} {header initializer : Text}
    (made : declaration.header = .ok header) (given : declaration.initializer = some initializer)
    (type : '=' ∉ declaration.declaredType) (name : '=' ∉ declaration.name) :
    ∃ value, isSingleCall (withoutCommentLines initializer) = true ∧
      Declaration.resource declaration.kind (withoutCommentLines initializer) = .ok value ∧
      isSingleCall (behindSign header) = isSingleCall value := by
  obtain ⟨value, single, resource, rfl⟩ := Declaration.exists_of_header made given
  have outside : '=' ∉ trim declaration.declaredType ++ ' ' :: (declaration.name ++ [' ']) := by
    obtain ⟨before, behind, whole, _⟩ := exists_trim declaration.declaredType
    have inType : '=' ∉ trim declaration.declaredType := fun mem =>
      type (whole ▸ List.mem_append_right _ (List.mem_append_left _ mem))
    simp [inType, name]
  have sign : trim declaration.declaredType ++ ' ' :: (declaration.name ++ ' ' :: '=' :: ' ' :: value) =
      (trim declaration.declaredType ++ ' ' :: (declaration.name ++ [' '])) ++ '=' :: ' ' :: value := by
    simp
  have blank : isSingleCall (' ' :: value) = isSingleCall value := by
    rw [isSingleCall, completesCall_cons_of_blank (by decide)]
    rfl
  refine ⟨value, single, resource, ?_⟩
  rw [sign, behindSign_eq outside, blank]

/-- **When a header is closed.** The header of a cursor always is. The header of a query is, exactly if
neither a line comment nor a literal is open behind its last argument, as long as the line breaks before its
first argument end nothing. A query whose line breaks do end a comment there, such as `q // c` with `(a)` on
the next line, is a second kind of header that is left open (`header_open`). -/
theorem header_closed_iff {declaration : Declaration} {header initializer : Text}
    (made : declaration.header = .ok header) (given : declaration.initializer = some initializer)
    (type : '=' ∉ declaration.declaredType) (name : '=' ∉ declaration.name)
    (kept : declaration.kind = .query →
      Scanner.start.unbroken (Call.opening (withoutCommentLines initializer)) = true) :
    isSingleCall (behindSign header) = true ↔
      (declaration.kind = .query → ∀ call ∈ Call.read? (withoutCommentLines initializer),
        (Scanner.start.run (Call.opening (withoutCommentLines initializer) ++
          Call.trimArguments call.arguments)).isOpen = false) := by
  obtain ⟨value, single, resource, same⟩ := exists_value_of_header made given type name
  rw [same]
  exact isSingleCall_resource_iff single resource kept

/-- A call over several lines, with a comment before its first argument. -/
def commentedQuery : Declaration :=
  { kind := .query, indent := [], declaredType := "PreparedStatement".toList, name := "ps".toList
    initializer := some "c\n .q( // first\n a,\n S.KEYS )".toList, length := 0 }

theorem commentedQuery_closed :
    commentedQuery.header = .ok "PreparedStatement ps = c.q(// first\n a, S.KEYS)".toList ∧
      isSingleCall (behindSign "PreparedStatement ps = c.q(// first\n a, S.KEYS)".toList) = true := by
  have made : commentedQuery.header =
      .ok "PreparedStatement ps = c.q(// first\n a, S.KEYS)".toList := by
    decide +kernel
  refine ⟨made, (header_closed_iff made rfl (by decide) (by decide) ?_).mpr ?_⟩
  · decide +kernel
  · decide +kernel

/-- A call with a comment behind its last argument. -/
def trailingCommentQuery : Declaration :=
  { commentedQuery with initializer := some "q(a // last\n)".toList }

/-- **The comment swallows the closing parenthesis**, and with it whatever follows the header. -/
theorem trailingCommentQuery_open :
    trailingCommentQuery.header = .ok "PreparedStatement ps = q(a // last)".toList ∧
      isSingleCall (withoutCommentLines "q(a // last\n)".toList) = true ∧
      isSingleCall (behindSign "PreparedStatement ps = q(a // last)".toList) = false := by
  decide +kernel

/-- **A header that is left open**, whatever its line breaks end: a line comment or a literal of the call, as
it is laid out anew, is open behind the last argument. -/
theorem header_open {declaration : Declaration} {header initializer : Text} {call : Call}
    (made : declaration.header = .ok header) (given : declaration.initializer = some initializer)
    (type : '=' ∉ declaration.declaredType) (name : '=' ∉ declaration.name)
    (query : declaration.kind = .query)
    (read : Call.read? (withoutCommentLines initializer) = some call)
    (unclosed : (Scanner.start.run (collapse call.target ++ '(' :: Call.trimArguments call.arguments)).isOpen
      = true) : isSingleCall (behindSign header) = false := by
  obtain ⟨value, _, resource, same⟩ := exists_value_of_header made given type name
  rw [query] at resource
  obtain ⟨found, again, rfl⟩ := Declaration.exists_of_query resource
  obtain rfl : call = found := Option.some.inj (read.symm.trans again)
  rw [same]
  exact Call.not_isSingleCall_render read unclosed

/-- A comment before the parenthesis and a comment before the dot, each of which loses its line break. -/
example :
    let query (initializer : String) : Declaration :=
      { kind := .query, indent := [], declaredType := "P".toList, name := "ps".toList
        initializer := some initializer.toList, length := 0 }
    ((query "q // c\n (a)").header = .ok "P ps = q // c(a)".toList ∧
      isSingleCall (behindSign "P ps = q // c(a)".toList) = false) ∧
    (query "conn // pool\n .prepare(sql)").header = .ok "P ps = conn // pool.prepare(sql)".toList ∧
      isSingleCall (behindSign "P ps = conn // pool.prepare(sql)".toList) = false := by
  decide +kernel

end ScopedHandles
