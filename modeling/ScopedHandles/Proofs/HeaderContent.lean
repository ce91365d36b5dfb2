/-
**What a header keeps.**

A header is the declaration laid out anew. Only white space and commas come and go: all other characters
stand in the header in the order of the declaration. Between the parentheses of a query less can change: the
white space at both ends, the commas behind the arguments, and the white space around the comma before the
argument for keys. Where no argument stands before that comma, the comma goes as well.

* `Call.solids_render` — the characters of a call that is laid out anew.
* `Call.relaid_or_keysAlone` — what changes between its parentheses.
* `header_content` — what a header keeps.
* `relaid_or_keysAlone_of_found` — the headers of the queries that a search finds.
-/

import ScopedHandles.Proofs.ClosedHeader
import ScopedHandles.Proofs.Scan

namespace ScopedHandles

/-! ### Characters that are kept -/

/-- The characters of a text that are neither white space nor commas. -/
def solids (text : Text) : Text :=
  text.filter fun c => !isWhiteSpace c && c != ','

theorem solids_append (text later : Text) : solids (text ++ later) = solids text ++ solids later :=
  List.filter_append ..

theorem solids_cons {c : Char} (kept : isWhiteSpace c = false ∧ c ≠ ',') (rest : Text) :
    solids (c :: rest) = c :: solids rest :=
  List.filter_cons_of_pos (by simp [kept])

theorem solids_cons_of_loose {c : Char} (loose : isWhiteSpace c = true ∨ c = ',') (rest : Text) :
    solids (c :: rest) = solids rest := by
  refine List.filter_cons_of_neg ?_
  rcases loose with white | rfl
  · simp [white]
  · decide

theorem solids_of_loose {text : Text} (loose : ∀ c ∈ text, isWhiteSpace c = true ∨ c = ',') :
    solids text = [] := by
  induction text with
  | nil => rfl
  | cons c rest ih =>
    obtain ⟨here, later⟩ := List.forall_mem_cons.mp loose
    rw [solids_cons_of_loose here, ih later]

theorem solids_trim (text : Text) : solids (trim text) = solids text := by
  obtain ⟨before, behind, whole, blankBefore, blankBehind, _⟩ := exists_trim text
  conv_rhs => rw [whole]
  rw [solids_append, solids_append, solids_of_loose fun c mem => .inl (blankBefore c mem),
    solids_of_loose fun c mem => .inl (blankBehind c mem), List.nil_append, List.append_nil]

theorem solids_trimEnd (text : Text) : solids (trimEnd text) = solids text := by
  conv_rhs => rw [← trimEnd_append_trailingBlanks text]
  rw [solids_append, solids_of_loose fun c mem => .inl (isWhiteSpace_of_mem_trailingBlanks c mem),
    List.append_nil]

/-- A target loses white space only, and blanks are all it gains. -/
theorem solids_collapseFrom (last : Option Char) (blank : Bool) (text : Text) :
    solids (collapseFrom last blank text) = solids text := by
  have cons : ∀ (c : Char) (rest : Text), solids (c :: rest) = solids [c] ++ solids rest :=
    fun c => solids_append [c]
  induction text generalizing last blank with
  | nil => rfl
  | cons c rest ih =>
    rw [collapseFrom]
    split_ifs with white
    · rw [ih, solids_cons_of_loose (.inl white)]
    · rw [solids_cons_of_loose (.inl (by decide)), cons, ih, ← cons]
    · rw [cons, ih, ← cons]

theorem solids_collapse (target : Text) : solids (collapse target) = solids target := by
  rw [collapse, solids_collapseFrom, solids_trim]

namespace Call

theorem solids_trimArguments (arguments : Text) : solids (trimArguments arguments) = solids arguments := by
  obtain ⟨kept, commas, whole, comma, same⟩ := exists_of_trimArguments arguments
  rw [same, solids_trim, whole, solids_append, solids_of_loose fun c mem => .inr (comma c mem),
    List.append_nil]

/-- What stands between the parentheses of a call that is laid out anew. -/
def listed (call : Call) : Text :=
  trimArguments call.arguments ++
    match call.keys with
    | none => []
    | some keys => if (trimArguments call.arguments).isEmpty then keys else ", ".toList ++ keys

theorem render_eq (call : Call) :
    call.render = collapse call.target ++ '(' :: (call.listed ++ ')' :: []) := by
  unfold render listed
  cases call.keys with
  | none => simp
  | some keys => simp

theorem solids_listed (call : Call) :
    solids call.listed = solids call.arguments ++ solids (call.keys.getD []) := by
  rw [listed, solids_append, solids_trimArguments]
  cases call.keys with
  | none => rfl
  | some keys =>
    simp only [Option.getD_some]
    split_ifs
    · rfl
    · exact congrArg _ ((solids_cons_of_loose (.inr rfl) _).trans
        (solids_cons_of_loose (.inl (by decide)) keys))

theorem solids_splitKeys (inner : Text) :
    solids (splitKeys inner).1 ++ solids ((splitKeys inner).2.getD []) = solids inner := by
  rcases splitKeys_cases inner with same | ⟨arguments, last, whole, same, _⟩
  · rw [same]
    exact List.append_nil _
  · rw [same, whole, Option.getD_some, solids_trim, solids_trimEnd, solids_append,
      solids_cons_of_loose (.inr rfl)]

/-- **A call that is laid out anew keeps its characters.** -/
theorem solids_render {expression : Text} {call : Call} (read : read? expression = some call) :
    solids call.render = solids expression := by
  obtain ⟨target, inner, blanks, rfl, _, blank, ofTarget, parts⟩ := exists_of_read? read
  have listed : solids call.listed = solids inner := by
    have split := solids_splitKeys (trim inner)
    rw [parts, solids_trim] at split
    rw [solids_listed, split]
  have opening : isWhiteSpace '(' = false ∧ '(' ≠ ',' := by decide
  have closing : isWhiteSpace ')' = false ∧ ')' ≠ ',' := by decide
  have nothing : solids blanks = solids [] := solids_of_loose fun c mem => .inl (blank c mem)
  rw [render_eq, ofTarget]
  simp only [solids_append, solids_cons opening, solids_cons closing, solids_collapse, solids_trim, listed,
    nothing]

end Call

theorem solids_resource {kind : HandleKind} {expression value : Text}
    (made : Declaration.resource kind expression = .ok value) : solids value = solids expression := by
  cases kind with
  | cursor =>
    obtain rfl : trim expression = value := Except.ok.inj made
    exact solids_trim expression
  | query =>
    obtain ⟨call, read, rfl⟩ := Declaration.exists_of_query made
    exact Call.solids_render read

/-! ### Between the parentheses -/

/-- What stands between the first opening and the last closing parenthesis of a text. -/
def parenthesized (text : Text) : Text :=
  let behind := (text.dropWhile (· != '(')).drop 1
  ((behind.reverse.dropWhile (· != ')')).drop 1).reverse

theorem parenthesized_eq {before inner behind : Text} (opening : '(' ∉ before) (closing : ')' ∉ behind) :
    parenthesized (before ++ '(' :: (inner ++ ')' :: behind)) = inner := by
  have opens : ∀ c ∈ ('(' :: (inner ++ ')' :: behind)).head?, (c != '(') = false :=
    forall_mem_some (by decide)
  have closes : ∀ c ∈ (')' :: inner.reverse).head?, (c != ')') = false := forall_mem_some (by decide)
  have backwards : (inner ++ ')' :: behind).reverse = behind.reverse ++ ')' :: inner.reverse := by simp
  have outside : ')' ∉ behind.reverse := fun mem => closing (List.mem_reverse.mp mem)
  simp only [parenthesized, dropWhile_run (bne_of_not_mem opening) opens, List.drop_succ_cons,
    List.drop_zero, backwards, dropWhile_run (bne_of_not_mem outside) closes, List.reverse_reverse]

/-- The name of an argument that asks for generated keys. -/
structure IsKeys (keys : Text) : Prop where
  dotted : ∀ c ∈ keys, isDottedChar c = true
  ending : "KEYS".toList <:+ keys

/-- A text that is some arguments with white space around them and commas behind. -/
inductive Padded (arguments : Text) : Text → Prop
  | intro {lead gap commas : Text} (leadBlank : ∀ c ∈ lead, isWhiteSpace c = true)
      (gapBlank : ∀ c ∈ gap, isWhiteSpace c = true) (comma : ∀ c ∈ commas, c = ',')
      (first : ∀ c ∈ arguments.head?, isWhiteSpace c = false)
      (last : ∀ c ∈ arguments.getLast?, isWhiteSpace c = false) :
      Padded arguments (lead ++ (arguments ++ (gap ++ commas)))

/-- **The changes that a new layout makes to an argument list.** White space is trimmed off, commas behind the
arguments go, and the white space around the comma before an argument for keys may be any. -/
inductive Relaid : Text → Text → Prop
  | plain {arguments front trail : Text} (padded : Padded arguments front)
      (trailBlank : ∀ c ∈ trail, isWhiteSpace c = true) : Relaid (front ++ trail) arguments
  | keyed {arguments front before behind keys trail newBefore newBehind : Text}
      (padded : Padded arguments front) (isKeys : IsKeys keys)
      (beforeBlank : ∀ c ∈ before, isWhiteSpace c = true)
      (behindBlank : ∀ c ∈ behind, isWhiteSpace c = true)
      (trailBlank : ∀ c ∈ trail, isWhiteSpace c = true)
      (newBeforeBlank : ∀ c ∈ newBefore, isWhiteSpace c = true)
      (newBehindBlank : ∀ c ∈ newBehind, isWhiteSpace c = true) :
      Relaid (front ++ (before ++ ',' :: (behind ++ (keys ++ trail))))
        (arguments ++ (newBefore ++ ',' :: (newBehind ++ keys)))

/-- An argument for keys that no other argument precedes: the comma before it goes. -/
inductive KeysAlone : Text → Text → Prop
  | intro {front before behind keys trail : Text} (padded : Padded [] front) (isKeys : IsKeys keys)
      (beforeBlank : ∀ c ∈ before, isWhiteSpace c = true)
      (behindBlank : ∀ c ∈ behind, isWhiteSpace c = true)
      (trailBlank : ∀ c ∈ trail, isWhiteSpace c = true) :
      KeysAlone (front ++ (before ++ ',' :: (behind ++ (keys ++ trail)))) keys

theorem KeysAlone.dotted {text result : Text} (alone : KeysAlone text result) :
    ∀ c ∈ result, isDottedChar c = true := by
  obtain ⟨_, isKeys, _, _, _⟩ := alone
  exact isKeys.dotted

/-- An argument list that loses its commas begins, behind white space, with what is left of it. -/
theorem Relaid.comma_mem_or_append {text result : Text} (relaid : Relaid text result) :
    ',' ∈ result ∨ ∃ lead later, text = lead ++ (result ++ later) ∧ ∀ c ∈ lead, isWhiteSpace c = true := by
  cases relaid with
  | plain padded trailBlank =>
    obtain ⟨leadBlank, _, _, _, _⟩ := padded
    exact .inr ⟨_, _, by rw [List.append_assoc, List.append_assoc], leadBlank⟩
  | keyed => exact .inl (by simp)

theorem Padded.append_left {arguments text blanks : Text} (padded : Padded arguments text)
    (blank : ∀ c ∈ blanks, isWhiteSpace c = true) : Padded arguments (blanks ++ text) := by
  obtain ⟨leadBlank, gapBlank, comma, first, last⟩ := padded
  rw [← List.append_assoc]
  exact ⟨List.forall_mem_append.mpr ⟨blank, leadBlank⟩, gapBlank, comma, first, last⟩

namespace Call

theorem padded_trimArguments (arguments : Text) : Padded (trimArguments arguments) arguments := by
  obtain ⟨kept, commas, whole, comma, same⟩ := exists_of_trimArguments arguments
  obtain ⟨lead, gap, around, leadBlank, gapBlank, first, last⟩ := exists_trim kept
  have shape : arguments = lead ++ (trim kept ++ (gap ++ commas)) := by
    rw [whole]
    conv_lhs => rw [around]
    simp only [List.append_assoc]
  rw [same]
  conv => rw [shape]
  exact ⟨leadBlank, gapBlank, comma, first, last⟩

theorem isKeys_of_splitKeys {inner arguments keys : Text}
    (parts : splitKeys inner = (arguments, some keys)) : IsKeys keys := by
  unfold splitKeys at parts
  simp only at parts
  split at parts
  · simp at parts
  · split_ifs at parts with named
    · obtain rfl : trim _ = keys := Option.some.inj (Prod.mk.inj parts).2
      simp only [Bool.and_eq_true, List.all_eq_true] at named
      exact ⟨named.1, List.isSuffixOf_iff_suffix.mp named.2⟩
    · simp at parts

/-- **What a new layout changes between the parentheses of a call.** -/
theorem relaid_or_keysAlone {inner : Text} {call : Call}
    (parts : splitKeys (trim inner) = (call.arguments, call.keys)) :
    Relaid inner call.listed ∨ KeysAlone inner call.listed := by
  obtain ⟨lead, trail, around, leadBlank, trailBlank, _⟩ := exists_trim inner
  have padded := (padded_trimArguments call.arguments).append_left leadBlank
  unfold listed
  rcases splitKeys_cases (trim inner) with same | ⟨arguments, last, whole, same, _⟩
  · obtain ⟨all, none⟩ := Prod.mk.inj (same.symm.trans parts)
    rw [← none, List.append_nil]
    rw [around, ← List.append_assoc, all]
    exact .inl (.plain padded trailBlank)
  · obtain ⟨cut, some⟩ := Prod.mk.inj (same.symm.trans parts)
    obtain ⟨behind, later, named, behindBlank, laterBlank, _⟩ := exists_trim last
    have isKeys : IsKeys (trim last) := isKeys_of_splitKeys same
    have shape : inner = lead ++ call.arguments ++
        (trailingBlanks arguments ++ ',' :: (behind ++ (trim last ++ (later ++ trail)))) := by
      rw [around, whole, ← cut]
      conv_lhs => rw [← trimEnd_append_trailingBlanks arguments, named]
      simp only [List.append_assoc, List.cons_append]
    have blank : ∀ c ∈ later ++ trail, isWhiteSpace c = true :=
      List.forall_mem_append.mpr ⟨laterBlank, trailBlank⟩
    rw [← some, shape]
    simp only
    split_ifs with empty
    · rw [List.isEmpty_iff.mp empty, List.nil_append]
      rw [List.isEmpty_iff.mp empty] at padded
      exact .inr ⟨padded, isKeys, isWhiteSpace_of_mem_trailingBlanks, behindBlank, blank⟩
    · have one : ∀ c ∈ [' '], isWhiteSpace c = true := List.forall_mem_singleton.mpr (by decide)
      exact .inl (.keyed padded isKeys isWhiteSpace_of_mem_trailingBlanks behindBlank blank
        (List.forall_mem_nil _) one)

end Call

/-! ### Headers -/

theorem mem_of_mem_collapseFrom {c : Char} {last : Option Char} {blank : Bool} {text : Text}
    (mem : c ∈ collapseFrom last blank text) : c = ' ' ∨ c ∈ text := by
  induction text generalizing last blank with
  | nil => simp [collapseFrom] at mem
  | cons d rest ih =>
    rw [collapseFrom] at mem
    split_ifs at mem <;> grind

namespace Declaration

variable {declaration : Declaration} {header initializer : Text}

/-- **Only white space and commas come and go.** -/
theorem solids_header (made : declaration.header = .ok header)
    (given : declaration.initializer = some initializer) :
    solids header = solids (declaration.declaredType ++ declaration.name ++
      '=' :: withoutCommentLines initializer) := by
  obtain ⟨value, _, resource, rfl⟩ := exists_of_header made given
  have blank : isWhiteSpace ' ' = true := by decide
  have sign : isWhiteSpace '=' = false ∧ '=' ≠ ',' := by decide
  simp only [solids_append, solids_cons_of_loose (.inl blank), solids_cons sign, solids_trim,
    solids_resource resource, List.append_assoc]

/-- **What changes between the parentheses of a query**, as long as the first one opens its arguments. -/
theorem relaid_or_keysAlone_header (made : declaration.header = .ok header)
    (given : declaration.initializer = some initializer) (query : declaration.kind = .query)
    (type : '(' ∉ declaration.declaredType) (name : '(' ∉ declaration.name) :
    Relaid (parenthesized (withoutCommentLines initializer)) (parenthesized header) ∨
      KeysAlone (parenthesized (withoutCommentLines initializer)) (parenthesized header) := by
  obtain ⟨value, _, resource, rfl⟩ := exists_of_header made given
  rw [query] at resource
  obtain ⟨call, read, rfl⟩ := exists_of_query resource
  obtain ⟨target, inner, blanks, whole, outside, blank, ofTarget, parts⟩ := Call.exists_of_read? read
  have closing : ')' ∉ blanks := fun mem => absurd (blank _ mem) (by decide)
  have shape : trim declaration.declaredType ++ ' ' :: (declaration.name ++ ' ' :: '=' :: ' ' ::
      (collapse call.target ++ '(' :: (call.listed ++ ')' :: []))) =
        (trim declaration.declaredType ++ ' ' :: (declaration.name ++ ' ' :: '=' :: ' ' ::
          collapse call.target)) ++ '(' :: (call.listed ++ ')' :: []) := by
    simp
  have inTarget : '(' ∉ collapse call.target := fun mem => by
    rcases mem_of_mem_collapseFrom mem with same | mem
    · exact absurd same (by decide)
    · rw [ofTarget] at mem
      exact outside (mem_of_mem_trim (mem_of_mem_trim mem))
  have inType : '(' ∉ trim declaration.declaredType := fun mem => type (mem_of_mem_trim mem)
  have opening : '(' ∉ trim declaration.declaredType ++ ' ' :: (declaration.name ++ ' ' :: '=' :: ' ' ::
      collapse call.target) := by
    simp [inType, name, inTarget]
  rw [Call.render_eq, shape, parenthesized_eq opening (by simp), whole, parenthesized_eq outside closing]
  exact Call.relaid_or_keysAlone parts

end Declaration

/-- **What a header keeps.** Its characters that are neither white space nor commas are those of its
declaration, in this order. Between the parentheses of a query only the white space at both ends, commas
behind the arguments and the white space around the comma before an argument for keys may differ, and this
comma goes if no argument stands before it. -/
theorem header_content {declaration : Declaration} {header : Text}
    (made : declaration.header = .ok header) :
    ∃ initializer, declaration.initializer = some initializer ∧
      solids header = solids (declaration.declaredType ++ declaration.name ++
        '=' :: withoutCommentLines initializer) ∧
      (declaration.kind = .query → '(' ∉ declaration.declaredType → '(' ∉ declaration.name →
        Relaid (parenthesized (withoutCommentLines initializer)) (parenthesized header) ∨
          KeysAlone (parenthesized (withoutCommentLines initializer)) (parenthesized header)) := by
  obtain ⟨initializer, given⟩ := Declaration.exists_initializer_of_header made
  exact ⟨initializer, given, Declaration.solids_header made given,
    Declaration.relaid_or_keysAlone_header made given⟩

/-- A search finds no parentheses in types and names. -/
theorem Declaration.parenthesis_not_mem_of_found {kind : HandleKind} {ending text : Text}
    {found : Occurrence Declaration} (isWord : Word ending) (mem : found ∈ declarations kind ending text) :
    '(' ∉ found.value.declaredType ∧ '(' ∉ found.value.name := by
  obtain ⟨before, layout, located⟩ := exists_located mem
  have outside : '(' ∉ layout.stem := layout.not_mem_stem isWord (by decide)
  rw [located.declaredType_eq, located.name_eq]
  simp only [Layout.stem, List.mem_append, not_or] at outside ⊢
  tauto

/-- **The header of a query that a search finds** differs between its parentheses by the layout of its
arguments only. -/
theorem relaid_or_keysAlone_of_found {settings : Settings} (valid : settings.validate = .ok ()) {text : Text}
    {found : Occurrence Declaration} (mem : found ∈ declarations .query (settings.typeOf .query) text)
    {header : Text} (made : found.value.header = .ok header) :
    ∃ initializer, found.value.initializer = some initializer ∧
      (Relaid (parenthesized (withoutCommentLines initializer)) (parenthesized header) ∨
        KeysAlone (parenthesized (withoutCommentLines initializer)) (parenthesized header)) := by
  obtain ⟨initializer, given⟩ := Declaration.exists_initializer_of_header made
  obtain ⟨_, _, located⟩ := exists_located mem
  obtain ⟨type, name⟩ := Declaration.parenthesis_not_mem_of_found (Settings.word_typeOf valid .query) mem
  exact ⟨initializer, given, Declaration.relaid_or_keysAlone_header made given located.kind_eq type name⟩

/-- A call with a parenthesis in a literal, commas behind its arguments, and a comment line. -/
def listedQuery : Declaration :=
  { commentedQuery with initializer := some "c\n .q( f(a, \")\"),,\n // keys\n S.KEYS )".toList }

theorem listedQuery_content :
    listedQuery.header = .ok "PreparedStatement ps = c.q(f(a, \")\"), S.KEYS)".toList ∧
      solids "PreparedStatement ps = c.q(f(a, \")\"), S.KEYS)".toList =
        "PreparedStatementps=c.q(f(a\")\")S.KEYS)".toList ∧
      Relaid " f(a, \")\"),,\n S.KEYS ".toList "f(a, \")\"), S.KEYS".toList := by
  have made : listedQuery.header = .ok "PreparedStatement ps = c.q(f(a, \")\"), S.KEYS)".toList := by
    decide +kernel
  obtain ⟨initializer, given, kept, changes⟩ := header_content made
  obtain rfl := Option.some.inj given
  have before : parenthesized (withoutCommentLines
      "c\n .q( f(a, \")\"),,\n // keys\n S.KEYS )".toList) = " f(a, \")\"),,\n S.KEYS ".toList := by
    decide +kernel
  have behind : parenthesized "PreparedStatement ps = c.q(f(a, \")\"), S.KEYS)".toList =
      "f(a, \")\"), S.KEYS".toList := by decide +kernel
  have changes := changes rfl (by decide) (by decide)
  rw [before, behind] at changes
  refine ⟨made, kept.trans (by decide +kernel), changes.resolve_right fun alone => ?_⟩
  exact absurd (alone.dotted '(' (by decide)) (by decide)

/-- A call whose only argument asks for keys, behind a comma. -/
def bareQuery : Declaration :=
  { commentedQuery with initializer := some "q(, KEYS)".toList }

/-- **The comma before the argument for keys is dropped**, which trimming alone does not explain. -/
theorem bareQuery_not_relaid :
    bareQuery.header = .ok "PreparedStatement ps = q(KEYS)".toList ∧
      parenthesized (withoutCommentLines "q(, KEYS)".toList) = ", KEYS".toList ∧
      parenthesized "PreparedStatement ps = q(KEYS)".toList = "KEYS".toList ∧
      ¬ Relaid ", KEYS".toList "KEYS".toList := by
  refine ⟨by decide +kernel, by decide +kernel, by decide +kernel, fun relaid => ?_⟩
  rcases relaid.comma_mem_or_append with comma | ⟨lead, later, whole, blank⟩
  · exact absurd comma (by decide)
  · cases lead with
    | nil => exact absurd (List.cons.inj whole).1 (by decide)
    | cons c lead =>
      obtain rfl : ',' = c := (List.cons.inj whole).1
      exact absurd (blank _ List.mem_cons_self) (by decide)

end ScopedHandles
