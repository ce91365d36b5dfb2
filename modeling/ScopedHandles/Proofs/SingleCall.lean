/-
**Single calls, and white space in them.**

Whether an expression is a single call is told by a scan that counts brackets. White space counts for it
in one way only: a line break ends line comments and literals. Any other white space leaves the scan where
every idle character leaves it (`Scanner.settle`), so it can be taken out beside such a character, and so
can line breaks that end nothing (`Scanner.unbroken`).

* `Scanner.next_blank` — what white space does to a scan.
* `completesCall_cons_congr` — one character is read alike from two states.
* `completesCall_collapseFrom` — a target on one line is read as the target was.
* `isSingleCall_trim` — white space around an expression does not matter.
-/

import ScopedHandles.Header
import ScopedHandles.Proofs.Scanner

namespace ScopedHandles

/-! ### Idle characters -/

/-- A character that belongs to no marker, quote or escape and ends no line. -/
def isIdle (c : Char) : Bool :=
  !"/*\"'\\\n".toList.contains c

theorem isIdle_iff {c : Char} :
    isIdle c = true ↔ c ≠ '/' ∧ c ≠ '*' ∧ c ≠ '"' ∧ c ≠ '\'' ∧ c ≠ '\\' ∧ c ≠ '\n' := by
  simp [isIdle]

/-- The characters of a class are idle, but for line breaks, if none of the others belongs to it. -/
theorem isIdle_of_class {p : Char → Bool} {c : Char} (member : p c = true)
    (apart : ("/*\"'\\".toList.all fun d => !p d) = true) (goesOn : c ≠ '\n') : isIdle c = true := by
  have other : ∀ d ∈ "/*\"'\\".toList, c ≠ d := fun d mem =>
    ne_of_class member (by simpa using List.all_eq_true.mp apart d mem)
  exact isIdle_iff.mpr ⟨other _ (by decide), other _ (by decide), other _ (by decide),
    other _ (by decide), other _ (by decide), goesOn⟩

namespace Scanner

/-- Whether a line comment or a literal is open. -/
def isOpen (scanner : Scanner) : Bool :=
  match scanner.mode with
  | .plain _ => false
  | _ => true

/-- The state behind an idle character. -/
def settle (scanner : Scanner) : Scanner :=
  match scanner.mode with
  | .plain _ => { scanner with mode := .plain .clear }
  | .lineComment => scanner
  | .literal quote _ => { scanner with mode := .literal quote false }

/-- Whether no line break of a text ends a line comment or stands in a literal. -/
def unbroken (scanner : Scanner) : Text → Bool
  | [] => true
  | c :: rest => (c != '\n' || !scanner.isOpen) && (scanner.next c).unbroken rest

theorem unbroken_append (scanner : Scanner) (text later : Text) :
    scanner.unbroken (text ++ later) = (scanner.unbroken text && (scanner.run text).unbroken later) := by
  induction text generalizing scanner with
  | nil => rfl
  | cons c rest ih => rw [List.cons_append, unbroken, unbroken, ih, run_cons, Bool.and_assoc]

@[simp] theorem settle_settle (scanner : Scanner) : scanner.settle.settle = scanner.settle := by
  obtain ⟨mode, depth⟩ := scanner
  cases mode <;> rfl

@[simp] theorem isOpen_settle (scanner : Scanner) : scanner.settle.isOpen = scanner.isOpen := by
  obtain ⟨mode, depth⟩ := scanner
  cases mode <;> rfl

@[simp] theorem depth_settle (scanner : Scanner) : scanner.settle.depth = scanner.depth := by
  obtain ⟨mode, depth⟩ := scanner
  cases mode <;> rfl

theorem regionOf_settle {c : Char} (idle : isIdle c = true) (scanner : Scanner) :
    scanner.settle.regionOf c = scanner.regionOf c := by
  obtain ⟨slash, star, _⟩ := isIdle_iff.mp idle
  obtain ⟨mode, depth⟩ := scanner
  cases mode <;> simp [settle, regionOf, slash, star]

theorem regionOf_idle {scanner : Scanner} (plain : scanner.isOpen = false) {c : Char}
    (idle : isIdle c = true) :
    scanner.regionOf c = if 0 < scanner.depth then .blockComment else .code := by
  obtain ⟨slash, star, double, single, _⟩ := isIdle_iff.mp idle
  obtain ⟨mode, depth⟩ := scanner
  cases mode with
  | plain half => simp [regionOf, slash, star, double, single]
  | lineComment => simp [isOpen] at plain
  | literal quote escaped => simp [isOpen] at plain

/-- An open literal has one of the two quotes. -/
def Quoted (scanner : Scanner) : Prop :=
  match scanner.mode with
  | .literal quote _ => quote = '"' ∨ quote = '\''
  | _ => True

theorem Behind.quoted {last : Option Char} {scanner : Scanner} (behind : scanner.Behind last) :
    scanner.Quoted := by
  obtain ⟨mode, depth⟩ := scanner
  cases mode with
  | plain half => trivial
  | lineComment => trivial
  | literal quote escaped => exact behind.1

theorem quoted_of_not_isOpen {scanner : Scanner} (plain : scanner.isOpen = false) : scanner.Quoted := by
  obtain ⟨mode, depth⟩ := scanner
  cases mode with
  | plain half => trivial
  | lineComment => trivial
  | literal quote escaped => simp [isOpen] at plain

theorem Quoted.settle {scanner : Scanner} (quoted : scanner.Quoted) : scanner.settle.Quoted := by
  obtain ⟨mode, depth⟩ := scanner
  cases mode <;> exact quoted

theorem Quoted.next {scanner : Scanner} (quoted : scanner.Quoted) (c : Char) :
    (scanner.next c).Quoted := by
  obtain ⟨mode, depth⟩ := scanner
  cases mode with
  | plain half =>
    simp only [Scanner.next]
    split_ifs <;> simp_all [Quoted]
  | lineComment =>
    simp only [Scanner.next]
    split_ifs <;> trivial
  | literal quote escaped =>
    simp only [Scanner.next]
    split_ifs <;> simp_all [Quoted]

theorem Quoted.run {scanner : Scanner} (quoted : scanner.Quoted) (text : Text) :
    (scanner.run text).Quoted := by
  induction text generalizing scanner with
  | nil => exact quoted
  | cons c rest ih => exact ih (quoted.next c)

theorem next_idle {scanner : Scanner} (quoted : scanner.Quoted) {c : Char} (idle : isIdle c = true) :
    scanner.next c = scanner.settle := by
  obtain ⟨slash, star, double, single, backslash, newline⟩ := isIdle_iff.mp idle
  obtain ⟨mode, depth⟩ := scanner
  cases mode with
  | plain half => simp [Scanner.next, settle, Half.of, slash, star, double, single]
  | lineComment => simp [Scanner.next, settle, newline]
  | literal quote escaped =>
    have unquoted : c ≠ quote := by
      rcases quoted with rfl | rfl
      · exact double
      · exact single
    cases escaped <;> simp [Scanner.next, settle, backslash, newline, unquoted]

theorem next_newline_of_not_isOpen {scanner : Scanner} (plain : scanner.isOpen = false) :
    scanner.next '\n' = scanner.settle := by
  obtain ⟨mode, depth⟩ := scanner
  cases mode with
  | plain half => simp [Scanner.next, settle, Half.of]
  | lineComment => simp [isOpen] at plain
  | literal quote escaped => simp [isOpen] at plain

/-- **White space settles a scan**, unless it is a line break that ends something. -/
theorem next_blank {scanner : Scanner} (quoted : scanner.Quoted) {c : Char}
    (blank : isWhiteSpace c = true) (kept : (c != '\n' || !scanner.isOpen) = true) :
    scanner.next c = scanner.settle := by
  by_cases newline : c = '\n'
  · subst newline
    exact next_newline_of_not_isOpen (by simpa using kept)
  · exact next_idle quoted (isIdle_of_class blank (by decide) newline)

/-- White space leaves a settled scan alone. -/
theorem run_blank_of_settled {scanner : Scanner} (quoted : scanner.Quoted)
    (settled : scanner.settle = scanner) {blanks : Text} (blank : ∀ c ∈ blanks, isWhiteSpace c = true)
    (kept : scanner.unbroken blanks = true) : scanner.run blanks = scanner := by
  induction blanks with
  | nil => rfl
  | cons c rest ih =>
    obtain ⟨here, later⟩ := Bool.and_eq_true_iff.mp kept
    have stays : scanner.next c = scanner := by
      rw [next_blank quoted (blank c List.mem_cons_self) here, settled]
    rw [stays] at later
    rw [run_cons, stays, ih (fun d mem => blank d (List.mem_cons_of_mem _ mem)) later]

end Scanner

/-! ### Reading a call -/

section Reading

variable {scanner other : Scanner} {depth : Nat} {closed : Bool} {text later : Text}

theorem completesCall_cons_of_blank {c : Char} (blank : isWhiteSpace c = true) :
    completesCall scanner depth closed (c :: text) =
      completesCall (scanner.next c) depth closed text := by
  simp only [completesCall, blank, if_true]

theorem completesCall_blanks {blanks : Text} (blank : ∀ c ∈ blanks, isWhiteSpace c = true) :
    completesCall scanner depth closed (blanks ++ text) =
      completesCall (scanner.run blanks) depth closed text := by
  induction blanks generalizing scanner with
  | nil => rfl
  | cons c rest ih =>
    rw [List.cons_append, completesCall_cons_of_blank (blank c List.mem_cons_self),
      ih fun d mem => blank d (List.mem_cons_of_mem _ mem), Scanner.run_cons]

/-- **One character is read alike from two states** if it belongs to the same region and the rest is read
alike. What stood before it does not matter. -/
theorem completesCall_cons_congr {c : Char} (solid : isWhiteSpace c = false)
    (region : scanner.regionOf c = other.regionOf c)
    (rest : ∀ depth closed, completesCall (scanner.next c) depth closed text =
      completesCall (other.next c) depth closed later) (closed closed' : Bool) :
    completesCall scanner depth closed (c :: text) = completesCall other depth closed' (c :: later) := by
  simp only [completesCall, solid, Bool.false_eq_true, if_false, region, rest]

/-- **Where a piece of an expression leads**: to a state from which everything behind it is read, or nowhere.
A reading stops at a bracket that closes nothing and at a comma outside of brackets. -/
theorem completesCall_append_cases (scanner : Scanner) (depth : Nat) (closed : Bool) (text : Text) :
    (∃ inner ended, ∀ later, completesCall scanner depth closed (text ++ later) =
      completesCall (scanner.run text) inner ended later) ∨
    ∀ later, completesCall scanner depth closed (text ++ later) = false := by
  induction text generalizing scanner depth closed with
  | nil => exact .inl ⟨depth, closed, fun _ => rfl⟩
  | cons c rest ih =>
    simp only [List.cons_append, completesCall, Scanner.run_cons]
    split_ifs with blank outside opens closes top
    · exact ih _ _ _
    · exact ih _ _ _
    · exact ih _ _ _
    · cases depth with
      | zero => exact .inr fun _ => rfl
      | succ outer => exact ih _ _ _
    · exact .inr fun _ => rfl
    · exact ih _ _ _

theorem completesCall_of_blank {blanks : Text} (blank : ∀ c ∈ blanks, isWhiteSpace c = true) :
    completesCall scanner depth closed blanks = (depth == 0 && closed) := by
  rw [← List.append_nil blanks, completesCall_blanks blank, completesCall]

/-- White space behind an expression does not matter. -/
theorem completesCall_append_blanks {blanks : Text} (blank : ∀ c ∈ blanks, isWhiteSpace c = true) :
    completesCall scanner depth closed (text ++ blanks) = completesCall scanner depth closed text := by
  rw [← List.append_nil text, List.append_assoc, List.nil_append]
  rcases completesCall_append_cases scanner depth closed text with ⟨inner, ended, leads⟩ | none
  · rw [leads, leads, completesCall_of_blank blank, completesCall]
  · rw [none, none]

/-! ### Targets on one line -/

/-- White space behind an opening parenthesis can be taken out, if it ends nothing. -/
theorem completesCall_parenthesis (quoted : scanner.Quoted) {blanks : Text}
    (blank : ∀ c ∈ blanks, isWhiteSpace c = true)
    (kept : scanner.unbroken ('(' :: blanks) = true) (closed' : Bool) :
    completesCall scanner depth closed ('(' :: (blanks ++ text)) =
      completesCall scanner depth closed' ('(' :: text) := by
  have settled : (scanner.next '(').settle = scanner.next '(' := by
    rw [Scanner.next_idle quoted (by decide), Scanner.settle_settle]
  refine completesCall_cons_congr (by decide) rfl (fun depth closed => ?_) _ _
  rw [completesCall_blanks blank, Scanner.run_blank_of_settled (quoted.next _) settled blank]
  exact (Bool.and_eq_true_iff.mp kept).2

/-- **A target on one line is read as the target was.** White space that is held back has settled the scan,
so that a blank in its place, or a dot beside it, is read alike. Two states that read a character alike read
the rest alike. -/
theorem completesCall_collapseFrom (quoted : scanner.Quoted) {last : Option Char}
    (dotted : last = some '.' → scanner.settle = scanner) (blank : Bool)
    (kept : (if blank then scanner.settle else scanner).unbroken text = true) (closed' : Bool) :
    completesCall scanner depth closed (collapseFrom last blank text ++ '(' :: later) =
      completesCall (if blank then scanner.settle else scanner) depth closed' (text ++ '(' :: later) := by
  induction text generalizing scanner last blank depth closed closed' with
  | nil =>
    refine completesCall_cons_congr (by decide) ?_ (fun _ _ => ?_) _ _
    · cases blank
      · rfl
      · exact (Scanner.regionOf_settle (by decide) scanner).symm
    · cases blank
      · rfl
      · rw [if_pos rfl, Scanner.next_idle quoted (by decide),
          Scanner.next_idle quoted.settle (by decide), Scanner.settle_settle]
  | cons c rest ih =>
    obtain ⟨here, behind⟩ := Bool.and_eq_true_iff.mp kept
    by_cases white : isWhiteSpace c = true
    · have settles : (if blank then scanner.settle else scanner).next c = scanner.settle := by
        cases blank
        · exact Scanner.next_blank quoted white here
        · rw [if_pos rfl] at here ⊢
          rw [Scanner.next_blank quoted.settle white here, Scanner.settle_settle]
      rw [settles] at behind
      rw [collapseFrom, if_pos white, List.cons_append, completesCall_cons_of_blank white, settles]
      exact ih quoted dotted true behind closed'
    · have solid : isWhiteSpace c = false := Bool.not_eq_true _ ▸ white
      have same : ∀ {state other : Scanner} {depth : Nat} {closed closed' : Bool}, state.Quoted →
          state.regionOf c = other.regionOf c → state.next c = other.next c →
          (other.next c).unbroken rest = true →
          completesCall state depth closed (c :: (collapseFrom (some c) false rest ++ '(' :: later)) =
            completesCall other depth closed' (c :: (rest ++ '(' :: later)) := by
        intro state other depth closed closed' quoted region next kept
        refine completesCall_cons_congr solid region (fun _ closed => ?_) _ _
        rw [← next] at kept ⊢
        refine ih (quoted.next c) (fun dot => ?_) false kept closed
        obtain rfl := Option.some.inj dot
        rw [Scanner.next_idle quoted (by decide), Scanner.settle_settle]
      rw [collapseFrom, if_neg white]
      cases blank with
      | false =>
        rw [if_neg (by simp)]
        exact same quoted rfl rfl behind
      | true =>
        rw [if_pos rfl] at behind ⊢
        split_ifs with apart
        · rw [List.cons_append, completesCall_cons_of_blank (by decide),
            Scanner.next_idle quoted (by decide)]
          exact same quoted.settle rfl rfl behind
        · by_cases dot : last = some '.'
          · rw [dotted dot] at behind ⊢
            exact same quoted rfl rfl behind
          · obtain rfl : c = '.' := by simpa [dot] using apart
            refine same quoted (Scanner.regionOf_settle (by decide) scanner).symm ?_ behind
            rw [Scanner.next_idle quoted (by decide), Scanner.next_idle quoted.settle (by decide),
              Scanner.settle_settle]

/-- White space at the end of a target vanishes. -/
theorem collapseFrom_append_blanks {last : Option Char} {blank : Bool} {blanks : Text}
    (white : ∀ c ∈ blanks, isWhiteSpace c = true) :
    collapseFrom last blank (text ++ blanks) = collapseFrom last blank text := by
  have vanish : ∀ last blank, collapseFrom last blank blanks = [] := by
    induction blanks with
    | nil => simp [collapseFrom]
    | cons c rest ih =>
      intro last blank
      rw [collapseFrom, if_pos (white c List.mem_cons_self),
        ih fun d mem => white d (List.mem_cons_of_mem _ mem)]
  induction text generalizing last blank with
  | nil => rw [List.nil_append, vanish, collapseFrom]
  | cons c rest ih =>
    rw [List.cons_append, collapseFrom, collapseFrom, ih, ih]

/-- **A target that is laid out anew is read as it was**, up to the first argument. -/
theorem completesCall_collapse {target lead : Text} (blank : ∀ c ∈ lead, isWhiteSpace c = true)
    (kept : Scanner.start.unbroken (target ++ '(' :: lead) = true) (text : Text) :
    completesCall .start 0 false (collapse (trim target) ++ '(' :: text) =
      completesCall .start 0 false (target ++ '(' :: (lead ++ text)) := by
  obtain ⟨before, behind, whole, beforeBlank, behindBlank, _⟩ := exists_trim target
  rw [Scanner.unbroken_append] at kept
  obtain ⟨inTarget, inLead⟩ := Bool.and_eq_true_iff.mp kept
  have inner : Scanner.start.unbroken (trim target ++ behind) = true := by
    rw [whole, Scanner.unbroken_append, Scanner.run_blank beforeBlank] at inTarget
    exact (Bool.and_eq_true_iff.mp inTarget).2
  calc completesCall .start 0 false (collapse (trim target) ++ '(' :: text)
      = completesCall .start 0 false (collapseFrom none false (trim target ++ behind) ++ '(' :: text) := by
        rw [collapse, trim_trim, collapseFrom_append_blanks behindBlank]
    _ = completesCall .start 0 false (trim target ++ behind ++ '(' :: text) :=
        completesCall_collapseFrom Scanner.behind_start.quoted (by simp) false inner false
    _ = completesCall .start 0 false (target ++ '(' :: text) := by
        conv_rhs => rw [whole]
        rw [List.append_assoc before, completesCall_blanks beforeBlank, Scanner.run_blank beforeBlank]
    _ = completesCall .start 0 false (target ++ '(' :: (lead ++ text)) := by
        rcases completesCall_append_cases .start 0 false target with ⟨depth, closed, leads⟩ | none
        · rw [leads, leads,
            completesCall_parenthesis (Scanner.behind_start.quoted.run target) blank inLead closed]
        · rw [none, none]

/-- **White space around an expression does not matter.** -/
theorem isSingleCall_trim (expression : Text) :
    isSingleCall (trim expression) = isSingleCall expression := by
  obtain ⟨before, behind, whole, beforeBlank, behindBlank, _⟩ := exists_trim expression
  conv_rhs => rw [whole]
  rw [isSingleCall, isSingleCall, completesCall_blanks beforeBlank, Scanner.run_blank beforeBlank,
    completesCall_append_blanks behindBlank]

/-! ### The end of a call -/

/-- What may stand between the last argument that is kept and the closing parenthesis. -/
def isFiller (c : Char) : Bool :=
  isWhiteSpace c || isDottedChar c || c == ','

theorem Scanner.next_filler (plain : scanner.isOpen = false) {c : Char} (fills : isFiller c = true) :
    scanner.next c = scanner.settle := by
  by_cases newline : c = '\n'
  · subst newline
    exact next_newline_of_not_isOpen plain
  · exact next_idle (quoted_of_not_isOpen plain) (isIdle_of_class fills (by decide +kernel) newline)

/-- **How a call is closed where neither a line comment nor a literal is open**: outside of block comments,
by the last bracket that is open. A comma outside of brackets ends the reading, and then there is no bracket
to close. -/
theorem completesCall_closing_iff {filler blanks : Text} (plain : scanner.isOpen = false)
    (fills : ∀ c ∈ filler, isFiller c = true) (blank : ∀ c ∈ blanks, isWhiteSpace c = true) :
    completesCall scanner depth closed (filler ++ ')' :: blanks) = true ↔
      scanner.depth ≤ 0 ∧ depth = 1 := by
  induction filler generalizing scanner closed with
  | nil =>
    have solid : isWhiteSpace ')' = false := by decide
    have region := Scanner.regionOf_idle plain (show isIdle ')' = true by decide)
    by_cases deep : 0 < scanner.depth
    · rw [if_pos deep] at region
      have unclosed : completesCall scanner depth closed (')' :: blanks) = false := by
        simp [completesCall, solid, region, completesCall_of_blank blank]
      rw [List.nil_append, unclosed]
      exact ⟨fun closes => Bool.noConfusion closes, fun outside => absurd deep (by omega)⟩
    · rw [if_neg deep] at region
      cases depth with
      | zero => simp [completesCall, solid, region, opensBracket, closesBracket]
      | succ outer =>
        have closes : completesCall scanner (outer + 1) closed (')' :: blanks) = (outer == 0) := by
          simp [completesCall, solid, region, opensBracket, closesBracket, completesCall_of_blank blank]
        rw [List.nil_append, closes, beq_iff_eq]
        omega
  | cons c rest ih =>
    have fill := fills c List.mem_cons_self
    have inner : ∀ closed, completesCall (scanner.next c) depth closed (rest ++ ')' :: blanks) = true ↔
        scanner.depth ≤ 0 ∧ depth = 1 := by
      intro closed
      rw [Scanner.next_filler plain fill, ih (by rwa [Scanner.isOpen_settle]) fun d mem =>
        fills d (List.mem_cons_of_mem _ mem), Scanner.depth_settle]
    cases white : isWhiteSpace c with
    | true =>
      rw [List.cons_append, completesCall_cons_of_blank white]
      exact inner closed
    | false =>
      obtain ⟨opens, closes⟩ := not_bracket_of_class fill (by decide +kernel)
      simp only [List.cons_append, completesCall, white, opens, closes, Bool.false_eq_true, if_false]
      split_ifs with outside top
      · exact inner false
      · simp [top.2]
      · exact inner false

/-- A call is not closed on a line on which a line comment or a literal is open. -/
theorem not_completesCall_of_isOpen {filler : Text} (quoted : scanner.Quoted)
    (unclosed : scanner.isOpen = true) (idle : ∀ c ∈ filler, isIdle c = true) :
    completesCall scanner depth closed (filler ++ [')']) = false := by
  have outside : ∀ {scanner : Scanner} (c : Char), scanner.isOpen = true →
      scanner.regionOf c ≠ .code := by
    rintro ⟨mode, depth⟩ c unclosed
    cases mode <;> simp [Scanner.isOpen] at unclosed <;> simp [Scanner.regionOf]
  induction filler generalizing scanner closed with
  | nil => simp [completesCall, outside _ unclosed, show isWhiteSpace ')' = false by decide]
  | cons c rest ih =>
    have next := Scanner.next_idle quoted (idle c List.mem_cons_self)
    have inner : ∀ closed, completesCall (scanner.next c) depth closed (rest ++ [')']) = false := by
      intro closed
      rw [next]
      exact ih quoted.settle (by rwa [Scanner.isOpen_settle]) fun d mem =>
        idle d (List.mem_cons_of_mem _ mem)
    simp only [List.cons_append, completesCall, ne_eq, outside c unclosed, not_false_eq_true, if_true,
      inner, ite_self]

end Reading

end ScopedHandles
