/-
**Statements and calls are read alike.**

The search for the end of a statement and the test for a single call go through a text with one and the
same counter of brackets. A semicolon outside of brackets stops the first, a comma outside of brackets the
second, and the second also looks at the last character that is no white space. So a call that holds no
semicolon outside of brackets is the statement before the next one, and what stands before the end of a
statement is a call if it ends like one and no comma divides it.

* `completesCall_iff` — the test for a call is a counter and a look at the end.
* `isSingleCall_iff` — single calls, told by balances.
* `EndsInCall.code_behind` — behind the end of a call stands code.
* `statement_and_call_agree` — what the two make of the same text.
-/

import ScopedHandles.Proofs.Scan
import ScopedHandles.Proofs.SingleCall
import ScopedHandles.Proofs.CommentDepth

namespace ScopedHandles

/-! ### The last character -/

/-- Whether the last character that is no white space is a closing parenthesis of code, `closed` saying so
of the text before. -/
def endsClosed (scanner : Scanner) (closed : Bool) : Text → Bool
  | [] => closed
  | c :: rest =>
    endsClosed (scanner.next c)
      (if isWhiteSpace c then closed else scanner.regionOf c == .code && c == ')') rest

/-- The last character that is no white space is a closing parenthesis of code. -/
def EndsInCall (text : Text) : Prop :=
  ∃ before blanks, text = before ++ ')' :: blanks ∧ (∀ c ∈ blanks, isWhiteSpace c = true) ∧
    (Scanner.start.run before).regionOf ')' = .code

/-- The last parenthesis of a text is its first character, or it stands in the rest. -/
theorem endsClosed_iff {scanner : Scanner} {closed : Bool} {text : Text} :
    endsClosed scanner closed text = true ↔
      closed = true ∧ (∀ c ∈ text, isWhiteSpace c = true) ∨
      ∃ before blanks, text = before ++ ')' :: blanks ∧ (∀ c ∈ blanks, isWhiteSpace c = true) ∧
        (scanner.run before).regionOf ')' = .code := by
  induction text generalizing scanner closed with
  | nil => simp [endsClosed]
  | cons c rest ih =>
    rw [endsClosed, ih]
    have cut : (∃ before blanks, c :: rest = before ++ ')' :: blanks ∧
          (∀ d ∈ blanks, isWhiteSpace d = true) ∧ (scanner.run before).regionOf ')' = .code) ↔
        (c = ')' ∧ scanner.regionOf c = .code ∧ ∀ d ∈ rest, isWhiteSpace d = true) ∨
        ∃ before blanks, rest = before ++ ')' :: blanks ∧ (∀ d ∈ blanks, isWhiteSpace d = true) ∧
          ((scanner.next c).run before).regionOf ')' = .code := by
      constructor
      · rintro ⟨_ | ⟨d, before⟩, blanks, split, blank, code⟩
        · obtain ⟨rfl, rfl⟩ := List.cons.inj split
          exact .inl ⟨rfl, code, blank⟩
        · obtain ⟨rfl, rfl⟩ := List.cons.inj split
          exact .inr ⟨before, blanks, rfl, blank, code⟩
      · rintro (⟨rfl, code, blank⟩ | ⟨before, blanks, rfl, blank, code⟩)
        · exact ⟨[], rest, rfl, blank, code⟩
        · exact ⟨c :: before, blanks, rfl, blank, code⟩
    rw [cut, ← or_assoc]
    refine or_congr_left ?_
    by_cases white : isWhiteSpace c = true
    · have other : c ≠ ')' := ne_of_class white (by decide)
      simp [white, other]
    · simp [white, and_comm, and_assoc]

/-! ### Single calls -/

/-- **The test for a call is a counter and a look at the end.** A comma outside of brackets stops the
counter. -/
theorem completesCall_iff {scanner : Scanner} {depth : Nat} {closed : Bool} {text : Text} :
    completesCall scanner depth closed text = true ↔
      openUntil ',' scanner depth text = some 0 ∧ endsClosed scanner closed text = true := by
  induction text generalizing scanner depth closed with
  | nil => simp [completesCall, openUntil, endsClosed]
  | cons c rest ih =>
    rw [completesCall.eq_def, openUntil, stepUntil, endsClosed]
    by_cases white : isWhiteSpace c = true
    · obtain ⟨opens, closes⟩ := not_bracket_of_class white (by decide)
      have other : c ≠ ',' := ne_of_class white (by decide)
      simp [white, opens, closes, other, ih]
    · by_cases code : scanner.regionOf c = .code
      · by_cases opens : opensBracket c = true
        · have other : (c == ')') = false := beq_eq_false_iff_ne.mpr (ne_of_class opens (by decide))
          simp [white, code, opens, other, ih]
        · by_cases closes : closesBracket c = true
          · cases depth with
            | zero => simp [white, code, opens, closes]
            | succ outer => simp [white, code, opens, closes, ih]
          · have other : (c == ')') = false := by
              refine beq_eq_false_iff_ne.mpr fun same => closes ?_
              rw [same]
              decide
            by_cases stops : c = ',' ∧ depth = 0
            · obtain ⟨rfl, rfl⟩ := stops
              simp [white, code, opens, closes]
            · simp [white, code, opens, closes, stops, other, ih]
      · have outside : (scanner.regionOf c == .code) = false := beq_eq_false_iff_ne.mpr code
        simp [white, code, outside, ih]

/-- No `stop` of code stands outside of brackets. -/
def Nested (stop : Char) (text : Text) : Prop :=
  ∀ place < text.length, (Scanner.start.labels text)[place]? = some (stop, .code) →
    bracketBalance text place ≠ 0

instance (stop : Char) (text : Text) : Decidable (Nested stop text) :=
  inferInstanceAs (Decidable (∀ place < text.length, _ → _))

/-- The brackets of code balance. -/
structure Balanced (text : Text) : Prop where
  above : ∀ place ≤ text.length, 0 ≤ bracketBalance text place
  level : bracketBalance text text.length = 0

theorem openUntil_iff_balanced {stop : Char} (opens : opensBracket stop = false) {text : Text} :
    openUntil stop .start 0 text = some 0 ↔ Nested stop text ∧ Balanced text := by
  have told := @openUntil_eq_zero_iff stop opens text []
  rw [List.append_nil] at told
  rw [told]
  exact and_congr_right fun _ => ⟨fun ⟨above, level⟩ => ⟨above, level⟩, fun ⟨above, level⟩ => ⟨above, level⟩⟩

/-- **Single calls, told by balances.** -/
theorem isSingleCall_iff {expression : Text} :
    isSingleCall expression = true ↔
      Nested ',' expression ∧ Balanced expression ∧ EndsInCall expression := by
  rw [isSingleCall, completesCall_iff, openUntil_iff_balanced (by decide), endsClosed_iff, and_assoc]
  simp [EndsInCall]

/-! ### Behind a call -/

/-- White space opens nothing. -/
theorem Scanner.isOpen_run_blank {scanner : Scanner} (plain : scanner.isOpen = false) {blanks : Text}
    (blank : ∀ c ∈ blanks, isWhiteSpace c = true) : (scanner.run blanks).isOpen = false := by
  induction blanks generalizing scanner with
  | nil => exact plain
  | cons c rest ih =>
    rw [run_cons]
    refine ih ?_ fun d mem => blank d (List.mem_cons_of_mem _ mem)
    rw [next_filler plain (by simp [isFiller, blank c List.mem_cons_self]), isOpen_settle, plain]

theorem Scanner.not_isOpen_of_code {scanner : Scanner} {c : Char} (code : scanner.regionOf c = .code) :
    scanner.isOpen = false := by
  obtain ⟨mode, depth⟩ := scanner
  cases mode with
  | plain half => rfl
  | lineComment => simp [regionOf] at code
  | literal quote escaped => simp [regionOf] at code

/-- **Behind the end of a call stands code.** -/
theorem EndsInCall.code_behind {text : Text} (ends : EndsInCall text) :
    (Scanner.start.run text).regionOf ';' = .code := by
  obtain ⟨before, blanks, rfl, blank, code⟩ := ends
  have plain := Scanner.not_isOpen_of_code code
  have closer : isIdle ')' = true := by decide
  have settles : (Scanner.start.run before).next ')' = (Scanner.start.run before).settle :=
    Scanner.next_idle (Scanner.quoted_of_not_isOpen plain) closer
  have outside : (Scanner.start.run (before ++ ')' :: blanks)).depth ≤ 0 := by
    rw [Scanner.run_append, Scanner.run_cons, Scanner.depth_run_blank blank, settles, Scanner.depth_settle]
    exact Scanner.depth_le_of_code code
  rw [Scanner.regionOf_idle _ (by decide), if_neg (Int.not_lt.mpr outside)]
  rw [Scanner.run_append, Scanner.run_cons, settles]
  exact Scanner.isOpen_run_blank (by rw [Scanner.isOpen_settle, plain]) blank

/-! ### Statements and calls -/

theorem balanced_of_ends {statement : Text} (ends : Ends statement) : Balanced statement := by
  have closed := ends.closed
  rw [openBrackets_eq_openUntil, openUntil_iff_balanced (by decide)] at closed
  exact closed.2

/-- **The two readings of a text agree.** A single call that holds no semicolon outside of brackets is the
statement before a semicolon behind it, whatever follows. And what stands before the end of a statement is
a single call exactly if it ends in a closing parenthesis of code and no comma stands outside of
brackets. -/
theorem statement_and_call_agree :
    (∀ expression, isSingleCall expression = true → Nested ';' expression → ∀ rest,
      (statementEnd (expression ++ ';' :: rest)).map (byteOffset (expression ++ ';' :: rest)) =
        some (byteSize expression)) ∧
    ∀ text place, statementEnd text = some place →
      (isSingleCall (text.take place) = true ↔
        EndsInCall (text.take place) ∧ Nested ',' (text.take place)) := by
  constructor
  · intro expression call whole rest
    obtain ⟨_, balanced, endsInCall⟩ := isSingleCall_iff.mp call
    have ends : Ends expression := by
      refine ⟨?_, endsInCall.code_behind⟩
      rw [openBrackets_eq_openUntil, openUntil_iff_balanced (by decide)]
      exact ⟨whole, balanced⟩
    rw [statementEnd, statementEndFrom_of_endsFrom ends rest, Option.map_some, byteOffset, List.take_left]
  · intro text place found
    obtain ⟨statement, later, rfl, rfl, ends⟩ := statementEnd_eq_some_iff.mp found
    rw [List.take_left, isSingleCall_iff]
    exact ⟨fun ⟨nested, _, call⟩ => ⟨call, nested⟩,
      fun ⟨call, nested⟩ => ⟨nested, balanced_of_ends ends, call⟩⟩

/-- A call with brackets, semicolons and commas in a literal, in a comment and in brackets. -/
def dividedCall : Text :=
  "c.q(\"),;\", /* ;) */ () -> \x7b r(1, 2); \x7d) ".toList

/-- Two calls with a comma between them. -/
def pairedCalls : Text :=
  "f(';'), g() ; h()".toList

theorem dividedCall_agrees :
    isSingleCall dividedCall = true ∧ Nested ';' dividedCall ∧
      (statementEnd (dividedCall ++ ';' :: ", \"".toList)).map
        (byteOffset (dividedCall ++ ';' :: ", \"".toList)) = some (byteSize dividedCall) ∧
      statementEnd pairedCalls = some 12 ∧ EndsInCall (pairedCalls.take 12) ∧
      isSingleCall (pairedCalls.take 12) = false := by
  have call : isSingleCall dividedCall = true := by decide +kernel
  have whole : Nested ';' dividedCall := by decide +kernel
  have found : statementEnd pairedCalls = some 12 := by decide +kernel
  have ends : EndsInCall (pairedCalls.take 12) :=
    ⟨"f(';'), g(".toList, [' '], by decide, List.all_eq_true.mp (by decide), by decide⟩
  have divided : ¬ Nested ',' (pairedCalls.take 12) := by decide +kernel
  refine ⟨call, whole, statement_and_call_agree.1 _ call whole _, found, ends, ?_⟩
  exact Bool.eq_false_iff.mpr fun single =>
    divided ((statement_and_call_agree.2 _ _ found).mp single).2

end ScopedHandles
