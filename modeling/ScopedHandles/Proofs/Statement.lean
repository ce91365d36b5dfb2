/-
**Statements that end.**

A statement ends at a semicolon exactly if the text before it closes the brackets that it opens and
leaves the scan in code (`Ends`). That is told by the text before the semicolon alone, and renaming
keeps it.

* `statementEnd_eq_some_iff` — a statement and its end.
* `Renamed.ends` — a renamed statement ends.
* `Renamed.endsInNull_eq` — renaming does not change whether an initializer ends in `null`.
-/

import ScopedHandles.Proofs.Reading

namespace ScopedHandles

/-! ### Open brackets -/

/-- The number of open brackets behind a character, if the statement goes on behind it. -/
def bracketStep (scanner : Scanner) (c : Char) (depth : Nat) : Option Nat :=
  if scanner.regionOf c ≠ .code then some depth
  else if opensBracket c then some (depth + 1)
  else if closesBracket c then (if depth = 0 then none else some (depth - 1))
  else if c = ';' ∧ depth = 0 then none
  else some depth

/-- The number of open brackets behind a text, if the statement goes on behind it. -/
def openBrackets (scanner : Scanner) (depth : Nat) : Text → Option Nat
  | [] => some depth
  | c :: rest => (bracketStep scanner c depth).bind fun inner =>
      openBrackets (scanner.next c) inner rest

theorem openBrackets_append (scanner : Scanner) (depth : Nat) (text later : Text) :
    openBrackets scanner depth (text ++ later) =
      (openBrackets scanner depth text).bind fun inner =>
        openBrackets (scanner.run text) inner later := by
  induction text generalizing scanner depth with
  | nil => rfl
  | cons c rest ih =>
    simp only [List.cons_append, openBrackets, Option.bind_assoc, Scanner.run_cons]
    congr 1
    funext inner
    exact ih _ _

theorem openBrackets_word {scanner : Scanner} {depth : Nat} {word : Text}
    (chars : ∀ c ∈ word, isWordChar c = true) : openBrackets scanner depth word = some depth := by
  induction word generalizing scanner with
  | nil => rfl
  | cons c rest ih =>
    have word := chars c List.mem_cons_self
    have step : bracketStep scanner c depth = some depth := by
      obtain ⟨opens, closes⟩ := not_bracket_of_class word (by decide +kernel)
      have other : c ≠ ';' := ne_of_class word (by decide)
      simp [bracketStep, opens, closes, other]
    rw [openBrackets, step, Option.bind_some, ih fun d mem => chars d (List.mem_cons_of_mem _ mem)]

/-! ### The end of a statement -/

theorem statementEndFrom_cons (scanner : Scanner) (depth : Nat) (c : Char) (rest : Text) :
    statementEndFrom scanner depth (c :: rest) =
      match bracketStep scanner c depth with
      | some inner => (statementEndFrom (scanner.next c) inner rest).map (· + 1)
      | none => if scanner.regionOf c = .code ∧ c = ';' ∧ depth = 0 then some 0 else none := by
  rw [statementEndFrom.eq_def]
  unfold bracketStep
  by_cases code : scanner.regionOf c = .code
  · by_cases opens : opensBracket c = true
    · simp [code, opens]
    · by_cases closes : closesBracket c = true
      · have other : c ≠ ';' := by
          rintro rfl
          exact absurd closes (by decide)
        cases depth with
        | zero => simp [code, opens, closes, other]
        | succ outer => simp [code, opens, closes]
      · by_cases ends : c = ';' ∧ depth = 0
        · obtain ⟨rfl, rfl⟩ := ends
          simp [code, opens, closes]
        · simp [code, opens, closes, ends]
  · simp [code]

/-- A statement that ends at a semicolon behind it, where `depth` brackets are open before it. -/
structure EndsFrom (scanner : Scanner) (depth : Nat) (statement : Text) : Prop where
  closed : openBrackets scanner depth statement = some 0
  code : (scanner.run statement).regionOf ';' = .code

/-- A statement that ends at a semicolon behind it. -/
abbrev Ends (statement : Text) : Prop :=
  EndsFrom .start 0 statement

theorem statementEndFrom_of_endsFrom {scanner : Scanner} {depth : Nat} {statement : Text}
    (ends : EndsFrom scanner depth statement) (later : Text) :
    statementEndFrom scanner depth (statement ++ ';' :: later) = some statement.length := by
  induction statement generalizing scanner depth with
  | nil =>
    obtain ⟨closed, code⟩ := ends
    obtain rfl : depth = 0 := Option.some.inj closed
    have code : scanner.regionOf ';' = .code := code
    have stop : bracketStep scanner ';' 0 = none := by
      simp [bracketStep, code, show opensBracket ';' = false by decide,
        show closesBracket ';' = false by decide]
    rw [List.nil_append, statementEndFrom_cons, stop]
    simp [code]
  | cons c rest ih =>
    obtain ⟨closed, code⟩ := ends
    obtain ⟨inner, step, closed⟩ := Option.bind_eq_some_iff.mp closed
    rw [List.cons_append, statementEndFrom_cons, step, List.length_cons]
    simp only
    rw [ih ⟨closed, code⟩, Option.map_some]

/-- **Where a statement ends it can be cut.** -/
theorem exists_of_statementEndFrom {scanner : Scanner} {depth place : Nat} {text : Text}
    (found : statementEndFrom scanner depth text = some place) :
    ∃ statement later, text = statement ++ ';' :: later ∧ statement.length = place ∧
      EndsFrom scanner depth statement := by
  induction text generalizing scanner depth place with
  | nil => simp [statementEndFrom] at found
  | cons c rest ih =>
    rw [statementEndFrom_cons] at found
    cases step : bracketStep scanner c depth with
    | none =>
      simp only [step] at found
      split_ifs at found with ends
      obtain ⟨code, rfl, rfl⟩ := ends
      exact ⟨[], rest, rfl, Option.some.inj found, rfl, code⟩
    | some inner =>
      simp only [step] at found
      obtain ⟨before, inRest, rfl⟩ := Option.map_eq_some_iff.mp found
      obtain ⟨statement, later, rfl, rfl, closed, code⟩ := ih inRest
      refine ⟨c :: statement, later, rfl, rfl, ?_, code⟩
      rw [openBrackets, step, Option.bind_some, closed]

theorem statementEnd_eq_some_iff {text : Text} {place : Nat} :
    statementEnd text = some place ↔
      ∃ statement later, text = statement ++ ';' :: later ∧ statement.length = place ∧
        Ends statement := by
  constructor
  · exact exists_of_statementEndFrom
  · rintro ⟨statement, later, rfl, rfl, ends⟩
    exact statementEndFrom_of_endsFrom ends later

/-! ### Renamed statements -/

section Renamed

variable {old new : Text} {allowed : Text → Prop} {last : Option Char} {text result : Text}

theorem Renamed.openBrackets_eq (oldWord : Word old) (newWord : Word new)
    (renamed : Renamed old new allowed last text result) {scanner : Scanner}
    (behind : Scanner.Behind last scanner) (depth : Nat) :
    openBrackets scanner depth text = openBrackets scanner depth result := by
  induction renamed generalizing scanner depth with
  | done => rfl
  | keep _ ih =>
    simp only [openBrackets]
    congr 1
    funext inner
    exact ih (behind.next _) inner
  | swap before _ _ _ ih =>
    have steady := behind.steady_of_mayPrecede before
    rw [openBrackets_append, openBrackets_append, openBrackets_word oldWord.chars,
      openBrackets_word newWord.chars, Scanner.run_word steady oldWord.nonempty oldWord.chars,
      Scanner.run_word steady newWord.nonempty newWord.chars]
    exact ih ((Scanner.steady_pastWord steady).behind _) depth

/-- **A renamed statement ends.** -/
theorem Renamed.ends (oldWord : Word old) (newWord : Word new)
    (renamed : Renamed old new allowed last text result) (ends : Ends text) : Ends result := by
  have behind : Scanner.Behind last .start := Scanner.steady_start.behind last
  refine ⟨?_, ?_⟩
  · rw [← renamed.openBrackets_eq oldWord newWord behind, ends.closed]
  · rw [← renamed.run_eq oldWord newWord behind, ends.code]

/-! ### Initializers that end in null -/

theorem endsInNull_iff {text : Text} :
    Declaration.endsInNull text = true ↔
      ∃ before blanks, text = before ++ ("null".toList ++ blanks) ∧
        (∀ c ∈ blanks, isWhiteSpace c = true) ∧
        ∀ c ∈ before.getLast?, (isAlphanumeric c || c == '_') = false := by
  unfold Declaration.endsInNull
  constructor
  · intro ends
    split at ends
    · simp at ends
    · next before cut =>
      refine ⟨before, trailingBlanks text, ?_, isWhiteSpace_of_mem_trailingBlanks, ?_⟩
      · rw [← List.append_assoc, ← before?_eq_some_iff.mp cut, trimEnd_append_trailingBlanks]
      · intro c last
        rw [Option.mem_def.mp last] at ends
        simpa using ends
  · rintro ⟨before, blanks, rfl, blank, edge⟩
    have trimmed : trimEnd (before ++ ("null".toList ++ blanks)) = before ++ "null".toList := by
      rw [← List.append_assoc]
      refine trimEnd_append_blanks blank ?_
      intro c last
      rw [List.getLast?_append_of_ne_nil _ (by decide)] at last
      obtain rfl : 'l' = c := Option.some.inj last
      decide
    rw [trimmed, before?_eq_some_iff.mpr rfl]
    show (!before.getLast?.any fun c => isAlphanumeric c || c == '_') = true
    cases last : before.getLast? with
    | none => rfl
    | some c => simpa using edge c last

/-- A text ends in a word, which may be empty. -/
theorem exists_lastWord (text : Text) :
    ∃ before word, text = before ++ word ∧ (∀ c ∈ word, isWordChar c = true) ∧
      ∀ c ∈ before.getLast?, isWordChar c = false := by
  refine ⟨(text.reverse.dropWhile isWordChar).reverse, (text.reverse.takeWhile isWordChar).reverse,
    ?_, ?_, ?_⟩
  · rw [← List.reverse_append, List.takeWhile_append_dropWhile, List.reverse_reverse]
  · intro c mem
    exact List.mem_takeWhile_imp (List.mem_reverse.mp mem)
  · intro c last
    rw [List.getLast?_reverse] at last
    have none := List.head?_dropWhile_not isWordChar text.reverse
    rw [Option.mem_def.mp last] at none
    simpa using none

/-- A renamed text ends in `null` if the text does, and the exchanged word does not. The last word is cut
off, and is not the one that is exchanged. -/
theorem Renamed.endsInNull (oldWord : Word old)
    (oldSome : Declaration.endsInNull old = false)
    (renamed : Renamed old new allowed last text result)
    (ends : Declaration.endsInNull text = true) : Declaration.endsInNull result = true := by
  obtain ⟨before, blanks, rfl, blank, edge⟩ := endsInNull_iff.mp ends
  obtain ⟨first, word, rfl, chars, firstEdge⟩ := exists_lastWord before
  have nullWord : ∀ c ∈ "null".toList, isWordChar c = true :=
    List.all_eq_true.mp (by decide +kernel)
  have wholeWord : ∀ c ∈ word ++ "null".toList, isWordChar c = true := by
    intro c mem
    rcases List.mem_append.mp mem with inWord | inNull
    · exact chars c inWord
    · exact nullWord c inNull
  have blankFree : ∀ c ∈ blanks, isWordChar c = false := fun c mem =>
    not_isWordChar_of_isWhiteSpace (blank c mem)
  rw [List.append_assoc, ← List.append_assoc word] at renamed
  obtain ⟨start, _, rfl, onStart, onLast⟩ := renamed.split oldWord (.inl firstEdge)
  obtain ⟨final, white, rfl, onFinal, onBlanks⟩ := onLast.split oldWord
    (.inr fun c first => blankFree c (List.mem_of_mem_head? first))
  obtain rfl := onBlanks.eq_of_no_word oldWord blankFree
  rcases onFinal.word_cases oldWord wholeWord with rfl | ⟨same, _, _⟩
  · rw [endsInNull_iff]
    refine ⟨start ++ word, white, by simp only [List.append_assoc], blank, ?_⟩
    cases word with
    | nil =>
      rw [List.append_nil] at edge ⊢
      rwa [onStart.getLast?_eq oldWord firstEdge]
    | cons c word =>
      rw [List.getLast?_append_of_ne_nil _ (by simp)] at edge ⊢
      exact edge
  · exfalso
    have isNull : Declaration.endsInNull old = true := by
      rw [endsInNull_iff]
      refine ⟨word, [], by rw [List.append_nil, same], by simp, ?_⟩
      intro c last
      refine edge c ?_
      rw [List.getLast?_append, Option.mem_def.mp last]
      rfl
    rw [oldSome] at isNull
    exact Bool.noConfusion isNull

/-- **Renaming does not change whether a text ends in `null`.** -/
theorem Renamed.endsInNull_eq (oldWord : Word old) (newWord : Word new)
    (oldSome : Declaration.endsInNull old = false) (newSome : Declaration.endsInNull new = false)
    (renamed : Renamed old new allowed last text result) :
    Declaration.endsInNull result = Declaration.endsInNull text := by
  have back := renamed.symm oldWord newWord
  cases before : Declaration.endsInNull text with
  | true => exact renamed.endsInNull oldWord oldSome before
  | false =>
    by_contra behind
    rw [back.endsInNull newWord newSome (Bool.not_eq_false _ ▸ behind)] at before
    exact Bool.noConfusion before

/-- A renamed text is trimmed alike. -/
theorem Renamed.trim (oldWord : Word old) (newWord : Word new)
    (renamed : Renamed old new allowed last text result) :
    ∃ allowed last, Renamed old new allowed last (trim text) (trim result) := by
  obtain ⟨before, behind, split, blankBefore, blankBehind, first, final⟩ := exists_trim text
  have solid : ∀ c, isWordChar c = true → (!isWhiteSpace c) = true := fun c word => by
    rw [not_isWhiteSpace_of_isDottedChar (isDottedChar_of_isWordChar word)]
    rfl
  have beforeFree : ∀ c ∈ before, isWordChar c = false := fun c mem =>
    not_isWordChar_of_isWhiteSpace (blankBefore c mem)
  have behindFree : ∀ c ∈ behind, isWordChar c = false := fun c mem =>
    not_isWordChar_of_isWhiteSpace (blankBehind c mem)
  rw [split] at renamed
  obtain ⟨white, _, rfl, onBefore, onText⟩ := renamed.split oldWord (edge_of_left beforeFree)
  obtain ⟨middle, rest, rfl, onMiddle, onBehind⟩ := onText.split oldWord
    (.inr fun c first => behindFree c (List.mem_of_mem_head? first))
  obtain rfl := onBefore.eq_of_no_word oldWord beforeFree
  obtain rfl := onBehind.eq_of_no_word oldWord behindFree
  have middleFirst := onMiddle.head?_class solid newWord (by simpa using first)
  have middleLast := onMiddle.getLast?_class solid oldWord newWord (by simpa using final)
  have same : ScopedHandles.trim (white ++ (middle ++ rest)) = middle :=
    trim_eq blankBefore blankBehind (by simpa using middleFirst) (by simpa using middleLast)
  rw [same]
  exact ⟨_, _, onMiddle⟩

end Renamed

end ScopedHandles
