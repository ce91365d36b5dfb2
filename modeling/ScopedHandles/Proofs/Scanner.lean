/-
**What a scan remembers.**

A state is `Steady` if the next character is read by itself: no escape is pending. Behind every
character but a backslash the state is steady (`Behind.steady`), and from a steady state

* a word leads to the same state as any other word (`run_word`),
* white space leaves the comment depth alone (`depth_run_blank`),
* a line break ends literals and line comments (`next_newline`).

Each comment marker has two characters, so the depth of comments is at most half the length of the text in
either direction (`two_mul_natAbs_depth_le`).
-/

import ScopedHandles.Proofs.Character

namespace ScopedHandles

namespace Scanner

/-! ### Runs -/

@[simp] theorem run_nil (scanner : Scanner) : scanner.run [] = scanner := rfl

@[simp] theorem run_cons (scanner : Scanner) (c : Char) (text : Text) :
    scanner.run (c :: text) = (scanner.next c).run text := rfl

@[simp] theorem run_append (scanner : Scanner) (text later : Text) :
    scanner.run (text ++ later) = (scanner.run text).run later :=
  List.foldl_append

/-! ### Escapes -/

/-- No escape is pending, and an open literal has one of the two quotes. -/
def Steady (scanner : Scanner) : Prop :=
  match scanner.mode with
  | .literal quote escaped => (quote = '"' ∨ quote = '\'') ∧ escaped = false
  | _ => True

/-- What holds of the state behind the character `last`: only a backslash leaves an escape pending. -/
def Behind (last : Option Char) (scanner : Scanner) : Prop :=
  match scanner.mode with
  | .literal quote escaped => (quote = '"' ∨ quote = '\'') ∧ (escaped = true → last = some '\\')
  | _ => True

theorem behind_start : Behind none start := trivial

theorem steady_start : Steady start := trivial

theorem Behind.next {last : Option Char} {scanner : Scanner} (behind : Behind last scanner)
    (c : Char) : Behind (some c) (scanner.next c) := by
  obtain ⟨mode, depth⟩ := scanner
  cases mode with
  | plain half =>
    simp only [Scanner.next]
    split_ifs with _ _ _ _ quote <;> simp_all [Behind]
  | lineComment =>
    simp only [Scanner.next]
    split_ifs <;> trivial
  | literal quote escaped =>
    obtain ⟨quotes, _⟩ := behind
    simp only [Scanner.next]
    split_ifs with pending backslash <;> simp_all [Behind]

theorem Behind.run {last : Option Char} {scanner : Scanner} (behind : Behind last scanner)
    (text : Text) : Behind (text.getLast?.or last) (scanner.run text) := by
  induction text generalizing last scanner with
  | nil => simpa using behind
  | cons c rest ih =>
    rw [getLast?_cons_or]
    exact ih (behind.next c)

theorem Behind.steady {last : Option Char} {scanner : Scanner} (behind : Behind last scanner)
    (other : last ≠ some '\\') : Steady scanner := by
  obtain ⟨mode, depth⟩ := scanner
  cases mode with
  | plain half => trivial
  | lineComment => trivial
  | literal quote escaped =>
    obtain ⟨quotes, backslash⟩ := behind
    refine ⟨quotes, ?_⟩
    by_contra pending
    exact other (backslash (Bool.not_eq_false _ ▸ pending))

/-- A steady state is a state behind any character. -/
theorem Steady.behind {scanner : Scanner} (steady : Steady scanner) (last : Option Char) :
    Behind last scanner := by
  obtain ⟨mode, depth⟩ := scanner
  cases mode with
  | plain half => trivial
  | lineComment => trivial
  | literal quote escaped =>
    obtain ⟨quotes, settled⟩ := steady
    exact ⟨quotes, fun pending => by simp [settled] at pending⟩

/-! ### The depth of comments -/

theorem depth_next {scanner : Scanner} {c : Char} (slash : c ≠ '/') (star : c ≠ '*') :
    (scanner.next c).depth = scanner.depth := by
  obtain ⟨mode, depth⟩ := scanner
  cases mode <;> simp only [Scanner.next] <;> split_ifs <;> simp_all

theorem depth_run_blank {scanner : Scanner} {blanks : Text}
    (blank : ∀ c ∈ blanks, isWhiteSpace c = true) :
    (scanner.run blanks).depth = scanner.depth := by
  induction blanks generalizing scanner with
  | nil => rfl
  | cons c rest ih =>
    have first := blank c List.mem_cons_self
    rw [run_cons, ih fun d mem => blank d (List.mem_cons_of_mem _ mem)]
    exact depth_next (ne_of_class first (by decide)) (ne_of_class first (by decide))

/-- The characters that a state needs: two for each marker that counts in the depth, and one for a character
that may begin the next marker. -/
def markerLength (scanner : Scanner) : Nat :=
  2 * scanner.depth.natAbs +
    match scanner.mode with
    | .plain .slash | .plain .star => 1
    | _ => 0

theorem markerLength_next (scanner : Scanner) (c : Char) :
    (scanner.next c).markerLength ≤ scanner.markerLength + 1 := by
  obtain ⟨mode, depth⟩ := scanner
  have own : 2 * depth.natAbs ≤ markerLength ⟨mode, depth⟩ := Nat.le_add_right _ _
  have half : ∀ half, markerLength ⟨.plain half, depth⟩ ≤ 2 * depth.natAbs + 1 := by
    intro half
    cases half <;> simp [markerLength]
  cases mode with
  | plain pending =>
    simp only [next]
    split_ifs with closer opener deep line quote
    · obtain ⟨rfl, -⟩ := closer
      simp only [markerLength]
      omega
    · obtain ⟨rfl, -⟩ := opener
      simp only [markerLength]
      omega
    · exact (half _).trans (Nat.succ_le_succ own)
    · exact Nat.le_succ_of_le own
    · exact Nat.le_succ_of_le own
    · exact (half _).trans (Nat.succ_le_succ own)
  | lineComment =>
    simp only [next]
    split_ifs <;> simp [markerLength]
  | literal quote escaped =>
    simp only [next]
    split_ifs <;> simp [markerLength]

theorem markerLength_run (scanner : Scanner) (text : Text) :
    (scanner.run text).markerLength ≤ scanner.markerLength + text.length := by
  induction text generalizing scanner with
  | nil => exact Nat.le_refl _
  | cons c rest ih =>
    have step := scanner.markerLength_next c
    have later := ih (scanner.next c)
    rw [run_cons, List.length_cons]
    omega

/-- **The depth of comments is at most half the length of the text**, be it positive or negative. -/
theorem two_mul_natAbs_depth_le (text : Text) : 2 * (start.run text).depth.natAbs ≤ text.length := by
  have bound := start.markerLength_run text
  have none : start.markerLength = 0 := rfl
  rw [none, Nat.zero_add] at bound
  exact (Nat.le_add_right _ _).trans bound

/-! ### Words -/

/-- The state behind a word. -/
def pastWord (scanner : Scanner) : Scanner :=
  match scanner.mode with
  | .plain _ => { scanner with mode := .plain .clear }
  | _ => scanner

theorem steady_pastWord {scanner : Scanner} (steady : Steady scanner) :
    Steady scanner.pastWord := by
  obtain ⟨mode, depth⟩ := scanner
  cases mode with
  | plain half => trivial
  | lineComment => trivial
  | literal quote escaped => exact steady

theorem pastWord_pastWord (scanner : Scanner) : scanner.pastWord.pastWord = scanner.pastWord := by
  obtain ⟨mode, depth⟩ := scanner
  cases mode <;> rfl

theorem next_word {scanner : Scanner} (steady : Steady scanner) {c : Char}
    (word : isWordChar c = true) : scanner.next c = scanner.pastWord := by
  have slash : c ≠ '/' := ne_of_class word (by decide)
  have star : c ≠ '*' := ne_of_class word (by decide)
  have double : c ≠ '"' := ne_of_class word (by decide)
  have single : c ≠ '\'' := ne_of_class word (by decide)
  have backslash : c ≠ '\\' := ne_of_class word (by decide)
  have newline : c ≠ '\n' := ne_of_class word (by decide)
  obtain ⟨mode, depth⟩ := scanner
  cases mode with
  | plain half => simp [Scanner.next, pastWord, Half.of, slash, star, double, single]
  | lineComment => simp [Scanner.next, pastWord, newline]
  | literal quote escaped =>
    obtain ⟨quotes, rfl⟩ := steady
    have unquoted : c ≠ quote := by
      rcases quotes with rfl | rfl
      · exact double
      · exact single
    simp [Scanner.next, pastWord, backslash, newline, unquoted]

/-- **Words are read alike.** -/
theorem run_word {scanner : Scanner} (steady : Steady scanner) {word : Text} (some : word ≠ [])
    (words : ∀ c ∈ word, isWordChar c = true) : scanner.run word = scanner.pastWord := by
  induction word generalizing scanner with
  | nil => exact absurd rfl some
  | cons c rest ih =>
    have first : scanner.next c = scanner.pastWord := next_word steady (words c List.mem_cons_self)
    rw [run_cons, first]
    by_cases last : rest = []
    · rw [last, run_nil]
    · rw [ih (steady_pastWord steady) last fun d mem => words d (List.mem_cons_of_mem _ mem),
        pastWord_pastWord]

/-! ### Line breaks and blanks -/

/-- **A line break ends literals and line comments.** Behind it only the comment depth is left. -/
theorem next_newline {scanner : Scanner} (steady : Steady scanner) :
    scanner.next '\n' = { mode := .plain .clear, depth := scanner.depth } := by
  obtain ⟨mode, depth⟩ := scanner
  cases mode with
  | plain half => simp [Scanner.next, Half.of]
  | lineComment => simp [Scanner.next]
  | literal quote escaped =>
    obtain ⟨_, rfl⟩ := steady
    simp [Scanner.next]

/-- Characters that are no part of a marker and no quote leave a scan where it started. -/
theorem run_start {text : Text}
    (plain : ∀ c ∈ text, c ≠ '/' ∧ c ≠ '*' ∧ c ≠ '"' ∧ c ≠ '\'') : start.run text = start := by
  induction text with
  | nil => rfl
  | cons c rest ih =>
    obtain ⟨slash, star, double, single⟩ := plain c List.mem_cons_self
    have settled : start.next c = start := by
      simp [start, Scanner.next, Half.of, slash, star, double, single]
    rw [run_cons, settled, ih fun d mem => plain d (List.mem_cons_of_mem _ mem)]

theorem run_blank {blanks : Text} (blank : ∀ c ∈ blanks, isWhiteSpace c = true) :
    start.run blanks = start :=
  run_start fun c mem =>
    ⟨ne_of_class (blank c mem) (by decide), ne_of_class (blank c mem) (by decide),
      ne_of_class (blank c mem) (by decide), ne_of_class (blank c mem) (by decide)⟩

end Scanner

end ScopedHandles
