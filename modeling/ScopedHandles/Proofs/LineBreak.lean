/-
**What a line break ends.**

A line break ends a line comment. It ends a literal as well, unless it is escaped: an odd number of
backslashes stands before it. So behind a line break the scan begins anew with nothing but the depth of
comments, or it goes on in a literal of the line before.

* `Scanner.escaped_iff_odd` — what leaves an escape pending.
* `Scanner.steady_run_iff` — when no escape is pending before a line break.
* `lineBreak_resets_iff` — when a line break resets the scan.
-/

import ScopedHandles.Proofs.SingleCall
import ScopedHandles.Proofs.Token
import Mathlib.Algebra.Ring.Parity

namespace ScopedHandles

/-- The number of backslashes at the end of a text. -/
def trailingBackslashes (text : Text) : Nat :=
  (text.reverse.takeWhile (· == '\\')).length

theorem trailingBackslashes_concat (text : Text) (c : Char) :
    trailingBackslashes (text ++ [c]) = if c = '\\' then trailingBackslashes text + 1 else 0 := by
  rw [trailingBackslashes, List.reverse_concat, List.takeWhile_cons]
  split_ifs with backslash other other
  · rfl
  · simp_all
  · simp_all
  · rfl

/-- A line break behind a text is escaped: it belongs to a literal, and an odd number of backslashes
stands before it. -/
structure EscapesBreak (before : Text) : Prop where
  literal : (Scanner.start.run before).regionOf '\n' = .literal
  odd : Odd (trailingBackslashes before)

namespace Scanner

/-! ### Pending escapes -/

/-- **An escape is pending behind an odd number of backslashes.** Each backslash of a literal turns the flag,
and every other character clears it. -/
theorem escaped_iff_odd {before : Text} {quote : Char} {escaped : Bool}
    (inside : (start.run before).mode = .literal quote escaped) :
    escaped = true ↔ Odd (trailingBackslashes before) := by
  induction before using List.reverseRecOn generalizing quote escaped with
  | nil => simp [start] at inside
  | append_singleton before c ih =>
    rw [run_append, run_cons, run_nil] at inside
    rw [trailingBackslashes_concat]
    generalize start.run before = scanner at inside ih
    obtain ⟨mode, depth⟩ := scanner
    cases mode with
    | plain half =>
      simp only [next] at inside
      split_ifs at inside with _ _ _ _ opens
      cases inside
      rcases opens with rfl | rfl <;> simp
    | lineComment =>
      simp only [next] at inside
      split_ifs at inside
    | literal other pending =>
      have parity := ih rfl
      simp only [next] at inside
      split_ifs at inside with flagged backslash closes <;> cases inside
      · split_ifs <;> simp [parity.mp flagged]
      · simp [backslash, Nat.odd_add_one, ← parity, flagged]
      · simp [backslash, flagged]

theorem regionOf_newline_eq_literal_iff {scanner : Scanner} :
    scanner.regionOf '\n' = .literal ↔ ∃ quote escaped, scanner.mode = .literal quote escaped := by
  obtain ⟨mode, depth⟩ := scanner
  cases mode with
  | plain half =>
    simp only [regionOf]
    split_ifs <;> simp_all
  | lineComment => simp [regionOf]
  | literal quote escaped => simp [regionOf]

/-- **No escape is pending** before a line break that is not escaped. -/
theorem steady_run_iff {before : Text} : (start.run before).Steady ↔ ¬ EscapesBreak before := by
  have quoted := behind_start.quoted.run before
  constructor
  · rintro steady ⟨literal, odd⟩
    obtain ⟨quote, escaped, inside⟩ := regionOf_newline_eq_literal_iff.mp literal
    have pending := (escaped_iff_odd inside).mpr odd
    rw [Steady, inside] at steady
    exact absurd pending (by simp [steady.2])
  · intro unescaped
    rw [Quoted] at quoted
    rw [Steady]
    cases inside : (start.run before).mode with
    | plain half => trivial
    | lineComment => trivial
    | literal quote escaped =>
      rw [inside] at quoted
      refine ⟨quoted, Bool.eq_false_iff.mpr fun pending => unescaped ⟨?_, ?_⟩⟩
      · exact regionOf_newline_eq_literal_iff.mpr ⟨quote, escaped, inside⟩
      · exact (escaped_iff_odd inside).mp pending

/-! ### Line breaks -/

/-- The state at the beginning of a line, where only the depth of comments is known. -/
def lineStart (depth : Int) : Scanner :=
  { depth }

theorem run_lineBreak {before : Text} (unescaped : ¬ EscapesBreak before) :
    start.run (before ++ ['\n']) = lineStart (start.run before).depth := by
  rw [run_append, run_cons, run_nil, next_newline (steady_run_iff.mpr unescaped)]
  rfl

/-- Behind a line break that is escaped, a literal is open. -/
theorem exists_literal_of_escapesBreak {before : Text} (escapes : EscapesBreak before) :
    ∃ quote depth, start.run (before ++ ['\n']) = ⟨.literal quote false, depth⟩ := by
  obtain ⟨quote, escaped, inside⟩ := regionOf_newline_eq_literal_iff.mp escapes.literal
  obtain rfl := (escaped_iff_odd inside).mpr escapes.odd
  refine ⟨quote, (start.run before).depth, ?_⟩
  rw [run_append, run_cons, run_nil]
  simp only [next, inside, if_true]

/-- At the beginning of a line, a letter belongs to no literal. -/
theorem regionOf_lineStart_ne_literal (depth : Int) : (lineStart depth).regionOf 'x' ≠ .literal := by
  rw [regionOf_idle rfl (by decide)]
  split_ifs <;> decide

end Scanner

/-- **When a line break resets the scan.** Behind a line break neither a line comment nor a literal is
open, and how the text behind it is read depends on the text before it through the depth of comments
alone, exactly if the line break is not escaped. Behind one that is escaped, the next line begins in the
literal. -/
theorem lineBreak_resets_iff (before : Text) :
    ((Scanner.start.run (before ++ ['\n'])).isOpen = false ↔ ¬ EscapesBreak before) ∧
    ((∀ rest, Scanner.start.regions (before ++ '\n' :: rest) =
        Scanner.start.regions (before ++ ['\n']) ++
          (Scanner.lineStart (Scanner.start.run before).depth).regions rest) ↔
      ¬ EscapesBreak before) ∧
    ((∀ c, (Scanner.start.run (before ++ ['\n'])).regionOf c = .literal) ↔ EscapesBreak before) := by
  have split : ∀ rest (others : List Region), Scanner.start.regions (before ++ '\n' :: rest) =
      Scanner.start.regions (before ++ ['\n']) ++ others ↔
        (Scanner.start.run (before ++ ['\n'])).regions rest = others := by
    intro rest others
    rw [List.append_cons, Scanner.regions_append, List.append_cancel_left_eq]
  simp only [split]
  by_cases escapes : EscapesBreak before
  · obtain ⟨quote, depth, inside⟩ := Scanner.exists_literal_of_escapesBreak escapes
    rw [inside]
    refine ⟨iff_of_false Bool.noConfusion (not_not_intro escapes), ?_, iff_of_true (fun _ => rfl) escapes⟩
    refine iff_of_false (fun same => ?_) (not_not_intro escapes)
    exact Scanner.regionOf_lineStart_ne_literal _ (List.cons.inj (same ['x'])).1.symm
  · rw [Scanner.run_lineBreak escapes]
    refine ⟨iff_of_true rfl escapes, iff_of_true (fun _ => rfl) escapes, ?_⟩
    exact iff_of_false (fun literal => Scanner.regionOf_lineStart_ne_literal _ (literal 'x')) escapes

/-- A literal that a backslash continues on the next line. -/
def continuedLiteral : Text :=
  "\"a\\\n\x7d".toList

/-- **The brace on the next line is taken for a part of the literal.** -/
theorem continuedLiteral_not_reset :
    continuedLiteral = "\"a\\".toList ++ '\n' :: ['}'] ∧ EscapesBreak "\"a\\".toList ∧
      (Scanner.start.run "\"a\\".toList).depth = 0 ∧
      (Scanner.start.run "\"a\\\n".toList).isOpen = true ∧
      Scanner.start.regions continuedLiteral = List.replicate 5 .literal ∧
      (Scanner.lineStart 0).regions ['}'] = [.code] := by
  exact ⟨by decide, ⟨by decide, by decide⟩, by decide, by decide, by decide, by decide⟩

end ScopedHandles
