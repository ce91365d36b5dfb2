/-
**How the classes of characters lie to each other.**

Words are made of none of the characters that open or close comments, literals and brackets, and of no
white space. So a word can be exchanged for another without touching the structure of a text.

* `not_isWordChar_of_isWhiteSpace` — white space and words are apart.
* `not_isWordChar_of_mayPrecede`, `not_isWordChar_of_mayFollow` — a reference is a whole word.
* `isWordChar_of_isPlainIdentifier` — a plain identifier is a word.
-/

import ScopedHandles.Reference
import ScopedHandles.Settings.Basic
import ScopedHandles.Proofs.Text

namespace ScopedHandles

/-! ### Classes as ranges -/

namespace CodePoint

theorem exists_range_of_isIn {code : Nat} {ranges : List (Nat × Nat)}
    (member : isIn code ranges = true) : ∃ range ∈ ranges, range.1 ≤ code ∧ code ≤ range.2 := by
  induction ranges with
  | nil => simp [isIn] at member
  | cons range later ih =>
    simp only [isIn] at member
    split_ifs at member with below within
    · exact ⟨range, List.mem_cons_self, by omega, within⟩
    · obtain ⟨other, mem, bounds⟩ := ih member
      exact ⟨other, List.mem_cons_of_mem _ mem, bounds⟩

/-- **Classes whose ranges do not meet have no code point in common.** -/
theorem not_isIn_of_apart {code : Nat} {ranges others : List (Nat × Nat)}
    (apart : ∀ range ∈ ranges, ∀ other ∈ others, range.2 < other.1 ∨ other.2 < range.1)
    (member : isIn code ranges = true) : isIn code others = false := by
  by_contra both
  obtain ⟨range, mem, bounds⟩ := exists_range_of_isIn member
  obtain ⟨other, mem', bounds'⟩ := exists_range_of_isIn (Bool.not_eq_false _ ▸ both)
  rcases apart range mem other mem' with before | behind <;> omega

end CodePoint

/-! ### White space -/

/-- **White space belongs to no word.** -/
theorem not_isWordChar_of_isWhiteSpace {c : Char} (blank : isWhiteSpace c = true) :
    isWordChar c = false := by
  unfold isWordChar
  rw [CodePoint.not_isIn_of_apart (by decide +kernel) blank,
    CodePoint.not_isIn_of_apart (by decide +kernel) blank,
    CodePoint.not_isIn_of_apart (by decide +kernel) blank,
    CodePoint.not_isIn_of_apart (by decide +kernel) blank,
    CodePoint.not_isIn_of_apart (by decide +kernel) blank]
  rfl

theorem isWhiteSpace_of_isIndentChar {c : Char} (indent : isIndentChar c = true) :
    isWhiteSpace c = true := by
  simp only [isIndentChar, Bool.or_eq_true, beq_iff_eq] at indent
  rcases indent with rfl | rfl <;> decide

/-! ### Dotted names -/

theorem isDottedChar_of_isWordChar {c : Char} (word : isWordChar c = true) :
    isDottedChar c = true := by
  rw [isDottedChar, word, Bool.true_or]

theorem not_isDottedChar_of_isWhiteSpace {c : Char} (blank : isWhiteSpace c = true) :
    isDottedChar c = false := by
  rw [isDottedChar, not_isWordChar_of_isWhiteSpace blank, Bool.false_or, beq_eq_false_iff_ne]
  rintro rfl
  exact absurd blank (by decide)

theorem not_isWhiteSpace_of_isDottedChar {c : Char} (dotted : isDottedChar c = true) :
    isWhiteSpace c = false := by
  by_contra blank
  rw [not_isDottedChar_of_isWhiteSpace (Bool.not_eq_false _ ▸ blank)] at dotted
  exact Bool.noConfusion dotted

theorem not_isIndentChar_of_isDottedChar {c : Char} (dotted : isDottedChar c = true) :
    isIndentChar c = false := by
  by_contra indent
  have blank := isWhiteSpace_of_isIndentChar (Bool.not_eq_false _ ▸ indent)
  rw [not_isWhiteSpace_of_isDottedChar dotted] at blank
  exact Bool.noConfusion blank

/-- A character that is told apart by a class. -/
theorem ne_of_class {p : Char → Bool} {c d : Char} (member : p c = true) (other : p d = false) :
    c ≠ d := by
  rintro rfl
  rw [member] at other
  exact Bool.noConfusion other

/-- A class that no bracket belongs to. -/
theorem not_bracket_of_class {p : Char → Bool} {c : Char} (member : p c = true)
    (apart : ("()[]\x7b\x7d".toList.all fun d => !p d) = true) :
    opensBracket c = false ∧ closesBracket c = false := by
  have other : ∀ d ∈ "()[]\x7b\x7d".toList, c ≠ d := fun d mem =>
    ne_of_class member (by simpa using List.all_eq_true.mp apart d mem)
  simp [opensBracket, closesBracket, other '(' (by decide), other ')' (by decide),
    other '[' (by decide), other ']' (by decide), other '\x7b' (by decide), other '\x7d' (by decide)]

/-! ### The sides of a reference -/

theorem not_isWordChar_of_mayPrecede {c : Char} (edge : mayPrecede (some c) = true) :
    isWordChar c = false := by
  simp only [mayPrecede, Bool.or_eq_true, List.contains_iff_mem] at edge
  rcases edge with blank | mark
  · exact not_isWordChar_of_isWhiteSpace blank
  · have none : ("()+-*/%,!=<>&|^?:[\x7b;".toList.all fun d => !isWordChar d) = true := by
      decide +kernel
    simpa using List.all_eq_true.mp none c mark

theorem not_isWordChar_of_mayFollow {c : Char} (edge : mayFollow (some c) = true) :
    isWordChar c = false := by
  simp only [mayFollow, Bool.or_eq_true, List.contains_iff_mem] at edge
  rcases edge with blank | mark
  · exact not_isWordChar_of_isWhiteSpace blank
  · have none : ("=.),;[]+-*/%<>&|^?:\x7d".toList.all fun d => !isWordChar d) = true := by
      decide +kernel
    simpa using List.all_eq_true.mp none c mark

/-- No reference stands behind a backslash. -/
theorem not_mayPrecede_backslash : mayPrecede (some '\\') = false := by
  decide

/-! ### Plain identifiers -/

/-- The code points of letters, digits and the low line. -/
theorem code_of_ascii {c : Char} (letter : (c.isAlphanum || c == '_') = true) :
    (48 ≤ c.toNat ∧ c.toNat ≤ 57) ∨ (65 ≤ c.toNat ∧ c.toNat ≤ 90) ∨ c.toNat = 95
      ∨ (97 ≤ c.toNat ∧ c.toNat ≤ 122) := by
  delta Char.isAlphanum Char.isAlpha Char.isUpper Char.isLower Char.isDigit at letter
  simp only [Bool.or_eq_true, Bool.and_eq_true, decide_eq_true_eq, beq_iff_eq, ge_iff_le,
    UInt32.le_iff_toNat_le] at letter
  rcases letter with ((upper | lower) | digit) | rfl
  · exact .inr (.inl upper)
  · exact .inr (.inr (.inr lower))
  · exact .inl digit
  · exact .inr (.inr (.inl rfl))

theorem isWordChar_of_ascii {c : Char} (letter : (c.isAlphanum || c == '_') = true) :
    isWordChar c = true := by
  have each : ∀ code < 128,
      (48 ≤ code ∧ code ≤ 57) ∨ (65 ≤ code ∧ code ≤ 90) ∨ code = 95 ∨ (97 ≤ code ∧ code ≤ 122) →
        (CodePoint.isIn code CodePoint.alphabetic || CodePoint.isIn code CodePoint.decimalNumber
          || CodePoint.isIn code CodePoint.connector || CodePoint.isIn code CodePoint.mark
          || CodePoint.isIn code CodePoint.joinControl) = true := by
    decide +kernel
  have bounds := code_of_ascii letter
  exact each c.toNat (by omega) bounds

/-- **A plain identifier is a word.** -/
theorem isWordChar_of_isPlainIdentifier {text : Text} (plain : isPlainIdentifier text = true) :
    ∀ c ∈ text, isWordChar c = true := by
  intro c mem
  cases text with
  | nil => simp at mem
  | cons first rest =>
    simp only [isPlainIdentifier, Bool.and_eq_true, Bool.or_eq_true, List.all_eq_true] at plain
    obtain ⟨begins, goesOn⟩ := plain
    rcases List.mem_cons.mp mem with rfl | mem
    · refine isWordChar_of_ascii ?_
      rcases begins with alpha | low
      · simp [Char.isAlphanum, alpha]
      · simp [low]
    · exact isWordChar_of_ascii (by simpa using goesOn c mem)

/-! ### Digits -/

theorem isWordChar_of_isDecimalDigit {c : Char} (digit : isDecimalDigit c = true) :
    isWordChar c = true := by
  unfold isDecimalDigit at digit
  rw [isWordChar, digit, Bool.or_true, Bool.true_or, Bool.true_or, Bool.true_or]

theorem not_isDecimalDigit_of_isWhiteSpace {c : Char} (blank : isWhiteSpace c = true) :
    isDecimalDigit c = false := by
  by_contra digit
  have word := isWordChar_of_isDecimalDigit (Bool.not_eq_false _ ▸ digit)
  rw [not_isWordChar_of_isWhiteSpace blank] at word
  exact Bool.noConfusion word

theorem isDecimalDigit_of_isDigit {c : Char} (digit : c.isDigit = true) : isDecimalDigit c = true := by
  have each : ∀ code < 58, 48 ≤ code → CodePoint.isIn code CodePoint.decimalNumber = true := by
    decide +kernel
  simp only [Char.isDigit, Bool.and_eq_true, decide_eq_true_eq, ge_iff_le,
    UInt32.le_iff_toNat_le] at digit
  exact each c.toNat (Nat.lt_succ_of_le digit.2) digit.1

end ScopedHandles
