/-
**Comments before the end of a scope.**

Where a comment is closed that was not opened, the depth of comments becomes negative. An opener behind it
brings the depth back to zero, and then the inside of a comment is read as code. The search for the end of
a scope only looks at the depth at the brace that it finds. So it may find a brace in a comment, and it
does exactly if a comment was closed before that was not opened.

* `depthAt_nonneg_iff` — the depth becomes negative at a closer without an opener.
* `inComment_of_depthAt_neg` — behind a negative depth, depth zero is the inside of a comment.
* `uncommented_iff` — when the brace that is found stands outside of comments, with all that was counted.
-/

import ScopedHandles.Proofs.Balance
import ScopedHandles.Proofs.Token
import Mathlib.Data.Nat.Find

namespace ScopedHandles

/-! ### The depth of comments at a place -/

/-- The depth of comments before a place. -/
def depthAt (text : Text) (place : Nat) : Int :=
  (Scanner.start.run (text.take place)).depth

/-- A place stands in a comment: one was opened before it, and the depth has not come down again since. -/
def InComment (text : Text) (place : Nat) : Prop :=
  ∃ opener < place, ∀ later ≤ place, opener < later → depthAt text opener < depthAt text later

instance (text : Text) (place : Nat) : Decidable (InComment text place) :=
  inferInstanceAs (Decidable (∃ opener < place, ∀ later ≤ place, opener < later →
    depthAt text opener < depthAt text later))

/-- A comment is closed in code, where none is open. -/
structure StrayCloser (text : Text) (place : Nat) : Prop where
  star : (Scanner.start.labels text)[place]? = some ('*', .code)
  slash : (Scanner.start.labels text)[place + 1]? = some ('/', .code)

/-! ### Closers -/

namespace Scanner

/-- **Only a closer brings the depth down.** -/
theorem depth_next_cases (scanner : Scanner) (c : Char) :
    scanner.depth ≤ (scanner.next c).depth ∨
      (scanner.next c).depth = scanner.depth - 1 ∧ scanner.mode = .plain .star ∧ c = '/' := by
  obtain ⟨mode, depth⟩ := scanner
  cases mode with
  | plain half =>
    simp only [next]
    split_ifs with closer
    · exact .inr ⟨rfl, by rw [closer.1], closer.2⟩
    · exact .inl (Int.le_add_one (Int.le_refl depth))
    all_goals exact .inl (Int.le_refl depth)
  | lineComment =>
    simp only [next]
    split_ifs <;> exact .inl (Int.le_refl depth)
  | literal quote escaped =>
    simp only [next]
    split_ifs <;> exact .inl (Int.le_refl depth)

/-- A star that may begin a closer is code, outside of comments. -/
theorem eq_star_of_next {scanner : Scanner} {c : Char} (pending : (scanner.next c).mode = .plain .star) :
    c = '*' ∧ (scanner.next c).depth = scanner.depth ∧
      (scanner.depth ≤ 0 → scanner.regionOf c = .code) := by
  obtain ⟨mode, depth⟩ := scanner
  cases mode with
  | plain half =>
    have star : ∀ {c : Char}, Mode.plain (Half.of c) = .plain .star → c = '*' := fun same =>
      Half.of_eq_star_iff.mp (Mode.plain.inj same)
    simp only [next] at pending ⊢
    split_ifs at pending ⊢ with closer opener deep line quote
    · simp at pending
    · simp at pending
    · exact ⟨star pending, rfl, fun outside => absurd deep (by simpa using outside)⟩
    · exact ⟨star pending, rfl, fun _ => by simp [regionOf, deep, line, opener, quote]⟩
  | lineComment =>
    simp only [next] at pending
    split_ifs at pending
    simp at pending
  | literal quote escaped =>
    simp only [next] at pending
    split_ifs at pending
    simp at pending

theorem depth_le_of_code {scanner : Scanner} {c : Char} (code : scanner.regionOf c = .code) :
    scanner.depth ≤ 0 := by
  obtain ⟨mode, depth⟩ := scanner
  cases mode with
  | plain half =>
    simp only [regionOf] at code
    split_ifs at code with deep
    simpa using deep
  | lineComment => simp [regionOf] at code
  | literal quote escaped => simp [regionOf] at code

/-- A star of code and a slash behind it close a comment where none is open. -/
theorem depth_closer_of_code {scanner : Scanner} (code : scanner.regionOf '*' = .code) :
    ((scanner.next '*').next '/').depth = scanner.depth - 1 := by
  obtain ⟨mode, depth⟩ := scanner
  cases mode with
  | plain half =>
    simp only [regionOf] at code
    split_ifs at code with deep line opener
    have slash : half ≠ .slash := fun same => opener ⟨same, trivial⟩
    have settled : next ⟨.plain half, depth⟩ '*' = ⟨.plain .star, depth⟩ := by
      simp [next, deep, slash, Half.of]
    rw [settled]
    simp [next]
  | lineComment => simp [regionOf] at code
  | literal quote escaped => simp [regionOf] at code

end Scanner

/-- The state behind a character. -/
theorem run_take_succ {scanner : Scanner} {text : Text} {place : Nat} {c : Char}
    (here : text[place]? = some c) :
    scanner.run (text.take (place + 1)) = (scanner.run (text.take place)).next c := by
  rw [List.take_add_one, here, Scanner.run_append]
  rfl

section Depth

variable {text : Text}

/-- Where the depth comes down, a closer ends. -/
theorem depthAt_succ_cases (text : Text) (place : Nat) :
    depthAt text place ≤ depthAt text (place + 1) ∨
      depthAt text (place + 1) = depthAt text place - 1 ∧ text[place]? = some '/' ∧
        (Scanner.start.run (text.take place)).mode = .plain .star := by
  cases here : text[place]? with
  | none =>
    rw [depthAt, depthAt, List.take_add_one, here]
    simp
  | some c =>
    rw [depthAt, depthAt, run_take_succ here]
    refine (Scanner.depth_next_cases _ c).imp_right ?_
    rintro ⟨down, star, rfl⟩
    exact ⟨down, rfl, star⟩

/-- Behind a closer without an opener the depth is negative. -/
theorem StrayCloser.depthAt_neg {place : Nat} (stray : StrayCloser text place) :
    depthAt text (place + 2) < 0 := by
  obtain ⟨before, later, rfl, rfl, code⟩ := Scanner.getElem?_labels_eq_some_iff.mp stray.star
  have slash : (before ++ '*' :: later)[before.length + 1]? = some '/' := by
    obtain ⟨_, _, same, size, _⟩ := Scanner.getElem?_labels_eq_some_iff.mp stray.slash
    rw [same, ← size, List.getElem?_append_right le_rfl, Nat.sub_self]
    rfl
  have outside := Scanner.depth_le_of_code code
  rw [depthAt, run_take_succ slash, run_take_succ (c := '*') (by simp), List.take_left,
    Scanner.depth_closer_of_code code]
  omega

/-- Where the depth becomes negative, a closer without an opener ends. -/
theorem exists_strayCloser {place : Nat} (above : 0 ≤ depthAt text place)
    (below : depthAt text (place + 1) < 0) : ∃ star, place = star + 1 ∧ StrayCloser text star := by
  rcases depthAt_succ_cases text place with up | ⟨down, slash, pending⟩
  · omega
  · cases place with
    | zero => simp [Scanner.start] at pending
    | succ star =>
      have inside : star + 1 < text.length := (List.getElem?_eq_some_iff.mp slash).1
      have here : text[star]? = some text[star] := List.getElem?_eq_getElem (by omega)
      have state : Scanner.start.run (text.take (star + 1)) =
          (Scanner.start.run (text.take star)).next text[star] := run_take_succ here
      rw [depthAt] at above below down
      rw [depthAt, state] at down
      rw [state] at pending above
      obtain ⟨same, level, code⟩ := Scanner.eq_star_of_next pending
      have outside : (Scanner.start.run (text.take star)).depth = 0 := by omega
      refine ⟨star, rfl, ?_, ?_⟩
      · rw [Scanner.getElem?_labels, here, Option.map_some, code (Int.le_of_eq outside), same]
      · have region : (Scanner.start.run (text.take (star + 1))).regionOf '/' = .code := by
          rw [state]
          simp [Scanner.regionOf, pending, level, outside]
        rw [Scanner.getElem?_labels, slash, Option.map_some, region]

/-- **The depth becomes negative at a closer without an opener**, and nowhere else. -/
theorem depthAt_nonneg_iff {place : Nat} :
    (∀ earlier ≤ place, 0 ≤ depthAt text earlier) ↔
      ∀ star, star + 2 ≤ place → ¬ StrayCloser text star := by
  constructor
  · intro above star within stray
    exact absurd stray.depthAt_neg (Int.not_lt.mpr (above _ within))
  · intro opened earlier within
    induction earlier with
    | zero => exact Int.le_refl 0
    | succ earlier ih =>
      by_contra below
      obtain ⟨star, rfl, stray⟩ := exists_strayCloser (ih (by omega)) (Int.not_le.mp below)
      exact opened star within stray

/-- Behind a negative depth, depth zero is the inside of a comment. The last place with a negative depth is
the last one before an opener. -/
theorem inComment_of_depthAt_neg {place earlier : Nat} (within : earlier ≤ place)
    (below : depthAt text earlier < 0) (level : depthAt text place = 0) : InComment text place := by
  let opener := Nat.findGreatest (fun earlier => depthAt text earlier < 0) place
  have belowOpener : depthAt text opener < 0 :=
    Nat.findGreatest_spec (P := fun earlier => depthAt text earlier < 0) within below
  have before : opener ≠ place := by
    rintro same
    rw [same, level] at belowOpener
    exact absurd belowOpener (Int.lt_irrefl 0)
  refine ⟨opener, lt_of_le_of_ne (Nat.findGreatest_le place) before, fun later within behind => ?_⟩
  have above := Nat.findGreatest_is_greatest behind within
  omega

/-- Where the depth was never negative, code stands outside of comments. -/
theorem not_inComment_of_code {place : Nat} {c : Char}
    (above : ∀ earlier ≤ place, 0 ≤ depthAt text earlier)
    (here : (Scanner.start.labels text)[place]? = some (c, .code)) : ¬ InComment text place := by
  rintro ⟨opener, before, since⟩
  obtain ⟨piece, later, rfl, rfl, code⟩ := Scanner.getElem?_labels_eq_some_iff.mp here
  have outside : depthAt (piece ++ c :: later) piece.length ≤ 0 := by
    rw [depthAt, List.take_left]
    exact Scanner.depth_le_of_code code
  have := since piece.length le_rfl before
  have := above opener before.le
  omega

end Depth

/-! ### The end of a scope -/

/-- Nothing before the brace at a place confuses code and comments: the depth is never negative, no comment
is closed that was not opened, and neither the brace nor one that is counted before it stands in a
comment. -/
structure Uncommented (text : Text) (place : Nat) : Prop where
  nonneg : ∀ earlier ≤ place, 0 ≤ depthAt text earlier
  opened : ∀ star, star + 2 ≤ place → ¬ StrayCloser text star
  outside : ∀ brace ≤ place, ∀ c ∈ ['{', '}'],
    (Scanner.start.labels text)[brace]? = some (c, .code) → ¬ InComment text brace

theorem uncommented_of_nonneg {text : Text} {place : Nat}
    (above : ∀ earlier ≤ place, 0 ≤ depthAt text earlier) : Uncommented text place where
  nonneg := above
  opened := depthAt_nonneg_iff.mp above
  outside _ within _ _ here := not_inComment_of_code (fun earlier before =>
    above earlier (before.trans within)) here

/-- **When the brace that is found stands outside of comments.** It does, with all braces that are counted
before it, exactly if no comment is closed before it that was not opened. -/
theorem uncommented_iff {text inner : Text} (found : scope text = .ok inner) :
    (Uncommented text inner.length ↔ ∀ star, star + 2 ≤ inner.length → ¬ StrayCloser text star) ∧
      (Uncommented text inner.length ↔ ¬ InComment text inner.length) := by
  obtain ⟨place, ends, rfl⟩ := scope_eq_ok_iff.mp found
  obtain ⟨piece, later, rfl, rfl, code⟩ := Scanner.getElem?_labels_eq_some_iff.mp ends.brace
  have level : depthAt (piece ++ '}' :: later) piece.length = 0 := by
    rw [depthAt, ← Scanner.depth_next_brace, ← run_take_succ (by simp)]
    exact ends.uncommented
  rw [List.take_left]
  refine ⟨⟨fun uncommented => uncommented.opened, fun opened =>
    uncommented_of_nonneg (depthAt_nonneg_iff.mpr opened)⟩, ⟨fun uncommented =>
    uncommented.outside _ le_rfl '}' (by simp) ends.brace, fun outside =>
    uncommented_of_nonneg fun earlier within => ?_⟩⟩
  by_contra below
  exact outside (inComment_of_depthAt_neg within (Int.not_le.mp below) level)

/-- A comment in a comment, with a brace inside, and a closer in a literal. -/
def nestedComment : Text :=
  "/*/*\x7d*/*/\"*/\"\x7d".toList

theorem nestedComment_uncommented :
    scope nestedComment = .ok (nestedComment.take 13) ∧ Uncommented nestedComment 13 := by
  have found : scope nestedComment = .ok (nestedComment.take 13) := by decide
  exact ⟨found, (uncommented_iff found).2.mpr (by decide)⟩

/-- A comment behind a closer without an opener. -/
def strayClosed : Text :=
  "*/ /* \x7d */ \x7d".toList

/-- **The brace in the comment is taken for the end of the scope.** -/
theorem strayClosed_misread :
    scope strayClosed = .ok "*/ /* ".toList ∧ StrayCloser strayClosed 0 ∧ depthAt strayClosed 2 = -1 ∧
      InComment strayClosed 6 ∧ ¬ Uncommented strayClosed 6 := by
  have stray : StrayCloser strayClosed 0 := ⟨by decide, by decide⟩
  exact ⟨by decide, stray, by decide, by decide, fun uncommented =>
    uncommented.opened 0 (by decide) stray⟩

end ScopedHandles
