/-
**How a text is cut.**

Every function that reads a piece off a text leaves the rest as it is, so that the text is the piece and
the rest put together. Here this is said once for each of them.
-/

import ScopedHandles.Text.Basic
import Mathlib.Data.List.DropRight
import Mathlib.Tactic.Common

namespace ScopedHandles

/-! ### The last character -/

theorem getLast?_cons_or (c : Char) (rest : Text) (last : Option Char) :
    (c :: rest).getLast?.or last = rest.getLast?.or (some c) := by
  cases rest <;> simp [List.getLast?_cons]

theorem getLast?_append_cons_or (c : Char) (piece rest : Text) (last : Option Char) :
    (piece ++ c :: rest).getLast?.or last = rest.getLast?.or (some c) := by
  rw [List.getLast?_append, List.getLast?_cons]
  cases rest.getLast? <;> rfl

/-- What holds of the first character, or of the last. -/
theorem forall_mem_some {p : Char → Prop} {c : Char} (here : p c) : ∀ d ∈ some c, p d := by
  intro d same
  obtain rfl : c = d := Option.some.inj same
  exact here

/-! ### Runs of a class -/

theorem eq_of_skipSome {p : Char → Bool} {text rest : Text} (skipped : skipSome p text = some rest) :
    ∃ run, text = run ++ rest ∧ run ≠ [] ∧ (∀ c ∈ run, p c = true) ∧ rest = rest.dropWhile p := by
  cases text with
  | nil => simp [skipSome] at skipped
  | cons c later =>
    simp only [skipSome] at skipped
    split_ifs at skipped with first
    obtain rfl := Option.some.inj skipped
    refine ⟨c :: later.takeWhile p, ?_, by simp, ?_, ?_⟩
    · rw [List.cons_append, List.takeWhile_append_dropWhile]
    · intro d mem
      rcases List.mem_cons.mp mem with rfl | mem
      · exact first
      · exact List.mem_takeWhile_imp mem
    · exact (List.dropWhile_idempotent p later).symm

section Runs

variable {p : Char → Bool} {run rest : Text}

/-- A run of a class ends where the class ends. -/
theorem takeWhile_run (all : ∀ c ∈ run, p c = true) (stop : ∀ c ∈ rest.head?, p c = false) :
    (run ++ rest).takeWhile p = run := by
  rw [List.takeWhile_append_of_pos all]
  cases rest with
  | nil => simp
  | cons c later => simp [stop c rfl]

theorem dropWhile_run (all : ∀ c ∈ run, p c = true) (stop : ∀ c ∈ rest.head?, p c = false) :
    (run ++ rest).dropWhile p = rest := by
  rw [List.dropWhile_append_of_pos all]
  cases rest with
  | nil => rfl
  | cons c later => simp [stop c rfl]

theorem skipSome_run (some : run ≠ []) (all : ∀ c ∈ run, p c = true)
    (stop : ∀ c ∈ rest.head?, p c = false) : skipSome p (run ++ rest) = .some rest := by
  cases run with
  | nil => exact absurd rfl some
  | cons c run =>
    rw [List.cons_append, skipSome, if_pos (all c List.mem_cons_self),
      dropWhile_run (fun d mem => all d (List.mem_cons_of_mem _ mem)) stop]

/-- **A text is cut in one way where a class ends.** -/
theorem run_unique {other later : Text} (same : run ++ rest = other ++ later)
    (all : ∀ c ∈ run, p c = true) (stop : ∀ c ∈ rest.head?, p c = false)
    (otherAll : ∀ c ∈ other, p c = true) (otherStop : ∀ c ∈ later.head?, p c = false) :
    run = other ∧ rest = later := by
  refine ⟨?_, ?_⟩
  · rw [← takeWhile_run all stop, same, takeWhile_run otherAll otherStop]
  · rw [← dropWhile_run all stop, same, dropWhile_run otherAll otherStop]

theorem bne_of_not_mem {d : Char} {text : Text} (outside : d ∉ text) :
    ∀ c ∈ text, (c != d) = true := by
  intro c mem
  rw [bne_iff_ne]
  rintro rfl
  exact outside mem

/-- A text is cut in one way where a character stands for the first time. -/
theorem first_unique {c : Char} {other later : Text} (same : run ++ c :: rest = other ++ c :: later)
    (outside : c ∉ run) (otherOutside : c ∉ other) : run = other ∧ rest = later := by
  have stops : ∀ {rest : Text}, ∀ d ∈ (c :: rest).head?, (d != c) = false :=
    forall_mem_some (bne_self_eq_false c)
  obtain ⟨sameRun, sameRest⟩ := run_unique same (bne_of_not_mem outside) stops
    (bne_of_not_mem otherOutside) stops
  exact ⟨sameRun, (List.cons.inj sameRest).2⟩

/-- A text is cut in one way where a class begins that goes on to its end. -/
theorem run_unique_right {before early other : Text} (same : before ++ run = early ++ other)
    (all : ∀ c ∈ run, p c = true) (stop : ∀ c ∈ before.getLast?, p c = false)
    (otherAll : ∀ c ∈ other, p c = true) (otherStop : ∀ c ∈ early.getLast?, p c = false) :
    before = early ∧ run = other := by
  have mirrored : run.reverse ++ before.reverse = other.reverse ++ early.reverse := by
    rw [← List.reverse_append, same, List.reverse_append]
  obtain ⟨sameRun, sameRest⟩ := run_unique mirrored (fun c mem => all c (List.mem_reverse.mp mem))
    (by rwa [List.head?_reverse]) (fun c mem => otherAll c (List.mem_reverse.mp mem))
    (by rwa [List.head?_reverse])
  exact ⟨List.reverse_injective sameRest, List.reverse_injective sameRun⟩

/-- A result behind a run is found. -/
theorem isSome_tryRuns {α : Type} {next : Text → Option α} (all : ∀ c ∈ run, p c = true)
    (found : (next rest).isSome = true) : (tryRuns p next (run ++ rest)).isSome = true := by
  induction run with
  | nil =>
    cases rest with
    | nil => exact found
    | cons c later =>
      rw [List.nil_append, tryRuns]
      split_ifs
      · rw [Option.orElse_eq_orElse, Option.orElse_eq_or, Option.isSome_or, found, Bool.or_true]
      · exact found
  | cons c run ih =>
    have later := ih fun d mem => all d (List.mem_cons_of_mem _ mem)
    rw [List.cons_append, tryRuns, if_pos (all c List.mem_cons_self), Option.orElse_eq_orElse,
      Option.orElse_eq_or, Option.isSome_or, later, Bool.true_or]

end Runs

/-- A result behind a run is a result behind some run. -/
theorem exists_of_tryRuns {α : Type} {p : Char → Bool} {next : Text → Option α} {text : Text}
    {value : α} (found : tryRuns p next text = some value) :
    ∃ run rest, text = run ++ rest ∧ (∀ c ∈ run, p c = true) ∧ next rest = some value := by
  induction text with
  | nil => exact ⟨[], [], rfl, by simp, found⟩
  | cons c rest ih =>
    simp only [tryRuns] at found
    split_ifs at found with first
    · rw [Option.orElse_eq_orElse, Option.orElse_eq_or] at found
      rcases Option.or_eq_some_iff.mp found with later | ⟨_, here⟩
      · obtain ⟨run, behind, rfl, all, result⟩ := ih later
        refine ⟨c :: run, behind, rfl, ?_, result⟩
        intro d mem
        rcases List.mem_cons.mp mem with rfl | mem
        · exact first
        · exact all d mem
      · exact ⟨[], c :: rest, rfl, by simp, here⟩
    · exact ⟨[], c :: rest, rfl, by simp, found⟩

/-! ### Pieces -/

theorem after?_eq_some_iff {start text rest : Text} :
    after? start text = some rest ↔ text = start ++ rest := by
  unfold after?
  split_ifs with begins
  · obtain ⟨later, rfl⟩ := List.isPrefixOf_iff_prefix.mp begins
    rw [List.drop_left, Option.some.injEq, List.append_cancel_left_eq]
  · simp only [false_iff]
    rintro rfl
    exact begins (List.isPrefixOf_iff_prefix.mpr (List.prefix_append _ _))

theorem after?_append (start rest : Text) : after? start (start ++ rest) = some rest :=
  after?_eq_some_iff.mpr rfl

@[simp] theorem upTo_append (piece rest : Text) : upTo rest (piece ++ rest) = piece := by
  simp [upTo]

/-- A text is cut before a character that does not stand behind the cut. -/
theorem exists_left_of_not_mem {c : Char} {piece rest text later : Text}
    (same : piece ++ c :: rest = text ++ later) (outside : c ∉ later) :
    ∃ more, text = piece ++ c :: more := by
  rcases List.append_eq_append_iff.mp same with ⟨more, rfl, behind⟩ | ⟨more, _, behind⟩
  · cases more with
    | nil =>
      rw [List.nil_append] at behind
      exact absurd (behind ▸ List.mem_cons_self) outside
    | cons d more =>
      obtain ⟨rfl, _⟩ := List.cons.inj behind
      exact ⟨more, rfl⟩
  · exact absurd (behind ▸ List.mem_append_right _ List.mem_cons_self) outside

/-- A text is cut behind a character that does not stand before the cut. -/
theorem exists_right_of_not_mem {c : Char} {piece rest text later : Text}
    (same : text ++ later = piece ++ c :: rest) (outside : c ∉ text) : ∃ more, piece = text ++ more := by
  rcases List.append_eq_append_iff.mp same with ⟨more, rfl, _⟩ | ⟨more, rfl, behind⟩
  · exact ⟨more, rfl⟩
  · cases more with
    | nil => exact ⟨[], by rw [List.append_nil, List.append_nil]⟩
    | cons d more =>
      obtain ⟨rfl, _⟩ := List.cons.inj behind
      exact absurd (List.mem_append_right _ List.mem_cons_self) outside

/-! ### White space at the beginning -/

theorem exists_trimStart (text : Text) :
    ∃ blanks, text = blanks ++ trimStart text ∧ ∀ c ∈ blanks, isWhiteSpace c = true :=
  ⟨text.takeWhile isWhiteSpace, List.takeWhile_append_dropWhile.symm, fun _ mem =>
    List.mem_takeWhile_imp mem⟩

theorem trimStart_append {blanks text : Text} (blank : ∀ c ∈ blanks, isWhiteSpace c = true)
    (solid : ∀ c ∈ text.head?, isWhiteSpace c = false) : trimStart (blanks ++ text) = text :=
  dropWhile_run blank solid

/-! ### White space at the end -/

theorem trimEnd_append_trailingBlanks (text : Text) : trimEnd text ++ trailingBlanks text = text := by
  rw [trimEnd, trailingBlanks, ← List.reverse_append, List.takeWhile_append_dropWhile,
    List.reverse_reverse]

theorem isWhiteSpace_of_mem_trailingBlanks {text : Text} :
    ∀ c ∈ trailingBlanks text, isWhiteSpace c = true := by
  intro c mem
  exact List.mem_takeWhile_imp (List.mem_reverse.mp mem)

/-- A text that ends in white space is trimmed to what stands before. -/
theorem trimEnd_append_blanks {text blanks : Text} (blank : ∀ c ∈ blanks, isWhiteSpace c = true)
    (solid : ∀ c ∈ text.getLast?, isWhiteSpace c = false) : trimEnd (text ++ blanks) = text := by
  unfold trimEnd
  rw [List.reverse_append, dropWhile_run, List.reverse_reverse]
  · intro c mem
    exact blank c (List.mem_reverse.mp mem)
  · rwa [List.head?_reverse]

theorem not_isWhiteSpace_getLast?_trimEnd (text : Text) :
    ∀ c ∈ (trimEnd text).getLast?, isWhiteSpace c = false := by
  intro c last
  rw [trimEnd, List.getLast?_reverse] at last
  have none := List.head?_dropWhile_not isWhiteSpace text.reverse
  rw [Option.mem_def.mp last] at none
  simpa using none

/-- **A text is what is left of it when it is trimmed, with white space around.** -/
theorem exists_trim (text : Text) :
    ∃ before behind, text = before ++ (trim text ++ behind) ∧ (∀ c ∈ before, isWhiteSpace c = true) ∧
      (∀ c ∈ behind, isWhiteSpace c = true) ∧ (∀ c ∈ (trim text).head?, isWhiteSpace c = false) ∧
      ∀ c ∈ (trim text).getLast?, isWhiteSpace c = false := by
  have first : ∀ c ∈ (trimStart text).head?, isWhiteSpace c = false := by
    intro c first
    have none := List.head?_dropWhile_not isWhiteSpace text
    rw [← trimStart, Option.mem_def.mp first] at none
    simpa using none
  refine ⟨text.takeWhile isWhiteSpace, trailingBlanks (trimStart text), ?_,
    fun c mem => List.mem_takeWhile_imp mem, isWhiteSpace_of_mem_trailingBlanks, ?_,
    not_isWhiteSpace_getLast?_trimEnd _⟩
  · rw [trim, trimEnd_append_trailingBlanks, trimStart, List.takeWhile_append_dropWhile]
  · intro c mem
    refine first c ?_
    rw [← trimEnd_append_trailingBlanks (trimStart text)]
    rw [trim] at mem
    cases rest : trimEnd (trimStart text) with
    | nil => simp [rest] at mem
    | cons d rest =>
      rw [rest] at mem
      exact mem

theorem mem_of_mem_trim {c : Char} {text : Text} (mem : c ∈ trim text) : c ∈ text := by
  obtain ⟨before, behind, whole, _⟩ := exists_trim text
  rw [whole]
  exact List.mem_append_right _ (List.mem_append_left _ mem)

/-- White space around a text is trimmed off. -/
theorem trim_eq {before text behind : Text} (blankBefore : ∀ c ∈ before, isWhiteSpace c = true)
    (blankBehind : ∀ c ∈ behind, isWhiteSpace c = true)
    (first : ∀ c ∈ text.head?, isWhiteSpace c = false)
    (last : ∀ c ∈ text.getLast?, isWhiteSpace c = false) :
    trim (before ++ (text ++ behind)) = text := by
  cases text with
  | nil =>
    have all : ∀ c ∈ before ++ behind, isWhiteSpace c = true := by
      intro c mem
      rcases List.mem_append.mp mem with inBefore | inBehind
      · exact blankBefore c inBefore
      · exact blankBehind c inBehind
    rw [List.nil_append, trim, trimStart, List.dropWhile_eq_nil_iff.mpr all]
    rfl
  | cons d text =>
    rw [trim, trimStart, dropWhile_run blankBefore (by simpa using first)]
    exact trimEnd_append_blanks blankBehind last

@[simp] theorem trim_trim (text : Text) : trim (trim text) = trim text := by
  have nothing : ∀ c ∈ ([] : Text), isWhiteSpace c = true := by simp
  obtain ⟨_, _, _, _, _, first, last⟩ := exists_trim text
  have whole := trim_eq nothing nothing first last
  rwa [List.nil_append, List.append_nil] at whole

/-- A text that does not begin with white space is trimmed at its end only. -/
theorem trim_of_solid {text : Text} (first : ∀ c ∈ text.head?, isWhiteSpace c = false) :
    trim text = trimEnd text := by
  have nothing : ∀ c ∈ ([] : Text), isWhiteSpace c = true := by simp
  have stays : trimStart text = text := dropWhile_run nothing first
  rw [trim, stays]

theorem before?_eq_some_iff {final text before : Text} :
    before? final text = some before ↔ text = before ++ final := by
  unfold before?
  split_ifs with ends
  · obtain ⟨first, rfl⟩ := List.isSuffixOf_iff_suffix.mp ends
    rw [List.length_append, Nat.add_sub_cancel, List.take_left, Option.some.injEq,
      List.append_cancel_right_eq]
  · simp only [false_iff]
    rintro rfl
    exact ends (List.isSuffixOf_iff_suffix.mpr (List.suffix_append _ _))

end ScopedHandles
