/-
**What a comment hides.**

A reference speaks against closing the handle by the text on both sides of it, without the white space
between. Comments are not taken for white space there. So a comment hides a reference that stands beside it:
behind the reference it hides everything, and before the reference it hides that the handle is returned. All
other references are judged as before.

* `reference_cases` — a reference stands on one side of a blank.
* `escapeAt?_behind`, `escapeAt?_before` — what is judged stands beside the reference.
* `escape_commented_iff` — which references still speak against closing the handle.
-/

import ScopedHandles.Enclosure
import ScopedHandles.Proofs.CodeUse
import ScopedHandles.Proofs.Token

namespace ScopedHandles

/-! ### Comments -/

/-- A text that is read as one block comment, from its opening to its closing marker. -/
structure BlockComment (text : Text) : Prop where
  opens : ['/', '*'] <+: text
  closes : ['*', '/'] <:+ text
  reads : Scanner.Reads .start text (.code :: text.tail.map fun _ => .blockComment) .start

theorem CommentBody.blockComment (body : CommentBody) : BlockComment (commented body.text) where
  opens := ⟨_, rfl⟩
  closes := ⟨['/', '*'] ++ body.text, by rw [commented, List.append_assoc]⟩
  reads := (Token.blockComment body).reads

/-- White space in code ends the half of a marker. -/
theorem Scanner.next_blank_of_code {scanner : Scanner} {c d : Char} (code : scanner.regionOf c = .code)
    (opened : 0 ≤ scanner.depth) (blank : isWhiteSpace d = true) : scanner.next d = .start := by
  have slash : d ≠ '/' := ne_of_class blank (by decide)
  have star : d ≠ '*' := ne_of_class blank (by decide)
  have double : d ≠ '"' := ne_of_class blank (by decide)
  have single : d ≠ '\'' := ne_of_class blank (by decide)
  obtain ⟨mode, depth⟩ := scanner
  cases mode with
  | plain half =>
    have level : depth = 0 := by
      by_cases inside : 0 < depth
      · simp [regionOf, inside] at code
      · exact Int.le_antisymm (Int.not_lt.mp inside) opened
    simp [next, level, slash, star, double, single, Half.of, start]
  | lineComment => simp [regionOf] at code
  | literal quote escaped => simp [regionOf] at code

/-- The text before a blank, with a comment put in before the blank. -/
theorem inserted_eq (before comment middle : Text) (c : Char) :
    before ++ (' ' :: comment ++ ' ' :: c :: middle) =
      (before ++ (' ' :: comment ++ [' '])) ++ c :: middle := by
  simp only [List.append_assoc, List.cons_append, List.nil_append]

section Inserted

variable {before comment : Text} {c : Char} (isComment : BlockComment comment)
  (blank : isWhiteSpace c = true) (code : (Scanner.start.run before).regionOf c = .code)
  (opened : 0 ≤ (Scanner.start.run before).depth)

include code opened

theorem run_blank_behind {d : Char} (white : isWhiteSpace d = true) (middle : Text) :
    Scanner.start.run (before ++ d :: middle) = Scanner.start.run middle := by
  rw [Scanner.run_append, Scanner.run_cons, Scanner.next_blank_of_code code opened white]

include isComment blank

/-- **Behind a comment a scan goes on as if it were not there.** -/
theorem run_comment_behind (middle : Text) :
    Scanner.start.run (before ++ (' ' :: comment ++ ' ' :: c :: middle)) = Scanner.start.run middle := by
  have gap : Scanner.start.next ' ' = .start := by decide
  have start : Scanner.start.next c = .start := Scanner.next_blank_of_code (c := ' ') rfl (by decide) blank
  rw [List.cons_append, run_blank_behind code opened (by decide), Scanner.run_append,
    isComment.reads.run_eq, Scanner.run_cons, gap, Scanner.run_cons, start]

end Inserted

/-! ### References -/

/-- **A reference stands on one side of a character that is none of its own.** -/
theorem reference_cases {front name behind before after : Text} {c : Char} (some : name ≠ [])
    (outside : c ∉ name) (same : front ++ (name ++ behind) = before ++ c :: after) :
    (∃ tail, before = front ++ (name ++ tail) ∧ behind = tail ++ c :: after) ∨
      ∃ middle, front = before ++ c :: middle ∧ after = middle ++ (name ++ behind) := by
  rcases List.append_eq_append_iff.mp same with ⟨more, rfl, split⟩ | ⟨more, rfl, split⟩
  · left
    obtain ⟨tail, rfl⟩ := exists_right_of_not_mem split outside
    rw [List.append_assoc] at split
    exact ⟨tail, rfl, List.append_cancel_left split⟩
  · right
    cases more with
    | nil =>
      obtain ⟨d, word, rfl⟩ := List.exists_cons_of_ne_nil some
      exact absurd ((List.cons.inj split).1 ▸ List.mem_cons_self) outside
    | cons d middle =>
      obtain ⟨rfl, rest⟩ := List.cons.inj split
      exact ⟨middle, rfl, rest⟩

/-- A reference to `name` between `front` and `behind` that speaks against closing the handle. -/
structure Escape (name text front behind : Text) (reason : SkipReason) : Prop where
  whole : text = front ++ (name ++ behind)
  found : isReference name (Scanner.start.run front) front.getLast? (name ++ behind) = true
  speaks : escapeAt? front behind = some reason

theorem lt_of_mem_referencesFrom {symbol text : Text} {scanner : Scanner} {last : Option Char}
    {start place : Nat} (mem : place ∈ referencesFrom symbol scanner last start text) :
    place < start + text.length := by
  induction text generalizing scanner last start with
  | nil => simp [referencesFrom] at mem
  | cons c rest ih =>
    have later : place ∈ referencesFrom symbol (scanner.next c) (some c) (start + 1) rest →
        place < start + (c :: rest).length := by
      intro mem
      have := ih mem
      rw [List.length_cons]
      omega
    rw [referencesFrom] at mem
    split_ifs at mem
    · rcases List.mem_cons.mp mem with rfl | mem
      · rw [List.length_cons]
        omega
      · exact later mem
    · exact later mem

/-- **A block is rejected exactly if a reference speaks against it.** -/
theorem isSome_escape?_iff {name text : Text} :
    (escape? name text).isSome = true ↔ ∃ front behind reason, Escape name text front behind reason := by
  rw [escape?, List.findSome?_isSome_iff]
  constructor
  · rintro ⟨place, mem, speaks⟩
    obtain ⟨reason, speaks⟩ := Option.isSome_iff_exists.mp speaks
    have inside := lt_of_mem_referencesFrom mem
    rw [Nat.zero_add] at inside
    have found : (text.take place).length ∈ references (text.take place ++ text.drop place) name := by
      rwa [List.take_append_drop, List.length_take_of_le inside.le]
    rw [length_mem_references_iff] at found
    obtain ⟨behind, split, _⟩ := eq_append_of_isReference found
    rw [split] at found
    refine ⟨text.take place, behind, reason, ?_, found, ?_⟩
    · rw [← split, List.take_append_drop]
    · rwa [← List.drop_drop, split, List.drop_left] at speaks
  · rintro ⟨front, behind, reason, rfl, found, speaks⟩
    refine ⟨front.length, length_mem_references_iff.mpr found, ?_⟩
    rw [List.take_left, ← List.drop_drop, List.drop_left, List.drop_left, speaks]
    rfl

/-! ### What stands beside a reference -/

theorem endsInReturn_iff {text : Text} :
    endsInReturn text = true ↔
      ∃ before, text = before ++ "return".toList ∧ before.getLast?.any isIdentChar = false := by
  unfold endsInReturn
  constructor
  · intro ends
    split at ends
    · cases ends
    · next before cut =>
      exact ⟨before, before?_eq_some_iff.mp cut, (Bool.not_eq_true' _).mp ends⟩
  · rintro ⟨before, cut, other⟩
    rw [before?_eq_some_iff.mpr cut]
    simp [other]

/-- Whether a text ends in `return` is told by what stands behind its last blank. -/
theorem endsInReturn_append {c : Char} (blank : isWhiteSpace c = true) (piece other rest : Text) :
    endsInReturn (piece ++ c :: rest) = endsInReturn (other ++ c :: rest) := by
  have outside : c ∉ "return".toList := fun mem =>
    absurd (List.all_eq_true.mp (show ("return".toList.all fun c => !isWhiteSpace c) = true by decide) c mem)
      (by simp [blank])
  have moved : ∀ {piece other : Text}, endsInReturn (piece ++ c :: rest) = true →
      endsInReturn (other ++ c :: rest) = true := by
    intro piece other ends
    obtain ⟨before, cut, edge⟩ := endsInReturn_iff.mp ends
    obtain ⟨more, rfl⟩ := exists_left_of_not_mem cut outside
    rw [List.append_assoc] at cut
    refine endsInReturn_iff.mpr ⟨other ++ c :: more, ?_, ?_⟩
    · rw [List.append_assoc, List.append_cancel_left cut]
    · rw [← Option.or_none (o := List.getLast? _), getLast?_append_cons_or] at edge ⊢
      exact edge
  exact Bool.eq_iff_iff.mpr ⟨moved, moved⟩

/-- A text that holds more than white space. -/
def Solid (text : Text) : Prop :=
  ∃ c ∈ text, isWhiteSpace c = false

theorem not_solid_iff {text : Text} : ¬ Solid text ↔ ∀ c ∈ text, isWhiteSpace c = true := by
  simp [Solid]

/-- The first character that is no white space. -/
theorem Solid.exists_first {text : Text} (solid : Solid text) :
    ∃ blanks c rest, text = blanks ++ c :: rest ∧ (∀ d ∈ blanks, isWhiteSpace d = true) ∧
      isWhiteSpace c = false := by
  obtain ⟨c, mem, visible⟩ := solid
  have some : text.dropWhile isWhiteSpace ≠ [] := by
    intro none
    rw [List.dropWhile_eq_nil_iff] at none
    rw [none c mem] at visible
    exact Bool.noConfusion visible
  obtain ⟨d, rest, split⟩ := List.exists_cons_of_ne_nil some
  refine ⟨text.takeWhile isWhiteSpace, d, rest, ?_, fun _ mem => List.mem_takeWhile_imp mem, ?_⟩
  · rw [← split, List.takeWhile_append_dropWhile]
  · have first := List.head?_dropWhile_not isWhiteSpace text
    rw [split] at first
    exact first

theorem Solid.reverse {text : Text} (solid : Solid text) : Solid text.reverse := by
  obtain ⟨c, mem, visible⟩ := solid
  exact ⟨c, List.mem_reverse.mpr mem, visible⟩

/-- The last character that is no white space. -/
theorem Solid.exists_last {text : Text} (solid : Solid text) :
    ∃ rest c blanks, text = rest ++ c :: blanks ∧ (∀ d ∈ blanks, isWhiteSpace d = true) ∧
      isWhiteSpace c = false := by
  obtain ⟨blanks, c, rest, split, white, visible⟩ := solid.reverse.exists_first
  refine ⟨rest.reverse, c, blanks.reverse, ?_, fun d mem => white d (List.mem_reverse.mp mem), visible⟩
  rw [← List.reverse_reverse text, split]
  simp

/-- **What is judged behind a reference** ends before a blank. -/
theorem escapeAt?_behind {tail : Text} {c d : Char} (solid : Solid tail) (blank : isWhiteSpace c = true)
    (otherBlank : isWhiteSpace d = true) (front later other : Text) :
    escapeAt? front (tail ++ c :: later) = escapeAt? front (tail ++ d :: other) := by
  obtain ⟨blanks, e, rest, rfl, white, visible⟩ := solid.exists_first
  have trimmed : ∀ text, trimStart (blanks ++ e :: rest ++ text) = e :: (rest ++ text) := by
    intro text
    rw [List.append_assoc]
    exact trimStart_append white (forall_mem_some visible)
  have sign : '=' ≠ c := Ne.symm (ne_of_class blank (by decide))
  have otherSign : '=' ≠ d := Ne.symm (ne_of_class otherBlank (by decide))
  unfold escapeAt?
  rw [trimmed, trimmed]
  cases rest with
  | nil => simp [List.isPrefixOf_cons_cons, sign, otherSign]
  | cons f rest => simp [List.isPrefixOf_cons_cons]

/-- **What is judged before a reference** begins behind a blank. -/
theorem escapeAt?_before {middle : Text} {c : Char} (solid : Solid middle) (blank : isWhiteSpace c = true)
    (piece other behind : Text) :
    escapeAt? (piece ++ c :: middle) behind = escapeAt? (other ++ c :: middle) behind := by
  obtain ⟨rest, e, blanks, rfl, white, visible⟩ := solid.exists_last
  have trimmed : ∀ text, trimEnd (text ++ c :: (rest ++ e :: blanks)) = text ++ c :: (rest ++ [e]) := by
    intro text
    have split : text ++ c :: (rest ++ e :: blanks) = (text ++ c :: (rest ++ [e])) ++ blanks := by
      simp only [List.append_assoc, List.cons_append, List.nil_append]
    rw [split]
    refine trimEnd_append_blanks white ?_
    rw [← List.cons_append, ← List.append_assoc, List.getLast?_concat]
    exact forall_mem_some visible
  unfold escapeAt?
  rw [trimmed, trimmed, endsInReturn_append blank piece other]

/-- A comment behind a reference hides it. -/
theorem escapeAt?_comment_behind {blanks : Text} (white : ∀ c ∈ blanks, isWhiteSpace c = true)
    (front later : Text) : escapeAt? front (blanks ++ '/' :: later) = none := by
  have trimmed : trimStart (blanks ++ '/' :: later) = '/' :: later :=
    trimStart_append white (forall_mem_some (by decide))
  unfold escapeAt?
  rw [trimmed]
  simp

/-- A comment before a reference hides that the handle is returned. Nothing else is hidden, since a reference
is not followed by both marks. -/
theorem escapeAt?_comment_before {blanks : Text} (white : ∀ c ∈ blanks, isWhiteSpace c = true)
    (piece front behind : Text) (reason : SkipReason) :
    escapeAt? (piece ++ '/' :: blanks) behind = some reason ↔
      escapeAt? front behind = some reason ∧ reason ≠ .returnsHandle := by
  have trimmed : trimEnd (piece ++ '/' :: blanks) = piece ++ ['/'] := by
    rw [List.append_cons]
    refine trimEnd_append_blanks white ?_
    rw [List.getLast?_concat]
    exact forall_mem_some (by decide)
  have other : endsInReturn (piece ++ ['/']) = false := by
    by_contra ends
    obtain ⟨before, cut, _⟩ := endsInReturn_iff.mp (Bool.not_eq_false _ ▸ ends)
    have last := congrArg List.getLast? cut
    rw [List.getLast?_concat, List.getLast?_append_of_ne_nil _ (by decide)] at last
    exact absurd last (by decide)
  unfold escapeAt?
  rw [trimmed, other]
  have exclusive : ((trimStart behind).head? == some '=') = true →
      ((trimStart behind).head? == some ';' || (trimStart behind).head? == some '.') = false := by
    intro sign
    rw [beq_iff_eq.mp sign]
    decide
  simp only [Bool.false_and, Bool.false_eq_true, if_false]
  by_cases assigned : ((trimStart behind).head? == some '=' && !"==".toList.isPrefixOf (trimStart behind)) = true
  · rw [exclusive (Bool.and_eq_true_iff.mp assigned).1, Bool.and_false, if_pos assigned, if_neg (by decide)]
    refine ⟨fun same => ⟨same, ?_⟩, And.left⟩
    rw [← Option.some.inj same]
    decide
  · rw [if_neg assigned]
    refine ⟨fun none => (by cases none), ?_⟩
    rintro ⟨returned, other⟩
    split_ifs at returned
    exact absurd (Option.some.inj returned).symm other

/-! ### Comments beside references -/

/-- A comment behind `before` hides the reference behind `front`: only white space stands between the two.
Before the reference it hides that the handle is returned, and not that it is assigned again. -/
def Hides (before front name : Text) (reason : SkipReason) : Prop :=
  (∃ blanks, before = front ++ (name ++ blanks) ∧ ∀ c ∈ blanks, isWhiteSpace c = true) ∨
    (∃ blanks, front = before ++ blanks ∧ ∀ c ∈ blanks, isWhiteSpace c = true) ∧ reason = .returnsHandle

theorem hides_behind_iff {before front name tail : Text} (some : name ≠ [])
    (split : before = front ++ (name ++ tail)) (reason : SkipReason) :
    Hides before front name reason ↔ ¬ Solid tail := by
  rw [not_solid_iff, Hides, split]
  constructor
  · rintro (⟨blanks, same, white⟩ | ⟨⟨blanks, same, _⟩, _⟩)
    · rwa [List.append_cancel_left (List.append_cancel_left same)]
    · have size := congrArg List.length same
      have positive := List.length_pos_of_ne_nil some
      simp only [List.length_append] at size
      omega
  · exact fun white => .inl ⟨tail, rfl, white⟩

theorem hides_before_iff {before middle name : Text} {c : Char} (blank : isWhiteSpace c = true)
    (reason : SkipReason) :
    Hides before (before ++ c :: middle) name reason ↔ ¬ Solid middle ∧ reason = .returnsHandle := by
  rw [not_solid_iff, Hides]
  constructor
  · rintro (⟨blanks, same, _⟩ | ⟨⟨blanks, same, white⟩, returned⟩)
    · have size := congrArg List.length same
      simp only [List.length_append, List.length_cons] at size
      omega
    · rw [← List.append_cancel_left same, List.forall_mem_cons] at white
      exact ⟨white.2, returned⟩
  · rintro ⟨white, returned⟩
    exact .inr ⟨⟨c :: middle, rfl, List.forall_mem_cons.mpr ⟨blank, white⟩⟩, returned⟩

section Commented

variable {name before after comment : Text} {c : Char} (isWord : Word name)
  (isComment : BlockComment comment) (unnamed : references comment name = []) (blank : isWhiteSpace c = true)
  (code : (Scanner.start.run before).regionOf c = .code) (opened : 0 ≤ (Scanner.start.run before).depth)

include isWord in
/-- A reference before a blank does not depend on what stands behind the blank. -/
theorem isReference_before_blank {scanner : Scanner} {last : Option Char} {c d : Char}
    (blank : isWhiteSpace c = true) (otherBlank : isWhiteSpace d = true) (tail later other : Text) :
    isReference name scanner last (name ++ (tail ++ c :: later)) =
      isReference name scanner last (name ++ (tail ++ d :: other)) := by
  have follows : ∀ {c : Char} (later : Text), isWhiteSpace c = true → mayFollow (c :: later).head? = true := by
    intro c later white
    rw [List.head?_cons, mayFollow, white, Bool.true_or]
  rw [← List.append_assoc, ← List.append_assoc, isReference_append_eq isWord (follows later blank),
    isReference_append_eq isWord (follows other otherBlank)]

theorem blank_not_mem (isWord : Word name) (blank : isWhiteSpace c = true) : c ∉ name := fun mem =>
  absurd (isWord.chars c mem) (by rw [not_isWordChar_of_isWhiteSpace blank]; exact Bool.false_ne_true)

include isComment blank

/-- What a reference before the comment says. -/
theorem escapeAt?_behind_iff (front tail : Text) (reason : SkipReason) :
    escapeAt? front (tail ++ (' ' :: comment ++ ' ' :: c :: after)) = some reason ↔
      escapeAt? front (tail ++ c :: after) = some reason ∧ Solid tail := by
  by_cases solid : Solid tail
  · rw [List.cons_append, escapeAt?_behind solid (by decide) blank front _ after, and_iff_left solid]
  · obtain ⟨rest, split⟩ := isComment.opens
    have white : ∀ d ∈ tail ++ [' '], isWhiteSpace d = true := by
      rw [List.forall_mem_append]
      exact ⟨not_solid_iff.mp solid, List.all_eq_true.mp (by decide)⟩
    have hidden := escapeAt?_comment_behind white front ('*' :: (rest ++ ' ' :: c :: after))
    rw [← split]
    simp only [List.append_assoc, List.cons_append, List.nil_append] at hidden ⊢
    simp [hidden, solid]

/-- What a reference behind the comment says. -/
theorem escapeAt?_before_iff (middle behind : Text) (reason : SkipReason) :
    escapeAt? (before ++ (' ' :: comment ++ ' ' :: c :: middle)) behind = some reason ↔
      escapeAt? (before ++ c :: middle) behind = some reason ∧
        (Solid middle ∨ reason ≠ .returnsHandle) := by
  by_cases solid : Solid middle
  · rw [inserted_eq, escapeAt?_before solid blank _ before, and_iff_left (.inl solid)]
  · obtain ⟨rest, split⟩ := isComment.closes
    have white : ∀ d ∈ ' ' :: c :: middle, isWhiteSpace d = true :=
      List.forall_mem_cons.mpr ⟨by decide, List.forall_mem_cons.mpr ⟨blank, not_solid_iff.mp solid⟩⟩
    have judged := escapeAt?_comment_before white (before ++ ' ' :: (rest ++ ['*'])) (before ++ c :: middle)
      behind reason
    rw [or_iff_right solid, ← judged, ← split]
    simp only [List.append_assoc, List.cons_append, List.nil_append]

include code opened

/-- A reference behind the comment is one without it. -/
theorem isReference_behind_comment (middle behind : Text) :
    isReference name (Scanner.start.run (before ++ (' ' :: comment ++ ' ' :: c :: middle)))
        (before ++ (' ' :: comment ++ ' ' :: c :: middle)).getLast? (name ++ behind) =
      isReference name (Scanner.start.run (before ++ c :: middle)) (before ++ c :: middle).getLast?
        (name ++ behind) := by
  have edge : (before ++ (' ' :: comment ++ ' ' :: c :: middle)).getLast? =
      (before ++ c :: middle).getLast? := by
    rw [inserted_eq, ← Option.or_none (o := List.getLast? (_ ++ c :: middle)), getLast?_append_cons_or,
      ← Option.or_none (o := List.getLast? (before ++ c :: middle)), getLast?_append_cons_or]
  rw [edge, run_comment_behind isComment blank code opened, run_blank_behind code opened blank]

include isWord

/-- **A reference beside which no comment is put still speaks against closing the handle.** -/
theorem Escape.commented {front behind : Text} {reason : SkipReason}
    (escape : Escape name (before ++ c :: after) front behind reason)
    (visible : ¬ Hides before front name reason) :
    ∃ front behind, Escape name (before ++ (' ' :: comment ++ ' ' :: c :: after)) front behind reason := by
  rcases reference_cases isWord.nonempty (blank_not_mem isWord blank) escape.whole.symm with
    ⟨tail, split, rfl⟩ | ⟨middle, rfl, split⟩
  · rw [hides_behind_iff isWord.nonempty split, not_not] at visible
    refine ⟨front, tail ++ (' ' :: comment ++ ' ' :: c :: after), ?_, ?_, ?_⟩
    · rw [split]
      simp only [List.append_assoc]
    · rw [List.cons_append, isReference_before_blank isWord (by decide) blank tail _ after]
      exact escape.found
    · exact (escapeAt?_behind_iff isComment blank front tail reason).mpr ⟨escape.speaks, visible⟩
  · rw [hides_before_iff blank, not_and_or, not_not] at visible
    refine ⟨before ++ (' ' :: comment ++ ' ' :: c :: middle), behind, ?_, ?_, ?_⟩
    · rw [split]
      simp only [List.append_assoc, List.cons_append]
    · rw [isReference_behind_comment isComment blank code opened]
      exact escape.found
    · exact (escapeAt?_before_iff isComment blank middle behind reason).mpr ⟨escape.speaks, visible⟩

omit blank in
/-- A reference in the comment is one of the comment by itself: a blank before it and a blank behind it change
nothing. -/
theorem length_mem_references_comment {middle tail later : Text}
    (inside : comment = middle ++ (name ++ tail))
    (found : isReference name (Scanner.start.run (before ++ ' ' :: middle))
      (before ++ ' ' :: middle).getLast? (name ++ (tail ++ ' ' :: later)) = true) :
    middle.length ∈ references comment name := by
  have some : middle ≠ [] := by
    rintro rfl
    obtain ⟨rest, marker⟩ := isComment.opens
    obtain ⟨d, more, rfl⟩ := List.exists_cons_of_ne_nil isWord.nonempty
    obtain rfl : '/' = d := List.head_eq_of_cons_eq (marker.trans inside)
    exact absurd (isWord.chars _ List.mem_cons_self) (by decide)
  have edge : (before ++ ' ' :: middle).getLast? = middle.getLast? := by
    rw [List.append_cons, List.getLast?_append_of_ne_nil _ some]
  rw [edge, run_blank_behind code opened (by decide), ← List.append_assoc,
    isReference_append_eq isWord (by rfl)] at found
  rw [inside]
  exact length_mem_references_iff.mpr found

include unnamed

/-- **No other reference does**: none stands in the comment. -/
theorem Escape.uncommented {front behind : Text} {reason : SkipReason}
    (escape : Escape name (before ++ (' ' :: comment ++ ' ' :: c :: after)) front behind reason) :
    ∃ front behind, Escape name (before ++ c :: after) front behind reason ∧
      ¬ Hides before front name reason := by
  have gap : ' ' ∉ name := blank_not_mem isWord (by decide)
  rcases reference_cases isWord.nonempty gap escape.whole.symm with ⟨tail, split, rfl⟩ | ⟨middle, rfl, rest⟩
  · obtain ⟨speaks, solid⟩ := (escapeAt?_behind_iff isComment blank front tail reason).mp escape.speaks
    refine ⟨front, tail ++ c :: after, ⟨?_, ?_, speaks⟩, ?_⟩
    · rw [split]
      simp only [List.append_assoc]
    · rw [isReference_before_blank isWord blank (d := ' ') (by decide) tail after]
      exact escape.found
    · rwa [hides_behind_iff isWord.nonempty split, not_not]
  rcases reference_cases isWord.nonempty gap rest.symm with ⟨tail, inside, rfl⟩ | ⟨middle, rfl, further⟩
  · have mem := length_mem_references_comment isWord isComment code opened inside escape.found
    rw [unnamed] at mem
    cases mem
  have single : middle ++ (name ++ behind) = [] ++ c :: after := further.symm
  rcases reference_cases isWord.nonempty (blank_not_mem isWord blank) single with
    ⟨tail, nothing, _⟩ | ⟨middle, rfl, last⟩
  · exact absurd (List.append_eq_nil_iff.mp (List.append_eq_nil_iff.mp nothing.symm).2).1 isWord.nonempty
  · have speaks := escape.speaks
    have found := escape.found
    have whole : before ++ ' ' :: (comment ++ ' ' :: ([] ++ c :: middle)) =
        before ++ (' ' :: comment ++ ' ' :: c :: middle) := rfl
    rw [whole] at speaks found
    rw [isReference_behind_comment isComment blank code opened] at found
    obtain ⟨speaks, visible⟩ := (escapeAt?_before_iff isComment blank middle behind reason).mp speaks
    refine ⟨before ++ c :: middle, behind, ⟨?_, found, speaks⟩, ?_⟩
    · rw [last]
      simp only [List.append_assoc, List.cons_append]
    · rwa [hides_before_iff blank, not_and_or, not_not]

end Commented

/-- **What a comment hides.** A block comment that does not refer to the handle is put in code before white
space. The block is still rejected exactly if a reference speaks against closing the handle that the
comment does not hide. -/
theorem escape_commented_iff {name before after comment : Text} {c : Char} (isWord : Word name)
    (isComment : BlockComment comment) (unnamed : references comment name = [])
    (blank : isWhiteSpace c = true) (code : (Scanner.start.run before).regionOf c = .code)
    (opened : 0 ≤ (Scanner.start.run before).depth) :
    (escape? name (before ++ (' ' :: comment ++ ' ' :: c :: after))).isSome = true ↔
      ∃ front behind reason, Escape name (before ++ c :: after) front behind reason ∧
        ¬ Hides before front name reason := by
  rw [isSome_escape?_iff]
  constructor
  · rintro ⟨front, behind, reason, escape⟩
    obtain ⟨front, behind, escape, visible⟩ :=
      escape.uncommented isWord isComment unnamed blank code opened
    exact ⟨front, behind, reason, escape, visible⟩
  · rintro ⟨front, behind, reason, escape, visible⟩
    obtain ⟨front, behind, escape⟩ := escape.commented isWord isComment blank code opened visible
    exact ⟨front, behind, reason, escape⟩

/-- The inside of a comment, with another one in it. It holds the letters of a handle, and no reference to
it. -/
def nestedNote : CommentBody :=
  .plain " first ".toList (by decide) (.nested (.plain " b ".toList (by decide) .done) .done)

theorem nestedNote_hides_nothing :
    "rs".toList <:+: commented nestedNote.text ∧
      (escape? "rs".toList ("x();".toList ++ ' ' :: "return rs;".toList)).isSome = true ∧
      (escape? "rs".toList ("x();".toList ++
        (' ' :: commented nestedNote.text ++ ' ' :: ' ' :: "return rs;".toList))).isSome = true := by
  have isWord : Word "rs".toList := ⟨by decide, List.all_eq_true.mp (by decide +kernel)⟩
  have unnamed : references (commented nestedNote.text) "rs".toList = [] := by decide +kernel
  have code : (Scanner.start.run "x();".toList).regionOf ' ' = .code := by decide +kernel
  have opened : 0 ≤ (Scanner.start.run "x();".toList).depth := by decide +kernel
  have escape : Escape "rs".toList ("x();".toList ++ ' ' :: "return rs;".toList)
      ("x();".toList ++ ' ' :: "return ".toList) ";".toList .returnsHandle :=
    ⟨by decide +kernel, by decide +kernel, by decide +kernel⟩
  have visible : ¬ Hides "x();".toList ("x();".toList ++ ' ' :: "return ".toList) "rs".toList
      .returnsHandle := by
    rw [hides_before_iff (by decide), not_and_or, not_not]
    exact .inl ⟨'r', by decide +kernel, by decide +kernel⟩
  refine ⟨by decide +kernel, by decide +kernel, ?_⟩
  exact (escape_commented_iff isWord nestedNote.blockComment unnamed (by decide) code opened).mpr
    ⟨_, _, _, escape, visible⟩

/-- **A comment between `return` and the handle hides that it is returned.** -/
theorem emptyNote_hides_return :
    BlockComment (commented CommentBody.done.text) ∧
      escape? "rs".toList ("return".toList ++ ' ' :: "rs;".toList) = some .returnsHandle ∧
      escape? "rs".toList ("return".toList ++
        (' ' :: commented CommentBody.done.text ++ ' ' :: ' ' :: "rs;".toList)) = none :=
  ⟨CommentBody.done.blockComment, by decide +kernel, by decide +kernel⟩

/-- Behind a closer that closes nothing a comment is read as code, and a quote in it begins a literal. -/
example :
    escape? "rs".toList "*/ return rs;".toList = some .returnsHandle ∧
      escape? "rs".toList "*/ /*'*/  return rs;".toList = none := by
  decide +kernel

end ScopedHandles
