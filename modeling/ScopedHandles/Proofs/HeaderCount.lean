/-
**Counting headers.**

Headers that are counted do not overlap, and a header reaches through the next brace. So there is one for
each brace that has the beginning of a header between itself and the brace before, and a text may be cut
behind any brace to count them.

* `headers_append_brace` — the headers before a brace and those behind it.
* `headers_reclosed` — a brace that is put in behind a block takes no header away and adds none.
-/

import ScopedHandles.Proofs.Mending

namespace ScopedHandles

/-- The number of headers with loose statements in a text, `last` being the character before it. -/
def headers (last : Option Char) (text : Text) : Nat :=
  (allHits LooseStatement.probe 0 0 last text).length

/-- Whether a header begins in a text, where `begins` says whether a line begins with it. -/
def holdsLead (begins : Bool) (text : Text) : Bool :=
  (linesFrom begins text).any isLead

/-! ### Beginnings of headers -/

@[simp] theorem holdsLead_nil (begins : Bool) : holdsLead begins [] = false := rfl

theorem holdsLead_cons (begins : Bool) (c : Char) (rest : Text) :
    holdsLead begins (c :: rest) = ((begins && isLead (c :: rest)) || holdsLead (c == '\n') rest) := by
  cases begins <;> simp [holdsLead, linesFrom]

theorem holdsLead_append (begins : Bool) (piece later : Text) :
    holdsLead begins (piece ++ later) =
      ((linesFrom begins piece).any (fun line => isLead (line ++ later)) ||
        holdsLead (endsLine begins piece) later) := by
  unfold holdsLead
  rw [linesFrom_append, List.any_append, List.any_map]
  rfl

theorem holdsLead_of_behind {begins : Bool} {piece later : Text}
    (holds : holdsLead (endsLine begins piece) later = true) : holdsLead begins (piece ++ later) = true := by
  rw [holdsLead_append, holds, Bool.or_true]

theorem holdsLead_of_dotless {text : Text} (dotless : '.' ∉ text) (begins : Bool) :
    holdsLead begins text = false := by
  rw [holdsLead, List.any_eq_false]
  intro line mem
  obtain ⟨_, before, rfl, _⟩ := exists_of_mem_linesFrom mem
  rw [Bool.not_eq_true]
  exact not_isLead_of_dotless fun dot => dotless (List.mem_append_right _ dot)

/-- **A brace parts the beginnings of headers**, as does every character that belongs to no header. -/
theorem holdsLead_stop {stop : Char} (other : isLeadChar stop = false) (begins : Bool) (piece later : Text) :
    holdsLead begins (piece ++ stop :: later) = (holdsLead begins piece || holdsLead false later) := by
  have solid : (stop == '\n') = false := by
    rw [beq_eq_false_iff_ne]
    rintro rfl
    exact absurd other (by decide)
  have here : isLead (stop :: later) = false := isLead_stop other [] later
  rw [holdsLead_append, holdsLead_cons, here, Bool.and_false, Bool.false_or, solid]
  simp only [isLead_stop other]
  rfl

theorem holdsLead_append_dotless {later : Text} (dotless : '.' ∉ later) (begins : Bool) (piece : Text) :
    holdsLead begins (piece ++ later) = holdsLead begins piece := by
  rw [holdsLead_append, holdsLead_of_dotless dotless, Bool.or_false]
  simp only [isLead_append_dotless dotless]
  rfl

/-! ### Headers between two braces -/

theorem length_allHits_place {α : Type} {probe : Option Char → Text → Probe α} (skip place : Nat)
    (last : Option Char) (text : Text) :
    (allHits probe skip place last text).length = (allHits probe skip 0 last text).length := by
  rw [← Nat.zero_add place, allHits_shift, List.length_map]

theorem probe_of_not_isLead {last : Option Char} {text : Text}
    (none : (beginsLine last && isLead text) = false ∨ '{' ∉ text) :
    LooseStatement.probe last text = .miss := by
  have unread : beginsLine last = true → LooseStatement.read? text = .none := by
    intro begins
    rw [← Option.not_isSome_iff_eq_none, isSome_read?_iff]
    rintro ⟨leads, brace⟩
    rcases none with neither | braceless
    · rw [begins, leads] at neither
      exact Bool.noConfusion neither
    · exact braceless brace
  unfold LooseStatement.probe
  split_ifs with begins
  · rw [unread begins]
  · rfl

theorem exists_probe_of_isLead {last : Option Char} {piece : Text} (begins : beginsLine last = true)
    (leads : isLead piece = true) (braceless : '{' ∉ piece) (later : Text) :
    ∃ loose, LooseStatement.probe last (piece ++ '{' :: later) = .hit loose (piece.length + 1) := by
  obtain ⟨loose, read⟩ := Option.isSome_iff_exists.mp
    (isSome_read?_iff.mpr ⟨isLead_append leads ('{' :: later), List.mem_append_right _ List.mem_cons_self⟩)
  refine ⟨loose, ?_⟩
  unfold LooseStatement.probe
  rw [if_pos begins, read, ← length_of_read? read braceless]

/-- Without a brace there is no header. -/
theorem headers_of_braceless {text : Text} (braceless : '{' ∉ text) (last : Option Char) :
    headers last text = 0 := by
  induction text generalizing last with
  | nil => rfl
  | cons c rest ih =>
    have later := ih (fun mem => braceless (List.mem_cons_of_mem _ mem)) (some c)
    unfold headers at later ⊢
    rw [allHits, probe_of_not_isLead (.inr braceless)]
    simp only
    rw [length_allHits_place, later]

/-- **There is one header before the next brace if one begins there**, and no more than one. The header takes
all of the piece. -/
theorem headers_piece {piece : Text} (braceless : '{' ∉ piece) (last : Option Char) (later : Text) :
    headers last (piece ++ '{' :: later) =
      (holdsLead (beginsLine last) piece).toNat + headers (some '{') later := by
  induction piece generalizing last with
  | nil =>
    have here : isLead ('{' :: later) = false := isLead_stop (by decide) [] later
    unfold headers
    rw [List.nil_append, allHits, probe_of_not_isLead (.inl (by rw [here, Bool.and_false]))]
    simp only [holdsLead_nil, Bool.toNat_false, Nat.zero_add]
    exact length_allHits_place 0 1 _ _
  | cons c rest ih =>
    have outside : '{' ∉ rest := fun mem => braceless (List.mem_cons_of_mem _ mem)
    rw [holdsLead_cons]
    cases leads : (beginsLine last && isLead (c :: rest)) with
    | true =>
      obtain ⟨begins, isLead⟩ := Bool.and_eq_true_iff.mp leads
      obtain ⟨loose, seen⟩ := exists_probe_of_isLead begins isLead braceless later
      have split : c :: (rest ++ '{' :: later) = (c :: rest ++ ['{']) ++ later := by simp
      have behind : allHits LooseStatement.probe ((c :: rest ++ ['{']).length - 1) (0 + 1) (some c)
          (rest ++ '{' :: later) = _ := allHits_behind split (by simp) 0
      rw [List.length_append, List.length_singleton, List.getLast?_concat] at behind
      unfold headers
      rw [List.cons_append, allHits, ← List.cons_append, seen]
      simp only
      rw [behind, List.length_cons, length_allHits_place, Bool.true_or, Bool.toNat_true, Nat.add_comm]
    | false =>
      have unread : isLead (c :: rest ++ '{' :: later) = isLead (c :: rest) := isLead_stop (by decide) _ _
      have later := ih outside (some c)
      unfold headers at later ⊢
      rw [List.cons_append, allHits, ← List.cons_append,
        probe_of_not_isLead (.inl (by rw [unread, leads]))]
      simp only
      rw [length_allHits_place, later, Bool.false_or]
      rfl

/-- A text is gone through from brace to brace. -/
@[elab_as_elim]
theorem braces_induction {motive : Text → Prop} (free : ∀ text, '{' ∉ text → motive text)
    (cut : ∀ piece rest, '{' ∉ piece → motive rest → motive (piece ++ '{' :: rest)) (text : Text) :
    motive text := by
  by_cases brace : '{' ∈ text
  · obtain ⟨piece, rest, split, braceless⟩ := List.eq_append_cons_of_mem brace
    have shorter : rest.length < text.length := by
      rw [split, List.length_append, List.length_cons]
      omega
    rw [split]
    exact cut piece rest braceless (braces_induction free cut rest)
  · exact free text brace
termination_by text.length

/-- **The headers before a brace and those behind it.** -/
theorem headers_append_brace (last : Option Char) (text later : Text) :
    headers last (text ++ '{' :: later) = headers last (text ++ ['{']) + headers (some '{') later := by
  induction text using braces_induction generalizing last with
  | free text braceless =>
    rw [headers_piece braceless, headers_piece braceless]
    rfl
  | cut piece rest braceless ih =>
    rw [List.append_assoc, List.cons_append, headers_piece braceless, ih, List.append_assoc,
      List.cons_append, headers_piece braceless, Nat.add_assoc]

theorem headers_brace_le (last : Option Char) (text later : Text) :
    headers (some '{') later ≤ headers last (text ++ '{' :: later) := by
  rw [headers_append_brace]
  exact Nat.le_add_left _ _

/-- What stands before a line does not count. -/
theorem headers_of_begins {last : Option Char} (begins : beginsLine last = true) (text : Text) :
    headers last text = headers none text := by
  by_cases brace : '{' ∈ text
  · obtain ⟨piece, rest, rfl, braceless⟩ := List.eq_append_cons_of_mem brace
    rw [headers_piece braceless, headers_piece braceless, begins]
    rfl
  · rw [headers_of_braceless brace, headers_of_braceless brace]

/-- A text holds the headers of its end. -/
theorem headers_le_append (last : Option Char) (piece text : Text) :
    headers (piece.getLast?.or last) text ≤ headers last (piece ++ text) := by
  induction piece using braces_induction generalizing last with
  | cut piece rest _ ih =>
    rw [getLast?_append_cons_or, List.append_assoc, List.cons_append]
    exact (ih (some '{')).trans (headers_brace_le _ _ _)
  | free piece outside =>
    by_cases brace : '{' ∈ text
    · obtain ⟨first, rest, rfl, braceless⟩ := List.eq_append_cons_of_mem brace
      have clear : '{' ∉ piece ++ first := by
        rw [List.mem_append, not_or]
        exact ⟨outside, braceless⟩
      rw [headers_piece braceless, ← List.append_assoc, headers_piece clear, ← endsLine_eq]
      refine Nat.add_le_add_right ?_ _
      cases holds : holdsLead (endsLine (beginsLine last) piece) first with
      | false => exact Nat.zero_le _
      | true => rw [holdsLead_of_behind holds]
    · rw [headers_of_braceless brace]
      exact Nat.zero_le _

/-- **A header that gives way to another text** is one header, and those of the other text come in its
place. -/
theorem headers_exchange {above front : Text} {last : Option Char} (braceless : '{' ∉ front)
    (begins : beginsLine (above.getLast?.or last) = true) (later other : Text) :
    headers last (above ++ (front ++ '{' :: later)) + headers none other ≤
      headers last (above ++ other) + (headers (some '{') later + 1) := by
  induction above using braces_induction generalizing last with
  | cut piece rest _ ih =>
    rw [getLast?_append_cons_or] at begins
    have inner := ih begins
    rw [List.append_assoc, List.cons_append, List.append_assoc, List.cons_append, headers_append_brace,
      headers_append_brace last piece (rest ++ other)]
    omega
  | free above outside =>
    have clear : '{' ∉ above ++ front := by
      rw [List.mem_append, not_or]
      exact ⟨outside, braceless⟩
    have one := Bool.toNat_le (holdsLead (beginsLine last) (above ++ front))
    have behind := headers_le_append last above other
    rw [headers_of_begins begins] at behind
    rw [← List.append_assoc, headers_piece clear]
    omega

/-- **There is no header exactly if none can be read at the beginning of a line.** -/
theorem headers_eq_zero_iff (last : Option Char) (text : Text) :
    headers last text = 0 ↔
      ∀ line ∈ linesFrom (beginsLine last) text, LooseStatement.read? line = none := by
  have unread : ∀ line, LooseStatement.read? line = none ↔ isLead line = true → '{' ∉ line := by
    intro line
    rw [← Option.not_isSome_iff_eq_none, isSome_read?_iff, not_and]
  simp only [unread]
  induction text using braces_induction generalizing last with
  | free text braceless =>
    refine iff_of_true (headers_of_braceless braceless last) fun line mem _ => ?_
    obtain ⟨_, before, rfl, _⟩ := exists_of_mem_linesFrom mem
    exact fun inside => braceless (List.mem_append_right _ inside)
  | cut piece rest braceless ih =>
    have behind : linesFrom (endsLine (beginsLine last) piece) ('{' :: rest) =
        (if endsLine (beginsLine last) piece then ['{' :: rest] else []) ++ linesFrom false rest :=
      linesFrom_single_append (show ['{'] ≠ [] by simp) (by decide) _ rest
    have here : isLead ('{' :: rest) = false := isLead_stop (by decide) [] rest
    have later : headers (some '{') rest = 0 ↔ _ := ih (some '{')
    rw [headers_piece braceless, linesFrom_append, behind, Nat.add_eq_zero_iff, later]
    simp only [List.forall_mem_append, List.forall_mem_map]
    refine and_congr ?_ ?_
    · rw [Bool.toNat_eq_zero, holdsLead, List.any_eq_false]
      refine forall₂_congr fun line _ => ?_
      rw [isLead_stop (by decide)]
      simp
    · refine (and_iff_right ?_).symm
      intro line mem leads
      split_ifs at mem
      · rw [List.mem_singleton.mp mem, here] at leads
        exact Bool.noConfusion leads
      · cases mem

/-! ### Blocks that are closed anew -/

theorem dotless_of_blank {blanks : Text} (blank : ∀ c ∈ blanks, isWhiteSpace c = true) : '.' ∉ blanks :=
  fun mem => absurd (blank _ mem) (by decide)

theorem holdsLead_closed {blanks : Text} (blank : ∀ c ∈ blanks, isWhiteSpace c = true) (begins : Bool)
    (body later : Text) :
    holdsLead begins (body ++ (blanks ++ '}' :: later)) = (holdsLead begins body || holdsLead false later) := by
  rw [← List.append_assoc, holdsLead_stop (by decide), holdsLead_append_dotless (dotless_of_blank blank)]

theorem holdsLead_reclosed {blanks others : Text} (blank : ∀ c ∈ blanks, isWhiteSpace c = true)
    (otherBlank : ∀ c ∈ others, isWhiteSpace c = true) (begins : Bool) (body later : Text) :
    holdsLead begins (body ++ (others ++ '}' :: (blanks ++ '}' :: later))) =
      holdsLead begins (body ++ (blanks ++ '}' :: later)) := by
  have inner : holdsLead false (blanks ++ '}' :: later) = holdsLead false later :=
    holdsLead_closed blank false [] later
  rw [holdsLead_closed otherBlank, inner, holdsLead_closed blank]

theorem brace_not_mem_of_blank {blanks : Text} (blank : ∀ c ∈ blanks, isWhiteSpace c = true) :
    '{' ∉ blanks :=
  fun mem => absurd (blank _ mem) (by decide)

/-- **A brace that is put in behind a block takes no header away and adds none.** Only white space stands
between the end of the block and the brace that closed it. What is put in stands in the piece that goes on
behind the block through the next brace. -/
theorem headers_reclosed {blanks others : Text} (blank : ∀ c ∈ blanks, isWhiteSpace c = true)
    (otherBlank : ∀ c ∈ others, isWhiteSpace c = true) (last : Option Char) (body later : Text) :
    headers last (body ++ (others ++ '}' :: (blanks ++ '}' :: later))) =
      headers last (body ++ (blanks ++ '}' :: later)) := by
  induction body using braces_induction generalizing last with
  | cut piece rest _ ih =>
    rw [List.append_assoc, List.cons_append, headers_append_brace, ih, List.append_assoc, List.cons_append,
      ← headers_append_brace]
  | free body brace =>
    have clear : ∀ {rest : Text}, '{' ∉ rest →
        '{' ∉ body ++ (others ++ '}' :: (blanks ++ '}' :: rest)) ∧
          '{' ∉ body ++ (blanks ++ '}' :: rest) := by
      intro rest outside
      simp [brace, outside, brace_not_mem_of_blank blank, brace_not_mem_of_blank otherBlank]
    by_cases behind : '{' ∈ later
    · obtain ⟨piece, rest, rfl, braceless⟩ := List.eq_append_cons_of_mem behind
      have first : body ++ (others ++ '}' :: (blanks ++ '}' :: (piece ++ '{' :: rest))) =
          body ++ (others ++ '}' :: (blanks ++ '}' :: piece)) ++ '{' :: rest := by
        simp only [List.append_assoc, List.cons_append]
      have second : body ++ (blanks ++ '}' :: (piece ++ '{' :: rest)) =
          body ++ (blanks ++ '}' :: piece) ++ '{' :: rest := by
        simp only [List.append_assoc, List.cons_append]
      rw [first, second, headers_piece (clear braceless).1, headers_piece (clear braceless).2,
        holdsLead_reclosed blank otherBlank]
    · rw [headers_of_braceless (clear behind).1, headers_of_braceless (clear behind).2]

end ScopedHandles
