/-
**The end of a scope, told by counting braces.**

The balance of a text before a place is the number of characters of code there that open a block, less the
number of those that close one. A scope ends at the first brace that makes the balance negative, unless
comments do not balance there. So what becomes of the search for it is told by balances and by the depth of
comments alone.

* `BracketCount.eq_some_iff` — a counter that stops below zero, told by balances.
* `scope_eq_ok_iff` — a scope and its end.
* `scope_told_by_balance` — all results of the search for the end of a scope.
-/

import ScopedHandles.Proofs.Scope

namespace ScopedHandles

/-! ### Characters and their regions -/

namespace Scanner

/-- The characters of a text with their regions. -/
def labels (scanner : Scanner) (text : Text) : List (Char × Region) :=
  text.zip (scanner.regions text)

@[simp] theorem labels_nil (scanner : Scanner) : scanner.labels [] = [] := rfl

@[simp] theorem labels_cons (scanner : Scanner) (c : Char) (rest : Text) :
    scanner.labels (c :: rest) = (c, scanner.regionOf c) :: (scanner.next c).labels rest := rfl

theorem labels_append (scanner : Scanner) (text later : Text) :
    scanner.labels (text ++ later) = scanner.labels text ++ (scanner.run text).labels later := by
  induction text generalizing scanner with
  | nil => rfl
  | cons c rest ih => rw [List.cons_append, labels_cons, labels_cons, ih, run_cons, List.cons_append]

@[simp] theorem length_labels (scanner : Scanner) (text : Text) :
    (scanner.labels text).length = text.length := by
  induction text generalizing scanner with
  | nil => rfl
  | cons c rest ih => rw [labels_cons, List.length_cons, ih, List.length_cons]

/-- The first characters are read without those behind them. -/
theorem take_labels (scanner : Scanner) (text : Text) (place : Nat) :
    (scanner.labels text).take place = scanner.labels (text.take place) := by
  induction text generalizing scanner place with
  | nil => simp
  | cons c rest ih =>
    cases place with
    | zero => rfl
    | succ place => rw [labels_cons, List.take_succ_cons, List.take_succ_cons, labels_cons, ih]

/-- **The region of a character is told by the text before it.** -/
theorem getElem?_labels (scanner : Scanner) (text : Text) (place : Nat) :
    (scanner.labels text)[place]? =
      text[place]?.map fun c => (c, (scanner.run (text.take place)).regionOf c) := by
  induction text generalizing scanner place with
  | nil => rfl
  | cons c rest ih =>
    cases place with
    | zero => rfl
    | succ place => exact ih (scanner.next c) place

theorem getElem?_labels_eq_some_iff {scanner : Scanner} {text : Text} {place : Nat} {c : Char}
    {region : Region} :
    (scanner.labels text)[place]? = some (c, region) ↔
      ∃ piece later, text = piece ++ c :: later ∧ piece.length = place ∧
        (scanner.run piece).regionOf c = region := by
  rw [getElem?_labels, Option.map_eq_some_iff]
  constructor
  · rintro ⟨_, here, same⟩
    obtain ⟨rfl, rfl⟩ := Prod.mk.inj same
    obtain ⟨inside, rfl⟩ := List.getElem?_eq_some_iff.mp here
    refine ⟨text.take place, text.drop (place + 1), ?_, List.length_take_of_le inside.le, rfl⟩
    rw [← List.drop_eq_getElem_cons inside, List.take_append_drop]
  · rintro ⟨piece, later, rfl, rfl, rfl⟩
    exact ⟨c, by simp, by rw [List.take_left]⟩

end Scanner

/-! ### Balances -/

section Balance

variable (opens closes : Char → Bool)

/-- The number of characters of code that open something, less the number of those that close it. -/
def excess (labels : List (Char × Region)) : Int :=
  labels.countP (fun label => label.2 == .code && opens label.1)
    - labels.countP fun label => label.2 == .code && closes label.1

@[simp] theorem excess_nil : excess opens closes [] = 0 := rfl

theorem excess_cons (label : Char × Region) (labels : List (Char × Region)) :
    excess opens closes (label :: labels) = excess opens closes [label] + excess opens closes labels := by
  simp only [excess, List.countP_cons, List.countP_nil, Int.natCast_add]
  omega

theorem excess_singleton (c : Char) (region : Region) :
    excess opens closes [(c, region)] =
      if region = .code then (if opens c then 1 else 0) - (if closes c then 1 else 0) else 0 := by
  simp only [excess, List.countP_singleton]
  split_ifs <;> simp_all

/-- A counter that goes through a text, `step` being what it does at a character. -/
structure BracketCount (step : Scanner → Char → Nat → Option Nat) (halts : Char × Region → Int → Prop)
    (count : Scanner → Nat → Text → Option Nat) : Prop where
  nil : ∀ scanner depth, count scanner depth [] = some depth
  cons : ∀ scanner depth c rest, count scanner depth (c :: rest) =
    (step scanner c depth).bind fun inner => count (scanner.next c) inner rest
  step_eq_some_iff : ∀ scanner c depth inner, step scanner c depth = some inner ↔
    ¬ halts (c, scanner.regionOf c) depth ∧
      (inner : Int) = depth + excess opens closes [(c, scanner.regionOf c)]

variable {opens closes}

/-- **A counter goes on as long as the balance is not negative** and it is not halted. Behind each character
it goes on with the depth that the character leaves. -/
theorem BracketCount.eq_some_iff {step : Scanner → Char → Nat → Option Nat}
    {halts : Char × Region → Int → Prop} {count : Scanner → Nat → Text → Option Nat}
    (counts : BracketCount opens closes step halts count) {scanner : Scanner} {depth inner : Nat}
    {text : Text} :
    count scanner depth text = some inner ↔
      (∀ place label, (scanner.labels text)[place]? = some label →
        ¬ halts label (depth + excess opens closes ((scanner.labels text).take place))) ∧
      (∀ place ≤ text.length, 0 ≤ depth + excess opens closes ((scanner.labels text).take place)) ∧
      (inner : Int) = depth + excess opens closes (scanner.labels text) := by
  induction text generalizing scanner depth with
  | nil =>
    rw [counts.nil, Option.some.injEq, eq_comm, ← Int.natCast_inj]
    simp
  | cons c rest ih =>
    have behind : ∀ (middle : Nat), (middle : Int) = depth + excess opens closes [(c, scanner.regionOf c)] →
        ∀ labels, (depth : Int) + excess opens closes ((c, scanner.regionOf c) :: labels) =
          middle + excess opens closes labels := by
      intro middle same labels
      rw [excess_cons, same, Int.add_assoc]
    simp only [counts.cons, Option.bind_eq_some_iff, counts.step_eq_some_iff, ih, Scanner.labels_cons]
    constructor
    · rintro ⟨middle, ⟨goesOn, same⟩, halted, above, ends⟩
      refine ⟨?_, ?_, by rw [ends, behind middle same]⟩
      · rintro (_ | place) label here
        · obtain rfl := Option.some.inj here
          simpa using goesOn
        · rw [List.take_succ_cons, behind middle same]
          exact halted place label here
      · rintro (_ | place) within
        · simp
        · rw [List.take_succ_cons, behind middle same]
          exact above place (Nat.le_of_succ_le_succ within)
    · rintro ⟨halted, above, ends⟩
      have first : 0 ≤ (depth : Int) + excess opens closes [(c, scanner.regionOf c)] :=
        above 1 (Nat.succ_le_succ (Nat.zero_le _))
      obtain ⟨middle, same⟩ := Int.eq_ofNat_of_zero_le first
      have same := same.symm
      refine ⟨middle, ⟨by simpa using halted 0 _ rfl, same⟩, fun place label here => ?_,
        fun place within => ?_, ?_⟩
      · rw [← behind middle same]
        exact halted (place + 1) label here
      · rw [← behind middle same]
        exact above (place + 1) (Nat.succ_le_succ within)
      · rw [ends, behind middle same]

variable (opens closes)

/-- The number of characters of code before a place that open something, less the number of those that
close it. -/
def balanceOf (text : Text) (place : Nat) : Int :=
  excess opens closes ((Scanner.start.labels text).take place)

theorem balanceOf_append {text : Text} {place : Nat} (within : place ≤ text.length) (later : Text) :
    balanceOf opens closes (text ++ later) place = balanceOf opens closes text place := by
  rw [balanceOf, balanceOf, Scanner.take_labels, Scanner.take_labels,
    List.take_append_of_le_length within]

variable {opens closes}

/-- The same for the beginning of a text, told by the balances of the text. -/
theorem BracketCount.eq_some_iff_of_append {step : Scanner → Char → Nat → Option Nat}
    {halts : Char × Region → Int → Prop} {count : Scanner → Nat → Text → Option Nat}
    (counts : BracketCount opens closes step halts count) {depth : Nat} {text : Text} (later : Text) :
    count .start 0 text = some depth ↔
      (∀ place < text.length, ∀ label, (Scanner.start.labels (text ++ later))[place]? = some label →
        ¬ halts label (balanceOf opens closes (text ++ later) place)) ∧
      (∀ place ≤ text.length, 0 ≤ balanceOf opens closes (text ++ later) place) ∧
      (depth : Int) = balanceOf opens closes (text ++ later) text.length := by
  have label_eq : ∀ place < text.length,
      (Scanner.start.labels (text ++ later))[place]? = (Scanner.start.labels text)[place]? := by
    intro place within
    rw [Scanner.labels_append, List.getElem?_append_left (by rwa [Scanner.length_labels])]
  have balance_eq : ∀ place ≤ text.length, balanceOf opens closes (text ++ later) place =
      ((0 : Nat) : Int) + excess opens closes ((Scanner.start.labels text).take place) := by
    intro place within
    rw [balanceOf_append opens closes within, balanceOf, Int.natCast_zero, Int.zero_add]
  have whole : (Scanner.start.labels text).take text.length = Scanner.start.labels text := by
    rw [← Scanner.length_labels .start text, List.take_length]
  rw [counts.eq_some_iff, balance_eq _ le_rfl, whole]
  refine and_congr ⟨fun halted place within label here => ?_, fun halted place label here => ?_⟩
    (and_congr_left fun _ => forall₂_congr fun place within => by rw [balance_eq place within])
  · rw [balance_eq place within.le]
    exact halted place label (by rwa [← label_eq place within])
  · have within : place < text.length := by
      rw [← Scanner.length_labels .start text]
      exact (List.getElem?_eq_some_iff.mp here).1
    rw [← balance_eq place within.le]
    exact halted place within label (by rwa [label_eq place within])

end Balance

/-! ### Braces -/

/-- The number of blocks that code opens before a place, less the number of blocks that it closes. -/
def balance : Text → Nat → Int :=
  balanceOf (· == '{') (· == '}')

theorem bracketCount_openBlocks :
    BracketCount (· == '{') (· == '}') blockStep (fun _ _ => False) openBlocks where
  nil _ _ := rfl
  cons _ _ _ _ := rfl
  step_eq_some_iff scanner c depth inner := by
    rw [excess_singleton, blockStep]
    grind

/-- **Blocks stay open as long as the balance is not negative.** -/
theorem openBlocks_eq_some_iff {inner : Text} {depth : Nat} (later : Text) :
    openBlocks .start 0 inner = some depth ↔
      (∀ place ≤ inner.length, 0 ≤ balance (inner ++ later) place) ∧
        (depth : Int) = balance (inner ++ later) inner.length := by
  rw [bracketCount_openBlocks.eq_some_iff_of_append later]
  simp [balance]

/-! ### The end of a scope -/

/-- The block in which a text begins is closed at a place: code has closed as many blocks as it has opened
there, never more before, and no comment is left open. -/
structure EndsAt (text : Text) (place : Nat) : Prop where
  brace : (Scanner.start.labels text)[place]? = some ('}', .code)
  level : balance text place = 0
  above : ∀ earlier ≤ place, 0 ≤ balance text earlier
  uncommented : (Scanner.start.run (text.take (place + 1))).depth = 0

/-- **A scope ends where its block is closed.** -/
theorem scope_eq_ok_iff {text inner : Text} :
    scope text = .ok inner ↔ ∃ place, EndsAt text place ∧ inner = text.take place := by
  rw [scope, scopeFrom_eq_ok_iff]
  constructor
  · rintro ⟨later, rfl, blocks, code, balanced⟩
    obtain ⟨above, level⟩ := (openBlocks_eq_some_iff ('}' :: later)).mp blocks
    refine ⟨inner.length, ⟨?_, level.symm, above, ?_⟩, by simp⟩
    · exact Scanner.getElem?_labels_eq_some_iff.mpr ⟨inner, later, rfl, rfl, code⟩
    · rw [List.take_length_add_append, List.take_succ_cons, List.take_zero, Scanner.run_append]
      exact (Scanner.depth_next_brace _).trans balanced
  · rintro ⟨_, ⟨brace, level, above, uncommented⟩, rfl⟩
    obtain ⟨inner, later, rfl, rfl, code⟩ := Scanner.getElem?_labels_eq_some_iff.mp brace
    rw [List.take_left]
    refine ⟨later, rfl, (openBlocks_eq_some_iff _).mpr ⟨above, level.symm⟩, code, ?_⟩
    rw [List.take_length_add_append, List.take_succ_cons, List.take_zero, Scanner.run_append] at uncommented
    exact (Scanner.depth_next_brace _).symm.trans uncommented

/-! ### Blocks that are not closed -/

section Unclosed

variable {scanner : Scanner} {depth inner : Nat} {text : Text}

theorem scopeFrom_of_open (left : openBlocks scanner depth text = some inner) :
    scopeFrom scanner depth text = .error (scanner.run text).unclosed := by
  have whole := scopeFrom_append left []
  rwa [List.append_nil, scopeFrom] at whole

/-- The search for the end of a block that is closed finds it, or comments that do not balance. -/
theorem scopeFrom_of_closed (closed : openBlocks scanner depth text = none) :
    (∃ inner, scopeFrom scanner depth text = .ok inner) ∨
      scopeFrom scanner depth text = .error .unbalancedComment := by
  induction text generalizing scanner depth with
  | nil => simp [openBlocks] at closed
  | cons c rest ih =>
    rw [scopeFrom_cons]
    cases step : blockStep scanner c depth with
    | none =>
      simp only
      split_ifs
      · exact .inl ⟨[], rfl⟩
      · exact .inr rfl
    | some middle =>
      rw [openBlocks, step, Option.bind_some] at closed
      simp only
      rcases ih closed with ⟨inner, found⟩ | refused
      · exact .inl ⟨c :: inner, by rw [found]; rfl⟩
      · exact .inr (by rw [refused]; rfl)

end Unclosed

/-- A block is not closed exactly if the balance is never negative. -/
theorem exists_openBlocks_iff {text : Text} :
    (∃ depth, openBlocks .start 0 text = some depth) ↔
      ∀ place ≤ text.length, 0 ≤ balance text place := by
  simp only [openBlocks_eq_some_iff [], List.append_nil, exists_and_left]
  refine and_iff_left_of_imp fun above => ?_
  obtain ⟨depth, same⟩ := Int.eq_ofNat_of_zero_le (above text.length le_rfl)
  exact ⟨depth, same.symm⟩

/-- **A block never closes** where the balance is never negative and comments balance. -/
theorem scope_eq_unterminated_iff {text : Text} :
    scope text = .error .unterminatedScope ↔
      (∀ place ≤ text.length, 0 ≤ balance text place) ∧ (Scanner.start.run text).depth = 0 := by
  rw [← exists_openBlocks_iff, scope]
  cases blocks : openBlocks .start 0 text with
  | some inner =>
    rw [scopeFrom_of_open blocks, Scanner.unclosed]
    split_ifs with balanced <;> simp [balanced]
  | none =>
    rcases scopeFrom_of_closed blocks with ⟨inner, found⟩ | refused
    · simp [found]
    · simp [refused]

/-- The search for the end of a block has no other results. -/
theorem scope_cases (text : Text) :
    (∃ inner, scope text = .ok inner) ∨ scope text = .error .unterminatedScope ∨
      scope text = .error .unbalancedComment := by
  rw [scope]
  cases blocks : openBlocks .start 0 text with
  | some inner =>
    rw [scopeFrom_of_open blocks, Scanner.unclosed]
    split_ifs <;> simp
  | none => exact (scopeFrom_of_closed blocks).imp_right .inr

/-! ### All results -/

/-- The end of a scope is told by the text up to it. -/
theorem EndsAt.before {text : Text} {place : Nat} (ends : EndsAt text place) (later : Text) :
    EndsAt (text.take (place + 1) ++ later) place := by
  obtain ⟨brace, level, above, uncommented⟩ := ends
  obtain ⟨inner, rest, rfl, rfl, code⟩ := Scanner.getElem?_labels_eq_some_iff.mp brace
  have cut : (inner ++ '}' :: rest).take (inner.length + 1) = inner ++ ['}'] := by
    rw [List.take_length_add_append, List.take_succ_cons, List.take_zero]
  have same : ∀ {earlier}, earlier ≤ inner.length → ∀ rest, balance (inner ++ rest) earlier =
      balance inner earlier := fun within rest => balanceOf_append _ _ within rest
  rw [cut, List.append_assoc, List.singleton_append]
  refine ⟨Scanner.getElem?_labels_eq_some_iff.mpr ⟨inner, later, rfl, rfl, code⟩, ?_, ?_, ?_⟩
  · rw [same le_rfl] at level ⊢
    exact level
  · intro earlier within
    rw [same within, ← same within ('}' :: rest)]
    exact above earlier within
  · rw [cut] at uncommented
    rw [List.take_length_add_append, List.take_succ_cons, List.take_zero]
    exact uncommented

/-- **The search for the end of a scope.** It finds the brace at which the balance would become negative, if
comments balance there; the block never closes if the balance is never negative and comments balance at
the end of the text; in all other cases comments do not balance. What is found is told by the text up to
the brace. -/
theorem scope_told_by_balance (text : Text) :
    (∀ offset, (scope text).map byteSize = .ok offset ↔
      ∃ place, EndsAt text place ∧ byteOffset text place = offset) ∧
    (∀ inner, scope text = .ok inner ↔ ∃ place, EndsAt text place ∧ inner = text.take place) ∧
    (scope text = .error .unterminatedScope ↔
      (∀ place ≤ text.length, 0 ≤ balance text place) ∧ (Scanner.start.run text).depth = 0) ∧
    (scope text = .error .unbalancedComment ↔
      (∀ place, ¬ EndsAt text place) ∧
        ¬ ((∀ place ≤ text.length, 0 ≤ balance text place) ∧ (Scanner.start.run text).depth = 0)) ∧
    ∀ place, EndsAt text place → ∀ later,
      scope (text.take (place + 1) ++ later) = .ok (text.take place) := by
  refine ⟨fun offset => ⟨fun found => ?_, ?_⟩, fun inner => scope_eq_ok_iff, scope_eq_unterminated_iff,
    ⟨fun refused => ⟨fun place ends => ?_, ?_⟩, ?_⟩, fun place ends later => ?_⟩
  · obtain ⟨inner, inScope, rfl⟩ := map_eq_ok found
    obtain ⟨place, ends, rfl⟩ := scope_eq_ok_iff.mp inScope
    exact ⟨place, ends, rfl⟩
  · rintro ⟨place, ends, rfl⟩
    rw [scope_eq_ok_iff.mpr ⟨place, ends, rfl⟩]
    rfl
  · simp [scope_eq_ok_iff.mpr ⟨place, ends, rfl⟩] at refused
  · rw [← scope_eq_unterminated_iff, refused]
    simp
  · rintro ⟨unended, closed⟩
    rw [← scope_eq_unterminated_iff] at closed
    rcases scope_cases text with ⟨inner, found⟩ | unterminated | refused
    · obtain ⟨place, ends, _⟩ := scope_eq_ok_iff.mp found
      exact absurd ends (unended place)
    · exact absurd unterminated closed
    · exact refused
  · refine scope_eq_ok_iff.mpr ⟨place, ends.before later, ?_⟩
    have within : place ≤ (text.take (place + 1)).length := by
      obtain ⟨inside, _⟩ := List.getElem?_eq_some_iff.mp ends.brace
      rw [Scanner.length_labels] at inside
      rw [List.length_take]
      omega
    rw [List.take_append_of_le_length within, List.take_take]
    simp

/-- A block with a block inside of it, and with braces in a comment and in a literal. -/
def decoyBraces : Text :=
  " if (x) \x7b a('\x7d'); \x7d /* \x7d */ b(); \x7d c();".toList

theorem decoyBraces_end :
    EndsAt decoyBraces 33 ∧ (scope decoyBraces).map byteSize = .ok 33 ∧
      scope (decoyBraces.take 34 ++ " /*".toList) = .ok (decoyBraces.take 33) := by
  have ends : EndsAt decoyBraces 33 := ⟨by decide, by decide, by decide, by decide⟩
  obtain ⟨found, _, _, _, upToBrace⟩ := scope_told_by_balance decoyBraces
  exact ⟨ends, (found 33).mpr ⟨33, ends, by decide⟩, upToBrace 33 ends _⟩

end ScopedHandles
