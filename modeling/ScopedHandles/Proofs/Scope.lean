/-
**Where a block ends.**

`openBlocks` counts the inner blocks that are open behind a text. A scope is a text that leaves none
open, before a brace that is code outside of comments (`scopeFrom_eq_ok_iff`). Hence a scope can be
found piece by piece: what stands before the brace may be cut anywhere, and each piece may be replaced
by one with the same effect.
-/

import ScopedHandles.Scope
import ScopedHandles.Proofs.Scanner

namespace ScopedHandles

/-- The number of open inner blocks behind the character `c`, unless it closes the outer block. -/
def blockStep (scanner : Scanner) (c : Char) (depth : Nat) : Option Nat :=
  if scanner.regionOf c = .code ∧ c = '}' then if depth = 0 then none else some (depth - 1)
  else if scanner.regionOf c = .code ∧ c = '{' then some (depth + 1)
  else some depth

/-- The number of inner blocks that are open behind a text, `depth` being open before it, unless the
outer block is closed in it. -/
def openBlocks (scanner : Scanner) (depth : Nat) : Text → Option Nat
  | [] => some depth
  | c :: rest => (blockStep scanner c depth).bind fun inner => openBlocks (scanner.next c) inner rest

/-! ### One character -/

theorem blockStep_of_ne {scanner : Scanner} {c : Char} {depth : Nat} (closing : c ≠ '}')
    (opening : c ≠ '{') : blockStep scanner c depth = some depth := by
  rw [blockStep, if_neg fun both => closing both.2, if_neg fun both => opening both.2]

theorem blockStep_eq_none_iff {scanner : Scanner} {c : Char} {depth : Nat} :
    blockStep scanner c depth = none ↔ (scanner.regionOf c = .code ∧ c = '}') ∧ depth = 0 := by
  unfold blockStep
  split_ifs with closing outer opening
  · exact ⟨fun _ => ⟨closing, outer⟩, fun _ => rfl⟩
  · simp [outer]
  · simp [closing]
  · simp [closing]

/-- A character either ends the scope or stands before the scope of the rest. -/
theorem scopeFrom_cons (scanner : Scanner) (depth : Nat) (c : Char) (rest : Text) :
    scopeFrom scanner depth (c :: rest) =
      match blockStep scanner c depth with
      | none => if (scanner.next c).depth = 0 then .ok [] else .error .unbalancedComment
      | some inner => (scopeFrom (scanner.next c) inner rest).map (c :: ·) := by
  rw [scopeFrom.eq_def, blockStep]
  simp only
  by_cases closing : scanner.regionOf c = .code ∧ c = '}'
  · rw [if_pos closing, if_pos closing]
    cases depth <;> rfl
  · rw [if_neg closing, if_neg closing]
    by_cases opening : scanner.regionOf c = .code ∧ c = '{'
    · rw [if_pos opening, if_pos opening]
    · rw [if_neg opening, if_neg opening]

/-! ### Pieces of a text -/

theorem openBlocks_append (scanner : Scanner) (depth : Nat) (text later : Text) :
    openBlocks scanner depth (text ++ later) =
      (openBlocks scanner depth text).bind fun inner => openBlocks (scanner.run text) inner later := by
  induction text generalizing scanner depth with
  | nil => rfl
  | cons c rest ih =>
    simp only [List.cons_append, openBlocks, Scanner.run_cons, Option.bind_assoc]
    congr 1
    funext inner
    exact ih (scanner.next c) inner

/-- A text without braces opens and closes no block. -/
theorem openBlocks_of_no_brace {scanner : Scanner} {depth : Nat} {text : Text}
    (closing : '}' ∉ text) (opening : '{' ∉ text) : openBlocks scanner depth text = some depth := by
  induction text generalizing scanner with
  | nil => rfl
  | cons c rest ih =>
    rw [List.mem_cons, not_or] at closing opening
    rw [openBlocks, blockStep_of_ne (Ne.symm closing.1) (Ne.symm opening.1)]
    exact ih closing.2 opening.2

theorem openBlocks_of_class {p : Char → Bool} (closing : p '}' = false) (opening : p '{' = false)
    {scanner : Scanner} {depth : Nat} {text : Text} (all : ∀ c ∈ text, p c = true) :
    openBlocks scanner depth text = some depth :=
  openBlocks_of_no_brace (fun mem => ne_of_class (all _ mem) closing rfl)
    (fun mem => ne_of_class (all _ mem) opening rfl)

/-! ### Scopes -/

theorem map_eq_ok {ε α β : Type} {f : α → β} {result : Except ε α} {value : β}
    (mapped : result.map f = .ok value) : ∃ before, result = .ok before ∧ f before = value := by
  cases result with
  | error error => simp [Except.map] at mapped
  | ok before => exact ⟨before, rfl, by simpa [Except.map] using mapped⟩

/-- **A scope goes on behind a piece that leaves its block open.** -/
theorem scopeFrom_append {scanner : Scanner} {depth inner : Nat} {text : Text}
    (left : openBlocks scanner depth text = some inner) (later : Text) :
    scopeFrom scanner depth (text ++ later) =
      (scopeFrom (scanner.run text) inner later).map (text ++ ·) := by
  induction text generalizing scanner depth with
  | nil =>
    obtain rfl := Option.some.inj left
    simp only [List.nil_append, Scanner.run_nil]
    cases scopeFrom scanner depth later <;> rfl
  | cons c rest ih =>
    obtain ⟨middle, step, left⟩ := Option.bind_eq_some_iff.mp left
    rw [List.cons_append, scopeFrom_cons, step, Scanner.run_cons]
    simp only
    rw [ih left]
    cases scopeFrom ((scanner.next c).run rest) inner later <;> rfl

/-- The brace that closes the block is next. -/
structure Closes (scanner : Scanner) : Prop where
  code : scanner.regionOf '}' = .code
  balanced : scanner.depth = 0

theorem Scanner.depth_next_brace (scanner : Scanner) : (scanner.next '}').depth = scanner.depth :=
  depth_next (by decide) (by decide)

theorem scopeFrom_of_closes {scanner : Scanner} (closes : Closes scanner) (later : Text) :
    scopeFrom scanner 0 ('}' :: later) = .ok [] := by
  have ends : blockStep scanner '}' 0 = none := blockStep_eq_none_iff.mpr ⟨⟨closes.code, rfl⟩, rfl⟩
  rw [scopeFrom_cons, ends]
  simp only
  rw [if_pos (scanner.depth_next_brace.trans closes.balanced)]

theorem eq_of_scopeFrom_eq_ok {scanner : Scanner} {depth : Nat} {text scope : Text}
    (found : scopeFrom scanner depth text = .ok scope) :
    ∃ later, text = scope ++ '}' :: later ∧ openBlocks scanner depth scope = some 0 ∧
      Closes (scanner.run scope) := by
  induction text generalizing scanner depth scope with
  | nil => simp [scopeFrom] at found
  | cons c rest ih =>
    rw [scopeFrom_cons] at found
    cases step : blockStep scanner c depth with
    | none =>
      obtain ⟨⟨code, rfl⟩, rfl⟩ := blockStep_eq_none_iff.mp step
      simp only [step, scanner.depth_next_brace] at found
      split_ifs at found with balanced
      obtain rfl := Except.ok.inj found
      exact ⟨rest, rfl, rfl, code, balanced⟩
    | some inner =>
      simp only [step] at found
      obtain ⟨behind, foundBehind, rfl⟩ := map_eq_ok found
      obtain ⟨later, split, blocks, closes⟩ := ih foundBehind
      refine ⟨later, by rw [split, List.cons_append], ?_, closes⟩
      rw [openBlocks, step, Option.bind_some, blocks]

/-- **A scope is what stands before the brace that closes its block.** -/
theorem scopeFrom_eq_ok_iff {scanner : Scanner} {depth : Nat} {text scope : Text} :
    scopeFrom scanner depth text = .ok scope ↔
      ∃ later, text = scope ++ '}' :: later ∧ openBlocks scanner depth scope = some 0 ∧
        Closes (scanner.run scope) := by
  constructor
  · exact eq_of_scopeFrom_eq_ok
  · rintro ⟨later, rfl, blocks, closes⟩
    rw [scopeFrom_append blocks, scopeFrom_of_closes closes]
    simp [Except.map]

end ScopedHandles
