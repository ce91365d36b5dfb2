/-
**The numbers of a stem.**

A stem carries a number in a text where it and a run of digits are a whole identifier. A counter that is
seeded by a text starts behind the largest number that its stem carries there, and counts up by one. So
no name that it issues is an identifier of that text, however the digits there are written.

* `Counter.mem_numbers_iff` — the search finds the numbers that a stem carries.
* `Counter.exists_seeded` — a seeded counter stands behind the largest of them.
* `Counter.allocate_eq_some` — one name.
* `Counter.not_mem_identifiers` — a number behind the largest makes a new identifier.
-/

import Mathlib.Order.Bounds.Defs
import ScopedHandles.Names
import ScopedHandles.Proofs.Identifier
import ScopedHandles.Proofs.Search

namespace ScopedHandles.Counter

/-! ### Digits -/

/-- The value of a run of digits is the number that it writes. -/
theorem value_eq (digits : Text) : value digits = Nat.ofDigitChars 10 digits 0 := by
  rw [value, Nat.ofDigitChars_eq_foldl]
  congr 1
  funext sum c
  rw [Nat.mul_comm]

@[simp] theorem value_toDigits (n : Nat) : value (Nat.toDigits 10 n) = n := by
  rw [value_eq, Nat.ofDigitChars_ten_toDigits]

theorem isDigit_of_mem_toDigits {n : Nat} : ∀ c ∈ Nat.toDigits 10 n, c.isDigit = true := fun _ mem =>
  Nat.isDigit_of_mem_toDigits (by decide) (by decide) mem

/-- A name is made of identifier characters, if the stem is. -/
theorem isIdentChar_of_mem_name {stem digits : Text} (chars : ∀ c ∈ stem, isIdentChar c = true)
    (all : ∀ c ∈ digits, c.isDigit = true) : ∀ c ∈ stem ++ digits, isIdentChar c = true := by
  intro c mem
  rcases List.mem_append.mp mem with inStem | inDigits
  · exact chars c inStem
  · exact isIdentChar_of_isDigit (all c inDigits)

/-- A stem makes different names of different numbers. -/
theorem append_toDigits_inj {stem : Text} {m n : Nat} :
    stem ++ Nat.toDigits 10 m = stem ++ Nat.toDigits 10 n ↔ m = n := by
  constructor
  · intro same
    have digits := congrArg value (List.append_cancel_left same)
    rwa [value_toDigits, value_toDigits] at digits
  · rintro rfl
    rfl

/-! ### The numbers in a text -/

/-- `stem` carries the number `n` in a text: it and digits that write `n` are an identifier there. Numbers
beyond the limit do not count. -/
def Carries (stem text : Text) (n : Nat) : Prop :=
  n ≤ limit ∧ ∃ digits, digits ≠ [] ∧ (∀ c ∈ digits, c.isDigit = true) ∧ value digits = n ∧
    stem ++ digits ∈ identifiers text

theorem numbered_eq_hit_iff {stem text : Text} {last : Option Char} {n length : Nat} :
    numbered stem last text = .hit n length ↔
      n ≤ limit ∧ length = stem.length ∧ (∀ c ∈ last, isIdentChar c = false) ∧
        ∃ digits rest, text = stem ++ (digits ++ rest) ∧ digits ≠ [] ∧
          (∀ c ∈ digits, c.isDigit = true) ∧ value digits = n ∧
          ∀ c ∈ rest.head?, isIdentChar c = false := by
  constructor
  · intro hit
    unfold numbered at hit
    split at hit
    · cases hit
    · next rest after =>
      simp only at hit
      split_ifs at hit with refused
      obtain ⟨rfl, rfl⟩ := Probe.hit.inj hit
      simp only [Bool.or_eq_true, decide_eq_true_eq, not_or, Bool.not_eq_true, Option.any_eq_false,
        List.isEmpty_eq_false_iff, Nat.not_lt] at refused
      obtain ⟨⟨⟨alone, some⟩, ends⟩, bound⟩ := refused
      refine ⟨bound, rfl, alone, _, rest.dropWhile Char.isDigit, ?_, some,
        fun c mem => List.mem_takeWhile_imp mem, rfl, ends⟩
      rw [List.takeWhile_append_dropWhile]
      exact after?_eq_some_iff.mp after
  · rintro ⟨bound, rfl, alone, digits, rest, rfl, some, all, rfl, ends⟩
    have stop : ∀ c ∈ rest.head?, c.isDigit = false := by
      intro c first
      by_contra digit
      have ident := isIdentChar_of_isDigit (Bool.not_eq_false _ ▸ digit)
      rw [ends c first] at ident
      exact Bool.noConfusion ident
    unfold numbered
    rw [after?_eq_some_iff.mpr rfl]
    simp only [takeWhile_run all stop, dropWhile_run all stop]
    rw [if_neg]
    simp only [Bool.or_eq_true, decide_eq_true_eq, not_or, Bool.not_eq_true, Option.any_eq_false,
      List.isEmpty_eq_false_iff, Nat.not_lt]
    exact ⟨⟨⟨alone, some⟩, ends⟩, bound⟩

/-- Whatever is recognised is the stem. -/
theorem numbered_cases (stem text : Text) (last : Option Char) :
    numbered stem last text = .miss ∨
      stem <+: text ∧ (numbered stem last text).length = stem.length := by
  unfold numbered
  split
  · exact .inl rfl
  · next rest after =>
    refine .inr ⟨⟨rest, (after?_eq_some_iff.mp after).symm⟩, ?_⟩
    simp only
    split_ifs
    · rfl
    · rfl

/-- Before an identifier the stem is recognised only where it ends before it. Otherwise it would go on
through the character before the identifier. -/
theorem length_numbered_le {stem piece behind : Text} {last : Option Char}
    (chars : ∀ c ∈ stem, isIdentChar c = true) (some : piece ≠ [])
    (apart : ∀ c ∈ piece.getLast?, isIdentChar c = false) :
    (numbered stem last (piece ++ behind)).length ≤ piece.length := by
  rcases numbered_cases stem (piece ++ behind) last with miss | ⟨begins, length⟩
  · rw [miss]
    exact Nat.zero_le _
  · rw [length]
    by_contra longer
    have inside : piece <+: stem :=
      List.prefix_of_prefix_length_le (List.prefix_append piece behind) begins (by omega)
    have ident := chars _ (inside.subset (List.getLast_mem some))
    rw [apart _ (List.getLast?_eq_some_getLast some)] at ident
    exact Bool.noConfusion ident

/-- **The search finds the numbers that a stem carries.** -/
theorem mem_numbers_iff {stem text : Text} (chars : ∀ c ∈ stem, isIdentChar c = true) {n : Nat} :
    n ∈ numbers stem text ↔ Carries stem text n := by
  constructor
  · intro mem
    obtain ⟨found, inHits, rfl⟩ := List.mem_map.mp mem
    obtain ⟨before, behind, length, rfl, _, _, hit⟩ := exists_of_mem_allHits inHits
    obtain ⟨bound, _, alone, digits, rest, rfl, some, all, same, ends⟩ := numbered_eq_hit_iff.mp hit
    rw [Option.or_none] at alone
    refine ⟨bound, digits, some, all, same, mem_identifiers_iff.mpr ⟨before, rest, ?_, ?_,
      isIdentChar_of_mem_name chars all, alone, ends⟩⟩
    · rw [List.append_assoc]
    · exact List.append_ne_nil_of_right_ne_nil _ some
  · rintro ⟨bound, digits, some, all, rfl, mem⟩
    obtain ⟨before, behind, rfl, isName⟩ := mem_identifiers_iff.mp mem
    have hit : numbered stem (before.getLast?.or none) (stem ++ digits ++ behind) =
        .hit (value digits) stem.length := by
      refine numbered_eq_hit_iff.mpr ⟨bound, rfl, ?_, digits, behind, List.append_assoc _ _ _, some,
        all, rfl, isName.last⟩
      rw [Option.or_none]
      exact isName.first
    refine List.mem_map.mpr ⟨⟨0 + before.length, value digits⟩, mem_allHits hit ?_ (Nat.zero_le _) ?_,
      rfl⟩
    · simp [some]
    · rintro early piece rfl nonempty
      refine length_numbered_le chars nonempty fun c last => isName.first c ?_
      rwa [List.getLast?_append_of_ne_nil _ nonempty]

/-! ### The largest number -/

/-- `highest` is the largest number that a stem carries in a text, or zero if it carries none. -/
def Highest (stem text : Text) (highest : Nat) : Prop :=
  IsGreatest {n | n = 0 ∨ Carries stem text n} highest

/-- **A seeded counter stands behind the largest number that its stem carries.** -/
theorem exists_seeded {stem : Text} (chars : ∀ c ∈ stem, isIdentChar c = true) (text : Text) :
    ∃ highest, Highest stem text highest ∧
      seeded stem text = { stem, next := after highest } := by
  unfold seeded
  cases max : (numbers stem text).max? with
  | none =>
    have empty := List.max?_eq_none_iff.mp max
    refine ⟨0, ⟨.inl rfl, ?_⟩, rfl⟩
    rintro n (rfl | carried)
    · exact le_rfl
    · rw [← mem_numbers_iff chars, empty] at carried
      cases carried
  | some highest =>
    obtain ⟨mem, most⟩ := List.max?_eq_some_iff.mp max
    refine ⟨highest, ⟨.inr ((mem_numbers_iff chars).mp mem), ?_⟩, rfl⟩
    rintro n (rfl | carried)
    · exact Nat.zero_le _
    · exact most n ((mem_numbers_iff chars).mpr carried)

/-- **A number behind the largest makes a new identifier.** -/
theorem not_mem_identifiers {stem text : Text} {highest n : Nat} (most : Highest stem text highest)
    (behind : highest < n) (bound : n ≤ limit) : stem ++ Nat.toDigits 10 n ∉ identifiers text := by
  intro mem
  have carried : Carries stem text n :=
    ⟨bound, _, Nat.toDigits_ne_nil, isDigit_of_mem_toDigits, value_toDigits n, mem⟩
  have le := most.2 (.inr carried)
  omega

/-- **One name.** A counter issues the number behind the last one, and stands behind that. -/
theorem allocate_eq_some {stem name : Text} {last : Nat} {later : Counter}
    (allocated : allocate { stem, next := after last } = some (name, later)) :
    last < limit ∧ name = stem ++ Nat.toDigits 10 (last + 1) ∧
      later = { stem, next := after (last + 1) } := by
  obtain ⟨n, next, pair⟩ := Option.map_eq_some_iff.mp allocated
  obtain ⟨rfl, rfl⟩ := Prod.mk.inj pair
  simp only [after] at next
  split_ifs at next with left
  obtain rfl := Option.some.inj next
  exact ⟨left, rfl, rfl⟩

/-- The names that a counter issues behind `highest`, in their order. -/
def issued (stem : Text) (highest count : Nat) : List Text :=
  (List.range count).map fun k => stem ++ Nat.toDigits 10 (highest + (k + 1))

theorem issued_succ (stem : Text) (highest count : Nat) :
    issued stem highest (count + 1) =
      issued stem highest count ++ [stem ++ Nat.toDigits 10 (highest + (count + 1))] := by
  rw [issued, List.range_succ, List.map_append]
  rfl

@[simp] theorem length_issued (stem : Text) (highest count : Nat) :
    (issued stem highest count).length = count := by
  rw [issued, List.length_map, List.length_range]

end ScopedHandles.Counter
