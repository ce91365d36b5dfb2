/-
**The two searches agree.**

`firstHit` finds the head of what `allHits` lists, and behind it `allHits` goes on as if it had been
started there. Both see a text only from the place at which they start, and the character before it.

* `exists_of_mem_allHits` — a result is what the probe sees at its place.
* `mem_allHits` — what the probe sees is a result, unless something before it covers its place.
* `firstHit_eq_head?` — the first result is the first of all results.
* `allHits_eq_cons` — the others are the results of the search behind it.
* `pairwise_allHits` — results do not overlap.
* `mem_allHits_or_passed` — what the probe sees is a result, or something before it covers its place.
* `mem_allHits_or_covered` — what the probe sees is a result, or a result covers it.
-/

import ScopedHandles.Text.Search
import ScopedHandles.Proofs.Text

namespace ScopedHandles

variable {α : Type} {probe : Option Char → Text → Probe α}

/-! ### Where a search starts -/

@[simp] theorem allHits_nil (skip place : Nat) (last : Option Char) :
    allHits probe skip place last [] = [] := by
  cases skip <;> rfl

@[simp] theorem firstHit_nil (skip : Nat) (last : Option Char) :
    firstHit probe skip last [] = none := by
  cases skip <;> rfl

/-- **A search that skips a piece is a search of the rest.** -/
theorem allHits_skip (place : Nat) (last : Option Char) (skip text : Text) :
    allHits probe skip.length place last (skip ++ text) =
      allHits probe 0 (place + skip.length) (skip.getLast?.or last) text := by
  induction skip generalizing place last with
  | nil => simp
  | cons c rest ih =>
    rw [List.length_cons, List.cons_append, allHits, ih, getLast?_cons_or]
    congr 1
    omega

/-- Behind a piece that was recognised, a search goes on as a search of the rest. -/
theorem allHits_behind {piece rest later : Text} {c : Char} (split : c :: rest = piece ++ later)
    (some : piece ≠ []) (place : Nat) :
    allHits probe (piece.length - 1) (place + 1) (.some c) rest =
      allHits probe 0 (place + piece.length) piece.getLast? later := by
  cases piece with
  | nil => exact absurd rfl some
  | cons d piece =>
    rw [List.cons_append] at split
    obtain ⟨rfl, rfl⟩ := List.cons.inj split
    rw [List.length_cons, Nat.add_sub_cancel, allHits_skip, ← getLast?_cons_or c piece none,
      Option.or_none]
    congr 1
    omega

/-- Results move with the place of the text. -/
theorem allHits_shift (skip place distance : Nat) (last : Option Char) (text : Text) :
    allHits probe skip (place + distance) last text =
      (allHits probe skip place last text).map (.shift distance) := by
  induction text generalizing skip place last with
  | nil => simp
  | cons c rest ih =>
    have next : place + distance + 1 = place + 1 + distance := by omega
    cases skip with
    | succ skip => rw [allHits, allHits, next, ih]
    | zero =>
      simp only [allHits, next]
      cases probe last (c :: rest) with
      | miss => exact ih 0 (place + 1) (some c)
      | pass length => exact ih (length - 1) (place + 1) (some c)
      | hit value length => exact congrArg (_ :: ·) (ih (length - 1) (place + 1) (some c))

/-! ### What a result is -/

/-- **A result is what the probe sees at its place.** -/
theorem exists_of_mem_allHits {skip place : Nat} {last : Option Char} {text : Text}
    {found : Occurrence α} (mem : found ∈ allHits probe skip place last text) :
    ∃ before behind length, text = before ++ behind ∧ found.place = place + before.length ∧
      skip ≤ before.length ∧ probe (before.getLast?.or last) behind = .hit found.value length := by
  induction text generalizing skip place last with
  | nil => simp at mem
  | cons c rest ih =>
    have later : ∀ {next : Nat}, skip ≤ next + 1 → found ∈ allHits probe next (place + 1) (some c) rest →
        ∃ before behind length, c :: rest = before ++ behind ∧ found.place = place + before.length ∧
          skip ≤ before.length ∧ probe (before.getLast?.or last) behind = .hit found.value length := by
      intro next enough mem
      obtain ⟨before, behind, length, rfl, here, skipped, seen⟩ := ih mem
      refine ⟨c :: before, behind, length, rfl, ?_, ?_, ?_⟩
      · rw [here, List.length_cons]
        omega
      · rw [List.length_cons]
        omega
      · rwa [getLast?_cons_or]
    cases skip with
    | succ skip => exact later le_rfl mem
    | zero =>
      simp only [allHits] at mem
      cases seen : probe last (c :: rest) with
      | miss => exact later (by omega) (by simpa [seen] using mem)
      | pass length => exact later (by omega) (by simpa [seen] using mem)
      | hit value length =>
        simp only [seen, List.mem_cons] at mem
        rcases mem with rfl | mem
        · exact ⟨[], c :: rest, length, rfl, rfl, le_rfl, seen⟩
        · exact later (by omega) mem

/-- How much of a text a probe recognises. -/
def Probe.length : Probe α → Nat
  | .miss => 0
  | .pass length => length
  | .hit _ length => length

/-- **What the probe sees is a result**, if nothing that is recognised before it reaches beyond its
place. -/
theorem mem_allHits {skip place length : Nat} {last : Option Char} {before behind : Text} {value : α}
    (seen : probe (before.getLast?.or last) behind = .hit value length) (some : behind ≠ [])
    (skipped : skip ≤ before.length)
    (clear : ∀ early piece, before = early ++ piece → piece ≠ [] →
      (probe (early.getLast?.or last) (piece ++ behind)).length ≤ piece.length) :
    { place := place + before.length, value } ∈ allHits probe skip place last (before ++ behind) := by
  induction before generalizing skip place last with
  | nil =>
    obtain rfl := Nat.le_zero.mp skipped
    obtain ⟨c, rest, rfl⟩ := List.exists_cons_of_ne_nil some
    rw [List.getLast?_nil, Option.none_or] at seen
    simp only [List.nil_append, allHits, seen]
    exact List.mem_cons_self
  | cons c before ih =>
    have later : ∀ {next : Nat}, next ≤ before.length →
        { place := place + (c :: before).length, value } ∈
          allHits probe next (place + 1) (.some c) (before ++ behind) := by
      intro next enough
      rw [List.length_cons, Nat.add_comm before.length, ← Nat.add_assoc]
      refine ih ?_ enough fun early piece split nonempty => ?_
      · rwa [getLast?_cons_or] at seen
      · rw [← getLast?_cons_or c early last]
        exact clear (c :: early) piece (congrArg (c :: ·) split) nonempty
    cases skip with
    | succ skip => exact later (by simpa using skipped)
    | zero =>
      have reach := clear [] (c :: before) rfl (by simp)
      rw [List.getLast?_nil, Option.none_or, List.length_cons] at reach
      simp only [List.cons_append, allHits] at reach ⊢
      cases sees : probe last (c :: (before ++ behind)) with
      | miss => exact later (Nat.zero_le _)
      | pass length =>
        rw [sees, Probe.length] at reach
        exact later (by omega)
      | hit other length =>
        rw [sees, Probe.length] at reach
        exact List.mem_cons_of_mem _ (later (by omega))

/-! ### The first result -/

theorem firstHit_eq_head? (skip : Nat) (last : Option Char) (text : Text) :
    firstHit probe skip last text = (allHits probe skip 0 last text).head? := by
  induction text generalizing skip last with
  | nil => simp
  | cons c rest ih =>
    have moved : ∀ skip, (firstHit probe skip (some c) rest).map (Occurrence.shift 1) =
        (allHits probe skip 1 (some c) rest).head? := by
      intro skip
      rw [ih, ← Nat.zero_add 1, allHits_shift, List.head?_map]
    cases skip with
    | succ skip => exact moved skip
    | zero =>
      simp only [firstHit, allHits]
      cases probe last (c :: rest) with
      | miss => exact moved 0
      | pass length => exact moved (length - 1)
      | hit value length => rfl

/-- A search whose results are not empty. -/
def Advances (probe : Option Char → Text → Probe α) (size : α → Nat) : Prop :=
  ∀ {last : Option Char} {text : Text} {value : α} {length : Nat},
    probe last text = .hit value length → length = size value ∧ 0 < length

/-- **Behind the first result a search goes on as if it started there.** Where the result stands behind the
first character, a search of the rest finds it. -/
theorem allHits_eq_cons {size : α → Nat} (advances : Advances probe size) {skip place : Nat}
    {last : Option Char} {text : Text} {found : Occurrence α} {others : List (Occurrence α)}
    (all : allHits probe skip place last text = found :: others) :
    ∃ distance, found.place = place + distance ∧ skip ≤ distance ∧
      others = allHits probe (distance + size found.value) place last text := by
  induction text generalizing skip place last with
  | nil => simp at all
  | cons c rest ih =>
    have later : ∀ {behind : Nat}, skip ≤ behind + 1 →
        allHits probe behind (place + 1) (some c) rest = found :: others →
        ∃ distance, found.place = place + distance ∧ skip ≤ distance ∧
          others = allHits probe (distance + size found.value) place last (c :: rest) := by
      intro behind enough all
      obtain ⟨distance, here, skipped, same⟩ := ih all
      refine ⟨distance + 1, by omega, by omega, ?_⟩
      rw [same, Nat.add_right_comm]
      rfl
    cases skip with
    | succ skip => exact later le_rfl all
    | zero =>
      simp only [allHits] at all
      cases seen : probe last (c :: rest) with
      | miss => exact later (by omega) (by simpa [seen] using all)
      | pass length => exact later (by omega) (by simpa [seen] using all)
      | hit value length =>
        simp only [seen, List.cons.injEq] at all
        obtain ⟨rfl, rfl⟩ := all
        obtain ⟨rfl, positive⟩ := advances seen
        refine ⟨0, rfl, le_rfl, ?_⟩
        obtain ⟨before, same⟩ := Nat.exists_eq_add_of_lt positive
        simp only [Nat.zero_add] at same ⊢
        rw [same, Nat.add_sub_cancel]
        rfl

/-- **Results do not overlap.** -/
theorem pairwise_allHits {size : α → Nat} (advances : Advances probe size) (skip place : Nat)
    (last : Option Char) (text : Text) :
    (allHits probe skip place last text).Pairwise fun found later =>
      found.place + size found.value ≤ later.place := by
  generalize all : allHits probe skip place last text = results
  induction results generalizing skip with
  | nil => exact .nil
  | cons found others ih =>
    obtain ⟨distance, here, _, same⟩ := allHits_eq_cons advances all
    refine .cons (fun later mem => ?_) (ih _ same.symm)
    rw [same] at mem
    obtain ⟨before, _, _, _, there, skipped, _⟩ := exists_of_mem_allHits mem
    omega

/-- A result ends before every result behind it. -/
theorem le_place_of_mem_allHits {size : α → Nat} (advances : Advances probe size) {skip place : Nat}
    {last : Option Char} {text : Text} {found later : Occurrence α}
    (mem : found ∈ allHits probe skip place last text)
    (member : later ∈ allHits probe skip place last text) (sooner : found.place < later.place) :
    found.place + size found.value ≤ later.place := by
  have order := List.pairwise_iff_getElem.mp (pairwise_allHits @advances skip place last text)
  obtain ⟨i, inside, rfl⟩ := List.mem_iff_getElem.mp mem
  obtain ⟨j, within, rfl⟩ := List.mem_iff_getElem.mp member
  rcases lt_trichotomy i j with before | rfl | behind
  · exact order i j inside within before
  · exact absurd sooner (lt_irrefl _)
  · have ends := order j i within inside behind
    omega

/-- **What the probe sees is a result, or its place is covered** by a result, or by something before it that
is passed over. What is passed over behind the first character is passed over in the whole text. -/
theorem mem_allHits_or_passed {size : α → Nat} (advances : Advances probe size) {skip length : Nat}
    (place : Nat) {last : Option Char} {before behind : Text} {value : α}
    (seen : probe (before.getLast?.or last) behind = .hit value length) (some : behind ≠ [])
    (skipped : skip ≤ before.length) :
    { place := place + before.length, value } ∈ allHits probe skip place last (before ++ behind) ∨
      (∃ found ∈ allHits probe skip place last (before ++ behind),
        found.place < place + before.length ∧
          place + before.length < found.place + size found.value) ∨
      ∃ early piece reach, before = early ++ piece ∧
        probe (early.getLast?.or last) (piece ++ behind) = .pass reach ∧ piece.length < reach := by
  induction before generalizing skip place last with
  | nil =>
    refine .inl (mem_allHits seen some skipped fun early piece split nonempty => ?_)
    exact absurd (List.append_eq_nil_iff.mp split.symm).2 nonempty
  | cons c before ih =>
    rw [getLast?_cons_or] at seen
    have next : place + (c :: before).length = place + 1 + before.length := by
      rw [List.length_cons]
      omega
    have passed : (∃ early piece reach, before = early ++ piece ∧
          probe (early.getLast?.or (.some c)) (piece ++ behind) = .pass reach ∧ piece.length < reach) →
        ∃ early piece reach, c :: before = early ++ piece ∧
          probe (early.getLast?.or last) (piece ++ behind) = .pass reach ∧ piece.length < reach := by
      rintro ⟨early, piece, reach, rfl, passes, covers⟩
      refine ⟨c :: early, piece, reach, rfl, ?_, covers⟩
      rwa [getLast?_cons_or]
    have later : ∀ {next : Nat}, next ≤ before.length → _ := fun enough =>
      ih (place + 1) seen enough
    rw [List.cons_append, next]
    cases skip with
    | succ skip => exact (later (by simpa using skipped)).imp_right (.imp_right passed)
    | zero =>
      simp only [allHits]
      cases sees : probe last (c :: (before ++ behind)) with
      | miss => exact (later (Nat.zero_le _)).imp_right (.imp_right passed)
      | pass reach =>
        by_cases within : reach - 1 ≤ before.length
        · exact (later within).imp_right (.imp_right passed)
        · refine .inr (.inr ⟨[], c :: before, reach, rfl, sees, ?_⟩)
          rw [List.length_cons]
          omega
      | hit other length =>
        by_cases within : length - 1 ≤ before.length
        · refine (later within).imp (List.mem_cons_of_mem _) (.imp ?_ passed)
          rintro ⟨found, mem, covers⟩
          exact ⟨found, List.mem_cons_of_mem _ mem, covers⟩
        · obtain ⟨rfl, _⟩ := advances sees
          exact .inr (.inl ⟨_, List.mem_cons_self, by simp only; omega, by simp only; omega⟩)

/-- **What the probe sees is a result, or a result covers its place**, if the probe passes nothing
over. -/
theorem mem_allHits_or_covered {size : α → Nat} (advances : Advances probe size)
    (passesNone : ∀ last text length, probe last text ≠ .pass length) {skip length : Nat}
    (place : Nat) {last : Option Char} {before behind : Text} {value : α}
    (seen : probe (before.getLast?.or last) behind = .hit value length) (some : behind ≠ [])
    (skipped : skip ≤ before.length) :
    { place := place + before.length, value } ∈ allHits probe skip place last (before ++ behind) ∨
      ∃ found ∈ allHits probe skip place last (before ++ behind),
        found.place < place + before.length ∧
          place + before.length < found.place + size found.value := by
  refine (mem_allHits_or_passed @advances place seen some skipped).imp_right (Or.resolve_right · ?_)
  rintro ⟨_, _, reach, _, passes, _⟩
  exact passesNone _ _ reach passes

theorem exists_of_firstHit {skip : Nat} {last : Option Char} {text : Text} {found : Occurrence α}
    (first : firstHit probe skip last text = some found) :
    ∃ last text length, probe last text = .hit found.value length := by
  rw [firstHit_eq_head?] at first
  obtain ⟨before, behind, length, _, _, _, seen⟩ :=
    exists_of_mem_allHits (List.mem_of_mem_head? first)
  exact ⟨_, behind, length, seen⟩

/-- **Before the first result the probe sees none**, if it passes nothing over. Every result stands at or
behind the first. -/
theorem ne_hit_of_firstHit {size : α → Nat} (advances : Advances probe size)
    (passesNone : ∀ last text length, probe last text ≠ .pass length) {skip length : Nat}
    {last : Option Char} {before behind : Text} {found : Occurrence α} {value : α}
    (first : firstHit probe skip last (before ++ behind) = some found)
    (skipped : skip ≤ before.length) (sooner : before.length < found.place) :
    probe (before.getLast?.or last) behind ≠ .hit value length := by
  intro seen
  rw [firstHit_eq_head?] at first
  obtain ⟨others, all⟩ := List.head?_eq_some_iff.mp first
  have some : behind ≠ [] := by
    rintro rfl
    obtain ⟨early, _, _, split, here, _⟩ := exists_of_mem_allHits (List.mem_of_mem_head? first)
    have size := congrArg List.length split
    simp only [List.length_append, List.length_nil] at size
    omega
  have order := pairwise_allHits @advances skip 0 last (before ++ behind)
  have later : ∀ other ∈ allHits probe skip 0 last (before ++ behind), found.place ≤ other.place := by
    rw [all] at order ⊢
    intro other mem
    rcases List.mem_cons.mp mem with rfl | mem
    · exact le_refl _
    · have behind := List.rel_of_pairwise_cons order mem
      omega
  rcases mem_allHits_or_covered @advances passesNone 0 seen some skipped with mem | ⟨other, mem, cover⟩
  · have := later _ mem
    simp only at this
    omega
  · have := later other mem
    omega

end ScopedHandles
