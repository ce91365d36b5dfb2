/-
**Renaming moves references.**

A renaming exchanges every reference to the old symbol, and nothing else (`Exchanged`). A reference is a
whole word between boundaries. The boundaries stay, and a scan stands in the same state behind either
word. So each reference to the old symbol becomes one to the new symbol, references to other symbols
neither appear nor vanish, and a symbol that was fresh can be renamed back.

* `exchanged_rename` — what a renaming does, reference by reference.
* `Exchanged.tally_add` — the references to a symbol before and behind a renaming.
* `rename_moves_references` — the same for whole texts.
* `rename_restores` — a renaming to a fresh symbol is undone by the renaming back.
-/

import ScopedHandles.Proofs.HeaderName

namespace ScopedHandles

/-! ### Every reference is exchanged -/

/-- `result` is `text` with `new` for every reference to `old`, of which there are `count`. -/
inductive Exchanged (old new : Text) :
    (scanner : Scanner) → (last : Option Char) → (text result : Text) → (count : Nat) → Prop where
  | done {scanner : Scanner} {last : Option Char} : Exchanged old new scanner last [] [] 0
  | keep {scanner : Scanner} {last : Option Char} {c : Char} {text result : Text} {count : Nat} :
      isReference old scanner last (c :: text) = false →
      Exchanged old new (scanner.next c) (some c) text result count →
      Exchanged old new scanner last (c :: text) (c :: result) count
  | swap {scanner : Scanner} {last : Option Char} {text result : Text} {count : Nat} :
      isReference old scanner last (old ++ text) = true →
      Exchanged old new (scanner.run old) old.getLast? text result count →
      Exchanged old new scanner last (old ++ text) (new ++ result) (count + 1)

section Replacements

variable {old text later : Text} {scanner : Scanner} {last : Option Char}

theorem replacementsFrom_skip (scanner : Scanner) (last : Option Char) (skip : Text) :
    replacementsFrom old scanner last skip.length (skip ++ later) =
      replacementsFrom old (scanner.run skip) (skip.getLast?.or last) 0 later := by
  induction skip generalizing scanner last with
  | nil => simp
  | cons c rest ih =>
    rw [List.length_cons, List.cons_append, replacementsFrom, ih, Scanner.run_cons, getLast?_cons_or]

theorem replacementsFrom_cons {c : Char} (other : isReference old scanner last (c :: text) = false) :
    replacementsFrom old scanner last 0 (c :: text) =
      replacementsFrom old (scanner.next c) (some c) 0 text := by
  rw [replacementsFrom, if_neg (by simp [other])]

theorem replacementsFrom_reference (found : isReference old scanner last (old ++ later) = true) :
    replacementsFrom old scanner last 0 (old ++ later) =
      replacementsFrom old (scanner.run old) (old.getLast?.or last) 0 later + 1 := by
  obtain ⟨c, word, _, rfl, _⟩ := isReference_iff.mp found
  rw [← replacementsFrom_skip]
  rw [List.cons_append] at found ⊢
  rw [replacementsFrom, if_pos found]
  rfl

end Replacements

theorem exchanged_renameFrom {old : Text} (oldWord : Word old) (new : Text) (scanner : Scanner)
    (last : Option Char) (text : Text) :
    Exchanged old new scanner last text (renameFrom old new scanner last 0 text)
      (replacementsFrom old scanner last 0 text) := by
  cases text with
  | nil => exact .done
  | cons c rest =>
    cases found : isReference old scanner last (c :: rest) with
    | false =>
      rw [renameFrom_cons found, replacementsFrom_cons found]
      exact .keep found (exchanged_renameFrom oldWord new _ _ rest)
    | true =>
      obtain ⟨later, split, _⟩ := eq_append_of_isReference found
      have shorter : later.length < rest.length + 1 := length_lt_of_isReference found split
      rw [split] at found ⊢
      rw [renameFrom_reference found, replacementsFrom_reference found, oldWord.getLast?_or]
      exact .swap found (exchanged_renameFrom oldWord new _ _ later)
termination_by text.length

/-- **What a renaming does**, reference by reference. -/
theorem exchanged_rename {old : Text} (oldWord : Word old) (new text : Text) :
    Exchanged old new .start none text (rename text old new) (replacements text old) :=
  exchanged_renameFrom oldWord new .start none text

/-! ### Where references stand -/

section Places

variable {symbol : Text} {scanner : Scanner} {last : Option Char}

theorem isReference_congr_last {other : Option Char} (same : mayPrecede other = mayPrecede last)
    (text : Text) : isReference symbol scanner other text = isReference symbol scanner last text := by
  cases text with
  | nil => rfl
  | cons c rest => simp only [isReference, same]

theorem renameFrom_congr_last {old new : Text} {other : Option Char}
    (same : mayPrecede other = mayPrecede last) (text : Text) :
    renameFrom old new scanner other 0 text = renameFrom old new scanner last 0 text := by
  cases text with
  | nil => rfl
  | cons c rest => rw [renameFrom, renameFrom, isReference_congr_last same]

/-- No word goes on with what may follow a reference. -/
theorem not_isWordChar_head? {text : Text} (follows : mayFollow text.head? = true) :
    ∀ c ∈ text.head?, isWordChar c = false := by
  intro c first
  rw [Option.mem_def.mp first] at follows
  exact not_isWordChar_of_mayFollow follows

theorem not_isReference_of_inside (inside : mayPrecede last = false) (text : Text) :
    isReference symbol scanner last text = false := by
  by_contra found
  obtain ⟨_, _, _, before, _⟩ := eq_append_of_isReference (Bool.not_eq_false _ ▸ found)
  rw [inside] at before
  exact Bool.noConfusion before

/-- **A whole word refers to itself and to no other symbol.** -/
theorem isReference_word_iff {word later : Text} (chars : ∀ c ∈ symbol, isWordChar c = true)
    (isWord : Word word) (outside : ∀ c ∈ word.head?, scanner.regionOf c ≠ .literal)
    (before : mayPrecede last = true) (behind : mayFollow later.head? = true) :
    isReference symbol scanner last (word ++ later) = true ↔ symbol = word := by
  constructor
  · intro found
    obtain ⟨_, _, rest, _, split, _, _, follows⟩ := isReference_iff.mp found
    exact (run_unique split isWord.chars (not_isWordChar_head? behind) chars
      (not_isWordChar_head? follows)).1.symm
  · rintro rfl
    obtain ⟨c, rest, rfl⟩ := List.exists_cons_of_ne_nil isWord.nonempty
    exact isReference_iff.mpr ⟨c, rest, later, rfl, rfl, outside c rfl, before, behind⟩

/-- The region of a word's first character is the same for all words. -/
theorem Scanner.regionOf_word {c d : Char} (first : isWordChar c = true)
    (second : isWordChar d = true) : scanner.regionOf c = scanner.regionOf d := by
  have apart : ∀ {e : Char}, isWordChar e = true → e ≠ '/' ∧ e ≠ '*' ∧ e ≠ '"' ∧ e ≠ '\'' :=
    fun word => ⟨ne_of_class word (by decide), ne_of_class word (by decide),
      ne_of_class word (by decide), ne_of_class word (by decide)⟩
  obtain ⟨mode, depth⟩ := scanner
  cases mode <;> simp [Scanner.regionOf, apart first, apart second]

end Places

namespace Renamed

variable {old new symbol text result : Text} {allowed : Text → Prop} {scanner : Scanner}
  {last : Option Char} {c : Char}

/-- A reference at a character that stays is one behind a renaming too. -/
theorem isReference_cons (oldWord : Word old) (chars : ∀ c ∈ symbol, isWordChar c = true)
    (renamed : Renamed old new allowed (some c) text result)
    (found : isReference symbol scanner last (c :: text) = true) :
    isReference symbol scanner last (c :: result) = true := by
  obtain ⟨d, word, later, rfl, split, outside, before, behind⟩ := isReference_iff.mp found
  obtain ⟨rfl, rfl⟩ := List.cons.inj split
  have dotted : ∀ e ∈ c :: word, isDottedChar e = true := fun e mem =>
    isDottedChar_of_isWordChar (chars e mem)
  have stop := not_isWordChar_head? behind
  obtain ⟨first, second, rfl, inWord, inLater⟩ := renamed.split oldWord (.inr stop)
  obtain rfl : first = word := inWord.eq_of_inside
    (not_mayPrecede_of_isDottedChar (dotted c List.mem_cons_self)) fun e mem =>
      dotted e (List.mem_cons_of_mem _ mem)
  refine isReference_iff.mpr ⟨c, first, second, rfl, rfl, outside, before, ?_⟩
  rwa [inLater.head?_eq oldWord stop]

theorem isReference_cons_eq (oldWord : Word old) (newWord : Word new)
    (chars : ∀ c ∈ symbol, isWordChar c = true)
    (renamed : Renamed old new allowed (some c) text result) :
    isReference symbol scanner last (c :: result) = isReference symbol scanner last (c :: text) :=
  Bool.eq_iff_iff.mpr ⟨(renamed.symm oldWord newWord).isReference_cons newWord chars,
    renamed.isReference_cons oldWord chars⟩

end Renamed

/-! ### The number of references -/

/-- The number of references to `symbol`. -/
def tally (symbol : Text) : (scanner : Scanner) → (last : Option Char) → Text → Nat
  | _, _, [] => 0
  | scanner, last, c :: rest =>
    tally symbol (scanner.next c) (some c) rest
      + if isReference symbol scanner last (c :: rest) then 1 else 0

theorem length_referencesFrom (symbol : Text) (scanner : Scanner) (last : Option Char) (place : Nat)
    (text : Text) :
    (referencesFrom symbol scanner last place text).length = tally symbol scanner last text := by
  induction text generalizing scanner last place with
  | nil => rfl
  | cons c rest ih =>
    rw [referencesFrom, tally, ← ih _ _ (place + 1)]
    split_ifs <;> rfl

theorem length_references (text symbol : Text) :
    (references text symbol).length = tally symbol .start none text :=
  length_referencesFrom symbol .start none 0 text

section Tally

variable {symbol word later : Text} {scanner : Scanner} {last : Option Char}

theorem tally_congr_last {other : Option Char} (same : mayPrecede other = mayPrecede last)
    (text : Text) : tally symbol scanner other text = tally symbol scanner last text := by
  cases text with
  | nil => rfl
  | cons c rest => rw [tally, tally, isReference_congr_last same]

/-- No reference begins inside of a word. -/
theorem tally_inside (inside : mayPrecede last = false) (chars : ∀ c ∈ word, isWordChar c = true) :
    tally symbol scanner last (word ++ later) =
      tally symbol (scanner.run word) (word.getLast?.or last) later := by
  induction word generalizing scanner last with
  | nil => simp
  | cons c rest ih =>
    have next : mayPrecede (some c) = false :=
      not_mayPrecede_of_isDottedChar (isDottedChar_of_isWordChar (chars c List.mem_cons_self))
    rw [List.cons_append, tally, not_isReference_of_inside inside, if_neg Bool.false_ne_true,
      Nat.add_zero, ih next fun d mem => chars d (List.mem_cons_of_mem _ mem), Scanner.run_cons,
      getLast?_cons_or]

/-- At a word at most one reference begins. -/
theorem tally_word (isWord : Word word) :
    tally symbol scanner last (word ++ later) =
      tally symbol (scanner.run word) word.getLast? later
        + if isReference symbol scanner last (word ++ later) then 1 else 0 := by
  obtain ⟨c, rest, rfl⟩ := List.exists_cons_of_ne_nil isWord.nonempty
  have next : mayPrecede (some c) = false := not_mayPrecede_of_isDottedChar
    (isDottedChar_of_isWordChar (isWord.chars c List.mem_cons_self))
  rw [List.cons_append, tally, tally_inside next fun d mem =>
    isWord.chars d (List.mem_cons_of_mem _ mem), Scanner.run_cons, ← isWord.getLast?_or last,
    getLast?_cons_or]

end Tally

namespace Exchanged

variable {old new symbol text result : Text} {scanner : Scanner} {last : Option Char} {count : Nat}

theorem renamed (exchanged : Exchanged old new scanner last text result count) :
    Renamed old new (fun _ => True) last text result := by
  induction exchanged with
  | done => exact .done
  | keep _ _ ih => exact .keep ih
  | swap found _ ih =>
    obtain ⟨later, split, _, before, behind⟩ := eq_append_of_isReference found
    obtain rfl := List.append_cancel_left split
    exact .swap before behind trivial ih

/-- What holds where a reference is exchanged: a reference may stand there, outside of literals, and a
scan reads both words alike. -/
structure Swap (old new : Text) (scanner : Scanner) (last : Option Char) (text result : Text) :
    Prop where
  precedes : mayPrecede last = true
  follows : mayFollow text.head? = true
  follows_result : mayFollow result.head? = true
  outside : ∀ {word : Text}, Word word → ∀ c ∈ word.head?, scanner.regionOf c ≠ .literal
  run_eq : scanner.run new = scanner.run old
  edge_eq : mayPrecede new.getLast? = mayPrecede old.getLast?
  behind : (scanner.run old).Behind old.getLast?

theorem to_swap (oldWord : Word old) (newWord : Word new) (behind : scanner.Behind last)
    (found : isReference old scanner last (old ++ text) = true)
    (exchanged : Exchanged old new (scanner.run old) old.getLast? text result count) :
    Swap old new scanner last text result := by
  obtain ⟨c, word, later, same, split, outside, before, follows⟩ := isReference_iff.mp found
  obtain rfl := List.append_cancel_left split
  have steady := behind.steady_of_mayPrecede before
  have past := Scanner.run_word steady oldWord.nonempty oldWord.chars
  have first : isWordChar c = true := oldWord.chars c (same ▸ List.mem_cons_self)
  refine ⟨before, follows, ?_, ?_, ?_, ?_, ?_⟩
  · rwa [exchanged.renamed.head?_eq oldWord (not_isWordChar_head? follows)]
  · intro other isWord d head
    rwa [Scanner.regionOf_word (isWord.chars d (List.mem_of_mem_head? head)) first]
  · rw [past, Scanner.run_word steady newWord.nonempty newWord.chars]
  · rw [oldWord.not_mayPrecede_getLast?, newWord.not_mayPrecede_getLast?]
  · rw [past]
    exact (Scanner.steady_pastWord steady).behind _

theorem tally_old (oldWord : Word old)
    (exchanged : Exchanged old new scanner last text result count) :
    tally old scanner last text = count := by
  induction exchanged with
  | done => rfl
  | keep other _ ih => rw [tally, ih, other, if_neg Bool.false_ne_true, Nat.add_zero]
  | swap found _ ih => rw [tally_word oldWord, ih, if_pos found]

/-- **The references to a symbol before and behind a renaming.** Those to the old symbol become
references to the new one, all others stay. -/
theorem tally_add (oldWord : Word old) (newWord : Word new)
    (chars : ∀ c ∈ symbol, isWordChar c = true)
    (exchanged : Exchanged old new scanner last text result count) (behind : scanner.Behind last) :
    (tally symbol scanner last result + if symbol = old then count else 0) =
      tally symbol scanner last text + if symbol = new then count else 0 := by
  induction exchanged with
  | done => simp [tally]
  | @keep scanner last c text result count _ exchanged ih =>
    have later := ih (behind.next c)
    rw [tally, tally, exchanged.renamed.isReference_cons_eq oldWord newWord chars]
    omega
  | @swap scanner last text result count found exchanged ih =>
    have swap := exchanged.to_swap oldWord newWord behind found
    have later := ih swap.behind
    rw [tally_word oldWord, tally_word newWord, swap.run_eq, tally_congr_last swap.edge_eq]
    simp only [isReference_word_iff chars oldWord (swap.outside oldWord) swap.precedes swap.follows,
      isReference_word_iff chars newWord (swap.outside newWord) swap.precedes swap.follows_result]
    split_ifs at later ⊢ <;> omega

/-- **A renaming to a fresh symbol is undone by the renaming back.** -/
theorem renameFrom_back (oldWord : Word old) (newWord : Word new)
    (exchanged : Exchanged old new scanner last text result count) (behind : scanner.Behind last)
    (fresh : tally new scanner last text = 0) : renameFrom new old scanner last 0 result = text := by
  induction exchanged with
  | done => rfl
  | @keep scanner last c text result count _ exchanged ih =>
    obtain ⟨later, here⟩ := Nat.add_eq_zero_iff.mp fresh
    have other : isReference new scanner last (c :: result) = false := by
      rw [exchanged.renamed.isReference_cons_eq oldWord newWord newWord.chars]
      simpa using here
    rw [renameFrom_cons other, ih (behind.next c) later]
  | @swap scanner last text result count found exchanged ih =>
    have swap := exchanged.to_swap oldWord newWord behind found
    have back : isReference new scanner last (new ++ result) = true :=
      (isReference_word_iff newWord.chars newWord (swap.outside newWord) swap.precedes
        swap.follows_result).mpr rfl
    have later : tally new (scanner.run old) old.getLast? text = 0 := by
      rw [tally_word oldWord] at fresh
      exact (Nat.add_eq_zero_iff.mp fresh).1
    rw [renameFrom_reference back, swap.run_eq, newWord.getLast?_or,
      renameFrom_congr_last swap.edge_eq, ih swap.behind later]

end Exchanged

/-! ### Whole texts -/

/-- **Renaming moves references and touches nothing else.** No reference to the old symbol is left, as
many replacements are made as there were references to it, all of them are references to the new symbol
behind the renaming, and those to any third symbol are as many as before. -/
theorem rename_moves_references {old new : Text} (oldWord : Word old) (newWord : Word new)
    (distinct : old ≠ new) (text : Text) :
    references (rename text old new) old = [] ∧
      replacements text old = (references text old).length ∧
      (references (rename text old new) new).length =
        (references text old).length + (references text new).length ∧
      ∀ symbol : Text, (∀ c ∈ symbol, isWordChar c = true) → symbol ≠ old → symbol ≠ new →
        (references (rename text old new) symbol).length = (references text symbol).length := by
  have exchanged := exchanged_rename oldWord new text
  have count := exchanged.tally_old oldWord
  have moved : ∀ {symbol : Text}, (∀ c ∈ symbol, isWordChar c = true) → _ := fun chars =>
    exchanged.tally_add oldWord newWord chars Scanner.behind_start
  refine ⟨?_, ?_, ?_, ?_⟩
  · have gone := moved oldWord.chars
    rw [if_pos rfl, if_neg distinct] at gone
    rw [← List.length_eq_zero_iff, length_references]
    omega
  · rw [length_references, count]
  · have came := moved newWord.chars
    rw [if_neg distinct.symm, if_pos rfl] at came
    rw [length_references, length_references, length_references]
    omega
  · intro symbol chars notOld notNew
    have stayed := moved chars
    rw [if_neg notOld, if_neg notNew] at stayed
    rw [length_references, length_references]
    exact stayed

/-- Uses of a symbol in code and in a comment, the symbol in a literal, and names that contain it. -/
def mixedUses : Text :=
  "ps.f(\"ps\", ps2, gv); // ps\n aps=ps;".toList

theorem mixedUses_moved :
    Word "ps".toList ∧ Word "gv".toList ∧
      references (rename mixedUses "ps".toList "gv".toList) "ps".toList = [] ∧
      replacements mixedUses "ps".toList = 3 ∧
      (references (rename mixedUses "ps".toList "gv".toList) "gv".toList).length = 4 ∧
      (references (rename mixedUses "ps".toList "gv".toList) "ps2".toList).length = 1 := by
  have oldWord : Word "ps".toList := ⟨by decide, List.all_eq_true.mp (by decide +kernel)⟩
  have newWord : Word "gv".toList := ⟨by decide, List.all_eq_true.mp (by decide +kernel)⟩
  obtain ⟨gone, count, came, stayed⟩ :=
    rename_moves_references oldWord newWord (by decide) mixedUses
  have third := stayed "ps2".toList (List.all_eq_true.mp (by decide +kernel)) (by decide) (by decide)
  have before : (references mixedUses "ps".toList).length = 3 ∧
      (references mixedUses "gv".toList).length = 1 ∧
      (references mixedUses "ps2".toList).length = 1 := by
    decide +kernel
  exact ⟨oldWord, newWord, gone, count.trans before.1, by rw [came, before.1, before.2.1],
    third.trans before.2.2⟩

/-- **A renaming to a fresh symbol is undone by the renaming back.** -/
theorem rename_restores {old new text : Text} (oldWord : Word old) (newWord : Word new)
    (fresh : references text new = []) : rename (rename text old new) new old = text := by
  refine (exchanged_rename oldWord new text).renameFrom_back oldWord newWord Scanner.behind_start ?_
  rw [← length_references, fresh, List.length_nil]

theorem mixedUses_restored :
    references mixedUses "h".toList = [] ∧
      rename mixedUses "ps".toList "h".toList = "h.f(\"ps\", ps2, gv); // h\n aps=h;".toList ∧
      rename (rename mixedUses "ps".toList "h".toList) "h".toList "ps".toList = mixedUses := by
  have oldWord : Word "ps".toList := ⟨by decide, List.all_eq_true.mp (by decide +kernel)⟩
  have newWord : Word "h".toList := ⟨by decide, List.all_eq_true.mp (by decide +kernel)⟩
  have fresh : references mixedUses "h".toList = [] := by decide +kernel
  exact ⟨fresh, by decide +kernel, rename_restores oldWord newWord fresh⟩

end ScopedHandles
