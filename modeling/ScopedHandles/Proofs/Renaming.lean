/-
**Renaming keeps the structure of a text.**

A renamed text has some of its words exchanged for another word (`Renamed`). Wherever a scan stands
before such a word, it stands behind both words in the same state. So the regions of all other
characters stay as they are, and with them the blocks that a text leaves open.

* `isReference_iff` — where a reference stands.
* `renamed_rename` — `rename` exchanges words, and nothing else.
* `Renamed.run_eq`, `Renamed.openBlocks_eq` — a scan ends alike on both texts.
* `Renamed.split` — a text that is cut between words is renamed piece by piece.
-/

import ScopedHandles.Proofs.Scope

namespace ScopedHandles

/-- A text that is a single word. -/
structure Word (text : Text) : Prop where
  nonempty : text ≠ []
  chars : ∀ c ∈ text, isWordChar c = true

/-- `result` is `text` with some of the whole words `old` exchanged for `new`, each before a text that is
`allowed`. The character `last` stands before the text. -/
inductive Renamed (old new : Text) (allowed : Text → Prop) :
    (last : Option Char) → (text result : Text) → Prop where
  | done {last : Option Char} : Renamed old new allowed last [] []
  | keep {last : Option Char} {c : Char} {text result : Text} :
      Renamed old new allowed (some c) text result →
      Renamed old new allowed last (c :: text) (c :: result)
  | swap {last : Option Char} {text result : Text} :
      mayPrecede last = true → mayFollow text.head? = true → allowed text →
      Renamed old new allowed old.getLast? text result →
      Renamed old new allowed last (old ++ text) (new ++ result)

/-! ### References -/

theorem referencesFrom_shift (symbol : Text) (scanner : Scanner) (last : Option Char)
    (place distance : Nat) (text : Text) :
    referencesFrom symbol scanner last (place + distance) text =
      (referencesFrom symbol scanner last place text).map (· + distance) := by
  induction text generalizing scanner last place with
  | nil => rfl
  | cons c rest ih =>
    have later := ih (scanner.next c) (some c) (place + 1)
    rw [Nat.add_right_comm] at later
    simp only [referencesFrom, later]
    split_ifs <;> rfl

/-- References stay references when a piece stands before the text. -/
theorem mem_referencesFrom_append {symbol : Text} {scanner : Scanner} {last : Option Char}
    {skip later : Text} {place : Nat}
    (mem : place ∈ referencesFrom symbol (scanner.run skip) (skip.getLast?.or last) 0 later) :
    place + skip.length ∈ referencesFrom symbol scanner last 0 (skip ++ later) := by
  induction skip generalizing scanner last with
  | nil => simpa using mem
  | cons c rest ih =>
    rw [getLast?_cons_or, Scanner.run_cons] at mem
    have moved : place + rest.length + 1 ∈
        referencesFrom symbol (scanner.next c) (some c) (0 + 1) (rest ++ later) := by
      rw [referencesFrom_shift]
      exact List.mem_map.mpr ⟨_, ih mem, rfl⟩
    rw [List.cons_append, referencesFrom, List.length_cons, ← Nat.add_assoc]
    split_ifs
    · exact List.mem_cons_of_mem _ moved
    · exact moved

/-- A reference begins with its symbol, and may stand where it does. -/
theorem eq_append_of_isReference {symbol : Text} {scanner : Scanner} {last : Option Char}
    {text : Text} (found : isReference symbol scanner last text = true) :
    ∃ later, text = symbol ++ later ∧ symbol ≠ [] ∧ mayPrecede last = true ∧
      mayFollow later.head? = true := by
  cases text with
  | nil => simp [isReference] at found
  | cons c rest =>
    simp only [isReference, Bool.and_eq_true, bne_iff_ne, List.isPrefixOf_iff_prefix] at found
    obtain ⟨⟨⟨⟨nonempty, later, split⟩, _⟩, before⟩, behind⟩ := found
    refine ⟨later, split.symm, nonempty, before, ?_⟩
    rwa [← split, List.drop_left] at behind

/-- **Where a reference stands.** -/
theorem isReference_iff {symbol : Text} {scanner : Scanner} {last : Option Char} {text : Text} :
    isReference symbol scanner last text = true ↔
      ∃ c word later, symbol = c :: word ∧ text = symbol ++ later ∧ scanner.regionOf c ≠ .literal ∧
        mayPrecede last = true ∧ mayFollow later.head? = true := by
  constructor
  · intro found
    obtain ⟨later, rfl, nonempty, before, behind⟩ := eq_append_of_isReference found
    obtain ⟨c, word, rfl⟩ := List.exists_cons_of_ne_nil nonempty
    simp only [List.cons_append, isReference, Bool.and_eq_true, bne_iff_ne] at found
    exact ⟨c, word, later, rfl, rfl, found.1.1.2, before, behind⟩
  · rintro ⟨c, word, later, rfl, rfl, outside, before, behind⟩
    have begins : (c :: word).isPrefixOf (c :: (word ++ later)) = true :=
      List.isPrefixOf_iff_prefix.mpr (List.prefix_append (c :: word) later)
    simp only [List.cons_append, isReference, Bool.and_eq_true, bne_iff_ne]
    refine ⟨⟨⟨⟨List.cons_ne_nil _ _, begins⟩, outside⟩, before⟩, ?_⟩
    rwa [← List.cons_append, List.drop_left]

/-- A reference stays one when a text goes on with what may follow it. -/
theorem isReference_append {symbol : Text} {scanner : Scanner} {last : Option Char}
    {text later : Text} (follows : mayFollow later.head? = true)
    (found : isReference symbol scanner last text = true) :
    isReference symbol scanner last (text ++ later) = true := by
  obtain ⟨c, word, rest, same, rfl, outside, before, behind⟩ := isReference_iff.mp found
  refine isReference_iff.mpr
    ⟨c, word, rest ++ later, same, List.append_assoc _ _ _, outside, before, ?_⟩
  cases rest with
  | nil => exact follows
  | cons d rest => exact behind

/-! ### Renaming exchanges words -/

theorem renameFrom_skip (old new : Text) (scanner : Scanner) (last : Option Char) (skip later : Text) :
    renameFrom old new scanner last skip.length (skip ++ later) =
      renameFrom old new (scanner.run skip) (skip.getLast?.or last) 0 later := by
  induction skip generalizing scanner last with
  | nil => simp
  | cons c rest ih =>
    rw [List.length_cons, List.cons_append, renameFrom, ih, Scanner.run_cons, getLast?_cons_or]

theorem renamed_renameFrom {old : Text} (new : Text) {allowed : Text → Prop} {scanner : Scanner}
    {last : Option Char} {text : Text}
    (all : ∀ place ∈ referencesFrom old scanner last 0 text, allowed (text.drop (place + old.length))) :
    Renamed old new allowed last text (renameFrom old new scanner last 0 text) := by
  cases text with
  | nil => exact .done
  | cons c rest =>
    rw [renameFrom]
    split_ifs with found
    · have here : allowed ((c :: rest).drop (0 + old.length)) := by
        refine all 0 ?_
        rw [referencesFrom, if_pos found]
        exact List.mem_cons_self
      obtain ⟨later, split, nonempty, before, behind⟩ := eq_append_of_isReference found
      rw [split] at here all
      rw [Nat.zero_add, List.drop_left] at here
      have others : ∀ place ∈ referencesFrom old (scanner.run old) (old.getLast?.or last) 0 later,
          allowed (later.drop (place + old.length)) := by
        intro place mem
        have moved := all _ (mem_referencesFrom_append mem)
        rwa [Nat.add_comm, List.drop_length_add_append] at moved
      have shorter : later.length < (c :: rest).length := by
        have positive := List.length_pos_iff.mpr nonempty
        rw [split, List.length_append]
        omega
      have same : renameFrom old new (scanner.next c) (some c) (old.length - 1) rest =
          renameFrom old new (scanner.run old) (old.getLast?.or last) 0 later := by
        rw [← renameFrom_skip, ← split]
        cases old with
        | nil => exact absurd rfl nonempty
        | cons first word => rfl
      have edge : old.getLast?.or last = old.getLast? := by
        cases old with
        | nil => exact absurd rfl nonempty
        | cons first word => simp [List.getLast?_cons]
      rw [same, split, edge]
      rw [edge] at others
      exact .swap before behind here (renamed_renameFrom new others)
    · refine .keep (renamed_renameFrom new fun place mem => ?_)
      have moved : place + 1 ∈ referencesFrom old scanner last 0 ([c] ++ rest) :=
        mem_referencesFrom_append mem
      have far := all _ moved
      rwa [Nat.add_right_comm, List.drop_succ_cons] at far
termination_by text.length

/-- **Renaming exchanges words, and nothing else.** -/
theorem renamed_rename (text old new : Text) :
    Renamed old new (fun _ => True) none text (rename text old new) :=
  renamed_renameFrom new fun _ _ => trivial

/-! ### The scan of a renamed text -/

theorem Scanner.Behind.steady_of_mayPrecede {last : Option Char} {scanner : Scanner}
    (behind : scanner.Behind last) (before : mayPrecede last = true) : scanner.Steady := by
  refine behind.steady ?_
  rintro rfl
  rw [not_mayPrecede_backslash] at before
  exact Bool.noConfusion before

variable {old new : Text} {allowed : Text → Prop} {last : Option Char} {text result : Text}
  {scanner : Scanner}

/-- **A scan ends alike on a text and on the renamed text.** -/
theorem Renamed.run_eq (oldWord : Word old) (newWord : Word new)
    (renamed : Renamed old new allowed last text result) (behind : Scanner.Behind last scanner) :
    scanner.run text = scanner.run result := by
  induction renamed generalizing scanner with
  | done => rfl
  | keep _ ih => exact ih (behind.next _)
  | swap before _ _ _ ih =>
    have steady := behind.steady_of_mayPrecede before
    rw [Scanner.run_append, Scanner.run_append, Scanner.run_word steady oldWord.nonempty oldWord.chars,
      Scanner.run_word steady newWord.nonempty newWord.chars]
    exact ih ((Scanner.steady_pastWord steady).behind _)

/-- **A text and the renamed text leave the same blocks open.** -/
theorem Renamed.openBlocks_eq (oldWord : Word old) (newWord : Word new)
    (renamed : Renamed old new allowed last text result) (behind : Scanner.Behind last scanner)
    (depth : Nat) :
    openBlocks scanner depth text = openBlocks scanner depth result := by
  induction renamed generalizing scanner depth with
  | done => rfl
  | keep _ ih =>
    simp only [openBlocks]
    congr 1
    funext inner
    exact ih (behind.next _) inner
  | swap before _ _ _ ih =>
    have steady := behind.steady_of_mayPrecede before
    have braces : ∀ {word : Text}, Word word → openBlocks scanner depth word = some depth :=
      fun word => openBlocks_of_class (by decide) (by decide) word.chars
    rw [openBlocks_append, openBlocks_append, braces oldWord, braces newWord,
      Scanner.run_word steady oldWord.nonempty oldWord.chars,
      Scanner.run_word steady newWord.nonempty newWord.chars]
    exact ih ((Scanner.steady_pastWord steady).behind _) depth

/-! ### Pieces of a renamed text -/

theorem Word.not_mayPrecede_getLast? {word : Text} (isWord : Word word) :
    mayPrecede word.getLast? = false := by
  rw [List.getLast?_eq_some_getLast isWord.nonempty]
  by_contra edge
  have apart := not_isWordChar_of_mayPrecede (Bool.not_eq_false _ ▸ edge)
  rw [isWord.chars _ (List.getLast_mem isWord.nonempty)] at apart
  exact Bool.noConfusion apart

theorem Word.getLast?_or {word : Text} (isWord : Word word) (last : Option Char) :
    word.getLast?.or last = word.getLast? := by
  rw [List.getLast?_eq_some_getLast isWord.nonempty, Option.some_or]

theorem Word.isWordChar_head {word later : Text} (isWord : Word word) :
    ∃ c ∈ (word ++ later).head?, isWordChar c = true := by
  cases word with
  | nil => exact absurd rfl isWord.nonempty
  | cons c rest => exact ⟨c, rfl, isWord.chars c List.mem_cons_self⟩

theorem not_mayPrecede_of_isDottedChar {c : Char} (dotted : isDottedChar c = true) :
    mayPrecede (some c) = false := by
  simp only [isDottedChar, Bool.or_eq_true, beq_iff_eq] at dotted
  rcases dotted with word | rfl
  · by_contra edge
    rw [not_isWordChar_of_mayPrecede (Bool.not_eq_false _ ▸ edge)] at word
    exact Bool.noConfusion word
  · decide

/-- No word goes on from one piece of a text to the next. -/
def Edge (text later : Text) : Prop :=
  (∀ c ∈ text.getLast?, isWordChar c = false) ∨ ∀ c ∈ later.head?, isWordChar c = false

theorem edge_of_left {text later : Text} (none : ∀ c ∈ text, isWordChar c = false) :
    Edge text later :=
  .inl fun c last => none c (List.mem_of_getLast? last)

theorem edge_of_right {text blanks later : Text} (some : blanks ≠ [])
    (none : ∀ c ∈ blanks, isWordChar c = false) : Edge text (blanks ++ later) := by
  refine .inr fun c first => none c ?_
  rw [List.head?_append_of_ne_nil _ some] at first
  exact List.mem_of_mem_head? first

namespace Renamed

/-- Of the character before a text it only counts whether a reference may stand behind it. -/
theorem congr_last {other : Option Char} (renamed : Renamed old new allowed last text result)
    (same : mayPrecede other = mayPrecede last) : Renamed old new allowed other text result := by
  cases renamed with
  | done => exact .done
  | keep later => exact .keep later
  | swap before behind stays later => exact .swap (same.trans before) behind stays later

theorem head?_eq (oldWord : Word old) (renamed : Renamed old new allowed last text result)
    (edge : ∀ c ∈ text.head?, isWordChar c = false) : result.head? = text.head? := by
  cases renamed with
  | done => rfl
  | keep _ => rfl
  | swap _ _ _ _ =>
    obtain ⟨c, first, word⟩ := oldWord.isWordChar_head
    rw [edge c first] at word
    exact Bool.noConfusion word

/-- The words can be exchanged back. -/
theorem symm (oldWord : Word old) (newWord : Word new)
    (renamed : Renamed old new allowed last text result) :
    Renamed new old (fun _ => True) last result text := by
  induction renamed with
  | done => exact .done
  | keep _ ih => exact .keep ih
  | swap before behind _ later ih =>
    refine .swap before ?_ trivial (ih.congr_last ?_)
    · rwa [later.head?_eq oldWord]
      intro c first
      rw [Option.mem_def.mp first] at behind
      exact not_isWordChar_of_mayFollow behind
    · rw [oldWord.not_mayPrecede_getLast?, newWord.not_mayPrecede_getLast?]

/-- **A renamed text is cut where the text is cut.** No word goes on from one piece to the other. -/
theorem split {later : Text} (oldWord : Word old)
    (renamed : Renamed old new allowed last (text ++ later) result) (edge : Edge text later) :
    ∃ first second, result = first ++ second ∧
      Renamed old new (fun rest => allowed (rest ++ later)) last text first ∧
      Renamed old new allowed (text.getLast?.or last) later second := by
  generalize whole : text ++ later = all at renamed
  induction renamed generalizing text with
  | done =>
    obtain ⟨rfl, rfl⟩ := List.append_eq_nil_iff.mp whole
    exact ⟨[], [], rfl, .done, .done⟩
  | @keep last c rest result renamed ih =>
    cases text with
    | nil =>
      rw [List.nil_append] at whole
      rw [whole]
      exact ⟨[], c :: result, rfl, .done, .keep renamed⟩
    | cons d text =>
      obtain ⟨rfl, rfl⟩ := List.cons.inj whole
      have inner : Edge text later := by
        rcases edge with left | right
        · refine .inl fun c mem => left c ?_
          rw [List.getLast?_cons, Option.mem_def.mp mem]
          rfl
        · exact .inr right
      obtain ⟨first, second, rfl, before, behind⟩ := ih inner rfl
      rw [getLast?_cons_or]
      exact ⟨d :: first, second, rfl, .keep before, behind⟩
  | @swap last rest result precede follow stays renamed ih =>
    rcases List.append_eq_append_iff.mp whole with ⟨piece, cut, split⟩ | ⟨piece, rfl, rfl⟩
    · by_cases empty : text = []
      · rw [empty, List.nil_append] at whole
        rw [empty, whole]
        exact ⟨[], new ++ result, rfl, .done, .swap precede follow stays renamed⟩
      · by_cases whole : piece = []
        · rw [whole, List.append_nil] at cut
          rw [whole, List.nil_append] at split
          subst cut split
          refine ⟨new, result, rfl, ?_, ?_⟩
          · have single : Renamed old new (fun rest => allowed (rest ++ later)) last (old ++ [])
                (new ++ []) := .swap precede rfl stays .done
            simpa using single
          · rwa [List.getLast?_eq_some_getLast empty, Option.some_or,
              ← List.getLast?_eq_some_getLast empty]
        · exfalso
          have left : isWordChar (text.getLast empty) = true :=
            oldWord.chars _ (cut ▸ List.mem_append_left _ (List.getLast_mem empty))
          have right : isWordChar (piece.head whole) = true :=
            oldWord.chars _ (cut ▸ List.mem_append_right _ (List.head_mem whole))
          rcases edge with none | none
          · rw [none _ (List.getLast?_eq_some_getLast empty)] at left
            exact Bool.noConfusion left
          · rw [none _ (by rw [split, List.head?_append_of_ne_nil _ whole,
              List.head?_eq_some_head whole]; rfl)] at right
            exact Bool.noConfusion right
    · have inner : Edge piece later := by
        rcases edge with left | right
        · refine .inl fun c mem => left c ?_
          rw [List.getLast?_append, Option.mem_def.mp mem]
          rfl
        · exact .inr right
      obtain ⟨first, second, rfl, before, behind⟩ := ih inner rfl
      refine ⟨new ++ first, second, by rw [List.append_assoc], .swap precede ?_ stays before, ?_⟩
      · cases piece with
        | nil => rfl
        | cons c piece => exact follow
      · rwa [List.getLast?_append, Option.or_assoc, oldWord.getLast?_or]

/-- No characters are put in but those of words. -/
theorem mem_of_mem (newWord : Word new) (renamed : Renamed old new allowed last text result) {c : Char}
    (mem : c ∈ result) : c ∈ text ∨ isWordChar c = true := by
  induction renamed with
  | done => exact .inl mem
  | keep _ ih =>
    rcases List.mem_cons.mp mem with rfl | mem
    · exact .inl List.mem_cons_self
    · exact (ih mem).imp_left (List.mem_cons_of_mem _)
  | swap _ _ _ _ ih =>
    rcases List.mem_append.mp mem with inNew | mem
    · exact .inr (newWord.chars c inNew)
    · exact (ih mem).imp_left (List.mem_append_right _)

/-- A text without words stays as it is. -/
theorem eq_of_no_word (oldWord : Word old) (renamed : Renamed old new allowed last text result)
    (none : ∀ c ∈ text, isWordChar c = false) : result = text := by
  induction renamed with
  | done => rfl
  | keep _ ih => rw [ih fun c mem => none c (List.mem_cons_of_mem _ mem)]
  | swap _ _ _ _ _ =>
    obtain ⟨c, first, word⟩ := oldWord.isWordChar_head
    rw [none c (List.mem_of_mem_head? first)] at word
    exact Bool.noConfusion word

theorem eq_nil_iff (oldWord : Word old) (newWord : Word new)
    (renamed : Renamed old new allowed last text result) : result = [] ↔ text = [] := by
  cases renamed with
  | done => simp
  | keep _ => simp
  | swap _ _ _ _ => simp [oldWord.nonempty, newWord.nonempty]

/-- The last character stays in a class that words belong to. -/
theorem getLast?_class {p : Char → Bool} (ofWord : ∀ c, isWordChar c = true → p c = true)
    (oldWord : Word old) (newWord : Word new) (renamed : Renamed old new allowed last text result)
    (member : ∀ c ∈ text.getLast?, p c = true) : ∀ c ∈ result.getLast?, p c = true := by
  induction renamed with
  | done => simp
  | @keep last c text result renamed ih =>
    cases text with
    | nil =>
      obtain rfl := (renamed.eq_nil_iff oldWord newWord).mpr rfl
      exact member
    | cons d text =>
      have some : result ≠ [] := fun none => by
        simpa using (renamed.eq_nil_iff oldWord newWord).mp none
      rw [List.getLast?_cons_of_ne_nil some]
      refine ih fun e last => member e ?_
      rwa [List.getLast?_cons_of_ne_nil (by simp)]
  | @swap last text result _ _ _ renamed ih =>
    cases text with
    | nil =>
      obtain rfl := (renamed.eq_nil_iff oldWord newWord).mpr rfl
      rw [List.append_nil]
      exact fun c last => ofWord c (newWord.chars c (List.mem_of_getLast? last))
    | cons d text =>
      have some : result ≠ [] := fun none => by
        simpa using (renamed.eq_nil_iff oldWord newWord).mp none
      rw [List.getLast?_append_of_ne_nil _ some]
      refine ih fun e last => member e ?_
      rwa [List.getLast?_append_of_ne_nil _ (by simp)]

/-- The first character stays in a class that words belong to. -/
theorem head?_class {p : Char → Bool} (ofWord : ∀ c, isWordChar c = true → p c = true)
    (newWord : Word new) (renamed : Renamed old new allowed last text result)
    (member : ∀ c ∈ text.head?, p c = true) : ∀ c ∈ result.head?, p c = true := by
  cases renamed with
  | done => exact member
  | keep _ => exact member
  | swap _ _ _ _ =>
    intro c first
    rw [List.head?_append_of_ne_nil _ newWord.nonempty] at first
    exact ofWord c (newWord.chars c (List.mem_of_mem_head? first))

theorem getLast?_eq (oldWord : Word old) (renamed : Renamed old new allowed last text result)
    (edge : ∀ c ∈ text.getLast?, isWordChar c = false) : result.getLast? = text.getLast? := by
  rcases List.eq_nil_or_concat text with rfl | ⟨before, c, rfl⟩
  · rw [renamed.eq_of_no_word oldWord (by simp)]
  · rw [List.concat_eq_append] at renamed edge ⊢
    have single : ∀ d ∈ [c], isWordChar d = false := by
      intro d mem
      exact edge d (by simp [List.mem_singleton.mp mem])
    obtain ⟨first, second, rfl, _, onLast⟩ := renamed.split oldWord (.inr fun d head =>
      single d (List.mem_of_mem_head? head))
    rw [onLast.eq_of_no_word oldWord single]
    simp

/-- Inside a dotted name nothing is exchanged. -/
theorem eq_of_inside (renamed : Renamed old new allowed last text result)
    (inside : mayPrecede last = false) (dotted : ∀ c ∈ text, isDottedChar c = true) :
    result = text := by
  induction renamed with
  | done => rfl
  | keep _ ih =>
    rw [ih (not_mayPrecede_of_isDottedChar (dotted _ List.mem_cons_self)) fun c mem =>
      dotted c (List.mem_cons_of_mem _ mem)]
  | swap before _ _ _ _ =>
    rw [inside] at before
    exact Bool.noConfusion before

/-- **Of a dotted name only the beginning is exchanged.** -/
theorem dotted_cases (oldWord : Word old) (renamed : Renamed old new allowed last text result)
    (dotted : ∀ c ∈ text, isDottedChar c = true) :
    result = text ∨ ∃ rest, text = old ++ rest ∧ result = new ++ rest ∧ allowed rest ∧
      mayFollow rest.head? = true := by
  cases renamed with
  | done => exact .inl rfl
  | keep later =>
    refine .inl ?_
    rw [later.eq_of_inside (not_mayPrecede_of_isDottedChar (dotted _ List.mem_cons_self)) fun c mem =>
      dotted c (List.mem_cons_of_mem _ mem)]
  | swap _ follow stays later =>
    refine .inr ⟨_, rfl, ?_, stays, follow⟩
    rw [later.eq_of_inside oldWord.not_mayPrecede_getLast? fun c mem =>
      dotted c (List.mem_append_right _ mem)]

/-- A word is exchanged as a whole or not at all. -/
theorem word_cases (oldWord : Word old) (renamed : Renamed old new allowed last text result)
    (word : ∀ c ∈ text, isWordChar c = true) :
    result = text ∨ text = old ∧ result = new ∧ allowed [] := by
  rcases renamed.dotted_cases oldWord fun c mem => isDottedChar_of_isWordChar (word c mem) with
    same | ⟨rest, rfl, rfl, stays, follow⟩
  · exact .inl same
  · cases rest with
    | nil => exact .inr ⟨List.append_nil _, List.append_nil _, stays⟩
    | cons c rest =>
      have inside := word c (List.mem_append_right _ List.mem_cons_self)
      rw [not_isWordChar_of_mayFollow follow] at inside
      exact Bool.noConfusion inside

end Renamed

end ScopedHandles
