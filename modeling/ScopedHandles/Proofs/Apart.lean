/-
**Names and types that stay apart.**

A fresh name ends in a digit, so it can be taken for a modifier, a type or `null` only if a type ends in
a digit too. The settings of a run are *apart* if no type does, and no type is the end of the other.
Then the words that an enclosure exchanges are neutral.

* `neutral_of_allocate` — fresh names are neutral.
* `renamed_body` — where the enclosed block refers to the handle, it does not assign to it.
-/

import ScopedHandles.Proofs.Transfer

namespace ScopedHandles

/-! ### Validated settings -/

theorem Settings.plain_of_validate {settings : Settings} (valid : settings.validate = .ok ()) :
    ∀ entry ∈ settings.identifiers, isPlainIdentifier entry.2.toList = true := by
  unfold Settings.validate at valid
  split at valid
  · simp at valid
  · split at valid
    · simp at valid
    · next none =>
      intro entry mem
      simpa using List.find?_eq_none.mp none entry mem

theorem word_of_isPlainIdentifier {text : Text} (plain : isPlainIdentifier text = true) :
    Word text := by
  refine ⟨?_, isWordChar_of_isPlainIdentifier plain⟩
  rintro rfl
  exact Bool.noConfusion plain

/-- The types of validated settings are words. -/
theorem Settings.word_typeOf {settings : Settings} (valid : settings.validate = .ok ())
    (kind : HandleKind) : Word (settings.typeOf kind) := by
  have plain := Settings.plain_of_validate valid
  cases kind with
  | cursor => exact word_of_isPlainIdentifier (plain (.cursorType, settings.cursorType) (by
      simp [Settings.identifiers]))
  | query => exact word_of_isPlainIdentifier (plain (.queryType, settings.queryType) (by
      simp [Settings.identifiers]))

/-- Whether the last character is a digit. -/
def endsInDigit (text : Text) : Bool :=
  text.getLast?.any Char.isDigit

/-- No type is the end of the other one, and none ends in a digit. -/
structure Settings.Apart (settings : Settings) : Prop where
  types : ∀ kind other, kind ≠ other → ¬ settings.typeOf kind <:+ settings.typeOf other
  letters : ∀ kind, endsInDigit (settings.typeOf kind) = false

theorem Settings.apart_default : Settings.Apart {} := by
  constructor
  · rintro (_ | _) (_ | _) different
    · exact absurd rfl different
    · decide +kernel
    · decide +kernel
    · exact absurd rfl different
  · rintro (_ | _)
    · decide +kernel
    · decide +kernel

/-! ### Fresh names -/

/-- Sources of names whose stems are made of the characters of words. -/
structure Names.Wordy (names : Names) : Prop where
  handles : ∀ c ∈ names.handles.stem, isWordChar c = true
  statements : ∀ c ∈ names.statements.stem, isWordChar c = true

theorem Names.wordy_seeded {settings : Settings} (valid : settings.validate = .ok ()) (text : Text) :
    Names.Wordy (.seeded text settings.handleStem.toList settings.statementStem.toList) := by
  have plain := Settings.plain_of_validate valid
  constructor
  · exact isWordChar_of_isPlainIdentifier (plain (.handleStem, settings.handleStem) (by
      simp [Settings.identifiers]))
  · exact isWordChar_of_isPlainIdentifier (plain (.statementStem, settings.statementStem) (by
      simp [Settings.identifiers]))

theorem Counter.stem_of_allocate {counter later : Counter} {name : Text}
    (allocated : counter.allocate = some (name, later)) : later.stem = counter.stem := by
  obtain ⟨n, _, pair⟩ := Option.map_eq_some_iff.mp allocated
  obtain ⟨_, rfl⟩ := Prod.mk.inj pair
  rfl

/-- A fresh name ends in a digit. -/
theorem Counter.isDigit_of_allocate {counter later : Counter} {name : Text}
    (allocated : counter.allocate = some (name, later)) :
    ∃ front digit, name = front ++ [digit] ∧ digit.isDigit = true := by
  obtain ⟨n, _, pair⟩ := Option.map_eq_some_iff.mp allocated
  obtain ⟨rfl, _⟩ := Prod.mk.inj pair
  obtain empty | ⟨front, digit, last⟩ := List.eq_nil_or_concat (Nat.toDigits 10 n)
  · have digits : 0 < (Nat.toDigits 10 n).length := Nat.length_toDigits_pos
    simp [empty] at digits
  · rw [List.concat_eq_append] at last
    refine ⟨counter.stem ++ front, digit, by rw [last, List.append_assoc], ?_⟩
    refine Nat.isDigit_of_mem_toDigits (by decide) (by decide) (?_ : digit ∈ Nat.toDigits 10 n)
    rw [last]
    exact List.mem_append_right _ List.mem_cons_self

/-- A text that ends in a digit does not end in another text that does not. -/
theorem not_suffix_of_isDigit {text front : Text} {digit : Char} (nonempty : text ≠ [])
    (letter : endsInDigit text = false) (isDigit : digit.isDigit = true) :
    ¬ text <:+ front ++ [digit] := by
  rintro ⟨before, whole⟩
  have last := congrArg List.getLast? whole
  rw [List.getLast?_append_of_ne_nil _ nonempty, List.getLast?_concat] at last
  rw [endsInDigit, last, Option.any_some, isDigit] at letter
  exact Bool.noConfusion letter

section Apart

variable {settings : Settings} (valid : settings.validate = .ok ()) (apart : settings.Apart)

include valid apart

/-- **Fresh names are neutral.** -/
theorem neutral_of_allocate {counter later : Counter} {name : Text}
    (stem : ∀ c ∈ counter.stem, isWordChar c = true)
    (allocated : counter.allocate = some (name, later)) : Neutral settings name := by
  have isWord := Counter.word_of_allocate stem allocated
  obtain ⟨front, digit, rfl, isDigit⟩ := Counter.isDigit_of_allocate allocated
  have other : ∀ text : Text, text ≠ [] → endsInDigit text = false → front ++ [digit] ≠ text := by
    rintro text nonempty letter rfl
    exact not_suffix_of_isDigit nonempty letter isDigit (List.suffix_refl _)
  refine ⟨isWord, ?_, ?_⟩
  · rw [Settings.leads_eq_false_iff]
    refine ⟨other _ (by decide) (by decide), other _ (by decide) (by decide), fun kind => ?_⟩
    exact not_suffix_of_isDigit (Settings.word_typeOf valid kind).nonempty (apart.letters kind) isDigit
  · rw [← Bool.not_eq_true, endsInNull_iff]
    rintro ⟨before, blanks, whole, blank, _⟩
    have solid : blanks = [] := by
      refine List.eq_nil_iff_forall_not_mem.mpr fun c mem => ?_
      have word := isWord.chars c (by
        rw [whole]
        exact List.mem_append_right _ (List.mem_append_right _ mem))
      rw [not_isWordChar_of_isWhiteSpace (blank c mem)] at word
      exact Bool.noConfusion word
    rw [solid, List.append_nil] at whole
    exact not_suffix_of_isDigit (by decide) (by decide) isDigit ⟨before, whole.symm⟩

end Apart

/-! ### Blocks that do not assign the handle again -/

theorem mem_referencesFrom_of_prefix {symbol : Text} {scanner : Scanner} {last : Option Char}
    {text later : Text} {start place : Nat} (follows : mayFollow later.head? = true)
    (mem : place ∈ referencesFrom symbol scanner last start text) :
    place ∈ referencesFrom symbol scanner last start (text ++ later) := by
  induction text generalizing scanner last start with
  | nil => simp [referencesFrom] at mem
  | cons c rest ih =>
    simp only [List.cons_append, referencesFrom] at mem ⊢
    split_ifs at mem with found
    · have stays := isReference_append follows found
      rw [List.cons_append] at stays
      rw [if_pos stays]
      rcases List.mem_cons.mp mem with rfl | inner
      · exact List.mem_cons_self
      · exact List.mem_cons_of_mem _ (ih inner)
    · split_ifs
      · exact List.mem_cons_of_mem _ (ih mem)
      · exact ih mem

theorem mayFollow_blank {white : Text} (blank : ∀ c ∈ white, isWhiteSpace c = true) :
    mayFollow white.head? = true := by
  cases white with
  | nil => rfl
  | cons c white => simp [mayFollow, blank c List.mem_cons_self]

/-- A handle that does not escape is not assigned where it is referred to. -/
theorem second_sign_of_escapeAt? {before after more : Text} (stays : escapeAt? before after = none)
    (sign : trimStart after = '=' :: more) : more.head? = some '=' := by
  unfold escapeAt? at stays
  rw [sign] at stays
  simp only at stays
  split_ifs at stays with _ single
  cases more with
  | nil => simp at single
  | cons c more =>
    have double : "==".toList.isPrefixOf ('=' :: c :: more) = true := by simpa using single
    obtain ⟨rest, same⟩ := List.isPrefixOf_iff_prefix.mp double
    obtain ⟨rfl, _⟩ := List.cons.inj (List.cons.inj same).2
    rfl

/-- **The block of a handle that does not escape is renamed without a new assignment.** -/
theorem renamed_body {name scope : Text} (symbol : Text) (stays : escape? name scope = none) :
    Renamed name symbol Unassigned none (trimEnd scope) (rename (trimEnd scope) name symbol) := by
  refine renamed_renameFrom symbol fun place mem more sign => ?_
  have blank : ∀ c ∈ trailingBlanks scope, isWhiteSpace c = true := isWhiteSpace_of_mem_trailingBlanks
  have whole := trimEnd_append_trailingBlanks scope
  have here : place ∈ references scope name := by
    rw [← whole]
    exact mem_referencesFrom_of_prefix (mayFollow_blank blank) mem
  have inside : place + name.length ≤ (trimEnd scope).length := by
    by_contra beyond
    rw [List.drop_eq_nil_of_le (by omega)] at sign
    simp [trimStart] at sign
  have further :
      trimStart (scope.drop (place + name.length)) = '=' :: (more ++ trailingBlanks scope) := by
    rw [← whole, List.drop_append_of_le_length inside, trimStart, List.dropWhile_append]
    rw [trimStart] at sign
    rw [whole, sign]
    rfl
  have double := second_sign_of_escapeAt? (List.findSome?_eq_none_iff.mp stays place here) further
  cases more with
  | nil =>
    have white := blank '=' (List.mem_of_mem_head? double)
    exact absurd white (by decide)
  | cons c more => exact double

end ScopedHandles
