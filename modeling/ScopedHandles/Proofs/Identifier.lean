/-
**The identifiers of a text.**

An identifier is a run of identifier characters that is as long as it can be. Texts are cut and put
together anew while handles are enclosed, and none of this may join two identifiers into a third one.
What counts are the seams: where one of the two sides is no identifier character, the identifiers of the
whole are those of the pieces.

* `mem_identifiers_iff` — an identifier and what stands around it.
* `identifiers_append` — the identifiers of two pieces.
* `identifiers_rename_subset` — renaming makes no identifier but the new name.
-/

import ScopedHandles.Proofs.Renaming

namespace ScopedHandles

/-! ### The characters of identifiers -/

/-- **White space belongs to no identifier.** -/
theorem not_isIdentChar_of_isWhiteSpace {c : Char} (blank : isWhiteSpace c = true) :
    isIdentChar c = false := by
  have alphanumeric : isAlphanumeric c = false := by
    unfold isAlphanumeric
    rw [CodePoint.not_isIn_of_apart (by decide +kernel) blank,
      CodePoint.not_isIn_of_apart (by decide +kernel) blank,
      CodePoint.not_isIn_of_apart (by decide +kernel) blank,
      CodePoint.not_isIn_of_apart (by decide +kernel) blank,
      CodePoint.not_isIn_of_apart (by decide +kernel) blank]
    rfl
  have low : c ≠ '_' := ne_of_class blank (by decide)
  have dollar : c ≠ '$' := ne_of_class blank (by decide)
  simp [isIdentChar, alphanumeric, low, dollar]

theorem not_isIdentChar_of_mayPrecede {c : Char} (edge : mayPrecede (some c) = true) :
    isIdentChar c = false := by
  simp only [mayPrecede, Bool.or_eq_true, List.contains_iff_mem] at edge
  rcases edge with blank | mark
  · exact not_isIdentChar_of_isWhiteSpace blank
  · have none : ("()+-*/%,!=<>&|^?:[\x7b;".toList.all fun d => !isIdentChar d) = true := by
      decide +kernel
    simpa using List.all_eq_true.mp none c mark

theorem not_isIdentChar_of_mayFollow {c : Char} (edge : mayFollow (some c) = true) :
    isIdentChar c = false := by
  simp only [mayFollow, Bool.or_eq_true, List.contains_iff_mem] at edge
  rcases edge with blank | mark
  · exact not_isIdentChar_of_isWhiteSpace blank
  · have none : ("=.),;[]+-*/%<>&|^?:\x7d".toList.all fun d => !isIdentChar d) = true := by
      decide +kernel
    simpa using List.all_eq_true.mp none c mark

theorem isIdentChar_of_ascii {c : Char} (letter : (c.isAlphanum || c == '_') = true) :
    isIdentChar c = true := by
  have each : ∀ code < 128,
      (48 ≤ code ∧ code ≤ 57) ∨ (65 ≤ code ∧ code ≤ 90) ∨ (97 ≤ code ∧ code ≤ 122) →
        (CodePoint.isIn code CodePoint.alphabetic || CodePoint.isIn code CodePoint.decimalNumber
          || CodePoint.isIn code CodePoint.otherNumber
          || CodePoint.isIn code CodePoint.addedAlphabetic
          || CodePoint.isIn code CodePoint.addedDecimalNumber) = true := by
    decide +kernel
  by_cases low : c = '_'
  · rw [low]
    decide
  · have other : c.toNat ≠ 95 := fun same => low (Char.toNat_inj.mp same)
    have bounds := code_of_ascii letter
    have alphanumeric : isAlphanumeric c = true := each c.toNat (by omega) (by omega)
    simp [isIdentChar, alphanumeric]

theorem isIdentChar_of_isDigit {c : Char} (digit : c.isDigit = true) : isIdentChar c = true :=
  isIdentChar_of_ascii (by simp [Char.isAlphanum, digit])

/-- **A plain identifier is made of identifier characters.** -/
theorem isIdentChar_of_isPlainIdentifier {text : Text} (plain : isPlainIdentifier text = true) :
    ∀ c ∈ text, isIdentChar c = true := by
  cases text with
  | nil => simp
  | cons first rest =>
    simp only [isPlainIdentifier, Bool.and_eq_true, Bool.or_eq_true, List.all_eq_true] at plain
    obtain ⟨begins, goesOn⟩ := plain
    intro c mem
    rcases List.mem_cons.mp mem with rfl | mem
    · refine isIdentChar_of_ascii ?_
      rcases begins with alpha | low
      · simp [Char.isAlphanum, alpha]
      · simp [low]
    · exact isIdentChar_of_ascii (by simpa using goesOn c mem)

/-! ### The identifiers of a text -/

/-- The identifier that a run is, unless it is empty. -/
def closed (run : Text) : List Text :=
  if run.isEmpty then [] else [run]

/-- The identifiers of a text, the first of which begins with `run` before it. -/
def identifiersFrom (run : Text) : Text → List Text
  | [] => closed run
  | c :: rest =>
    if isIdentChar c then identifiersFrom (run ++ [c]) rest else closed run ++ identifiersFrom [] rest

/-- The identifiers of a text. -/
def identifiers (text : Text) : List Text :=
  identifiersFrom [] text

@[simp] theorem closed_nil : closed [] = [] := rfl

theorem closed_of_ne_nil {run : Text} (some : run ≠ []) : closed run = [run] := by
  simp [closed, some]

@[simp] theorem identifiers_nil : identifiers [] = [] := rfl

theorem identifiersFrom_cons_of_ident {c : Char} (ident : isIdentChar c = true) (run rest : Text) :
    identifiersFrom run (c :: rest) = identifiersFrom (run ++ [c]) rest := by
  rw [identifiersFrom, if_pos ident]

theorem identifiersFrom_cons_of_not {c : Char} (other : isIdentChar c = false) (run rest : Text) :
    identifiersFrom run (c :: rest) = closed run ++ identifiers rest := by
  rw [identifiersFrom, if_neg (by simp [other]), identifiers]

theorem identifiers_cons_of_not {c : Char} (other : isIdentChar c = false) (rest : Text) :
    identifiers (c :: rest) = identifiers rest := by
  rw [identifiers, identifiersFrom_cons_of_not other, closed_nil, List.nil_append]

/-- A run goes on through identifier characters. -/
theorem identifiersFrom_append_run {piece : Text} (all : ∀ c ∈ piece, isIdentChar c = true)
    (run rest : Text) : identifiersFrom run (piece ++ rest) = identifiersFrom (run ++ piece) rest := by
  induction piece generalizing run with
  | nil => rw [List.nil_append, List.append_nil]
  | cons c piece ih =>
    rw [List.cons_append, identifiersFrom_cons_of_ident (all c List.mem_cons_self),
      ih fun d mem => all d (List.mem_cons_of_mem _ mem), List.append_assoc, List.singleton_append]

/-- A run ends before any other character. -/
theorem identifiersFrom_of_stop {rest : Text} (stop : ∀ c ∈ rest.head?, isIdentChar c = false)
    (run : Text) : identifiersFrom run rest = closed run ++ identifiers rest := by
  cases rest with
  | nil => simp [identifiersFrom]
  | cons c rest =>
    rw [identifiersFrom_cons_of_not (stop c rfl), identifiers_cons_of_not (stop c rfl)]

/-! ### Seams -/

/-- The identifiers of two pieces, where the second does not begin with an identifier character. -/
theorem identifiersFrom_append {later : Text} (stop : ∀ c ∈ later.head?, isIdentChar c = false)
    (run text : Text) :
    identifiersFrom run (text ++ later) = identifiersFrom run text ++ identifiers later := by
  induction text generalizing run with
  | nil => exact identifiersFrom_of_stop stop run
  | cons c rest ih =>
    rw [List.cons_append]
    cases ident : isIdentChar c with
    | true => rw [identifiersFrom_cons_of_ident ident, identifiersFrom_cons_of_ident ident, ih]
    | false =>
      have cut : identifiers (rest ++ later) = identifiers rest ++ identifiers later := ih []
      rw [identifiersFrom_cons_of_not ident, identifiersFrom_cons_of_not ident, List.append_assoc, cut]

/-- A character of no identifier cuts a text. -/
theorem identifiers_append_cons {c : Char} (other : isIdentChar c = false) (text later : Text) :
    identifiers (text ++ c :: later) = identifiers text ++ identifiers later := by
  have stop : ∀ d ∈ (c :: later).head?, isIdentChar d = false := forall_mem_some other
  rw [← identifiers_cons_of_not other later]
  exact identifiersFrom_append stop [] text

/-- No identifier goes on from one piece of a text to the next. -/
def Seam (text later : Text) : Prop :=
  (∀ c ∈ text.getLast?, isIdentChar c = false) ∨ ∀ c ∈ later.head?, isIdentChar c = false

/-- **The identifiers of two pieces.** -/
theorem identifiers_append {text later : Text} (seam : Seam text later) :
    identifiers (text ++ later) = identifiers text ++ identifiers later := by
  rcases seam with left | right
  · rcases List.eq_nil_or_concat text with rfl | ⟨before, c, rfl⟩
    · rfl
    · rw [List.concat_eq_append] at left ⊢
      have other : isIdentChar c = false := left c (by simp)
      have single : identifiers (before ++ [c]) = identifiers before := by
        rw [identifiers_append_cons other, identifiers_nil, List.append_nil]
      rw [List.append_assoc, List.singleton_append, identifiers_append_cons other, single]
  · exact identifiersFrom_append right [] text

/-- A text of other characters has no identifiers. -/
theorem identifiers_of_none {text : Text} (none : ∀ c ∈ text, isIdentChar c = false) :
    identifiers text = [] := by
  induction text with
  | nil => rfl
  | cons c rest ih =>
    rw [identifiers_cons_of_not (none c List.mem_cons_self),
      ih fun d mem => none d (List.mem_cons_of_mem _ mem)]

theorem identifiers_of_all {text : Text} (some : text ≠ []) (all : ∀ c ∈ text, isIdentChar c = true) :
    identifiers text = [text] := by
  have whole := identifiersFrom_append_run all [] []
  rw [List.append_nil, List.nil_append] at whole
  rw [identifiers, whole, identifiersFrom, closed_of_ne_nil some]

section Blanks

variable {blanks : Text} (blank : ∀ c ∈ blanks, isWhiteSpace c = true)

include blank

theorem identifiers_of_blank : identifiers blanks = [] :=
  identifiers_of_none fun c mem => not_isIdentChar_of_isWhiteSpace (blank c mem)

theorem identifiers_append_blank (text : Text) : identifiers (text ++ blanks) = identifiers text := by
  rw [identifiers_append, identifiers_of_blank blank, List.append_nil]
  exact .inr fun c first => not_isIdentChar_of_isWhiteSpace (blank c (List.mem_of_mem_head? first))

theorem identifiers_blank_append (text : Text) : identifiers (blanks ++ text) = identifiers text := by
  rw [identifiers_append, identifiers_of_blank blank, List.nil_append]
  exact .inl fun c last => not_isIdentChar_of_isWhiteSpace (blank c (List.mem_of_getLast? last))

/-- White space parts identifiers. -/
theorem identifiers_append_gap (some : blanks ≠ []) (text later : Text) :
    identifiers (text ++ (blanks ++ later)) = identifiers text ++ identifiers later := by
  rw [identifiers_append, identifiers_blank_append blank]
  refine .inr fun c first => not_isIdentChar_of_isWhiteSpace (blank c ?_)
  rw [List.head?_append_of_ne_nil _ some] at first
  exact List.mem_of_mem_head? first

end Blanks

@[simp] theorem identifiers_trim (text : Text) : identifiers (trim text) = identifiers text := by
  obtain ⟨before, behind, whole, beforeBlank, behindBlank, _⟩ := exists_trim text
  conv_rhs => rw [whole]
  rw [identifiers_blank_append beforeBlank, identifiers_append_blank behindBlank]

@[simp] theorem identifiers_trimEnd (text : Text) :
    identifiers (trimEnd text) = identifiers text := by
  conv_rhs => rw [← trimEnd_append_trailingBlanks text]
  rw [identifiers_append_blank isWhiteSpace_of_mem_trailingBlanks]

/-! ### What an identifier is -/

/-- A run of identifier characters with no identifier character on either side. -/
structure IsIdentifier (before name behind : Text) : Prop where
  nonempty : name ≠ []
  chars : ∀ c ∈ name, isIdentChar c = true
  first : ∀ c ∈ before.getLast?, isIdentChar c = false
  last : ∀ c ∈ behind.head?, isIdentChar c = false

theorem exists_of_mem_identifiersFrom {run text name : Text}
    (ident : ∀ c ∈ run, isIdentChar c = true) (mem : name ∈ identifiersFrom run text) :
    ∃ before behind, run ++ text = before ++ (name ++ behind) ∧ IsIdentifier before name behind := by
  induction text generalizing run with
  | nil =>
    rw [identifiersFrom, closed] at mem
    split_ifs at mem with empty
    · simp at mem
    · obtain rfl := List.mem_singleton.mp mem
      exact ⟨[], [], by simp, ⟨by simpa using empty, ident, by simp, by simp⟩⟩
  | cons c rest ih =>
    cases kind : isIdentChar c with
    | true =>
      rw [identifiersFrom_cons_of_ident kind] at mem
      have goesOn : ∀ d ∈ run ++ [c], isIdentChar d = true := by
        intro d inside
        rcases List.mem_append.mp inside with inRun | here
        · exact ident d inRun
        · rwa [List.mem_singleton.mp here]
      obtain ⟨before, behind, whole, isName⟩ := ih goesOn mem
      rw [List.append_assoc, List.singleton_append] at whole
      exact ⟨before, behind, whole, isName⟩
    | false =>
      rw [identifiersFrom_cons_of_not kind, List.mem_append] at mem
      rcases mem with inRun | mem
      · have some : run ≠ [] := by
          rintro rfl
          simp at inRun
        rw [closed_of_ne_nil some, List.mem_singleton] at inRun
        rw [inRun]
        exact ⟨[], c :: rest, rfl, some, ident, by simp, forall_mem_some kind⟩
      · obtain ⟨before, behind, whole, isName⟩ := ih (by simp) mem
        rw [List.nil_append] at whole
        refine ⟨run ++ c :: before, behind, by rw [whole, List.append_assoc, List.cons_append],
          isName.nonempty, isName.chars, ?_, isName.last⟩
        intro d last
        rw [List.getLast?_append_of_ne_nil _ (by simp)] at last
        cases before with
        | nil =>
          obtain rfl : c = d := Option.some.inj last
          exact kind
        | cons e before =>
          rw [List.getLast?_cons_of_ne_nil (by simp)] at last
          exact isName.first d last

/-- **An identifier of a text is a run of identifier characters that is as long as it can be.** -/
theorem mem_identifiers_iff {text name : Text} :
    name ∈ identifiers text ↔
      ∃ before behind, text = before ++ (name ++ behind) ∧ IsIdentifier before name behind := by
  constructor
  · intro mem
    exact exists_of_mem_identifiersFrom (by simp) mem
  · rintro ⟨before, behind, rfl, isName⟩
    rw [identifiers_append (.inl isName.first), identifiers_append (.inr isName.last),
      identifiers_of_all isName.nonempty isName.chars]
    simp

/-! ### Renaming -/

/-- A word that stands alone, as a reference does, is an identifier by itself. -/
theorem identifiersFrom_swap {word later : Text} (some : word ≠ [])
    (chars : ∀ c ∈ word, isIdentChar c = true) (stop : ∀ c ∈ later.head?, isIdentChar c = false) :
    identifiers (word ++ later) = word :: identifiers later := by
  rw [identifiers_append (.inr stop), identifiers_of_all some chars, List.singleton_append]

/-- The new name is the only identifier that a renaming adds. A reference stands behind no identifier
character, so no run is open before it. -/
theorem Renamed.identifiersFrom_subset {old new : Text} {allowed : Text → Prop} {last : Option Char}
    {text result : Text} (oldWord : Word old) (some : new ≠ [])
    (chars : ∀ c ∈ new, isIdentChar c = true) (renamed : Renamed old new allowed last text result)
    {run : Text} (inside : run ≠ [] → ∃ c ∈ last, isIdentChar c = true) :
    identifiersFrom run result ⊆ new :: identifiersFrom run text := by
  induction renamed generalizing run with
  | done => exact List.subset_cons_self _ _
  | @keep last c text result _ ih =>
    cases kind : isIdentChar c with
    | true =>
      rw [identifiersFrom_cons_of_ident kind, identifiersFrom_cons_of_ident kind]
      exact ih fun _ => ⟨c, rfl, kind⟩
    | false =>
      rw [identifiersFrom_cons_of_not kind, identifiersFrom_cons_of_not kind]
      have later : identifiers result ⊆ new :: identifiers text := ih (by simp)
      intro name mem
      rcases List.mem_append.mp mem with inRun | mem
      · exact List.mem_cons_of_mem _ (List.mem_append_left _ inRun)
      · rcases List.mem_cons.mp (later mem) with rfl | mem
        · exact List.mem_cons_self
        · exact List.mem_cons_of_mem _ (List.mem_append_right _ mem)
  | @swap last text result before behind _ renamed ih =>
    have empty : run = [] := by
      by_contra goesOn
      obtain ⟨c, here, ident⟩ := inside goesOn
      rw [Option.mem_def.mp here] at before
      rw [not_isIdentChar_of_mayPrecede before] at ident
      exact Bool.noConfusion ident
    have stop : ∀ c ∈ text.head?, isIdentChar c = false := by
      intro c first
      rw [Option.mem_def.mp first] at behind
      exact not_isIdentChar_of_mayFollow behind
    have same : result.head? = text.head? := by
      refine renamed.head?_eq oldWord fun c first => ?_
      rw [Option.mem_def.mp first] at behind
      exact not_isWordChar_of_mayFollow behind
    have later : identifiers result ⊆ new :: identifiers text := ih (by simp)
    have split : identifiersFrom [] (old ++ text) = identifiersFrom [] old ++ identifiers text :=
      identifiersFrom_append stop [] old
    have taken : identifiersFrom [] (new ++ result) = new :: identifiers result :=
      identifiersFrom_swap some chars (by rwa [same])
    rw [empty, split, taken]
    intro name mem
    rcases List.mem_cons.mp mem with rfl | mem
    · exact List.mem_cons_self
    · rcases List.mem_cons.mp (later mem) with rfl | mem
      · exact List.mem_cons_self
      · exact List.mem_cons_of_mem _ (List.mem_append_right _ mem)

/-- **Renaming makes no identifier but the new name.** -/
theorem identifiers_rename_subset {old new : Text} (oldWord : Word old) (some : new ≠ [])
    (chars : ∀ c ∈ new, isIdentChar c = true) (text : Text) :
    identifiers (rename text old new) ⊆ new :: identifiers text :=
  (renamed_rename text old new).identifiersFrom_subset oldWord some chars (by simp)

end ScopedHandles
