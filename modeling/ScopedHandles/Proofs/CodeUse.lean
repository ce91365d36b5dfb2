/-
**The uses of a symbol in code.**

A symbol is used where it stands in code as a whole identifier (`CodeUse`). A use is found by the
characters beside it. They are looked up in two lists, and neither list is complete: behind a closing brace
or bracket, and before an exclamation mark, a use is overlooked and keeps the old name. Beside white space,
the ends of the text and all other marks but those at which no use stands, every use is found.

* `length_mem_referencesFrom_iff` — a reference at a place is told by the text on both sides.
* `CodeUse.rename_eq` — what a renaming makes of a use, and of the text around it.
* `uses_renamed_iff` — which uses are found, by the marks beside them, and what becomes of each.
-/

import ScopedHandles.Proofs.Exchange
import ScopedHandles.Proofs.Identifier

namespace ScopedHandles

/-! ### Neighbours -/

/-- White space, or a visible character of ASCII. -/
def isSourceChar (c : Char) : Bool :=
  isWhiteSpace c || (32 < c.toNat && c.toNat < 127)

/-- The marks behind which a use is overlooked. -/
def overlookedBehind : Text :=
  ".]\x7d~@#\\\"'`".toList

/-- The marks before which a use is overlooked. -/
def overlookedBefore : Text :=
  "!(\x7b~@#\\\"'`".toList

/-- A list of marks by what it leaves out. White space belongs to what is listed, and of the other
characters only those of ASCII. -/
theorem listed_iff {marks missing : Text} (visible : marks.all isSourceChar = true)
    (solid : (missing.all fun d => !isWhiteSpace d) = true)
    (each : ∀ code < 127, 32 < code → isIdentChar (Char.ofNat code) = false →
      (marks.contains (Char.ofNat code) = true ↔ Char.ofNat code ∉ missing))
    {c : Char} (other : isIdentChar c = false) :
    (isWhiteSpace c || marks.contains c) = true ↔ isSourceChar c = true ∧ c ∉ missing := by
  cases blank : isWhiteSpace c with
  | true =>
    have absent : c ∉ missing := by
      intro mem
      have none := List.all_eq_true.mp solid c mem
      rw [blank] at none
      exact Bool.noConfusion none
    simp [isSourceChar, blank, absent]
  | false =>
    rw [Bool.false_or]
    by_cases source : isSourceChar c = true
    · have bounds : 32 < c.toNat ∧ c.toNat < 127 := by
        simpa [isSourceChar, blank] using source
      have known := each c.toNat bounds.2 bounds.1
      rw [Char.ofNat_toNat] at known
      rw [known other, and_iff_right source]
    · have unlisted : c ∉ marks := fun mem => source (List.all_eq_true.mp visible c mem)
      simp [source, unlisted]

theorem mayPrecede_iff {c : Char} (other : isIdentChar c = false) :
    mayPrecede (some c) = true ↔ isSourceChar c = true ∧ c ∉ overlookedBehind :=
  listed_iff (by decide +kernel) (by decide +kernel) (by decide +kernel) other

theorem mayFollow_iff {c : Char} (other : isIdentChar c = false) :
    mayFollow (some c) = true ↔ isSourceChar c = true ∧ c ∉ overlookedBefore :=
  listed_iff (by decide +kernel) (by decide +kernel) (by decide +kernel) other

/-! ### The places of references -/

/-- **A reference at a place is told by the text on both sides.** -/
theorem length_mem_referencesFrom_iff {symbol : Text} {scanner : Scanner} {last : Option Char}
    {before later : Text} :
    before.length ∈ referencesFrom symbol scanner last 0 (before ++ later) ↔
      isReference symbol (scanner.run before) (before.getLast?.or last) later = true := by
  induction before generalizing scanner last with
  | nil =>
    cases later with
    | nil => simp [referencesFrom, isReference]
    | cons c rest =>
      rw [List.nil_append, referencesFrom, referencesFrom_shift]
      split_ifs with found <;> simp [found]
  | cons c rest ih =>
    rw [List.cons_append, referencesFrom, referencesFrom_shift, Scanner.run_cons, getLast?_cons_or,
      ← @ih (scanner.next c) (some c)]
    split_ifs <;> simp

theorem length_mem_references_iff {symbol before later : Text} :
    before.length ∈ references (before ++ later) symbol ↔
      isReference symbol (Scanner.start.run before) before.getLast? later = true := by
  rw [references, length_mem_referencesFrom_iff, Option.or_none]

section Cut

variable {old new text later : Text} {scanner : Scanner} {last : Option Char}

/-- No reference goes over the end of a piece whose last character is none of the symbol's. -/
theorem isReference_append_of_apart {piece : Text} (some : piece ≠ [])
    (apart : ∀ c ∈ piece.getLast?, c ∉ old) :
    isReference old scanner last (piece ++ later) = isReference old scanner last piece := by
  have outside : piece.getLast some ∉ old := apart _ (List.getLast?_eq_some_getLast some)
  refine Bool.eq_iff_iff.mpr ⟨fun found => ?_, fun found => ?_⟩
  · obtain ⟨c, word, rest, same, split, inCode, before, behind⟩ := isReference_iff.mp found
    rcases List.append_eq_append_iff.mp split with ⟨more, inOld, _⟩ | ⟨more, inPiece, inRest⟩
    · exact absurd (inOld ▸ List.mem_append_left _ (List.getLast_mem some)) outside
    · refine isReference_iff.mpr ⟨c, word, more, same, inPiece, inCode, before, ?_⟩
      cases more with
      | nil => rfl
      | cons d more => rwa [inRest] at behind
  · obtain ⟨c, word, rest, same, rfl, inCode, before, behind⟩ := isReference_iff.mp found
    refine isReference_iff.mpr ⟨c, word, rest ++ later, same, by simp, inCode, before, ?_⟩
    cases rest with
    | nil => simp at outside
    | cons d rest => exact behind

theorem renameFrom_append_of_apart (apart : ∀ c ∈ text.getLast?, c ∉ old) (scanner : Scanner)
    (last : Option Char) :
    renameFrom old new scanner last 0 (text ++ later) =
      renameFrom old new scanner last 0 text ++
        renameFrom old new (scanner.run text) (text.getLast?.or last) 0 later := by
  refine renameFrom_append_of_cut (fun piece some suffix _ _ => ?_) scanner last
  refine isReference_append_of_apart some fun c edge => apart c ?_
  obtain ⟨front, rfl⟩ := suffix
  rwa [List.getLast?_append_of_ne_nil _ some]

theorem not_mayPrecede_of_isIdentChar {c : Char} (ident : isIdentChar c = true) :
    mayPrecede (some c) = false := by
  by_contra edge
  rw [not_isIdentChar_of_mayPrecede (Bool.not_eq_false _ ▸ edge)] at ident
  exact Bool.noConfusion ident

/-- Inside of an identifier nothing is renamed. -/
theorem renameFrom_inside {piece : Text} (inside : mayPrecede last = false)
    (chars : ∀ c ∈ piece, isIdentChar c = true) :
    renameFrom old new scanner last 0 (piece ++ later) =
      piece ++ renameFrom old new (scanner.run piece) (piece.getLast?.or last) 0 later := by
  induction piece generalizing scanner last with
  | nil => simp
  | cons c rest ih =>
    have next := not_mayPrecede_of_isIdentChar (chars c List.mem_cons_self)
    rw [List.cons_append, renameFrom_cons (not_isReference_of_inside inside _),
      ih next fun d mem => chars d (List.mem_cons_of_mem _ mem), Scanner.run_cons, getLast?_cons_or,
      List.cons_append]

end Cut

/-! ### Uses -/

/-- A use of `name` between `before` and `behind`: a whole identifier in code. -/
structure CodeUse (before name behind : Text) : Prop extends IsIdentifier before name behind where
  code : ∀ c ∈ name.head?, (Scanner.start.run before).regionOf c = .code

namespace CodeUse

variable {before name behind : Text}

theorem mem_references_iff (use : CodeUse before name behind) :
    before.length ∈ references (before ++ (name ++ behind)) name ↔
      mayPrecede before.getLast? = true ∧ mayFollow behind.head? = true := by
  rw [length_mem_references_iff]
  constructor
  · intro found
    obtain ⟨later, split, _, precedes, follows⟩ := eq_append_of_isReference found
    obtain rfl := List.append_cancel_left split
    exact ⟨precedes, follows⟩
  · rintro ⟨precedes, follows⟩
    obtain ⟨c, rest, rfl⟩ := List.exists_cons_of_ne_nil use.nonempty
    refine isReference_iff.mpr ⟨c, rest, behind, rfl, rfl, ?_, precedes, follows⟩
    rw [use.code c rfl]
    decide

/-- **What a renaming makes of a use**, between the texts around it, each renamed by itself. -/
theorem rename_eq (use : CodeUse before name behind) (new : Text) :
    rename (before ++ (name ++ behind)) name new =
      rename before name new ++
        ((if before.length ∈ references (before ++ (name ++ behind)) name then new else name) ++
          renameFrom name new (Scanner.start.run (before ++ name)) name.getLast? 0 behind) := by
  have apart : ∀ c ∈ before.getLast?, c ∉ name := by
    intro c edge mem
    have inside := use.chars c mem
    rw [use.first c edge] at inside
    exact Bool.noConfusion inside
  have edge : name.getLast?.or before.getLast? = name.getLast? := by
    rw [List.getLast?_eq_some_getLast use.nonempty, Option.some_or]
  rw [rename, renameFrom_append_of_apart apart, Scanner.run_append, Option.or_none, ← rename]
  congr 1
  split_ifs with found
  · rw [renameFrom_reference (length_mem_references_iff.mp found), edge]
  · rw [length_mem_references_iff, Bool.not_eq_true] at found
    obtain ⟨c, rest, rfl⟩ := List.exists_cons_of_ne_nil use.nonempty
    have inside := not_mayPrecede_of_isIdentChar (use.chars c List.mem_cons_self)
    rw [List.cons_append] at found ⊢
    rw [renameFrom_cons found, renameFrom_inside inside fun d mem =>
      use.chars d (List.mem_cons_of_mem _ mem), ← edge, getLast?_cons_or]
    rfl

end CodeUse

/-- **A use in code is found exactly if it stands beside none of the overlooked marks**, nor beside a mark
that is not of ASCII. A use that is found is renamed, one that is overlooked keeps its name. -/
theorem uses_renamed_iff {before name behind : Text} (use : CodeUse before name behind) (new : Text) :
    (before.length ∈ references (before ++ (name ++ behind)) name ↔
      (∀ c ∈ before.getLast?, isSourceChar c = true ∧ c ∉ overlookedBehind) ∧
        ∀ c ∈ behind.head?, isSourceChar c = true ∧ c ∉ overlookedBefore) ∧
    rename (before ++ (name ++ behind)) name new =
      rename before name new ++
        ((if before.length ∈ references (before ++ (name ++ behind)) name then new else name) ++
          renameFrom name new (Scanner.start.run (before ++ name)) name.getLast? 0 behind) := by
  refine ⟨use.mem_references_iff.trans (and_congr ?_ ?_), use.rename_eq new⟩
  · cases edge : before.getLast? with
    | none => simp [mayPrecede]
    | some c => simp [mayPrecede_iff (use.first c edge)]
  · cases edge : behind.head? with
    | none => simp [mayFollow]
    | some c => simp [mayFollow_iff (use.last c edge)]

/-- A use between parentheses, with a call and a member of the same name beside it. -/
theorem argument_renamed :
    let before := "ps(a.ps,ps(".toList
    let behind := "));".toList
    CodeUse before "ps".toList behind ∧
      before.length ∈ references (before ++ ("ps".toList ++ behind)) "ps".toList ∧
      rename (before ++ ("ps".toList ++ behind)) "ps".toList "gv".toList =
        "ps(a.ps,ps(gv));".toList := by
  have use : CodeUse "ps(a.ps,ps(".toList "ps".toList "));".toList := by
    refine ⟨⟨by decide, List.all_eq_true.mp (by decide +kernel), ?_, ?_⟩, ?_⟩
    · exact forall_mem_some (by decide)
    · exact forall_mem_some (by decide)
    · exact forall_mem_some (by decide +kernel)
  obtain ⟨found, renamed⟩ := uses_renamed_iff use "gv".toList
  have here := found.mpr ⟨forall_mem_some (by decide), forall_mem_some (by decide)⟩
  refine ⟨use, here, ?_⟩
  rw [renamed, if_pos here]
  decide +kernel

/-- **A comparison overlooks the use before it.** It keeps the name that is no longer declared, though it is
in code, is not called and is no member. -/
theorem comparedUse_overlooked :
    CodeUse [] "ps".toList "!=null;ps.f();".toList ∧
      0 ∉ references "ps!=null;ps.f();".toList "ps".toList ∧
      rename "ps!=null;ps.f();".toList "ps".toList "gv".toList = "ps!=null;gv.f();".toList := by
  have use : CodeUse [] "ps".toList "!=null;ps.f();".toList := by
    refine ⟨⟨by decide, List.all_eq_true.mp (by decide +kernel), by simp, ?_⟩, ?_⟩
    · exact forall_mem_some (by decide)
    · exact forall_mem_some (by decide +kernel)
  exact ⟨use, by decide +kernel, by decide +kernel⟩

end ScopedHandles
