/-
**The name of an enclosure is a declared placeholder.**

A numbered symbol is declared where it stands between white space, unless the white space before it was
used up by the symbol before. An enclosure puts its name between blanks, behind the renamed type. A type
does not end in a digit, and where it is renamed up to its end it has become the very name. So the blank
is free, or the symbol that uses it up is the name itself.

* `Placeholder.probe_eq_hit_iff` — where a declaration stands.
* `Placeholder.mem_declared_iff` — the symbols that a text declares.
* `Placeholder.mem_allHits_or_behind` — a symbol between white space is found, or follows one that is.
* `Layout.eq_of_renamed_type` — a symbol at the end of a renamed type is the new name.
* `HandleSite.symbol_mem_declared` — the name of an enclosure is declared.
-/

import ScopedHandles.Placeholder
import ScopedHandles.Proofs.HeaderName
import ScopedHandles.Proofs.HandleSite
import ScopedHandles.Proofs.Apart

namespace ScopedHandles

/-! ### Declarations of placeholders -/

/-- A stem and a number, in the digits of any script. -/
def IsNumbered (stem symbol : Text) : Prop :=
  ∃ digits, symbol = stem ++ digits ∧ digits ≠ [] ∧ ∀ c ∈ digits, isDecimalDigit c = true

namespace IsNumbered

variable {stem symbol : Text}

theorem chars (numbered : IsNumbered stem symbol) (stemChars : ∀ c ∈ stem, isWordChar c = true) :
    ∀ c ∈ symbol, isWordChar c = true := by
  obtain ⟨digits, rfl, _, all⟩ := numbered
  intro c mem
  rcases List.mem_append.mp mem with inStem | inDigits
  · exact stemChars c inStem
  · exact isWordChar_of_isDecimalDigit (all c inDigits)

/-- A numbered symbol holds no white space if its stem holds none. -/
theorem solid (numbered : IsNumbered stem symbol) (stemSolid : ∀ c ∈ stem, isWhiteSpace c = false) :
    ∀ c ∈ symbol, isWhiteSpace c = false := by
  obtain ⟨digits, rfl, _, all⟩ := numbered
  intro c mem
  rcases List.mem_append.mp mem with inStem | inDigits
  · exact stemSolid c inStem
  · exact not_isWhiteSpace_of_isDottedChar
      (isDottedChar_of_isWordChar (isWordChar_of_isDecimalDigit (all c inDigits)))

theorem ne_nil (numbered : IsNumbered stem symbol) : symbol ≠ [] := by
  obtain ⟨digits, rfl, some, _⟩ := numbered
  exact List.append_ne_nil_of_right_ne_nil _ some

theorem getLast (numbered : IsNumbered stem symbol) :
    ∃ c ∈ symbol.getLast?, isDecimalDigit c = true := by
  obtain ⟨digits, rfl, some, all⟩ := numbered
  refine ⟨digits.getLast some, ?_, all _ (List.getLast_mem some)⟩
  rw [List.getLast?_append_of_ne_nil _ some]
  exact List.getLast?_eq_some_getLast some

end IsNumbered

/-- A fresh name is numbered. -/
theorem Counter.isNumbered_of_allocate {counter later : Counter} {name : Text}
    (allocated : counter.allocate = some (name, later)) : IsNumbered counter.stem name := by
  obtain ⟨n, _, pair⟩ := Option.map_eq_some_iff.mp allocated
  obtain ⟨rfl, _⟩ := Prod.mk.inj pair
  refine ⟨Nat.toDigits 10 n, rfl, List.length_pos_iff.mp Nat.length_toDigits_pos, fun c mem => ?_⟩
  exact isDecimalDigit_of_isDigit (Nat.isDigit_of_mem_toDigits (by decide) (by decide) mem)

namespace Placeholder

variable {stem symbol : Text}

/-- **Where a declaration stands**: it is a numbered symbol between white space. -/
theorem probe_eq_hit_iff {last : Option Char} {text : Text} {length : Nat} :
    probe stem last text = .hit symbol length ↔
      IsNumbered stem symbol ∧ length = symbol.length + 2 ∧
        ∃ c d rest, isWhiteSpace c = true ∧ isWhiteSpace d = true ∧
          text = c :: (symbol ++ d :: rest) := by
  constructor
  · intro found
    cases text with
    | nil => cases found
    | cons c text =>
      simp only [probe] at found
      split at found
      · next rest blank begins =>
        split_ifs at found with missed
        obtain ⟨rfl, rfl⟩ := Probe.hit.inj found
        simp only [Bool.or_eq_true, List.isEmpty_iff, Bool.not_eq_true', not_or,
          Bool.not_eq_false] at missed
        obtain ⟨some, behind⟩ := missed
        obtain ⟨d, first, white⟩ := (Option.any_eq_true _ _).mp behind
        obtain ⟨later, stop⟩ := List.head?_eq_some_iff.mp first
        refine ⟨⟨_, rfl, some, fun c mem => List.mem_takeWhile_imp mem⟩, rfl, c, d, later, blank,
          white, ?_⟩
        rw [after?_eq_some_iff.mp begins, List.append_assoc, ← stop, List.takeWhile_append_dropWhile]
      · cases found
  · rintro ⟨⟨digits, rfl, some, all⟩, rfl, c, d, rest, blank, white, rfl⟩
    have stop : ∀ e ∈ (d :: rest).head?, isDecimalDigit e = false :=
      forall_mem_some (not_isDecimalDigit_of_isWhiteSpace white)
    have begins : after? stem (stem ++ digits ++ d :: rest) = .some (digits ++ d :: rest) := by
      rw [after?_eq_some_iff, List.append_assoc]
    simp only [probe, blank, begins, takeWhile_run all stop, dropWhile_run all stop]
    simp [some, white]

theorem advances_probe : Advances (probe stem) (·.length + 2) := by
  intro last text symbol length found
  obtain ⟨_, rfl, _⟩ := probe_eq_hit_iff.mp found
  exact ⟨rfl, Nat.succ_pos _⟩

theorem probe_ne_pass (last : Option Char) (text : Text) (length : Nat) :
    probe stem last text ≠ .pass length := by
  intro passed
  cases text with
  | nil => cases passed
  | cons c text =>
    simp only [probe] at passed
    split at passed
    · split_ifs at passed
    · cases passed

/-- Leaving out repetitions loses no symbol. -/
theorem mem_map_distinct {seen : List Text} {placeholders : List Placeholder} :
    symbol ∈ (distinct seen placeholders).map Placeholder.symbol ↔
      symbol ∈ placeholders.map Placeholder.symbol ∧ symbol ∉ seen := by
  induction placeholders generalizing seen with
  | nil => simp [distinct]
  | cons placeholder rest ih =>
    rw [distinct]
    split_ifs with occurred
    · rw [List.contains_iff_mem] at occurred
      rw [ih, List.map_cons, List.mem_cons]
      refine ⟨fun ⟨mem, fresh⟩ => ⟨.inr mem, fresh⟩, fun ⟨mem, fresh⟩ => ⟨?_, fresh⟩⟩
      rcases mem with rfl | mem
      · exact absurd occurred fresh
      · exact mem
    · rw [List.contains_iff_mem] at occurred
      rw [List.map_cons, List.mem_cons, ih, List.map_cons, List.mem_cons, List.mem_cons]
      by_cases same : symbol = placeholder.symbol
      · simp [same, occurred]
      · simp [same]

/-- **The symbols that a text declares** are those that are found in it. -/
theorem mem_declared_iff {content : Text} :
    symbol ∈ (declared content stem).map Placeholder.symbol ↔
      ∃ found ∈ allHits (probe stem) 0 0 none content, found.value = symbol := by
  rw [declared, mem_map_distinct]
  simp

/-- A piece that begins before a character outside of it and covers that character ends in it. -/
theorem eq_of_covered {before early piece rest more : Text} {b c e : Char}
    (split : before ++ c :: rest = early ++ b :: (piece ++ e :: more))
    (starts : early.length < before.length) (covers : before.length < early.length + (piece.length + 2))
    (solid : c ∉ piece) : before = early ++ b :: piece := by
  obtain ⟨between, rfl⟩ : early <+: before :=
    List.prefix_of_prefix_length_le ⟨_, split.symm⟩ ⟨_, rfl⟩ starts.le
  rw [List.append_assoc, List.append_cancel_left_eq] at split
  rw [List.length_append] at starts covers
  have some : between ≠ [] := List.length_pos_iff.mp (by omega)
  obtain ⟨d, between, rfl⟩ := List.exists_cons_of_ne_nil some
  obtain ⟨rfl, inner⟩ := List.cons.inj split
  rw [List.length_cons] at covers
  rcases List.append_eq_append_iff.mp inner with ⟨excess, same, behind⟩ | ⟨excess, same, behind⟩
  · cases excess with
    | nil => rw [same, List.append_nil]
    | cons e excess =>
      obtain ⟨rfl, _⟩ := List.cons.inj behind
      exact absurd (same ▸ List.mem_append_right _ List.mem_cons_self) solid
  · have short : excess.length = 0 := by
      rw [same, List.length_append] at covers
      omega
    rw [same, List.eq_nil_of_length_eq_zero short, List.append_nil]

/-- **A numbered symbol between white space is found, or the white space before it was used up** by one that
is. -/
theorem mem_allHits_or_behind {before rest : Text} {c d : Char}
    (solid : ∀ c ∈ stem, isWhiteSpace c = false) (numbered : IsNumbered stem symbol)
    (blank : isWhiteSpace c = true) (white : isWhiteSpace d = true) :
    { place := before.length, value := symbol } ∈
        allHits (probe stem) 0 0 none (before ++ c :: (symbol ++ d :: rest)) ∨
      ∃ early b other, before = early ++ b :: other ∧ isWhiteSpace b = true ∧
        IsNumbered stem other ∧ { place := early.length, value := other } ∈
          allHits (probe stem) 0 0 none (before ++ c :: (symbol ++ d :: rest)) := by
  have seen : probe stem (before.getLast?.or none) (c :: (symbol ++ d :: rest)) =
      .hit symbol (symbol.length + 2) :=
    probe_eq_hit_iff.mpr ⟨numbered, rfl, c, d, rest, blank, white, rfl⟩
  rcases mem_allHits_or_covered advances_probe probe_ne_pass 0 seen
    (List.cons_ne_nil _ _) (Nat.zero_le _) with mem | ⟨⟨place, other⟩, mem, starts, covers⟩
  · exact .inl (by simpa using mem)
  · obtain ⟨early, behind, length, split, here, _, sees⟩ := exists_of_mem_allHits mem
    obtain ⟨isNumbered, _, b, e, more, isBlank, _, rfl⟩ := probe_eq_hit_iff.mp sees
    obtain rfl : place = early.length := by simpa using here
    refine .inr ⟨early, b, other, ?_, isBlank, isNumbered, mem⟩
    have apart : c ∉ other := fun inside => by simp [isNumbered.solid solid c inside] at blank
    exact eq_of_covered split (by simpa using starts) (by simpa using covers) apart

/-- **A numbered symbol between white space is declared, or follows one that is.** -/
theorem declared_or_behind_declared {before rest : Text} {c d : Char}
    (stemChars : ∀ c ∈ stem, isWordChar c = true) (numbered : IsNumbered stem symbol)
    (blank : isWhiteSpace c = true) (white : isWhiteSpace d = true) :
    symbol ∈ (declared (before ++ c :: (symbol ++ d :: rest)) stem).map Placeholder.symbol ∨
      ∃ early b other, before = early ++ b :: other ∧ isWhiteSpace b = true ∧
        IsNumbered stem other ∧
        other ∈ (declared (before ++ c :: (symbol ++ d :: rest)) stem).map Placeholder.symbol := by
  have solid : ∀ c ∈ stem, isWhiteSpace c = false := fun c mem =>
    not_isWhiteSpace_of_isDottedChar (isDottedChar_of_isWordChar (stemChars c mem))
  rcases mem_allHits_or_behind solid numbered blank white with
    mem | ⟨early, b, other, split, isBlank, isNumbered, mem⟩
  · exact .inl (mem_declared_iff.mpr ⟨_, mem, rfl⟩)
  · exact .inr ⟨early, b, other, split, isBlank, isNumbered, mem_declared_iff.mpr ⟨_, mem, rfl⟩⟩

end Placeholder

/-! ### Behind a renamed type -/

namespace Layout

variable {ending : Text}

/-- A renamed type ends as the type does, unless it has become the new name. -/
theorem getLast?_renamed_core {old new core : Text} {allowed : Text → Prop} {last : Option Char}
    (isWord : Word ending) (oldWord : Word old) (layout : Layout ending)
    (renamed : Renamed old new allowed last layout.core core) :
    core = new ∨ core ≠ [] ∧ core.getLast? = ending.getLast? := by
  obtain ⟨run, same, _⟩ := layout.core_dotted
  have ends : layout.core.getLast? = ending.getLast? := by
    rw [same, List.getLast?_append_of_ne_nil _ isWord.nonempty]
  rcases renamed.dotted_cases oldWord (layout.isDottedChar_of_mem_core isWord) with
    rfl | ⟨rest, split, rfl, _⟩
  · exact .inr ⟨layout.core_nonempty isWord, ends⟩
  · by_cases none : rest = []
    · rw [none, List.append_nil]
      exact .inl rfl
    · refine .inr ⟨List.append_ne_nil_of_right_ne_nil _ none, ?_⟩
      rw [← ends, split, List.getLast?_append_of_ne_nil _ none, List.getLast?_append_of_ne_nil _ none]

/-- **A numbered symbol at the end of a renamed type is the new name**, if the type does not end in a digit.
Otherwise its last character would be a digit at the end of the type. -/
theorem eq_of_renamed_type {stem new front early other : Text} {b : Char} (isWord : Word ending)
    (letter : ∀ c ∈ ending.getLast?, isDecimalDigit c = false) (newWord : Word new)
    (stemChars : ∀ c ∈ stem, isWordChar c = true) (layout : Layout ending)
    (stop : ∀ c ∈ front.getLast?, isWordChar c = false) (blank : isWhiteSpace b = true)
    (numbered : IsNumbered stem other)
    (split : front ++ rename (layout.mark ++ layout.core) layout.name new = early ++ b :: other) :
    other = new := by
  obtain ⟨mark, core, whole, onMark, onCore⟩ :=
    (renamed_rename (layout.mark ++ layout.core) layout.name new).split layout.name_word layout.edge_mark
  rw [whole] at split
  rcases layout.getLast?_renamed_core isWord layout.name_word onCore with rfl | ⟨some, ends⟩
  · have before : ∀ c ∈ (front ++ mark).getLast?, isWordChar c = false := by
      have same := onMark.getLast?_eq layout.name_word layout.not_isWordChar_getLast?_mark
      rw [List.getLast?_append, same]
      intro c last
      rcases Option.or_eq_some_iff.mp last with inMark | ⟨_, inFront⟩
      · exact layout.not_isWordChar_getLast?_mark c inMark
      · exact stop c inFront
    have cut : (front ++ mark) ++ core = (early ++ [b]) ++ other := by
      rw [List.append_assoc, split, List.append_assoc, List.singleton_append]
    refine (run_unique_right cut newWord.chars before (numbered.chars stemChars) ?_).2.symm
    rw [List.getLast?_concat]
    exact forall_mem_some (not_isWordChar_of_isWhiteSpace blank)
  · exfalso
    obtain ⟨c, last, digit⟩ := numbered.getLast
    have cut := congrArg List.getLast? split
    rw [← List.append_assoc, List.getLast?_append_of_ne_nil _ some, ends,
      List.getLast?_append_of_ne_nil _ (List.cons_ne_nil _ _), List.getLast?_cons,
      Option.mem_def.mp last] at cut
    rw [letter c cut] at digit
    exact Bool.noConfusion digit

end Layout

/-! ### The name of an enclosure -/

namespace HandleSite

variable {ending content : Text} {found : Occurrence Declaration} {names left : Names}
  {enclosure : Enclosure}

/-- The text with an enclosure in place, up to the type and from its new name on. -/
theorem exists_splice_named (isWord : Word ending) (site : HandleSite ending content found)
    (done : enclose found content names = .ok (enclosure, left)) :
    ∃ later, enclosure.splice content = (site.above ++ site.layout.indent ++ "try (".toList ++
        rename (site.layout.mark ++ site.layout.core) site.layout.name enclosure.symbol) ++
      ' ' :: (enclosure.symbol ++ ' ' :: later) := by
  obtain ⟨header, inner, rest, made, _, _, _, text⟩ := site.splice_eq done
  obtain ⟨value, renamed⟩ := Declaration.exists_rename_header isWord site.layout site.type_eq
    site.name_eq made enclosure.symbol
  rw [site.name_eq, renamed] at text
  rw [text]
  generalize rename (trimEnd inner) site.layout.name enclosure.symbol ++ _ = body
  generalize "try (".toList = first, ") \x7b".toList = second
  exact ⟨value ++ (second ++ body), by simp only [List.append_assoc, List.cons_append]⟩

/-- **The name of an enclosure is declared**, if types do not end in a digit. The symbol that uses up the
blank before the name stands at the end of the type. -/
theorem symbol_mem_declared (isWord : Word ending)
    (letter : ∀ c ∈ ending.getLast?, isDecimalDigit c = false)
    (stemChars : ∀ c ∈ names.handles.stem, isWordChar c = true)
    (site : HandleSite ending content found)
    (done : enclose found content names = .ok (enclosure, left)) :
    enclosure.symbol ∈
      (Placeholder.declared (enclosure.splice content) names.handles.stem).map Placeholder.symbol := by
  obtain ⟨_, _, _, _, _, next, _⟩ := enclose_eq_ok done
  obtain ⟨handles, allocated, _⟩ := Names.nextHandle_eq_some next
  obtain ⟨later, text⟩ := site.exists_splice_named isWord done
  have numbered := Counter.isNumbered_of_allocate allocated
  have newWord := Counter.word_of_allocate stemChars allocated
  have isBlank : isWhiteSpace ' ' = true := by decide
  have stop : ∀ c ∈ (site.above ++ site.layout.indent ++ "try (".toList).getLast?,
      isWordChar c = false := by
    rw [List.getLast?_append_of_ne_nil _ (by decide)]
    exact forall_mem_some (by decide)
  rw [text]
  rcases Placeholder.declared_or_behind_declared stemChars numbered isBlank isBlank with
    mem | ⟨early, b, other, split, blank, isNumbered, mem⟩
  · exact mem
  · rwa [site.layout.eq_of_renamed_type isWord letter newWord stemChars stop blank isNumbered split]
      at mem

end HandleSite

/-- **Enclosing and auditing agree on declarations.** Under the default settings, the name of an
enclosure is among the placeholders that the text with the enclosure in place declares. -/
theorem enclosed_symbol_declared {kind : HandleKind} {content : Text} {place : Nat}
    {found : Occurrence Declaration} {names left : Names} {enclosure : Enclosure}
    (stem : names.handles.stem = ({} : Settings).handleStem.toList)
    (next : nextDeclaration kind (Settings.typeOf {} kind) content place = some found)
    (done : enclose found content names = .ok (enclosure, left)) :
    enclosure.symbol ∈ (Placeholder.declared (enclosure.splice content)
      ({} : Settings).handleStem.toList).map Placeholder.symbol := by
  have valid : ({} : Settings).validate = .ok () := by decide +kernel
  have letter : ∀ kind, ∀ c ∈ (Settings.typeOf {} kind).getLast?, isDecimalDigit c = false := by
    rintro (_ | _)
    · exact forall_mem_some (by decide +kernel)
    · exact forall_mem_some (by decide +kernel)
  have stemChars : ∀ c ∈ names.handles.stem, isWordChar c = true := by
    rw [stem]
    exact List.all_eq_true.mp (by decide +kernel)
  obtain ⟨header, _, made, _⟩ := enclose_eq_ok done
  obtain ⟨site⟩ := nonempty_handleSite next made
  rw [← stem]
  exact site.symbol_mem_declared (Settings.word_typeOf valid kind) (letter kind) stemChars done

/-- A block with a cursor that is named like its type. -/
def namesakeBlock : Text :=
  "\x7b\n final ResultSet ResultSet = q();\n ResultSet.next();\n\x7d\n".toList

/-- The cursor of the block. -/
def namesake : Occurrence Declaration where
  place := 2
  value :=
    { kind := .cursor, indent := [' '], declaredType := "final ResultSet".toList,
      name := "ResultSet".toList, initializer := some "q()".toList, length := 33 }

/-- The enclosure of the cursor. The blank before its name ends the symbol that the type has become. -/
def namesakeEnclosure : Enclosure where
  start := 3
  stop := 55
  text := ("try (final generatedVariable7 generatedVariable7 = q()) \x7b\n" ++
    " generatedVariable7.next();\n \x7d\n").toList
  symbol := "generatedVariable7".toList
  header := "final generatedVariable7 generatedVariable7 = q()".toList

theorem namesakeBlock_declared :
    ∃ names left : Names, names.handles.stem = ({} : Settings).handleStem.toList ∧
      nextDeclaration .cursor (Settings.typeOf {} .cursor) namesakeBlock 0 = some namesake ∧
      enclose namesake namesakeBlock names = .ok (namesakeEnclosure, left) ∧
      "generatedVariable7".toList ∈ (Placeholder.declared (namesakeEnclosure.splice namesakeBlock)
        ({} : Settings).handleStem.toList).map Placeholder.symbol := by
  have next : nextDeclaration .cursor (Settings.typeOf {} .cursor) namesakeBlock 0 =
      some namesake := by
    decide +kernel
  have done : enclose namesake namesakeBlock
      ⟨⟨"generatedVariable".toList, some 7⟩, ⟨"stmt_generated_".toList, none⟩⟩ =
        .ok (namesakeEnclosure, ⟨⟨"generatedVariable".toList, some 8⟩,
          ⟨"stmt_generated_".toList, none⟩⟩) := by
    decide +kernel
  exact ⟨_, _, rfl, next, done, enclosed_symbol_declared rfl next done⟩

end ScopedHandles
