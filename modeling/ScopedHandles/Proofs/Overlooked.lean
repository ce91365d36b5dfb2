/-
**Placeholders that an audit overlooks.**

A numbered symbol is found together with the white space around it, and the search goes on behind that. Of
two symbols with one white space between them the second is overlooked, unless the first was. So in a row
of symbols that share their white space every second one is overlooked, and an audit reports the first
occurrence that is not.

* `Placeholder.Row` — the symbols in a row before a place.
* `Placeholder.mem_allHits_iff_even` — which symbols of a row are found.
* `Placeholder.isUsed_iff` — when a symbol is used.
* `Placeholder.exists_distinct` — first occurrences are kept, in their order.
* `Placeholder.audit_lists_free` — what an audit reports, and when it misses nothing.
-/

import ScopedHandles.Proofs.Placeholder
import Mathlib.Algebra.Ring.Parity
import Mathlib.Data.Nat.Find

namespace ScopedHandles

namespace Placeholder

variable {stem content before symbol : Text}

/-! ### Rows of symbols -/

/-- A numbered symbol stands between white space, `before` being the text before that. -/
structure Stands (stem content before symbol : Text) : Prop where
  numbered : IsNumbered stem symbol
  between : ∃ c d behind, isWhiteSpace c = true ∧ isWhiteSpace d = true ∧
    content = before ++ c :: (symbol ++ d :: behind)

/-- So many numbered symbols stand in a row at the end of a text, each behind one white space. -/
inductive Row (stem : Text) : Text → Nat → Prop where
  | none {before : Text} (alone : ∀ early b other, before = early ++ b :: other →
      isWhiteSpace b = true → ¬ IsNumbered stem other) : Row stem before 0
  | more {early other : Text} {b : Char} {count : Nat} (blank : isWhiteSpace b = true)
      (numbered : IsNumbered stem other) (row : Row stem early count) :
      Row stem (early ++ b :: other) (count + 1)

theorem exists_row (stem before : Text) : ∃ count, Row stem before count := by
  induction size : before.length using Nat.strongRecOn generalizing before with
  | ind size ih =>
    by_cases ends : ∃ early b other, before = early ++ b :: other ∧ isWhiteSpace b = true ∧
        IsNumbered stem other
    · obtain ⟨early, b, other, rfl, blank, numbered⟩ := ends
      obtain ⟨count, row⟩ := ih early.length (by simp [← size]) early rfl
      exact ⟨count + 1, .more blank numbered row⟩
    · exact ⟨0, .none fun early b other split blank numbered =>
        ends ⟨early, b, other, split, blank, numbered⟩⟩

/-- The last word of a text and what stands before it are told by the text. -/
theorem split_unique {early later one other : Text} {b c : Char}
    (same : early ++ b :: one = later ++ c :: other) (blank : isWhiteSpace b = true)
    (white : isWhiteSpace c = true) (solid : ∀ d ∈ one, isWhiteSpace d = false)
    (otherSolid : ∀ d ∈ other, isWhiteSpace d = false) : early = later ∧ one = other := by
  have cut : (early ++ [b]) ++ one = (later ++ [c]) ++ other := by
    simpa using same
  have stop : ∀ (text : Text) {e : Char}, isWhiteSpace e = true →
      ∀ d ∈ (text ++ [e]).getLast?, (!isWhiteSpace d) = false := by
    intro text e blank
    rw [List.getLast?_concat]
    exact forall_mem_some (by simp [blank])
  obtain ⟨front, back⟩ := run_unique_right (p := (!isWhiteSpace ·)) cut (by simpa using solid)
    (stop early blank) (by simpa using otherSolid) (stop later white)
  exact ⟨(List.append_inj' front rfl).1, back⟩

/-- **Every second symbol of a row is found**, from the first on. -/
theorem mem_allHits_iff_even (solid : ∀ c ∈ stem, isWhiteSpace c = false) {count : Nat}
    (row : Row stem before count) (stands : Stands stem content before symbol) :
    { place := before.length, value := symbol } ∈ allHits (probe stem) 0 0 none content ↔
      Even count := by
  induction row generalizing symbol with
  | none alone =>
    obtain ⟨numbered, c, d, behind, blank, white, rfl⟩ := stands
    refine iff_of_true ?_ Even.zero
    refine (mem_allHits_or_behind solid numbered blank white).resolve_right ?_
    rintro ⟨early, b, other, split, isBlank, isNumbered, _⟩
    exact alone early b other split isBlank isNumbered
  | @more early other b count isBlank isNumbered row ih =>
    obtain ⟨numbered, c, d, behind, blank, white, rfl⟩ := stands
    have former := ih ⟨isNumbered, b, c, symbol ++ d :: behind, isBlank, blank, by simp⟩
    rw [Nat.even_add_one, ← former]
    constructor
    · intro found first
      have apart := le_place_of_mem_allHits advances_probe first found (by simp)
      simp only [List.length_append, List.length_cons] at apart
      omega
    · intro overlooked
      refine (mem_allHits_or_behind solid numbered blank white).resolve_right ?_
      rintro ⟨first, e, one, split, isWhite, oneNumbered, found⟩
      obtain ⟨rfl, rfl⟩ := split_unique split isBlank isWhite (isNumbered.solid solid)
        (oneNumbered.solid solid)
      exact overlooked found

/-- A numbered symbol stands at a place, between white space. -/
def StandsAt (stem content : Text) (found : Occurrence Text) : Prop :=
  ∃ before, Stands stem content before found.value ∧ found.place = before.length + 1

/-- A numbered symbol stands at a place, and the search is free for it when it comes to the white space
before it. -/
def FreeAt (stem content : Text) (found : Occurrence Text) : Prop :=
  ∃ before count, Stands stem content before found.value ∧ found.place = before.length + 1 ∧
    Row stem before count ∧ Even count

/-- **The search finds the free symbols**, each from the white space before it on. -/
theorem mem_allHits_iff_freeAt (solid : ∀ c ∈ stem, isWhiteSpace c = false) {found : Occurrence Text} :
    found ∈ allHits (probe stem) 0 0 none content ↔ FreeAt stem content (found.shift 1) := by
  constructor
  · intro mem
    obtain ⟨before, behind, length, split, here, _, seen⟩ := exists_of_mem_allHits mem
    obtain ⟨numbered, _, c, d, rest, blank, white, rfl⟩ := probe_eq_hit_iff.mp seen
    have stands : Stands stem content before found.value :=
      ⟨numbered, c, d, rest, blank, white, split⟩
    obtain ⟨place, value⟩ := found
    obtain rfl : place = before.length := by simpa using here
    obtain ⟨count, row⟩ := exists_row stem before
    exact ⟨before, count, stands, rfl, row, (mem_allHits_iff_even solid row stands).mp mem⟩
  · rintro ⟨before, count, stands, here, row, even⟩
    obtain ⟨place, value⟩ := found
    obtain rfl : place = before.length := Nat.succ_injective here
    exact (mem_allHits_iff_even solid row stands).mpr even

theorem FreeAt.standsAt {found : Occurrence Text} (free : FreeAt stem content found) :
    StandsAt stem content found := by
  obtain ⟨before, _, stands, here, _⟩ := free
  exact ⟨before, stands, here⟩

/-- The symbols that stand in a text, free or not. -/
def standing (stem content : Text) : List (Occurrence Text) :=
  (List.range content.length).filterMap fun place =>
    match probe stem none (content.drop place) with
    | .hit value _ => some { place := place + 1, value }
    | _ => none

theorem mem_standing_iff {found : Occurrence Text} :
    found ∈ standing stem content ↔ StandsAt stem content found := by
  rw [standing, List.mem_filterMap]
  constructor
  · rintro ⟨place, inside, seen⟩
    rw [List.mem_range] at inside
    split at seen
    · next value length hit =>
      obtain rfl := Option.some.inj seen
      obtain ⟨numbered, _, c, d, rest, blank, white, split⟩ := probe_eq_hit_iff.mp hit
      refine ⟨content.take place, ⟨numbered, c, d, rest, blank, white, ?_⟩, ?_⟩
      · rw [← split, List.take_append_drop]
      · rw [List.length_take_of_le inside.le]
    · cases seen
  · rintro ⟨before, ⟨numbered, c, d, rest, blank, white, rfl⟩, here⟩
    have hit : probe stem none (c :: (found.value ++ d :: rest)) =
        .hit found.value (found.value.length + 2) :=
      probe_eq_hit_iff.mpr ⟨numbered, rfl, c, d, rest, blank, white, rfl⟩
    refine ⟨before.length, by simp, ?_⟩
    simp only [List.drop_left, hit, ← here]

/-! ### Uses -/

/-- A symbol is used: at an edge of a word it begins a call. -/
def Used (content symbol : Text) : Prop :=
  ∃ before behind, content = before ++ behind ∧ atWordBoundary before.getLast? behind = true ∧
    (symbol ++ ".exe".toList <+: behind ∨ symbol ++ ".next".toList <+: behind)

theorem useProbe_eq_hit_iff {last : Option Char} {text : Text} {length : Nat} :
    useProbe symbol last text = .hit () length ↔
      length = symbol.length ∧ atWordBoundary last text = true ∧
        (symbol ++ ".exe".toList <+: text ∨ symbol ++ ".next".toList <+: text) := by
  simp only [useProbe, Bool.and_eq_true, Bool.or_eq_true, List.isPrefixOf_iff_prefix]
  split_ifs with uses
  · exact ⟨fun same => ⟨(Probe.hit.inj same).2.symm, uses⟩, fun ⟨same, _⟩ => same ▸ rfl⟩
  · exact ⟨(nomatch ·), fun ⟨_, holds⟩ => absurd holds uses⟩

theorem useProbe_ne_pass (last : Option Char) (text : Text) (length : Nat) :
    useProbe symbol last text ≠ .pass length := by
  rw [useProbe]
  split_ifs
  · exact (nomatch ·)
  · exact (nomatch ·)

/-- **The search for a use finds one if there is one.** -/
theorem isUsed_iff (some : symbol ≠ []) : isUsed content symbol = true ↔ Used content symbol := by
  have advances : Advances (useProbe symbol) fun _ => symbol.length := by
    intro last text value length seen
    obtain ⟨rfl, _⟩ := useProbe_eq_hit_iff.mp seen
    exact ⟨rfl, List.length_pos_iff.mpr some⟩
  rw [isUsed, firstHit_eq_head?, Option.isSome_iff_exists]
  constructor
  · rintro ⟨found, first⟩
    obtain ⟨before, behind, length, split, _, _, seen⟩ :=
      exists_of_mem_allHits (List.mem_of_mem_head? first)
    obtain ⟨_, edge, calls⟩ := useProbe_eq_hit_iff.mp seen
    exact ⟨before, behind, split, by simpa using edge, calls⟩
  · rintro ⟨before, behind, rfl, edge, calls⟩
    have seen : useProbe symbol (before.getLast?.or none) behind = .hit () symbol.length :=
      useProbe_eq_hit_iff.mpr ⟨rfl, by simpa using edge, calls⟩
    have nonempty : behind ≠ [] := by
      rintro rfl
      simp [some] at calls
    obtain ⟨found, mem⟩ : ∃ found, found ∈ allHits (useProbe symbol) 0 0 none (before ++ behind) := by
      rcases mem_allHits_or_covered advances useProbe_ne_pass 0 seen nonempty (Nat.zero_le _) with
        mem | ⟨found, mem, _⟩
      · exact ⟨_, mem⟩
      · exact ⟨found, mem⟩
    exact ⟨_, List.head?_eq_some_head (List.ne_nil_of_mem mem)⟩

/-! ### First occurrences -/

/-- An occurrence as an audit reports it. -/
def ofOccurrence (content : Text) (found : Occurrence Text) : Placeholder where
  symbol := found.value
  line := lineAt content found.place

/-- **Of occurrences in order, the first ones are kept**, those of a symbol not seen before. An occurrence
behind another one of its symbol is not the first. -/
theorem exists_distinct {occurrences : List (Occurrence Text)}
    (order : occurrences.Pairwise fun found later => found.place < later.place) (seen : List Text) :
    ∃ kept : List (Occurrence Text),
      distinct seen (occurrences.map (ofOccurrence content)) = kept.map (ofOccurrence content) ∧
      kept.Sublist occurrences ∧ ∀ found, found ∈ kept ↔
        found ∈ occurrences ∧ found.value ∉ seen ∧
          ∀ other ∈ occurrences, other.value = found.value → found.place ≤ other.place := by
  induction occurrences generalizing seen with
  | nil => exact ⟨[], rfl, .refl _, by simp⟩
  | cons first rest ih =>
    obtain ⟨behind, order⟩ := List.pairwise_cons.mp order
    rw [List.map_cons, distinct]
    split_ifs with occurred
    · rw [List.contains_iff_mem] at occurred
      obtain ⟨kept, same, sub, each⟩ := ih order seen
      refine ⟨kept, same, sub.cons _, fun found => ?_⟩
      rw [each, List.mem_cons, List.forall_mem_cons]
      constructor
      · rintro ⟨mem, fresh, least⟩
        exact ⟨.inr mem, fresh, fun eq => absurd (eq ▸ occurred) fresh, least⟩
      · rintro ⟨rfl | mem, fresh, _, least⟩
        · exact absurd occurred fresh
        · exact ⟨mem, fresh, least⟩
    · rw [List.contains_iff_mem] at occurred
      obtain ⟨kept, same, sub, each⟩ := ih order (first.value :: seen)
      refine ⟨first :: kept, congrArg _ same, sub.cons_cons _, fun found => ?_⟩
      rw [List.mem_cons, each, List.mem_cons, List.forall_mem_cons, List.mem_cons]
      constructor
      · rintro (rfl | ⟨mem, fresh, least⟩)
        · exact ⟨.inl rfl, occurred, fun _ => le_rfl, fun other mem _ => (behind other mem).le⟩
        · exact ⟨.inr mem, fun old => fresh (.inr old), fun eq => absurd (.inl eq.symm) fresh, least⟩
      · rintro ⟨rfl | mem, fresh, sooner, least⟩
        · exact .inl rfl
        · refine .inr ⟨mem, ?_, least⟩
          rintro (eq | old)
          · exact absurd (sooner eq.symm) (behind found mem).not_ge
          · exact fresh old

/-- The first of the occurrences of its symbol that count. -/
def IsFirst (counts : Occurrence Text → Prop) (found : Occurrence Text) : Prop :=
  counts found ∧ ∀ other, counts other → other.value = found.value → found.place ≤ other.place

/-- A report lists the first occurrences that count, of the symbols without a use, in their order. -/
def Reports (counts : Occurrence Text → Prop) (content : Text) (report : List Placeholder) : Prop :=
  ∃ firsts : List (Occurrence Text), report = firsts.map (ofOccurrence content) ∧
    (firsts.Pairwise fun found later => found.place < later.place) ∧
    ∀ found, found ∈ firsts ↔ IsFirst counts found ∧ ¬ Used content found.value

theorem exists_isFirst {counts : Occurrence Text → Prop} {place : Nat}
    (counted : counts { place, value := symbol }) :
    ∃ first, IsFirst counts { place := first, value := symbol } := by
  classical
  have some : ∃ place, counts { place, value := symbol } := ⟨place, counted⟩
  refine ⟨Nat.find some, Nat.find_spec some, ?_⟩
  rintro ⟨other, _⟩ also rfl
  exact Nat.find_min' some also

namespace Reports

variable {counts : Occurrence Text → Prop} {report : List Placeholder}

/-- No symbol is reported twice. -/
theorem nodup (reports : Reports counts content report) :
    (report.map Placeholder.symbol).Nodup := by
  obtain ⟨firsts, rfl, order, each⟩ := reports
  rw [List.map_map]
  refine List.pairwise_map.mpr (order.imp_of_mem fun mem member sooner same => ?_)
  have least := ((each _).mp member).1.2 _ ((each _).mp mem).1.1 same
  exact absurd sooner least.not_gt

/-- A symbol is reported if and only if one of its occurrences counts and it has no use. -/
theorem mem_symbols_iff (reports : Reports counts content report) :
    symbol ∈ report.map Placeholder.symbol ↔
      (∃ place, counts { place, value := symbol }) ∧ ¬ Used content symbol := by
  obtain ⟨firsts, rfl, _, each⟩ := reports
  rw [List.map_map, List.mem_map]
  constructor
  · rintro ⟨found, mem, rfl⟩
    obtain ⟨⟨counted, _⟩, idle⟩ := (each found).mp mem
    exact ⟨⟨found.place, counted⟩, idle⟩
  · rintro ⟨⟨place, counted⟩, idle⟩
    obtain ⟨first, isFirst⟩ := exists_isFirst counted
    exact ⟨_, (each _).mpr ⟨isFirst, idle⟩, rfl⟩

end Reports

/-- The results of the search, each at the place of its symbol. -/
def symbolHits (stem content : Text) : List (Occurrence Text) :=
  (allHits (probe stem) 0 0 none content).map (Occurrence.shift 1)

theorem declared_eq : declared content stem =
    distinct [] ((symbolHits stem content).map (ofOccurrence content)) := by
  rw [symbolHits, List.map_map]
  rfl

theorem pairwise_symbolHits (stem content : Text) :
    (symbolHits stem content).Pairwise fun found later => found.place < later.place := by
  refine List.pairwise_map.mpr ((pairwise_allHits advances_probe 0 0 none content).imp ?_)
  intro found later apart
  simp only [Occurrence.shift]
  omega

theorem mem_symbolHits_iff (solid : ∀ c ∈ stem, isWhiteSpace c = false) {found : Occurrence Text} :
    found ∈ symbolHits stem content ↔ FreeAt stem content found := by
  rw [symbolHits, List.mem_map]
  constructor
  · rintro ⟨hit, mem, rfl⟩
    exact (mem_allHits_iff_freeAt solid).mp mem
  · rintro ⟨before, count, stands, here, row, even⟩
    refine ⟨{ place := before.length, value := found.value }, ?_, by rw [Occurrence.shift, ← here]⟩
    exact (mem_allHits_iff_freeAt solid).mpr ⟨before, count, stands, rfl, row, even⟩

/-- **An audit reports the first free occurrences** of the symbols without a use. -/
theorem reports_unused (solid : ∀ c ∈ stem, isWhiteSpace c = false) :
    Reports (FreeAt stem content) content (unused content stem) := by
  obtain ⟨kept, same, sub, each⟩ := exists_distinct (pairwise_symbolHits stem content) []
  refine ⟨kept.filter fun found => !isUsed content found.value, ?_, ?_, fun found => ?_⟩
  · rw [unused, declared_eq, same, List.filter_map]
    rfl
  · exact ((pairwise_symbolHits stem content).sublist sub).sublist List.filter_sublist
  · have firsts : found ∈ kept ↔ IsFirst (FreeAt stem content) found := by
      rw [each]
      simp only [mem_symbolHits_iff solid, List.not_mem_nil, not_false_eq_true, true_and]
      rfl
    rw [List.mem_filter, firsts]
    refine and_congr_right fun first => ?_
    obtain ⟨_, stands, _⟩ := first.1.standsAt
    rw [← isUsed_iff stands.numbered.ne_nil, Bool.not_eq_true', Bool.not_eq_true]

/-- The same occurrences are reported first if those that stand first are free. The first of all occurrences
of a symbol is free, and no other one stands before it. -/
theorem Reports.standing {report : List Placeholder}
    (reports : Reports (FreeAt stem content) content report)
    (free : ∀ found, IsFirst (StandsAt stem content) found → ¬ Used content found.value →
      FreeAt stem content found) :
    Reports (StandsAt stem content) content report := by
  obtain ⟨firsts, same, order, each⟩ := reports
  refine ⟨firsts, same, order, fun found => (each found).trans ?_⟩
  refine and_congr_left fun idle => ⟨fun ⟨isFree, least⟩ => ?_, fun isFirst => ?_⟩
  · refine ⟨isFree.standsAt, fun other stands eq => ?_⟩
    obtain ⟨first, isFirst⟩ := exists_isFirst stands
    have unusedFirst : ¬ Used content other.value := eq ▸ idle
    exact (least _ (free _ isFirst unusedFirst) eq).trans (isFirst.2 other stands rfl)
  · exact ⟨free found isFirst idle, fun other isFree => isFirst.2 other isFree.standsAt⟩

/-- **What an audit reports.** For a stem without white space, an audit lists the first free occurrences of
the symbols without a use, in their order and with their lines. It lists no symbol twice, and it lists
a symbol if and only if it has no use and stands free somewhere. Where the symbols without a use are free
when they first stand in the text, it lists the first occurrences of all symbols without a use. -/
theorem audit_lists_free (solid : ∀ c ∈ stem, isWhiteSpace c = false) :
    Reports (FreeAt stem content) content (unused content stem) ∧
      ((unused content stem).map Placeholder.symbol).Nodup ∧
      (∀ symbol, symbol ∈ (unused content stem).map Placeholder.symbol ↔
        (∃ place, FreeAt stem content { place, value := symbol }) ∧ ¬ Used content symbol) ∧
      ((∀ found, IsFirst (StandsAt stem content) found → ¬ Used content found.value →
          FreeAt stem content found) →
        Reports (StandsAt stem content) content (unused content stem)) := by
  have reports : Reports (FreeAt stem content) content (unused content stem) := reports_unused solid
  exact ⟨reports, reports.nodup, fun _ => reports.mem_symbols_iff, reports.standing⟩

/-- A text with a symbol at its beginning, one that is used, and two with two blanks between them. -/
def spacedSymbols : Text :=
  "p0 p1 = p1.next();\n p2  p3 ".toList

theorem spacedSymbols_listed :
    (∀ c ∈ ['p'], isWhiteSpace c = false) ∧
      (∀ found, IsFirst (StandsAt ['p'] spacedSymbols) found → ¬ Used spacedSymbols found.value →
        FreeAt ['p'] spacedSymbols found) ∧
      Reports (StandsAt ['p'] spacedSymbols) spacedSymbols
        [{ symbol := "p2".toList, line := 2 }, { symbol := "p3".toList, line := 2 }] := by
  have solid : ∀ c ∈ ['p'], isWhiteSpace c = false := List.forall_mem_singleton.mpr (by decide)
  have found : ∀ found ∈ standing ['p'] spacedSymbols, found ∈ symbolHits ['p'] spacedSymbols := by
    decide +kernel
  have free : ∀ found, IsFirst (StandsAt ['p'] spacedSymbols) found →
      ¬ Used spacedSymbols found.value → FreeAt ['p'] spacedSymbols found := by
    rintro one ⟨stands, _⟩ _
    exact (mem_symbolHits_iff solid).mp (found one (mem_standing_iff.mpr stands))
  have report : unused spacedSymbols ['p'] =
      [{ symbol := "p2".toList, line := 2 }, { symbol := "p3".toList, line := 2 }] := by
    decide +kernel
  exact ⟨solid, free, report ▸ (audit_lists_free solid).2.2.2 free⟩

/-- Two symbols with one blank between them. -/
def sharedBlank : Text :=
  " p1 p2 ".toList

/-- An audit does not report every symbol without a use that stands between white space. -/
theorem sharedBlank_overlooked :
    StandsAt ['p'] sharedBlank { place := 4, value := "p2".toList } ∧
      ¬ Used sharedBlank "p2".toList ∧
      unused sharedBlank ['p'] = [{ symbol := "p1".toList, line := 1 }] ∧
      ¬ Reports (StandsAt ['p'] sharedBlank) sharedBlank (unused sharedBlank ['p']) := by
  have stands : StandsAt ['p'] sharedBlank { place := 4, value := "p2".toList } :=
    mem_standing_iff.mp (by decide +kernel)
  have idle : ¬ Used sharedBlank "p2".toList := by
    rw [← isUsed_iff (by decide)]
    decide +kernel
  have report : unused sharedBlank ['p'] = [{ symbol := "p1".toList, line := 1 }] := by
    decide +kernel
  refine ⟨stands, idle, report, fun reports => ?_⟩
  have reported := reports.mem_symbols_iff.mpr ⟨⟨4, stands⟩, idle⟩
  rw [report] at reported
  exact absurd reported (by decide +kernel)

end Placeholder

end ScopedHandles
