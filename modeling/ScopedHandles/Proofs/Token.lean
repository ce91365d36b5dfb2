/-
**How a scan reads tokens.**

A text may be written as a sequence of tokens: code, line comments, block comments with comments inside
them, and literals. Behind every token a scan stands as it stood before the first, so each token is read
as if it were alone.

* `Scanner.Reads` — what a scan makes of a piece of text, and where it stands then.
* `CommentBody.reads` — the inside of a block comment, at any depth.
* `Token.reads` — one token.
* `scan_reads_tokens` — a sequence of tokens.
-/

import ScopedHandles.Proofs.Scanner
import Mathlib.Data.List.Chain

namespace ScopedHandles

/-! ### Tokens -/

/-- No block comment is opened or closed, neither by two characters of the text nor by its last one and
what follows. -/
structure Unmarked (text : Text) : Prop where
  opener : ¬ ['/', '*'] <:+: text
  closer : ¬ ['*', '/'] <:+: text
  ending : ∀ c ∈ text.getLast?, c ≠ '/' ∧ c ≠ '*'

/-- Neither comments nor literals begin in the text. -/
structure IsCode (text : Text) : Prop extends Unmarked text where
  slashes : ¬ ['/', '/'] <:+: text
  quotes : ∀ c ∈ text, c ≠ '"' ∧ c ≠ '\''

/-- Whether the characters `c` and `d` stand side by side. -/
def hasPair (c d : Char) : Text → Bool
  | first :: second :: rest => (c == first && d == second) || hasPair c d (second :: rest)
  | _ => false

theorem hasPair_iff {c d : Char} {text : Text} : hasPair c d text = true ↔ [c, d] <:+: text := by
  induction text with
  | nil => simp [hasPair]
  | cons first rest ih =>
    cases rest with
    | nil => simp [hasPair, List.infix_cons_iff]
    | cons second rest =>
      rw [hasPair, Bool.or_eq_true, List.infix_cons_iff, ih]
      simp [List.cons_prefix_cons]

theorem hasPair_eq_false_iff {c d : Char} {text : Text} :
    hasPair c d text = false ↔ ¬ [c, d] <:+: text := by
  rw [← hasPair_iff, Bool.not_eq_true]

instance (text : Text) : Decidable (Unmarked text) :=
  decidable_of_iff (hasPair '/' '*' text = false ∧ hasPair '*' '/' text = false ∧
      text.getLast? ≠ some '/' ∧ text.getLast? ≠ some '*') <| by
    rw [hasPair_eq_false_iff, hasPair_eq_false_iff]
    constructor
    · rintro ⟨opener, closer, slash, star⟩
      refine ⟨opener, closer, fun c last => ⟨?_, ?_⟩⟩
      · rintro rfl
        exact slash last
      · rintro rfl
        exact star last
    · rintro ⟨opener, closer, ending⟩
      exact ⟨opener, closer, fun last => (ending _ last).1 rfl, fun last => (ending _ last).2 rfl⟩

instance (text : Text) : Decidable (IsCode text) :=
  decidable_of_iff (Unmarked text ∧ hasPair '/' '/' text = false ∧
      text.all (fun c => c != '"' && c != '\'') = true) <| by
    simp only [hasPair_eq_false_iff, List.all_eq_true, Bool.and_eq_true, bne_iff_ne]
    exact ⟨fun ⟨unmarked, slashes, quotes⟩ => ⟨unmarked, slashes, quotes⟩,
      fun isCode => ⟨isCode.toUnmarked, isCode.slashes, isCode.quotes⟩⟩

/-- The inside of a block comment: plain text and further block comments. -/
inductive CommentBody where
  | done
  | plain (text : Text) (unmarked : Unmarked text) (rest : CommentBody)
  | nested (inner rest : CommentBody)

/-- A part of the inside of a literal: a character that neither ends it nor escapes, or a backslash and
what it escapes. -/
inductive LiteralPart (quote : Char) where
  | plain (c : Char) (inside : c ≠ quote ∧ c ≠ '\\' ∧ c ≠ '\n')
  | escape (c : Char)

/-- A piece of a source text that stands for itself. -/
inductive Token where
  | code (text : Text) (isCode : IsCode text)
  | lineComment (text : Text) (single : '\n' ∉ text)
  | blockComment (body : CommentBody)
  | literal (quote : Char) (isQuote : quote = '"' ∨ quote = '\'') (parts : List (LiteralPart quote))

/-- What a block comment is written between. -/
def commented (inner : Text) : Text :=
  ['/', '*'] ++ (inner ++ ['*', '/'])

/-- The inside of a comment as it is written. -/
def CommentBody.text : CommentBody → Text
  | .done => []
  | .plain text _ rest => text ++ rest.text
  | .nested inner rest => commented inner.text ++ rest.text

/-- A part of a literal as it is written. -/
def LiteralPart.text {quote : Char} : LiteralPart quote → Text
  | .plain c _ => [c]
  | .escape c => ['\\', c]

namespace Token

/-- A token as it is written. -/
def text : Token → Text
  | .code text _ => text
  | .lineComment text _ => ['/', '/'] ++ (text ++ ['\n'])
  | .blockComment body => commented body.text
  | .literal quote _ parts => quote :: (parts.flatMap LiteralPart.text ++ [quote])

/-- The regions of the characters of a token. The first character of a comment is still code. -/
def regions (token : Token) : List Region :=
  match token with
  | .code _ _ => token.text.map fun _ => .code
  | .lineComment _ _ => .code :: token.text.tail.map fun _ => .lineComment
  | .blockComment _ => .code :: token.text.tail.map fun _ => .blockComment
  | .literal _ _ _ => token.text.map fun _ => .literal

end Token

/-! ### Scans of pieces -/

theorem Half.of_eq_slash_iff {c : Char} : Half.of c = .slash ↔ c = '/' := by
  unfold Half.of
  split_ifs <;> simp_all

theorem Half.of_eq_star_iff {c : Char} : Half.of c = .star ↔ c = '*' := by
  unfold Half.of
  split_ifs <;> simp_all

namespace Scanner

/-- From the state `before` on, a scan gives these regions to the characters of a text, and stands in the
state `after` behind it. -/
structure Reads (before : Scanner) (text : Text) (regions : List Region) (after : Scanner) : Prop where
  regions_eq : before.regions text = regions
  run_eq : before.run text = after

/-- All characters of the text have the same region. -/
def ReadsAs (region : Region) (before : Scanner) (text : Text) (after : Scanner) : Prop :=
  Reads before text (text.map fun _ => region) after

theorem regions_append (scanner : Scanner) (text later : Text) :
    scanner.regions (text ++ later) = scanner.regions text ++ (scanner.run text).regions later := by
  induction text generalizing scanner with
  | nil => rfl
  | cons c rest ih => rw [List.cons_append, regions, regions, ih, run_cons, List.cons_append]

variable {before middle after : Scanner} {region : Region} {text later : Text}

/-- **Pieces are read one after the other.** -/
theorem Reads.append {regions others : List Region} (first : Reads before text regions middle)
    (second : Reads middle later others after) : Reads before (text ++ later) (regions ++ others) after where
  regions_eq := by rw [regions_append, first.regions_eq, first.run_eq, second.regions_eq]
  run_eq := by rw [run_append, first.run_eq, second.run_eq]

theorem ReadsAs.nil : ReadsAs region before [] before :=
  ⟨rfl, rfl⟩

theorem ReadsAs.cons {c : Char} (here : before.regionOf c = region)
    (rest : ReadsAs region (before.next c) text after) : ReadsAs region before (c :: text) after where
  regions_eq := by rw [regions, here, rest.regions_eq, List.map_cons]
  run_eq := rest.run_eq

theorem ReadsAs.append (first : ReadsAs region before text middle)
    (second : ReadsAs region middle later after) : ReadsAs region before (text ++ later) after := by
  rw [ReadsAs, List.map_append]
  exact Reads.append first second

/-! ### Characters that are read by themselves -/

/-- The region of text that stands in so many comments. -/
def regionAt (depth : Int) : Region :=
  if 0 < depth then .blockComment else .code

/-- Behind `c` the character `d` is no part of a marker, and begins no literal. In a comment only the
markers of block comments count. -/
structure Ordinary (depth : Int) (c d : Char) : Prop where
  markers : ¬ (c = '/' ∧ d = '*') ∧ ¬ (c = '*' ∧ d = '/')
  code : 0 < depth ∨ ¬ (c = '/' ∧ d = '/') ∧ d ≠ '"' ∧ d ≠ '\''

variable {depth : Int} {c d : Char}

theorem Ordinary.regionOf_eq (ordinary : Ordinary depth c d) :
    regionOf ⟨.plain (Half.of c), depth⟩ d = regionAt depth := by
  obtain ⟨markers, code⟩ := ordinary
  simp only [regionOf, regionAt, Half.of_eq_slash_iff]
  split_ifs <;> simp_all

theorem Ordinary.next_eq (ordinary : Ordinary depth c d) :
    next ⟨.plain (Half.of c), depth⟩ d = ⟨.plain (Half.of d), depth⟩ := by
  obtain ⟨markers, code⟩ := ordinary
  simp only [next, Half.of_eq_slash_iff, Half.of_eq_star_iff]
  split_ifs <;> simp_all

/-- **A text of ordinary characters has one region.** -/
theorem reads_of_ordinary (ordinary : (c :: text).IsChain (Ordinary depth)) :
    ReadsAs (regionAt depth) ⟨.plain (Half.of c), depth⟩ text
      ⟨.plain (Half.of ((c :: text).getLast (by simp))), depth⟩ := by
  induction text generalizing c with
  | nil => exact .nil
  | cons d text ih =>
    obtain ⟨first, rest⟩ := List.isChain_cons_cons.mp ordinary
    refine .cons first.regionOf_eq ?_
    rw [first.next_eq, List.getLast_cons (by simp)]
    exact ih rest

/-- A text that opens and closes no block comment leaves a scan as it was. Outside of comments it must not
begin a line comment or a literal either. Nothing is pending before the text, as it is behind a blank. -/
theorem reads_unmarked (unmarked : Unmarked text)
    (code : 0 < depth ∨ ¬ ['/', '/'] <:+: text ∧ ∀ c ∈ text, c ≠ '"' ∧ c ≠ '\'') :
    ReadsAs (regionAt depth) ⟨.plain .clear, depth⟩ text ⟨.plain .clear, depth⟩ := by
  have ordinary : (' ' :: text).IsChain (Ordinary depth) := by
    refine List.isChain_cons.mpr ⟨fun c first => ⟨by simp, ?_⟩, ?_⟩
    · refine code.imp_right fun ⟨_, quotes⟩ => ⟨by simp, quotes c (List.mem_of_mem_head? first)⟩
    · refine (List.isChain_isInfix text).imp_of_mem_imp fun c d _ mem adjacent => ⟨⟨?_, ?_⟩, ?_⟩
      · rintro ⟨rfl, rfl⟩
        exact unmarked.opener adjacent
      · rintro ⟨rfl, rfl⟩
        exact unmarked.closer adjacent
      · refine code.imp_right fun ⟨slashes, quotes⟩ => ⟨?_, quotes d mem⟩
        rintro ⟨rfl, rfl⟩
        exact slashes adjacent
  have last : Half.of ((' ' :: text).getLast (by simp)) = .clear := by
    cases text with
    | nil => rfl
    | cons c text =>
      obtain ⟨slash, star⟩ := unmarked.ending _ (List.getLast?_eq_some_getLast (List.cons_ne_nil c text))
      rw [List.getLast_cons (by simp), Half.of, if_neg slash, if_neg star]
  have reads := reads_of_ordinary ordinary
  rw [last] at reads
  exact reads

end Scanner

/-! ### The inside of comments and literals -/

open Scanner

variable {depth : Int}

theorem reads_opener (deep : 0 < depth) :
    ReadsAs .blockComment ⟨.plain .clear, depth⟩ ['/', '*'] ⟨.plain .clear, depth + 1⟩ := by
  refine .cons (by simp [regionOf, deep]) (.cons ?_ ?_)
  · simp [next, regionOf, Half.of, deep]
  · simp [next, Half.of, deep, ReadsAs.nil]

theorem reads_closer (deep : 0 < depth) :
    ReadsAs .blockComment ⟨.plain .clear, depth⟩ ['*', '/'] ⟨.plain .clear, depth - 1⟩ := by
  refine .cons (by simp [regionOf, deep]) (.cons ?_ ?_)
  · simp [next, regionOf, Half.of, deep]
  · simp [next, Half.of, deep, ReadsAs.nil]

/-- **The inside of a comment** is read as a comment and leaves its depth as it was. A comment inside is read
one level deeper. -/
theorem CommentBody.reads (body : CommentBody) (deep : 0 < depth) :
    ReadsAs .blockComment ⟨.plain .clear, depth⟩ body.text ⟨.plain .clear, depth⟩ := by
  induction body generalizing depth with
  | done => exact .nil
  | plain text unmarked rest ih =>
    have here := reads_unmarked unmarked (.inl deep)
    rw [regionAt, if_pos deep] at here
    exact here.append (ih deep)
  | nested inner rest inside ih =>
    have closes : ReadsAs .blockComment ⟨.plain .clear, depth + 1⟩ ['*', '/']
        ⟨.plain .clear, depth + 1 - 1⟩ := reads_closer (by omega)
    rw [Int.add_sub_cancel] at closes
    exact ((reads_opener deep).append ((inside (by omega)).append closes)).append (ih deep)

/-- The inside of a literal leaves the literal open. -/
theorem LiteralPart.reads {quote : Char} (part : LiteralPart quote) :
    ReadsAs .literal ⟨.literal quote false, depth⟩ part.text ⟨.literal quote false, depth⟩ := by
  cases part with
  | plain c inside =>
    obtain ⟨unquoted, unescaped, single⟩ := inside
    refine .cons rfl ?_
    simp [next, unquoted, unescaped, single, ReadsAs.nil]
  | escape c =>
    refine .cons rfl (.cons ?_ ?_)
    · simp [next, regionOf]
    · simp [next, ReadsAs.nil]

theorem reads_parts {quote : Char} (parts : List (LiteralPart quote)) :
    ReadsAs .literal ⟨.literal quote false, depth⟩ (parts.flatMap LiteralPart.text)
      ⟨.literal quote false, depth⟩ := by
  induction parts with
  | nil => exact .nil
  | cons part parts ih => exact part.reads.append ih

/-- The text of a line comment leaves the comment open. -/
theorem reads_line {text : Text} (single : '\n' ∉ text) :
    ReadsAs .lineComment ⟨.lineComment, depth⟩ text ⟨.lineComment, depth⟩ := by
  induction text with
  | nil => exact .nil
  | cons c text ih =>
    rw [List.mem_cons, not_or] at single
    refine .cons rfl ?_
    simpa [next, Ne.symm single.1] using ih single.2

/-! ### Tokens -/

/-- **A token is read as what it is**, and leaves nothing open. -/
theorem Token.reads (token : Token) : Reads start token.text token.regions start := by
  cases token with
  | code text isCode => exact reads_unmarked isCode.toUnmarked (.inr ⟨isCode.slashes, isCode.quotes⟩)
  | lineComment text single =>
    have opens : Reads start ['/', '/'] [.code, .lineComment] ⟨.lineComment, 0⟩ := ⟨rfl, rfl⟩
    have ends : ReadsAs .lineComment ⟨.lineComment, 0⟩ ['\n'] start := ⟨rfl, rfl⟩
    exact opens.append ((reads_line single).append ends)
  | blockComment body =>
    have opens : Reads start ['/', '*'] [.code, .blockComment] ⟨.plain .clear, 1⟩ := ⟨rfl, rfl⟩
    exact opens.append ((body.reads Int.one_pos).append (reads_closer Int.one_pos))
  | literal quote isQuote parts =>
    have opens : ReadsAs .literal start [quote] ⟨.literal quote false, 0⟩ := by
      rcases isQuote with rfl | rfl <;> exact ⟨rfl, rfl⟩
    have ends : ReadsAs .literal ⟨.literal quote false, 0⟩ [quote] start := by
      rcases isQuote with rfl | rfl <;> exact ⟨rfl, rfl⟩
    exact opens.append ((reads_parts parts).append ends)

/-- **A sequence of tokens is read token by token.** Behind it no literal and no comment is open. -/
theorem scan_reads_tokens (tokens : List Token) :
    Scanner.start.regions (tokens.flatMap Token.text) = tokens.flatMap Token.regions ∧
      Scanner.start.run (tokens.flatMap Token.text) = { mode := .plain .clear, depth := 0 } := by
  have reads : Reads start (tokens.flatMap Token.text) (tokens.flatMap Token.regions) start := by
    induction tokens with
    | nil => exact ⟨rfl, rfl⟩
    | cons token tokens ih => exact token.reads.append ih
  exact ⟨reads.regions_eq, reads.run_eq⟩

/-- Markers that mark nothing: of comments in a literal, of a literal in comments, and halves of markers in
code and at the edges of a nested comment. -/
def lookalikes : List Token :=
  [.code "a / b".toList (by decide),
   .literal '"' (.inl rfl) [.plain '/' (by decide), .plain '*' (by decide), .escape '"'],
   .lineComment " \"/*".toList (by decide),
   .blockComment (.plain "/ ' ".toList (by decide)
     (.nested (.plain "** //x".toList (by decide) .done) (.plain "/ ".toList (by decide) .done))),
   .code "c".toList (by decide)]

theorem lookalikes_read :
    lookalikes.flatMap Token.text = "a / b\"/*\\\"\"// \"/*\n/*/ ' /*** //x*// */c".toList ∧
      Scanner.start.regions "a / b\"/*\\\"\"// \"/*\n/*/ ' /*** //x*// */c".toList =
        List.replicate 5 .code ++ List.replicate 6 .literal ++ .code :: List.replicate 6 .lineComment
          ++ .code :: List.replicate 19 .blockComment ++ [.code] := by
  have text : lookalikes.flatMap Token.text =
      "a / b\"/*\\\"\"// \"/*\n/*/ ' /*** //x*// */c".toList := by decide
  refine ⟨text, ?_⟩
  rw [← text, (scan_reads_tokens lookalikes).1]
  decide

end ScopedHandles
