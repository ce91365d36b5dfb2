/-
**The identifiers of a header.**

A header is made of its declaration. Comment lines are dropped as a whole, and white space of a call goes
only where a dot parts the names beside it, so that a header has the identifiers of its declaration and
no others.

* `identifiers_withoutCommentLines_subset` — dropping comment lines.
* `identifiers_collapse`, `Call.identifiers_render` — laying out a call anew.
* `Declaration.identifiers_header_subset` — a header.
-/

import ScopedHandles.Proofs.Identifier
import ScopedHandles.Proofs.HeaderLines

namespace ScopedHandles

/-! ### Comment lines -/

/-- Before a line that is kept the text that is left has ended its last identifier. In a dropped line the
whole text may stand inside of one. -/
theorem identifiersFrom_dropCommentLines_subset (text : Text) :
    (∀ {lineStart : Bool} {run : Text}, (lineStart = true → run = []) →
      identifiersFrom run (dropCommentLines lineStart false text) ⊆ identifiersFrom run text) ∧
    ∀ (lineStart : Bool) (run : Text),
      identifiers (dropCommentLines lineStart true text) ⊆ identifiersFrom run text := by
  induction text with
  | nil => exact ⟨fun _ => List.Subset.refl _, fun _ _ => List.nil_subset _⟩
  | cons c rest ih =>
    obtain ⟨outside, inside⟩ := ih
    have dropped : ∀ (lineStart : Bool) (run : Text),
        identifiers (dropCommentLines lineStart true rest) ⊆ identifiersFrom run (c :: rest) := by
      intro lineStart run
      cases kind : isIdentChar c with
      | true =>
        rw [identifiersFrom_cons_of_ident kind]
        exact inside lineStart _
      | false =>
        rw [identifiersFrom_cons_of_not kind]
        exact List.subset_append_of_subset_right _ (inside lineStart [])
    refine ⟨fun {lineStart run} begins => ?_, fun lineStart run => ?_⟩
    · rw [dropCommentLines, if_neg Bool.false_ne_true]
      split_ifs with comment
      · rw [begins (Bool.and_eq_true_iff.mp comment).1]
        exact dropped false []
      · cases kind : isIdentChar c with
        | true =>
          rw [identifiersFrom_cons_of_ident kind, identifiersFrom_cons_of_ident kind]
          refine outside fun newline => ?_
          rw [beq_iff_eq.mp newline] at kind
          exact absurd kind (by decide)
        | false =>
          rw [identifiersFrom_cons_of_not kind, identifiersFrom_cons_of_not kind]
          exact List.append_subset.mpr ⟨List.subset_append_left _ _,
            List.subset_append_of_subset_right _ (outside fun _ => rfl)⟩
    · rw [dropCommentLines, if_pos rfl]
      by_cases newline : c = '\n'
      · subst newline
        rw [identifiersFrom_cons_of_not (by decide)]
        exact List.subset_append_of_subset_right _ (outside fun _ => rfl)
      · have differs : (c != '\n') = true := bne_iff_ne.mpr newline
        rw [differs]
        exact dropped _ run

/-- **Dropping comment lines makes no identifier.** -/
theorem identifiers_withoutCommentLines_subset (text : Text) :
    identifiers (withoutCommentLines text) ⊆ identifiers text :=
  (identifiersFrom_dropCommentLines_subset text).1 fun _ => rfl

/-! ### Calls -/

/-- White space that is held back has ended the identifier before it, and either a blank takes its place
or a dot stands beside it. -/
theorem identifiersFrom_collapseFrom {last : Option Char} {run : Text} (text : Text)
    (dotted : last = some '.' → run = []) (blank : Bool) :
    identifiersFrom run (collapseFrom last blank text) =
      if blank then closed run ++ identifiers text else identifiersFrom run text := by
  induction text generalizing last run blank with
  | nil =>
    rw [collapseFrom, identifiersFrom, identifiers_nil, List.append_nil, ite_self]
  | cons c rest ih =>
    by_cases white : isWhiteSpace c = true
    · have other := not_isIdentChar_of_isWhiteSpace white
      rw [collapseFrom, if_pos white, ih dotted true, if_pos rfl, identifiers_cons_of_not other,
        identifiersFrom_cons_of_not other, ite_self]
    · have solid : ∀ run, identifiersFrom run (c :: collapseFrom (some c) false rest) =
          identifiersFrom run (c :: rest) := by
        intro run
        cases kind : isIdentChar c with
        | true =>
          rw [identifiersFrom_cons_of_ident kind, identifiersFrom_cons_of_ident kind]
          refine ih (fun same => ?_) false
          rw [Option.some.inj same] at kind
          exact absurd kind (by decide)
        | false =>
          rw [identifiersFrom_cons_of_not kind, identifiersFrom_cons_of_not kind]
          exact congrArg (closed run ++ ·) (ih (fun _ => rfl) false)
      rw [collapseFrom, if_neg white]
      cases blank with
      | false =>
        rw [if_neg (by simp), if_neg Bool.false_ne_true]
        exact solid run
      | true =>
        rw [if_pos rfl]
        split_ifs with apart
        · rw [identifiersFrom_cons_of_not (by decide)]
          exact congrArg (closed run ++ ·) (solid [])
        · by_cases behind : last = some '.'
          · rw [dotted behind]
            exact solid []
          · have dot : c = '.' := by simpa [behind] using apart
            rw [solid run, dot, identifiersFrom_cons_of_not (by decide),
              identifiers_cons_of_not (by decide)]

/-- **A target on one line has the identifiers that it had.** -/
theorem identifiers_collapse (target : Text) : identifiers (collapse target) = identifiers target := by
  rw [← identifiers_trim target]
  exact identifiersFrom_collapseFrom (trim target) (by simp) false

namespace Call

theorem identifiers_trimArguments (arguments : Text) :
    identifiers (trimArguments arguments) = identifiers arguments := by
  obtain ⟨kept, commas, rfl, comma, same⟩ := exists_of_trimArguments arguments
  have none : ∀ c ∈ commas, isIdentChar c = false := by
    intro c mem
    rw [comma c mem]
    decide
  rw [same, identifiers_trim, identifiers_append (.inr fun c first =>
    none c (List.mem_of_mem_head? first)), identifiers_of_none none, List.append_nil]

/-- The identifiers of an argument for keys. -/
def keyIdentifiers (call : Call) : List Text :=
  (call.keys.map identifiers).getD []

theorem identifiers_arguments {inner : Text} {call : Call}
    (parts : splitKeys inner = (call.arguments, call.keys)) :
    identifiers inner = identifiers call.arguments ++ call.keyIdentifiers := by
  rcases splitKeys_cases inner with same | ⟨arguments, last, rfl, same, _⟩
  · obtain ⟨rfl, none⟩ := Prod.mk.inj (same.symm.trans parts)
    rw [keyIdentifiers, ← none, Option.map_none, Option.getD_none, List.append_nil]
  · obtain ⟨first, second⟩ := Prod.mk.inj (same.symm.trans parts)
    rw [keyIdentifiers, ← first, ← second, identifiers_append_cons (by decide), identifiers_trimEnd,
      Option.map_some, Option.getD_some, identifiers_trim]

/-- **A call that is laid out anew has the identifiers that it had.** -/
theorem identifiers_render {expression : Text} {call : Call} (read : read? expression = some call) :
    identifiers call.render = identifiers expression := by
  obtain ⟨target, inner, blanks, rfl, _, blank, same, parts⟩ := exists_of_read? read
  have before : identifiers (target ++ '(' :: (inner ++ ')' :: blanks)) =
      identifiers target ++ (identifiers call.arguments ++ call.keyIdentifiers) := by
    rw [identifiers_append_cons (by decide), identifiers_append_cons (by decide),
      identifiers_of_blank blank, List.append_nil, ← identifiers_trim inner,
      identifiers_arguments parts]
  have shape : ∀ arguments keys : Text, collapse call.target ++ '(' :: arguments ++ keys ++ [')'] =
      collapse call.target ++ '(' :: (arguments ++ keys ++ ')' :: []) := by
    intro arguments keys
    simp only [List.append_assoc, List.cons_append]
  rw [before, render, shape, identifiers_append_cons (by decide), identifiers_append_cons (by decide),
    identifiers_collapse, same, identifiers_trim, identifiers_nil, List.append_nil,
    ← identifiers_trimArguments call.arguments, keyIdentifiers]
  congr 1
  cases call.keys with
  | none => simp
  | some keys =>
    simp only [Option.map_some, Option.getD_some]
    split_ifs with empty
    · rw [List.isEmpty_iff.mp empty, List.nil_append, identifiers_nil, List.nil_append]
    · have comma : ", ".toList ++ keys = ',' :: ' ' :: keys := rfl
      rw [comma, identifiers_append_cons (by decide), identifiers_cons_of_not (by decide)]

end Call

/-! ### Headers -/

namespace Declaration

theorem identifiers_resource {kind : HandleKind} {expression value : Text}
    (made : resource kind expression = .ok value) : identifiers value = identifiers expression := by
  cases kind with
  | cursor =>
    obtain rfl : trim expression = value := Except.ok.inj made
    exact identifiers_trim expression
  | query =>
    obtain ⟨call, read, rfl⟩ := exists_of_query made
    exact Call.identifiers_render read

/-- **A header has no identifiers but those of its declaration.** -/
theorem identifiers_header_subset {declaration : Declaration} {header initializer : Text}
    (made : declaration.header = .ok header) (given : declaration.initializer = some initializer) :
    identifiers header ⊆ identifiers declaration.declaredType ++
      (identifiers declaration.name ++ identifiers initializer) := by
  obtain ⟨value, _, resource, rfl⟩ := exists_of_header made given
  rw [identifiers_append_cons (by decide), identifiers_append_cons (by decide),
    identifiers_cons_of_not (by decide), identifiers_cons_of_not (by decide), identifiers_trim,
    identifiers_resource resource]
  have subset := identifiers_withoutCommentLines_subset initializer
  intro name mem
  simp only [List.mem_append] at mem ⊢
  exact mem.imp_right (Or.imp_right fun inside => subset inside)

end Declaration

end ScopedHandles
