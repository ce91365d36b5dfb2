/-
**The order in which directories list their entries.**

Two listings are reorderings of each other if each directory lists the same entries in both, in whatever
order. Where names are listed only once, the order is not seen by anything that follows names: entries are
found under the same names, and every path leads to the same place.

* `Listing.Reordered` — the same entries in another order, in every directory.
* `Listing.Reordered.find?` — what stands behind a name.
* `Listing.Reordered.locate_eq` — where a path leads.
* `Listing.Reordered.walk_perm` — what a walk finds.
-/

import ScopedHandles.Proofs.Collect

namespace ScopedHandles

/-- The listing with an entry before the others. -/
def Entry.listed (name : Text) (rest : Listing) : Entry → Listing
  | .file bytes => .file name bytes rest
  | .directory inner => .dir name inner rest

namespace Listing

/-- The same entries in another order, in every directory. -/
inductive Reordered : Listing → Listing → Prop where
  | empty : Reordered .empty .empty
  | file {rest later : Listing} (name : Text) (bytes : ByteArray) (behind : Reordered rest later) :
      Reordered (.file name bytes rest) (.file name bytes later)
  | dir {inner inside rest later : Listing} (name : Text) (below : Reordered inner inside)
      (behind : Reordered rest later) : Reordered (.dir name inner rest) (.dir name inside later)
  | swap (name other : Text) (entry second : Entry) (rest : Listing) :
      Reordered (entry.listed name (second.listed other rest))
        (second.listed other (entry.listed name rest))
  | trans {listing middle other : Listing} (first : Reordered listing middle)
      (second : Reordered middle other) : Reordered listing other

theorem Reordered.refl (listing : Listing) : Reordered listing listing := by
  induction listing with
  | empty => exact .empty
  | file name bytes rest ih => exact .file name bytes ih
  | dir name inner rest inside ih => exact .dir name inside ih

end Listing

/-- The same file, or a directory with the same entries in another order. -/
inductive Entry.Reordered : Entry → Entry → Prop where
  | file (bytes : ByteArray) : Reordered (.file bytes) (.file bytes)
  | directory {inner inside : Listing} (below : inner.Reordered inside) :
      Reordered (.directory inner) (.directory inside)

theorem Entry.Reordered.refl (entry : Entry) : entry.Reordered entry := by
  cases entry with
  | file bytes => exact .file bytes
  | directory inner => exact .directory (.refl inner)

theorem Entry.Reordered.trans {entry middle other : Entry} (first : entry.Reordered middle)
    (second : middle.Reordered other) : entry.Reordered other := by
  cases first with
  | file bytes => exact second
  | directory below =>
    cases second with
    | directory behind => exact .directory (below.trans behind)

theorem Entry.rel_trans {entry middle other : Option Entry}
    (first : Option.Rel Entry.Reordered entry middle)
    (second : Option.Rel Entry.Reordered middle other) : Option.Rel Entry.Reordered entry other := by
  cases first with
  | none => exact second
  | some before =>
    cases second with
    | some behind => exact .some (before.trans behind)

/-- What may stand in two listings behind the same name. -/
theorem Entry.rel_cases {entry second : Option Entry} (same : Option.Rel Entry.Reordered entry second) :
    entry = none ∧ second = none ∨
      ∃ here there, entry = some here ∧ second = some there ∧ here.Reordered there := by
  cases same with
  | none => exact .inl ⟨rfl, rfl⟩
  | some reordered => exact .inr ⟨_, _, rfl, rfl, reordered⟩

namespace Listing

/-! ### Names -/

theorem names_listed (name : Text) (entry : Entry) (rest : Listing) :
    (entry.listed name rest).names = name :: rest.names := by
  cases entry <;> rfl

theorem distinct_listed_iff {name : Text} {entry : Entry} {rest : Listing} :
    (entry.listed name rest).Distinct ↔ name ∉ rest.names ∧ entry.Distinct ∧ rest.Distinct := by
  cases entry <;> simp [Entry.listed, Distinct, Entry.Distinct]

theorem find?_listed (first name : Text) (entry : Entry) (rest : Listing) :
    (entry.listed first rest).find? name = if first = name then some entry else rest.find? name := by
  cases entry <;> rfl

namespace Reordered

variable {listing other : Listing}

theorem names_perm (reordered : listing.Reordered other) : listing.names.Perm other.names := by
  induction reordered with
  | empty => exact .refl _
  | file name bytes _ ih => exact ih.cons name
  | dir name _ _ _ ih => exact ih.cons name
  | swap name other entry second rest =>
    simp only [names_listed]
    exact .swap other name rest.names
  | trans _ _ first second => exact first.trans second

theorem distinct (reordered : listing.Reordered other) (distinct : listing.Distinct) :
    other.Distinct := by
  induction reordered with
  | empty => trivial
  | file name bytes behind ih => exact ⟨mt behind.names_perm.mem_iff.mpr distinct.1, ih distinct.2⟩
  | dir name _ behind inside ih =>
    exact ⟨mt behind.names_perm.mem_iff.mpr distinct.1, inside distinct.2.1, ih distinct.2.2⟩
  | swap name other entry second rest =>
    simp only [distinct_listed_iff, names_listed, List.mem_cons, not_or] at distinct ⊢
    obtain ⟨⟨apart, unlisted⟩, first, fresh, others⟩ := distinct
    exact ⟨⟨Ne.symm apart, fresh⟩, others.1, unlisted, first, others.2⟩
  | trans _ _ first second => exact second (first distinct)

/-! ### Looking up -/

/-- **The same entries stand behind the same names.** -/
theorem find? (reordered : listing.Reordered other) (distinct : listing.Distinct) (name : Text) :
    Option.Rel Entry.Reordered (listing.find? name) (other.find? name) := by
  induction reordered with
  | empty => exact .none
  | file first bytes _ ih =>
    rw [Listing.find?, Listing.find?]
    split_ifs
    · exact .some (.file bytes)
    · exact ih distinct.2
  | dir first below _ _ ih =>
    rw [Listing.find?, Listing.find?]
    split_ifs
    · exact .some (.directory below)
    · exact ih distinct.2.2
  | swap first other entry second rest =>
    rw [distinct_listed_iff, names_listed, List.mem_cons, not_or] at distinct
    simp only [find?_listed]
    split_ifs with here there
    · exact absurd (here.trans there.symm) distinct.1.1
    · exact .some (.refl entry)
    · exact .some (.refl second)
    · cases rest.find? name with
      | none => exact .none
      | some found => exact .some (.refl found)
  | trans former _ first second =>
    exact Entry.rel_trans (first distinct) (second (former.distinct distinct))

theorem entry? (reordered : listing.Reordered other) (distinct : listing.Distinct)
    (place : List Text) :
    Option.Rel Entry.Reordered (listing.entry? place) (other.entry? place) := by
  induction place generalizing listing other with
  | nil => exact .some (.directory reordered)
  | cons name names ih =>
    rw [entry?_cons, entry?_cons]
    rcases Entry.rel_cases (reordered.find? distinct name) with
      ⟨here, there⟩ | ⟨entry, second, here, there, same⟩ <;> rw [here, there]
    · exact .none
    · cases same with
      | file bytes =>
        cases names with
        | nil => exact .some (.file bytes)
        | cons => exact .none
      | directory below => exact ih below (distinct.of_find? here)

/-! ### Paths -/

/-- A path leads to the same place in any order: whether a segment is listed does not depend on it. -/
theorem follow_eq (reordered : listing.Reordered other) (distinct : listing.Distinct)
    (location segments : List Text) :
    other.follow location segments = listing.follow location segments := by
  induction segments generalizing location with
  | nil => rfl
  | cons segment segments ih =>
    rw [follow, follow]
    rcases Entry.rel_cases (reordered.entry? distinct location) with
      ⟨here, there⟩ | ⟨entry, second, here, there, same⟩ <;> rw [here, there]
    cases same with
    | file bytes => rfl
    | directory below =>
      have listed : ∀ {inner inside : Listing}, inner.Distinct → inner.Reordered inside →
          (inside.find? segment).isSome = (inner.find? segment).isSome := by
        intro inner inside distinct below
        rcases Entry.rel_cases (below.find? distinct segment) with
          ⟨here, there⟩ | ⟨entry, second, here, there, same⟩ <;> simp [here, there]
      simp only [ih, listed (distinct.below here) below]

/-- **Every path leads to the same place.** -/
theorem locate_eq (reordered : listing.Reordered other) (distinct : listing.Distinct) (path : Path) :
    other.locate path = listing.locate path := by
  rw [locate, locate, reordered.follow_eq distinct]

/-- A directory is found again, and lists the same entries. -/
theorem exists_directory? (reordered : listing.Reordered other) (distinct : listing.Distinct)
    {root : Path} {location : List Text} {inner : Listing}
    (found : listing.directory? root = some (location, inner)) :
    ∃ inside, other.directory? root = some (location, inside) ∧ inner.Reordered inside := by
  obtain ⟨leads, directory⟩ := entry?_of_directory? found
  have same := reordered.entry? distinct location
  rw [directory] at same
  generalize there : other.entry? location = second at same
  cases same with
  | some same =>
    cases same with
    | directory below =>
      refine ⟨_, ?_, below⟩
      rw [directory?, reordered.locate_eq distinct, leads]
      simp only [there]

end Reordered

end Listing

/-! ### Walks -/

/-- What a walk finds at an entry. -/
def Entry.found (extension : Text) (atRoot : Bool) (name : Text) : Entry → List (List Text)
  | .file _ => if Path.extension? name = some extension then [[name]] else []
  | .directory inner =>
    if Listing.isSkipped atRoot name then [] else (inner.walk extension false).map (name :: ·)

namespace Listing

theorem walk_listed (extension : Text) (atRoot : Bool) (name : Text) (entry : Entry) (rest : Listing) :
    (entry.listed name rest).walk extension atRoot =
      entry.found extension atRoot name ++ rest.walk extension atRoot := by
  cases entry <;> simp only [Entry.listed, Entry.found, walk] <;> split_ifs <;> rfl

/-- **A walk finds the same files**, in another order. -/
theorem Reordered.walk_perm {listing other : Listing} (reordered : listing.Reordered other)
    (extension : Text) (atRoot : Bool) :
    (listing.walk extension atRoot).Perm (other.walk extension atRoot) := by
  induction reordered generalizing atRoot with
  | empty => exact .refl _
  | file name bytes _ ih =>
    rw [walk, walk]
    split_ifs
    · exact (ih atRoot).cons [name]
    · exact ih atRoot
  | dir name _ _ inside ih =>
    rw [walk, walk]
    split_ifs
    · exact ih atRoot
    · exact ((inside false).map _).append (ih atRoot)
  | swap name other entry second rest =>
    simp only [walk_listed]
    exact List.perm_append_comm_assoc _ _ _
  | trans _ _ first second => exact (first atRoot).trans (second atRoot)

end Listing

end ScopedHandles
