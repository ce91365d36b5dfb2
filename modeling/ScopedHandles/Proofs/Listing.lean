/-
**Files in a tree.**

A write changes what one file holds and nothing else: all other files keep their bytes, and every path
leads where it led. The second is said through `blanked`, the tree without the bytes of its files, on
which alone it depends where a path leads.

* `bytesAt?_overwrite` — what the files hold behind a write.
* `blanked_overwrite`, `locate_blanked` — a write does not move anything.
* `readAt_congr` — what a file reads as depends on its own bytes alone.
* `locate_joinNames` — the path that is joined from the names below a directory leads there.
-/

import ScopedHandles.Listing
import Mathlib.Data.List.Basic

namespace ScopedHandles

/-! ### Entries -/

namespace Entry

/-- The bytes of a file. -/
def bytes? : Entry → Option ByteArray
  | .file bytes => some bytes
  | .directory _ => none

/-- The entry that `names` lead to from an entry. -/
def at? : Entry → (names : List Text) → Option Entry
  | .file bytes, [] => some (.file bytes)
  | .file _, _ :: _ => none
  | .directory inner, names => inner.entry? names

/-- The entry with other bytes for the file that `names` lead to. -/
def overwrite (names : List Text) (bytes : ByteArray) : Entry → Entry
  | .file old => if names = [] then .file bytes else .file old
  | .directory inner => .directory (inner.overwrite names bytes)

end Entry

namespace Listing

/-- The bytes of the file at a place. -/
def bytesAt? (listing : Listing) (place : List Text) : Option ByteArray :=
  listing.entry? place |>.bind Entry.bytes?

theorem entry?_cons (listing : Listing) (name : Text) (names : List Text) :
    listing.entry? (name :: names) = (listing.find? name).bind (·.at? names) := by
  unfold entry?
  cases listing.find? name with
  | none => cases names <;> rfl
  | some entry => cases entry <;> cases names <;> rfl

/-- The names on the way to an entry can be followed in two parts. -/
theorem entry?_append {listing : Listing} {names : List Text} {entry : Entry}
    (found : listing.entry? names = some entry) (others : List Text) :
    listing.entry? (names ++ others) = entry.at? others := by
  induction names generalizing listing with
  | nil =>
    obtain rfl := Option.some.inj found
    rfl
  | cons name names ih =>
    rw [entry?_cons, Option.bind_eq_some_iff] at found
    obtain ⟨first, here, found⟩ := found
    rw [List.cons_append, entry?_cons, here, Option.bind_some]
    cases first with
    | directory inner => exact ih found
    | file bytes =>
      cases names with
      | nil =>
        obtain rfl := Option.some.inj found
        rfl
      | cons other others => exact absurd found (by simp [Entry.at?])

theorem bytesAt?_append {listing inner : Listing} {location : List Text}
    (found : listing.entry? location = some (.directory inner)) (names : List Text) :
    listing.bytesAt? (location ++ names) = inner.bytesAt? names := by
  rw [bytesAt?, entry?_append found]
  rfl

theorem bytesAt?_cons (listing : Listing) (name : Text) (names : List Text) :
    listing.bytesAt? (name :: names) =
      (listing.find? name).bind fun entry => (entry.at? names).bind Entry.bytes? := by
  rw [bytesAt?, entry?_cons, Option.bind_assoc]

/-! ### Writing -/

theorem overwrite_nil (bytes : ByteArray) (listing : Listing) :
    listing.overwrite [] bytes = listing := by
  induction listing with
  | empty => rfl
  | file name old rest ih => rw [overwrite, if_neg (by simp), ih]
  | dir name inner rest => rfl

theorem find?_overwrite (first : Text) (others : List Text) (bytes : ByteArray) (name : Text)
    (listing : Listing) :
    (listing.overwrite (first :: others) bytes).find? name =
      if name = first then (listing.find? name).map (Entry.overwrite others bytes)
      else listing.find? name := by
  induction listing with
  | empty => simp [overwrite, find?]
  | file other old rest ih => grind [overwrite, find?, Entry.overwrite]
  | dir other inner rest _ ih => grind [overwrite, find?, Entry.overwrite]

/-- **A write changes one file.** -/
theorem bytesAt?_overwrite (names : List Text) (bytes : ByteArray) (listing : Listing)
    (place : List Text) :
    (listing.overwrite names bytes).bytesAt? place =
      if place = names then (listing.bytesAt? place).map fun _ => bytes
      else listing.bytesAt? place := by
  induction names generalizing listing place with
  | nil =>
    rw [overwrite_nil]
    split_ifs with top
    · rw [top]
      rfl
    · rfl
  | cons first others ih =>
    cases place with
    | nil => rfl
    | cons name rest =>
      simp only [bytesAt?_cons, find?_overwrite, List.cons.injEq]
      by_cases here : name = first
      · simp only [here, if_true, true_and]
        cases listing.find? first with
        | none => simp
        | some entry =>
          cases entry with
          | file old => cases others <;> cases rest <;> simp [Entry.overwrite, Entry.at?, Entry.bytes?]
          | directory inner => exact ih inner rest
      · simp [here]

/-! ### Where paths lead -/

/-- The listing without the bytes of its files. -/
def blanked : Listing → Listing
  | .empty => .empty
  | .file name _ rest => .file name .empty rest.blanked
  | .dir name inner rest => .dir name inner.blanked rest.blanked

end Listing

/-- The entry without the bytes of its files. -/
def Entry.blanked : Entry → Entry
  | .file _ => .file .empty
  | .directory inner => .directory inner.blanked

namespace Listing

theorem blanked_overwrite (names : List Text) (bytes : ByteArray) (listing : Listing) :
    (listing.overwrite names bytes).blanked = listing.blanked := by
  induction listing generalizing names with
  | empty => rfl
  | file name old rest ih =>
    rw [overwrite]
    split_ifs with here
    · rfl
    · rw [blanked, blanked, ih]
  | dir name inner rest inside ih =>
    cases names with
    | nil => rfl
    | cons first others =>
      rw [overwrite]
      split_ifs with here
      · rw [blanked, blanked, inside]
      · rw [blanked, blanked, ih]

theorem find?_blanked (name : Text) (listing : Listing) :
    listing.blanked.find? name = (listing.find? name).map Entry.blanked := by
  induction listing with
  | empty => rfl
  | file other bytes rest ih =>
    rw [blanked, find?, find?, ih]
    split_ifs <;> rfl
  | dir other inner rest _ ih =>
    rw [blanked, find?, find?, ih]
    split_ifs <;> rfl

theorem entry?_blanked (listing : Listing) :
    listing.blanked.entry? = Option.map Entry.blanked ∘ listing.entry? := by
  funext names
  induction names generalizing listing with
  | nil => rfl
  | cons name names ih =>
    rw [Function.comp_apply, entry?_cons, entry?_cons, find?_blanked]
    cases listing.find? name with
    | none => rfl
    | some entry =>
      cases entry with
      | file bytes => cases names <;> rfl
      | directory inner => exact ih inner

theorem follow_blanked (listing : Listing) (location segments : List Text) :
    listing.blanked.follow location segments = listing.follow location segments := by
  induction segments generalizing location with
  | nil => rfl
  | cons segment segments ih =>
    rw [follow, follow, entry?_blanked, Function.comp_apply]
    cases listing.entry? location with
    | none => rfl
    | some entry =>
      cases entry with
      | file bytes => rfl
      | directory inner =>
        simp only [Option.map_some, Entry.blanked, find?_blanked, Option.isSome_map, ih]

/-- The path of a directory leads to it. -/
theorem entry?_of_directory? {listing inner : Listing} {root : Path} {location : List Text}
    (found : listing.directory? root = some (location, inner)) :
    listing.locate root = .ok location ∧ listing.entry? location = some (.directory inner) := by
  rw [directory?] at found
  split at found
  · simp at found
  · split at found
    · simp_all
    · simp at found

/-- **Where a path leads does not depend on what files hold.** -/
theorem locate_blanked (listing : Listing) (path : Path) :
    listing.blanked.locate path = listing.locate path := by
  rw [locate, locate, follow_blanked]

/-- What a file reads as, by its bytes. -/
theorem readAt_cases (listing : Listing) (place : List Text) :
    (∃ error, listing.readAt place = .error error ∧
      ∀ bytes, listing.bytesAt? place = some bytes → String.fromUTF8? bytes = none) ∨
    ∃ bytes text, listing.readAt place = .ok text.toList ∧ listing.bytesAt? place = some bytes ∧
      String.fromUTF8? bytes = some text := by
  rw [readAt, bytesAt?]
  cases listing.entry? place with
  | none => exact .inl ⟨_, rfl, by simp⟩
  | some entry =>
    cases entry with
    | directory inner => exact .inl ⟨_, rfl, by simp [Entry.bytes?]⟩
    | file bytes =>
      simp only [Option.bind_some, Entry.bytes?, Option.some.injEq]
      cases decoded : String.fromUTF8? bytes with
      | none => exact .inl ⟨_, rfl, fun other same => same ▸ decoded⟩
      | some text => exact .inr ⟨bytes, text, rfl, rfl, decoded⟩

/-- **What a file reads as depends on its own bytes**, and on nothing else that files hold. -/
theorem readAt_congr {listing other : Listing} {place : List Text}
    (alike : listing.blanked = other.blanked)
    (same : listing.bytesAt? place = other.bytesAt? place) :
    listing.readAt place = other.readAt place := by
  have kind : Option.map Entry.blanked ∘ listing.entry? = Option.map Entry.blanked ∘ other.entry? := by
    rw [← entry?_blanked, alike, entry?_blanked]
  replace kind := congrFun kind place
  rw [Function.comp_apply, Function.comp_apply] at kind
  rw [bytesAt?, bytesAt?] at same
  rw [readAt, readAt]
  cases here : listing.entry? place with
  | none => cases there : other.entry? place <;> simp_all
  | some entry =>
    cases there : other.entry? place with
    | none => simp_all
    | some found => cases entry <;> cases found <;> simp_all [Entry.blanked, Entry.bytes?]

end Listing

/-! ### Joined paths -/

namespace Path

/-- A name that a path can spell. -/
def IsName (name : Text) : Prop :=
  isIdle name = false ∧ name ≠ ['.', '.'] ∧ '/' ∉ name

theorem segments_ne_nil (path : Path) : segments path ≠ [] := by
  cases path with
  | nil => simp [segments]
  | cons c rest =>
    rw [segments]
    split_ifs
    · simp
    · split <;> simp

theorem segments_append_slash (path rest : Path) :
    segments (path ++ '/' :: rest) = segments path ++ segments rest := by
  induction path with
  | nil => simp [segments]
  | cons c path ih =>
    rw [List.cons_append, segments, segments, ih]
    split_ifs
    · rfl
    · cases first : segments path with
      | nil => exact absurd first (segments_ne_nil path)
      | cons segment others => rfl

theorem segments_of_not_mem {name : Text} (whole : '/' ∉ name) : segments name = [name] := by
  induction name with
  | nil => rfl
  | cons c rest ih =>
    rw [List.mem_cons, not_or] at whole
    rw [segments, if_neg (Ne.symm whole.1), ih whole.2]

end Path

namespace Listing

theorem follow_append (listing : Listing) (location segments others : List Text) :
    listing.follow location (segments ++ others) =
      (listing.follow location segments).bind (listing.follow · others) := by
  induction segments generalizing location with
  | nil => rfl
  | cons segment segments ih =>
    rw [List.cons_append, follow, follow]
    cases listing.entry? location with
    | none => rfl
    | some entry =>
      cases entry with
      | file bytes => rfl
      | directory inner =>
        simp only [ih]
        split_ifs <;> rfl

theorem start_joinName {directory : Path} (some : directory ≠ []) (name : Path) :
    start (Path.joinName directory name) = start directory := by
  obtain ⟨c, rest, rfl⟩ := List.exists_cons_of_ne_nil some
  rw [Path.joinName]
  split_ifs <;> rfl

/-- A slash at the end of a path means nothing: it adds an empty segment. -/
theorem follow_of_slash {listing : Listing} {location place : List Text} {path : Path}
    (leads : listing.follow location (Path.segments (path ++ ['/'])) = .ok place) :
    listing.follow location (Path.segments path) = .ok place := by
  rw [Path.segments_append_slash, follow_append] at leads
  cases front : listing.follow location (Path.segments path) with
  | error error => simp [front, Except.bind] at leads
  | ok reached =>
    simp only [front, Except.bind, Path.segments, follow, Path.isIdle] at leads
    split at leads <;> simp_all

/-- **The path of an entry leads to it** from the path of its directory. -/
theorem locate_joinName {listing inner : Listing} {directory name : Path} {location : List Text}
    (leads : listing.locate directory = .ok location)
    (found : listing.entry? location = some (.directory inner))
    (listed : (inner.find? name).isSome) (spelled : Path.IsName name) :
    listing.locate (Path.joinName directory name) = .ok (location ++ [name]) := by
  obtain ⟨busy, ascends, whole⟩ := spelled
  have last : listing.follow location [name] = .ok (location ++ [name]) := by
    simp [follow, found, busy, ascends, listed]
  rw [locate] at leads
  split_ifs at leads with none
  rw [List.isEmpty_iff] at none
  have joined : ∃ front, Path.joinName directory name = front ++ '/' :: name ∧
      listing.follow (start directory) (Path.segments front) = .ok location := by
    rw [Path.joinName]
    split_ifs with slash
    · obtain ⟨front, same⟩ := List.getLast?_eq_some_iff.mp slash
      refine ⟨front, by rw [same, List.append_assoc]; rfl, follow_of_slash ?_⟩
      rw [← same]
      exact leads
    · exact ⟨directory, rfl, leads⟩
  obtain ⟨front, same, leads⟩ := joined
  rw [locate, start_joinName none, same, if_neg (by simp), Path.segments_append_slash,
    Path.segments_of_not_mem whole, follow_append, leads]
  exact last

/-- **The path that is joined from names** leads where the names lead. -/
theorem locate_joinNames {listing inner : Listing} {directory : Path} {location names : List Text}
    (leads : listing.locate directory = .ok location)
    (found : listing.entry? location = some (.directory inner))
    (listed : inner.entry? names ≠ none) (spelled : ∀ name ∈ names, Path.IsName name) :
    listing.locate (Path.joinNames directory names) = .ok (location ++ names) := by
  induction names generalizing directory location inner with
  | nil => rwa [List.append_nil]
  | cons name names ih =>
    rw [entry?_cons] at listed
    obtain ⟨here, later⟩ := List.forall_mem_cons.mp spelled
    cases first : inner.find? name with
    | none => exact absurd (by rw [first]; rfl) listed
    | some entry =>
      have step := locate_joinName leads found (by rw [first]; rfl) here
      rw [first, Option.bind_some] at listed
      have next : listing.entry? (location ++ [name]) = some entry := by
        rw [entry?_append found, Entry.at?, entry?_cons, first]
        cases entry <;> rfl
      cases entry with
      | file bytes =>
        cases names with
        | nil => exact step
        | cons other others => exact absurd rfl listed
      | directory inside =>
        rw [Path.joinNames, List.foldl_cons, List.append_cons]
        exact ih step next listed later

end Listing

end ScopedHandles
