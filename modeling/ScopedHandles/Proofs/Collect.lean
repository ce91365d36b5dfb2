/-
**The files of a run.**

The files that are collected below a directory are files of the tree, and none is collected twice, if
each directory lists a name only once.

* `Distinct` — each directory lists a name only once.
* `Distinct.putAt` — so it is in every tree that is built by putting entries where paths lead.
* `exists_bytes_of_mem_collect` — what is collected is a file.
* `nodup_collect` — nothing is collected twice.
-/

import ScopedHandles.Proofs.Listing
import Mathlib.Data.List.Nodup

namespace ScopedHandles

namespace Listing

/-! ### Distinct names -/

/-- The names of the entries. -/
def names : Listing → List Text
  | .empty => []
  | .file name _ rest => name :: rest.names
  | .dir name _ rest => name :: rest.names

/-- Each directory lists a name only once. -/
def Distinct : Listing → Prop
  | .empty => True
  | .file name _ rest => name ∉ rest.names ∧ rest.Distinct
  | .dir name inner rest => name ∉ rest.names ∧ inner.Distinct ∧ rest.Distinct

instance decidableDistinct : (listing : Listing) → Decidable listing.Distinct
  | .empty => .isTrue trivial
  | .file _ _ rest =>
    have := decidableDistinct rest
    inferInstanceAs (Decidable (_ ∧ _))
  | .dir _ inner rest =>
    have := decidableDistinct inner
    have := decidableDistinct rest
    inferInstanceAs (Decidable (_ ∧ _ ∧ _))

example : ¬ (Listing.file ['a'] .empty (.dir ['a'] .empty .empty)).Distinct := by decide

theorem Distinct.of_find? {listing inner : Listing} {name : Text} (distinct : listing.Distinct)
    (found : listing.find? name = some (.directory inner)) : inner.Distinct := by
  induction listing with
  | empty => simp [find?] at found
  | file other bytes rest ih =>
    rw [find?] at found
    split_ifs at found
    · simp at found
    · exact ih distinct.2 found
  | dir other inside rest _ ih =>
    rw [find?] at found
    split_ifs at found
    · obtain rfl : inside = inner := by simpa using found
      exact distinct.2.1
    · exact ih distinct.2.2 found

/-- What stands below a directory is distinct as well. -/
theorem Distinct.below {listing inner : Listing} {place : List Text} (distinct : listing.Distinct)
    (found : listing.entry? place = some (.directory inner)) : inner.Distinct := by
  induction place generalizing listing with
  | nil =>
    obtain rfl : listing = inner := Entry.directory.inj (Option.some.inj found)
    exact distinct
  | cons name names ih =>
    rw [entry?_cons, Option.bind_eq_some_iff] at found
    obtain ⟨entry, first, found⟩ := found
    cases entry with
    | file bytes => cases names <;> simp [Entry.at?] at found
    | directory inside => exact ih (distinct.of_find? first) found

/-! ### Trees that are built -/

end Listing

/-- Each directory of the entry lists a name only once. -/
def Entry.Distinct : Entry → Prop
  | .file _ => True
  | .directory inner => inner.Distinct

theorem Entry.distinct_file (bytes : ByteArray) : (Entry.file bytes).Distinct :=
  trivial

namespace Listing

theorem distinct_blank : blank.Distinct := by
  simp [blank, Distinct, names]

theorem mem_names_ofEntry {entry : Entry} {place : List Text} {name : Text}
    (mem : name ∈ (ofEntry entry place).names) : place.head? = some name := by
  match place with
  | [] => simp [ofEntry, names] at mem
  | [first] => cases entry <;> simp_all [ofEntry, names]
  | first :: other :: others => simp_all [ofEntry, names]

/-- Where an entry is put in a listing that begins with a file: in place of the file, or behind it. -/
theorem put_file (entry : Entry) (place : List Text) (name : Text) (old : ByteArray) (rest : Listing) :
    (∃ bytes, (file name old rest).put entry place = .file name bytes rest) ∨
      place.head? ≠ some name ∧
        (file name old rest).put entry place = .file name old (rest.put entry place) := by
  rw [put.eq_def]
  by_cases here : place.head? = some name
  · left
    simp only [if_pos here]
    split
    · exact ⟨_, rfl⟩
    · exact ⟨old, rfl⟩
  · exact .inr ⟨here, if_neg here⟩

/-- Where an entry is put in a listing that begins with a directory: nowhere or below the directory, or
behind it. -/
theorem put_dir (entry : Entry) (place : List Text) (name : Text) (inner rest : Listing) :
    (∃ below, (dir name inner rest).put entry place = .dir name below rest ∧
      (below = inner ∨ ∃ others, below = inner.put entry others)) ∨
      place.head? ≠ some name ∧
        (dir name inner rest).put entry place = .dir name inner (rest.put entry place) := by
  cases place with
  | nil => exact .inl ⟨inner, rfl, .inl rfl⟩
  | cons first others =>
    rw [put]
    split_ifs with here top
    · exact .inl ⟨inner, rfl, .inl rfl⟩
    · exact .inl ⟨_, rfl, .inr ⟨others, rfl⟩⟩
    · exact .inr ⟨by simpa using here, rfl⟩

theorem mem_names_put {entry : Entry} {place : List Text} {name : Text} {listing : Listing}
    (mem : name ∈ (listing.put entry place).names) :
    name ∈ listing.names ∨ place.head? = some name := by
  induction listing with
  | empty => exact .inr (mem_names_ofEntry mem)
  | file other old rest ih =>
    rcases put_file entry place other old rest with ⟨bytes, same⟩ | ⟨_, same⟩ <;> rw [same] at mem
    · exact .inl mem
    · exact (List.mem_cons.mp mem).elim (fun here => .inl (here ▸ .head _))
        fun later => (ih later).imp_left (.tail _)
  | dir other inner rest _ ih =>
    rcases put_dir entry place other inner rest with ⟨below, same, _⟩ | ⟨_, same⟩ <;> rw [same] at mem
    · exact .inl mem
    · exact (List.mem_cons.mp mem).elim (fun here => .inl (here ▸ .head _))
        fun later => (ih later).imp_left (.tail _)

theorem distinct_ofEntry {entry : Entry} (distinct : entry.Distinct) (place : List Text) :
    (ofEntry entry place).Distinct := by
  induction place with
  | nil => trivial
  | cons first others ih =>
    cases others with
    | nil => cases entry <;> simp_all [ofEntry, Listing.Distinct, Entry.Distinct, names]
    | cons other others => simpa [ofEntry, Listing.Distinct, names] using ih

/-- **Names stay distinct when an entry is put.** -/
theorem Distinct.put {entry : Entry} {listing : Listing} (distinct : listing.Distinct)
    (whole : entry.Distinct) (place : List Text) : (listing.put entry place).Distinct := by
  induction listing generalizing place with
  | empty => exact distinct_ofEntry whole place
  | file name old rest ih =>
    obtain ⟨unlisted, later⟩ := distinct
    rcases put_file entry place name old rest with ⟨bytes, same⟩ | ⟨other, same⟩ <;> rw [same]
    · exact ⟨unlisted, later⟩
    · exact ⟨fun mem => (mem_names_put mem).elim unlisted other, ih later place⟩
  | dir name inner rest inside ih =>
    obtain ⟨unlisted, below, later⟩ := distinct
    rcases put_dir entry place name inner rest with ⟨_, same, rfl | ⟨others, rfl⟩⟩ | ⟨other, same⟩ <;>
      rw [same]
    · exact ⟨unlisted, below, later⟩
    · exact ⟨unlisted, inside below others, later⟩
    · exact ⟨fun mem => (mem_names_put mem).elim unlisted other, below, ih later place⟩

theorem Distinct.putAlong {entry : Entry} {listing : Listing} (distinct : listing.Distinct)
    (whole : entry.Distinct) (location segments : List Text) :
    (listing.putAlong entry location segments).Distinct := by
  have made : (Entry.directory .empty).Distinct := trivial
  induction segments generalizing location listing with
  | nil => exact distinct.put whole location
  | cons segment segments ih =>
    rw [Listing.putAlong]
    split_ifs
    · exact ih distinct location
    · exact ih (distinct.put made location) _
    · exact ih distinct _

/-- **Names are distinct in every tree that is built** by putting entries where paths lead. -/
theorem Distinct.putAt {entry : Entry} {listing : Listing} (distinct : listing.Distinct)
    (whole : entry.Distinct) (path : Path) : (listing.putAt entry path).Distinct :=
  distinct.putAlong whole _ _

/-! ### Collected files -/

variable {extension : Text}

theorem exists_of_mem_walk {listing : Listing} {atRoot : Bool} {place : List Text}
    (mem : place ∈ listing.walk extension atRoot) :
    ∃ first others, place = first :: others ∧ first ∈ listing.names := by
  induction listing with
  | empty => simp [walk] at mem
  | file name bytes rest ih =>
    simp only [walk, names, List.mem_cons] at mem ⊢
    split_ifs at mem <;> grind
  | dir name inner rest _ ih =>
    simp only [walk, names, List.mem_cons] at mem ⊢
    split_ifs at mem <;> grind

theorem not_mem_walk {listing : Listing} {name : Text} (unlisted : name ∉ listing.names)
    (others : List Text) (atRoot : Bool) : name :: others ∉ listing.walk extension atRoot := by
  intro mem
  obtain ⟨first, behind, same, listed⟩ := exists_of_mem_walk mem
  obtain ⟨rfl, -⟩ := List.cons.inj same
  exact unlisted listed

/-- **What a walk finds is a file.** An entry does not hide what stands behind it, since its name is not
listed there. -/
theorem exists_bytes_of_mem_walk {listing : Listing} {atRoot : Bool} {place : List Text}
    (distinct : listing.Distinct) (mem : place ∈ listing.walk extension atRoot) :
    ∃ bytes, listing.bytesAt? place = some bytes := by
  induction listing generalizing atRoot place with
  | empty => simp [walk] at mem
  | file name bytes rest ih =>
    obtain ⟨unlisted, later⟩ := distinct
    have behind : place ∈ rest.walk extension atRoot →
        ∃ found, (file name bytes rest).bytesAt? place = some found := by
      intro mem
      obtain ⟨first, others, rfl, listed⟩ := exists_of_mem_walk mem
      have skips : (file name bytes rest).find? first = rest.find? first :=
        if_neg (ne_of_mem_of_not_mem listed unlisted).symm
      rw [bytesAt?_cons, skips, ← bytesAt?_cons]
      exact ih later mem
    rw [walk] at mem
    split_ifs at mem
    · rcases List.mem_cons.mp mem with rfl | mem
      · exact ⟨bytes, by simp [bytesAt?_cons, find?, Entry.at?, Entry.bytes?]⟩
      · exact behind mem
    · exact behind mem
  | dir name inner rest inside ih =>
    obtain ⟨unlisted, below, later⟩ := distinct
    have behind : place ∈ rest.walk extension atRoot →
        ∃ found, (dir name inner rest).bytesAt? place = some found := by
      intro mem
      obtain ⟨first, others, rfl, listed⟩ := exists_of_mem_walk mem
      have skips : (dir name inner rest).find? first = rest.find? first :=
        if_neg (ne_of_mem_of_not_mem listed unlisted).symm
      rw [bytesAt?_cons, skips, ← bytesAt?_cons]
      exact ih later mem
    rw [walk] at mem
    split_ifs at mem
    · exact behind mem
    · rcases List.mem_append.mp mem with mem | mem
      · obtain ⟨others, deeper, rfl⟩ := List.mem_map.mp mem
        obtain ⟨found, bytes⟩ := inside below deeper
        exact ⟨found, by rw [bytesAt?_cons, find?, if_pos rfl]; exact bytes⟩
      · exact behind mem

/-- **A walk finds nothing twice.** -/
theorem nodup_walk {listing : Listing} (distinct : listing.Distinct) (atRoot : Bool) :
    (listing.walk extension atRoot).Nodup := by
  induction listing generalizing atRoot with
  | empty => exact List.nodup_nil
  | file name bytes rest ih =>
    obtain ⟨unlisted, later⟩ := distinct
    rw [walk]
    split_ifs
    · exact List.nodup_cons.mpr ⟨not_mem_walk unlisted [] atRoot, ih later atRoot⟩
    · exact ih later atRoot
  | dir name inner rest inside ih =>
    obtain ⟨unlisted, below, later⟩ := distinct
    rw [walk]
    split_ifs
    · exact ih later atRoot
    · refine ((inside below false).map fun _ _ => List.tail_eq_of_cons_eq).append (ih later atRoot) ?_
      intro place here there
      obtain ⟨names, -, rfl⟩ := List.mem_map.mp here
      exact not_mem_walk unlisted names atRoot there

theorem insertNames_perm (names : List Text) (sorted : List (List Text)) :
    (insertNames names sorted).Perm (names :: sorted) := by
  induction sorted with
  | nil => exact .refl _
  | cons first rest ih =>
    rw [insertNames]
    split_ifs
    · exact (ih.cons first).trans (.swap names first rest)
    · exact .refl _

/-- Sorting keeps what a walk finds. -/
theorem collect_perm (extension : Text) (root : Listing) :
    (root.collect extension).Perm (root.walk extension true) := by
  rw [collect]
  induction root.walk extension true with
  | nil => exact .refl _
  | cons names found ih => exact (insertNames_perm names _).trans (ih.cons names)

theorem exists_bytes_of_mem_collect {root : Listing} {place : List Text} (distinct : root.Distinct)
    (mem : place ∈ root.collect extension) : ∃ bytes, root.bytesAt? place = some bytes :=
  exists_bytes_of_mem_walk distinct ((collect_perm extension root).mem_iff.mp mem)

/-- **What is collected below the path of a directory is a file of the tree**, and the path that is
joined from its names leads to it. -/
theorem exists_bytes_of_collected {tree inner : Listing} {root : Path} {location names : List Text}
    (distinct : tree.Distinct) (found : tree.directory? root = some (location, inner))
    (mem : names ∈ inner.collect extension) :
    (∃ bytes, tree.bytesAt? (location ++ names) = some bytes) ∧
      ((∀ name ∈ names, Path.IsName name) →
        tree.locate (Path.joinNames root names) = .ok (location ++ names)) := by
  obtain ⟨leads, directory⟩ := entry?_of_directory? found
  obtain ⟨bytes, held⟩ := exists_bytes_of_mem_collect (distinct.below directory) mem
  refine ⟨⟨bytes, by rw [bytesAt?_append directory, held]⟩, fun spelled => ?_⟩
  exact locate_joinNames leads directory
    (fun none => by simp [bytesAt?, none] at held) spelled

theorem nodup_collect {root : Listing} (distinct : root.Distinct) :
    (root.collect extension).Nodup :=
  (collect_perm extension root).nodup_iff.mpr (nodup_walk distinct true)

end Listing

end ScopedHandles
