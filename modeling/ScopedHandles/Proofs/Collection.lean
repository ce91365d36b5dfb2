/-
**Which files are collected, and in which order.**

A walk finds the files with an extension that no skipped directory leads to, and nothing else: this is told
by the names that lead to a file. Sorting puts the paths in the order of their components. So the paths
that are collected are determined by the files of the tree alone, and not by the order in which directories
list them.

* `Listing.mem_walk_iff` — what a walk finds.
* `Listing.pairwise_collect` — collected files are in order.
* `Path.components_joinNames` — the components of a path that is joined from names.
* `collection_exact` — the paths that are collected.
-/

import ScopedHandles.Run
import ScopedHandles.Proofs.Reordering
import Mathlib.Data.List.Lex

namespace ScopedHandles

/-! ### The order of names -/

/-- A character comes before another by its code. -/
def CodeLt (c d : Char) : Prop :=
  c.toNat < d.toNat

/-- Names come before others name by name, and a name before another by the codes of its characters. -/
abbrev NamesLt : List Text → List Text → Prop :=
  List.Lex (List.Lex CodeLt)

instance : Std.Asymm CodeLt :=
  ⟨fun _ _ => Nat.lt_asymm⟩

instance : Std.Trichotomous CodeLt :=
  ⟨fun _ _ least greatest => Char.toNat_inj.mp (by simp only [CodeLt] at least greatest; omega)⟩

instance : IsOrderConnected Char CodeLt :=
  ⟨fun c d e before => by simp only [CodeLt] at before ⊢; omega⟩

namespace Listing

theorem isSmaller_iff {name other : Text} : isSmaller name other = true ↔ List.Lex CodeLt name other := by
  rw [isSmaller, List.lex_eq_true_iff_lex]
  simp only [decide_eq_true_eq]
  rfl

theorem lex_isSmaller_iff {names others : List Text} :
    names.lex others isSmaller = true ↔ NamesLt names others := by
  have same : (fun name other => isSmaller name other = true) = List.Lex CodeLt :=
    funext fun _ => funext fun _ => propext isSmaller_iff
  rw [List.lex_eq_true_iff_lex, same]

/-! ### Sorting -/

theorem pairwise_insertNames {names : List Text} {sorted : List (List Text)}
    (order : sorted.Pairwise fun first later => ¬ NamesLt later first) :
    (insertNames names sorted).Pairwise fun first later => ¬ NamesLt later first := by
  induction sorted with
  | nil => exact List.pairwise_singleton _ _
  | cons first rest ih =>
    obtain ⟨least, behind⟩ := List.pairwise_cons.mp order
    rw [insertNames]
    split_ifs with before
    · rw [lex_isSmaller_iff] at before
      refine List.pairwise_cons.mpr ⟨fun later mem => ?_, ih behind⟩
      rcases List.mem_cons.mp ((insertNames_perm names rest).mem_iff.mp mem) with rfl | mem
      · exact Std.Asymm.asymm _ _ before
      · exact least later mem
    · rw [lex_isSmaller_iff] at before
      refine List.pairwise_cons.mpr ⟨fun later mem => ?_, order⟩
      rcases List.mem_cons.mp mem with rfl | mem
      · exact before
      · exact IsOrderConnected.neg_trans (least later mem) before

/-- **Collected files are in order.** -/
theorem pairwise_collect (extension : Text) (root : Listing) :
    (root.collect extension).Pairwise fun first later => ¬ NamesLt later first := by
  rw [collect]
  induction root.walk extension true with
  | nil => exact .nil
  | cons names found ih => exact pairwise_insertNames ih

/-- **Collecting does not see the order in which directories list their entries.** -/
theorem Reordered.collect_eq {listing other : Listing} (reordered : listing.Reordered other)
    (extension : Text) : other.collect extension = listing.collect extension := by
  have same : (other.collect extension).Perm (listing.collect extension) :=
    (collect_perm extension other).trans
      ((reordered.walk_perm extension true).symm.trans (collect_perm extension listing).symm)
  refine same.eq_of_pairwise (fun names others _ _ notAfter notBefore => ?_)
    (pairwise_collect extension other) (pairwise_collect extension listing)
  exact Std.Trichotomous.trichotomous (r := NamesLt) _ _ notBefore notAfter

/-! ### What a walk finds -/

variable {extension : Text}

theorem mem_walk_listed_iff {rest : Listing} {first name : Text} (unlisted : first ∉ rest.names)
    (entry : Entry) (atRoot : Bool) (others : List Text) :
    name :: others ∈ (entry.listed first rest).walk extension atRoot ↔
      if first = name then name :: others ∈ entry.found extension atRoot name
      else name :: others ∈ rest.walk extension atRoot := by
  rw [walk_listed, List.mem_append]
  split_ifs with same
  · subst same
    exact or_iff_left (not_mem_walk unlisted others atRoot)
  · refine or_iff_right fun mem => ?_
    cases entry <;> simp only [Entry.found] at mem <;> split_ifs at mem <;> simp_all

/-- **What a walk finds behind a name** is told by the entry with that name. An entry is found under its own
name, and behind it the others. -/
theorem mem_walk_cons_iff {listing : Listing} (distinct : listing.Distinct) {atRoot : Bool} {name : Text}
    {others : List Text} :
    name :: others ∈ listing.walk extension atRoot ↔
      ∃ entry, listing.find? name = some entry ∧ name :: others ∈ entry.found extension atRoot name := by
  have step : ∀ (entry : Entry) (first : Text) (rest : Listing), first ∉ rest.names →
      (name :: others ∈ rest.walk extension atRoot ↔
        ∃ entry, rest.find? name = some entry ∧ name :: others ∈ entry.found extension atRoot name) →
      (name :: others ∈ (entry.listed first rest).walk extension atRoot ↔
        ∃ found, (entry.listed first rest).find? name = some found ∧
          name :: others ∈ found.found extension atRoot name) := by
    intro entry first rest unlisted behind
    rw [mem_walk_listed_iff unlisted, find?_listed]
    split_ifs
    · simp
    · exact behind
  induction listing with
  | empty => simp [walk, find?]
  | file other bytes rest ih => exact step (.file bytes) other rest distinct.1 (ih distinct.2)
  | dir other inner rest _ ih => exact step (.directory inner) other rest distinct.1 (ih distinct.2.2)

/-- The names lead to a file with the extension, and no directory on the way is skipped. -/
structure Wanted (extension : Text) (atRoot : Bool) (root : Listing) (names : List Text) : Prop where
  file : ∃ bytes, root.bytesAt? names = some bytes
  extended : ∃ name ∈ names.getLast?, Path.extension? name = some extension
  anywhere : ∀ name ∈ names.dropLast, name ∉ skippedAnywhere
  first : atRoot = true → ∀ name ∈ names.dropLast.head?, name ∉ skippedAtRoot

section Wanted

variable {listing inner : Listing} {atRoot : Bool} {name : Text} {others : List Text}

theorem bytesAt?_of_directory (found : listing.find? name = some (.directory inner)) :
    listing.bytesAt? (name :: others) = inner.bytesAt? others := by
  rw [bytesAt?_cons, found]
  rfl

theorem wanted_file_iff {bytes : ByteArray} (found : listing.find? name = some (.file bytes)) :
    listing.Wanted extension atRoot (name :: others) ↔
      others = [] ∧ Path.extension? name = some extension := by
  constructor
  · rintro ⟨⟨held, file⟩, extended, _, _⟩
    cases others with
    | nil => exact ⟨rfl, by simpa using extended⟩
    | cons other others => simp [bytesAt?_cons, found, Entry.at?] at file
  · rintro ⟨rfl, extended⟩
    exact ⟨⟨bytes, by simp [bytesAt?_cons, found, Entry.at?, Entry.bytes?]⟩, by simpa using extended,
      by simp, by simp⟩

theorem wanted_directory_iff (found : listing.find? name = some (.directory inner)) :
    listing.Wanted extension atRoot (name :: others) ↔
      isSkipped atRoot name = false ∧ inner.Wanted extension false others := by
  have led : listing.bytesAt? (name :: others) = inner.bytesAt? others := bytesAt?_of_directory found
  cases others with
  | nil =>
    refine iff_of_false (fun wanted => ?_) fun wanted => by simpa using wanted.2.extended
    obtain ⟨bytes, file⟩ := wanted.file
    rw [led] at file
    simp [bytesAt?, entry?, Entry.bytes?] at file
  | cons other others =>
    have skipped : isSkipped atRoot name = false ↔
        name ∉ skippedAnywhere ∧ (atRoot = true → name ∉ skippedAtRoot) := by
      simp [isSkipped]
    rw [skipped]
    constructor
    · rintro ⟨file, extended, anywhere, first⟩
      rw [led] at file
      rw [List.dropLast_cons_cons] at anywhere first
      obtain ⟨here, below⟩ := List.forall_mem_cons.mp anywhere
      exact ⟨⟨here, fun top => first top name rfl⟩, file, by simpa using extended, below, by simp⟩
    · rintro ⟨⟨here, top⟩, file, extended, below, _⟩
      refine ⟨led ▸ file, by simpa using extended, ?_, ?_⟩
      · rw [List.dropLast_cons_cons]
        exact List.forall_mem_cons.mpr ⟨here, below⟩
      · rintro isTop _ ⟨⟩
        exact top isTop

end Wanted

/-- **What a walk finds.** -/
theorem mem_walk_iff {listing : Listing} (distinct : listing.Distinct) {atRoot : Bool}
    {names : List Text} :
    names ∈ listing.walk extension atRoot ↔ listing.Wanted extension atRoot names := by
  induction names generalizing listing atRoot with
  | nil =>
    refine iff_of_false (fun mem => ?_) fun wanted => by simpa using wanted.extended
    obtain ⟨_, _, split, _⟩ := exists_of_mem_walk mem
    cases split
  | cons name others ih =>
    rw [mem_walk_cons_iff distinct]
    cases found : listing.find? name with
    | none =>
      refine iff_of_false (by simp) fun wanted => ?_
      obtain ⟨bytes, file⟩ := wanted.file
      simp [bytesAt?_cons, found] at file
    | some entry =>
      cases entry with
      | file bytes =>
        rw [wanted_file_iff found]
        simp [Entry.found, and_comm]
      | directory inner =>
        rw [wanted_directory_iff found, ← ih (distinct.of_find? found)]
        simp [Entry.found]

/-- Collected files are in strict order. -/
theorem pairwise_collect_lt {root : Listing} (distinct : root.Distinct) :
    (root.collect extension).Pairwise NamesLt := by
  refine (pairwise_collect extension root).imp₂ ?_ (nodup_collect distinct)
  intro names later notAfter apart
  by_contra notBefore
  exact apart (Std.Trichotomous.trichotomous (r := NamesLt) _ _ notBefore notAfter)

/-! ### Names that paths can spell -/

/-- All names are names that a path can spell. -/
def Spelled : Listing → Prop
  | .empty => True
  | .file name _ rest => Path.IsName name ∧ rest.Spelled
  | .dir name inner rest => Path.IsName name ∧ inner.Spelled ∧ rest.Spelled

instance (name : Text) : Decidable (Path.IsName name) :=
  inferInstanceAs (Decidable (_ ∧ _ ∧ _))

instance decidableSpelled : (listing : Listing) → Decidable listing.Spelled
  | .empty => .isTrue trivial
  | .file _ _ rest =>
    have := decidableSpelled rest
    inferInstanceAs (Decidable (_ ∧ _))
  | .dir _ inner rest =>
    have := decidableSpelled inner
    have := decidableSpelled rest
    inferInstanceAs (Decidable (_ ∧ _ ∧ _))

theorem isName_of_mem_walk {listing : Listing} (spelled : listing.Spelled) {atRoot : Bool}
    {names : List Text} (mem : names ∈ listing.walk extension atRoot) :
    ∀ name ∈ names, Path.IsName name := by
  induction listing generalizing atRoot names with
  | empty => simp [walk] at mem
  | file name bytes rest ih =>
    rw [walk] at mem
    split_ifs at mem
    · rcases List.mem_cons.mp mem with rfl | mem
      · exact List.forall_mem_singleton.mpr spelled.1
      · exact ih spelled.2 mem
    · exact ih spelled.2 mem
  | dir name inner rest inside ih =>
    rw [walk] at mem
    split_ifs at mem
    · exact ih spelled.2.2 mem
    · rcases List.mem_append.mp mem with mem | mem
      · obtain ⟨others, below, rfl⟩ := List.mem_map.mp mem
        exact List.forall_mem_cons.mpr ⟨spelled.1, inside spelled.2.1 below⟩
      · exact ih spelled.2.2 mem

end Listing

namespace Path

theorem eq_nil_of_segments {path : Path} (none : segments path = [[]]) : path = [] := by
  cases path with
  | nil => rfl
  | cons c rest =>
    rw [segments] at none
    split_ifs at none
    · exact absurd (List.cons.inj none).2 (segments_ne_nil rest)
    · split at none <;> simp at none

theorem components_of_segments {path : Path} {first : Text} {rest : List Text}
    (split : segments path = first :: rest) :
    components path =
      if first = [] ∧ rest ≠ [] then ['/'] :: rest.filter (!isIdle ·)
      else if first = ['.'] then ['.'] :: rest.filter (!isIdle ·)
      else [first].filter (!isIdle ·) ++ rest.filter (!isIdle ·) := by
  rw [components, anchored, split, ← List.filter_append]
  simp only
  split_ifs <;> rfl

/-- **A name that is joined to a path is its last component.** -/
theorem components_joinName {directory : Path} (some : directory ≠ []) {name : Text}
    (isName : IsName name) : components (joinName directory name) = components directory ++ [name] := by
  obtain ⟨busy, _, whole⟩ := isName
  rw [joinName]
  split_ifs with slash
  · obtain ⟨front, rfl⟩ := List.getLast?_eq_some_iff.mp slash
    obtain ⟨first, rest, front_eq⟩ := List.exists_cons_of_ne_nil (segments_ne_nil front)
    have joined : segments (front ++ ['/'] ++ name) = first :: (rest ++ [name]) := by
      rw [List.append_assoc, List.singleton_append, segments_append_slash, segments_of_not_mem whole,
        front_eq, List.cons_append]
    have ended : segments (front ++ ['/']) = first :: (rest ++ [[]]) := by
      rw [segments_append_slash, front_eq]
      rfl
    rw [components_of_segments joined, components_of_segments ended]
    have idle : isIdle [] = true := rfl
    split_ifs <;> simp_all
  · obtain ⟨first, rest, directory_eq⟩ := List.exists_cons_of_ne_nil (segments_ne_nil directory)
    have joined : segments (directory ++ '/' :: name) = first :: (rest ++ [name]) := by
      rw [segments_append_slash, segments_of_not_mem whole, directory_eq, List.cons_append]
    have anchor : first = [] → rest ≠ [] := by
      rintro rfl rfl
      exact some (eq_nil_of_segments directory_eq)
    rw [components_of_segments joined, components_of_segments directory_eq]
    split_ifs <;> simp_all

theorem joinName_ne_nil {directory : Path} (some : directory ≠ []) (name : Text) :
    joinName directory name ≠ [] := by
  rw [joinName]
  split_ifs <;> simp [some]

theorem components_joinNames {directory : Path} (some : directory ≠ []) {names : List Text}
    (spelled : ∀ name ∈ names, IsName name) :
    components (joinNames directory names) = components directory ++ names := by
  induction names generalizing directory with
  | nil => exact (List.append_nil _).symm
  | cons name names ih =>
    obtain ⟨here, later⟩ := List.forall_mem_cons.mp spelled
    rw [joinNames, List.foldl_cons, ← joinNames, ih (joinName_ne_nil some name) later,
      components_joinName some here, List.append_assoc, List.singleton_append]

end Path

/-! ### Collected paths -/

/-- **The paths that are collected.** Below the path of a directory, in a tree whose directories list a name
only once, the files with the extension that no skipped directory leads to are collected, and nothing
else. No path is collected twice, and each comes before the next by its components. In whatever order the
directories list their entries, the same is collected. -/
theorem collection_exact {tree inner : Listing} {root : Path} {location : List Text} (extension : Text)
    (distinct : tree.Distinct) (spelled : inner.Spelled)
    (found : tree.directory? root = some (location, inner)) :
    ∃ paths, collectPaths extension tree root = .ok paths ∧
      (∀ path, path ∈ paths ↔
        ∃ names, path = Path.joinNames root names ∧ inner.Wanted extension true names) ∧
      paths.Nodup ∧
      (paths.Pairwise fun path later => NamesLt (Path.components path) (Path.components later)) ∧
      ∀ other, tree.Reordered other → collectPaths extension other root = .ok paths := by
  obtain ⟨leads, directory⟩ := Listing.entry?_of_directory? found
  have below : inner.Distinct := distinct.below directory
  have some : root ≠ [] := by
    rintro rfl
    simp [Listing.locate] at leads
  have wanted : ∀ names, names ∈ inner.collect extension ↔ inner.Wanted extension true names :=
    fun names => (Listing.collect_perm extension inner).mem_iff.trans (Listing.mem_walk_iff below)
  have order : ((inner.collect extension).map (Path.joinNames root)).Pairwise fun path later =>
      NamesLt (Path.components path) (Path.components later) := by
    refine List.pairwise_map.mpr ((Listing.pairwise_collect_lt below).imp_of_mem ?_)
    intro names later mem memLater before
    have named : ∀ names ∈ inner.collect extension, ∀ name ∈ names, Path.IsName name := fun _ mem =>
      Listing.isName_of_mem_walk spelled ((Listing.collect_perm extension inner).mem_iff.mp mem)
    rw [Path.components_joinNames some (named names mem),
      Path.components_joinNames some (named later memLater)]
    exact List.Lex.append_left _ before _
  refine ⟨_, by rw [collectPaths, found], fun path => ?_, order.imp ?_, order, fun other reordered => ?_⟩
  · simp only [List.mem_map, wanted]
    exact exists_congr fun names => and_comm.trans (and_congr_left fun _ => eq_comm)
  · rintro path later before rfl
    exact Std.Irrefl.irrefl (r := NamesLt) _ before
  · obtain ⟨inside, again, same⟩ := reordered.exists_directory? distinct found
    simp only [collectPaths, again, same.collect_eq extension]

/-- A directory that is skipped at the root only, and kept below. -/
def buildOutput : Entry :=
  .directory (.file "c.java".toList .empty .empty)

/-- The files of a project: in a directory with the extension of a file, in build output, and right at the
root. -/
def projectFiles : Listing :=
  .dir "z.java".toList (buildOutput.listed "build".toList (.file "b.java".toList .empty .empty))
    (buildOutput.listed "build".toList (.file "Z.java".toList .empty .empty))

/-- The same files, with the build output listed first. -/
def relistedFiles : Listing :=
  buildOutput.listed "build".toList
    (.dir "z.java".toList (buildOutput.listed "build".toList (.file "b.java".toList .empty .empty))
      (.file "Z.java".toList .empty .empty))

/-- A tree with files in a directory whose name is skipped elsewhere. -/
def vendoredTree (files : Listing) : Listing :=
  .dir ['.'] (.dir "vendor".toList files .empty) .empty

theorem vendoredTree_collected :
    (vendoredTree projectFiles).Distinct ∧ projectFiles.Spelled ∧
      (vendoredTree projectFiles).directory? "vendor/".toList =
        some ([['.'], "vendor".toList], projectFiles) ∧
      ∃ paths, paths = ["vendor/Z.java".toList, "vendor/z.java/b.java".toList,
          "vendor/z.java/build/c.java".toList] ∧
        collectPaths "java".toList (vendoredTree projectFiles) "vendor/".toList = .ok paths ∧
        paths.Nodup ∧
        collectPaths "java".toList (vendoredTree relistedFiles) "vendor/".toList = .ok paths := by
  have distinct : (vendoredTree projectFiles).Distinct := by decide +kernel
  have spelled : projectFiles.Spelled := by decide +kernel
  have found : (vendoredTree projectFiles).directory? "vendor/".toList =
      some ([['.'], "vendor".toList], projectFiles) := rfl
  have concrete : collectPaths "java".toList (vendoredTree projectFiles) "vendor/".toList =
      .ok ["vendor/Z.java".toList, "vendor/z.java/b.java".toList,
        "vendor/z.java/build/c.java".toList] := rfl
  have relisted : (vendoredTree projectFiles).Reordered (vendoredTree relistedFiles) :=
    .dir _ (.dir _ (.swap _ _ (.directory _) buildOutput _) .empty) .empty
  obtain ⟨paths, collected, _, nodup, _, again⟩ :=
    collection_exact "java".toList distinct spelled found
  refine ⟨distinct, spelled, found, paths, ?_, collected, nodup, again _ relisted⟩
  exact Except.ok.inj (collected.symm.trans concrete)

end ScopedHandles
