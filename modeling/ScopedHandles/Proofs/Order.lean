/-
**The order of the files does not matter.**

A run reads and writes one tree, file after file. What it reads of a file no other file has written, and
what it writes for two files can be written in either order. So files can be worked on in every order, also
where attempts to write fail: the tree is the same in the end, and so is the report on each file.

* `Listing.overwrite_comm` — writes to different files can be exchanged.
* `runFile_comm` — so can the work on two files.
* `runFiles_perm` — and the work on any number of them.
* `run_in_any_order` — every order gives the tree and the reports of the run.
-/

import ScopedHandles.Proofs.Run

namespace ScopedHandles

/-! ### Two files -/

/-- **Writes to different files can be exchanged.** -/
theorem Listing.overwrite_comm {names others : List Text} (different : names ≠ others)
    (bytes more : ByteArray) (listing : Listing) :
    (listing.overwrite names bytes).overwrite others more =
      (listing.overwrite others more).overwrite names bytes := by
  induction listing generalizing names others with
  | empty => rfl
  | file name old rest ih =>
    have later := ih different
    by_cases here : names = [name]
    · have elsewhere : others ≠ [name] := fun there => different (here.trans there.symm)
      simp only [overwrite, if_pos here, if_neg elsewhere]
    · by_cases there : others = [name]
      · simp only [overwrite, if_neg here, if_pos there]
      · simp only [overwrite, if_neg here, if_neg there, later]
  | dir name inner rest inside ih =>
    cases names with
    | nil => rw [overwrite_nil, overwrite_nil]
    | cons first front =>
      cases others with
      | nil => rw [overwrite_nil, overwrite_nil]
      | cons second back =>
        have later := ih different
        by_cases here : first = name
        · by_cases there : second = name
          · have below : front ≠ back := fun same => different (by rw [here, there, same])
            simp only [overwrite, if_pos here, if_pos there, inside below]
          · simp only [overwrite, if_pos here, if_neg there]
        · by_cases there : second = name
          · simp only [overwrite, if_neg here, if_pos there]
          · simp only [overwrite, if_neg here, if_neg there, later]

theorem Listing.holding_comm {place other : List Text} (different : place ≠ other)
    (bytes more : Option ByteArray) (listing : Listing) :
    (listing.holding place bytes).holding other more =
      (listing.holding other more).holding place bytes := by
  cases bytes with
  | none => rfl
  | some bytes =>
    cases more with
    | none => rfl
    | some more => exact overwrite_comm different bytes more listing

/-- **The work on two files can be exchanged.** -/
theorem runFile_comm (disk : Disk) (settings : Settings) (file name : Path) {place other : List Text}
    (different : place ≠ other) (tree : Listing) :
    (runFile disk settings name other (runFile disk settings file place tree).2).2 =
      (runFile disk settings file place (runFile disk settings name other tree).2).2 := by
  let bytes := left? disk settings place (tree.readAt place)
  let more := left? disk settings other (tree.readAt other)
  calc (runFile disk settings name other (runFile disk settings file place tree).2).2
      = (tree.holding place bytes).holding other more := by
        rw [runFile_tree disk settings name other, readAt_runFile disk settings file different.symm,
          runFile_tree]
    _ = (tree.holding other more).holding place bytes := Listing.holding_comm different bytes more tree
    _ = (runFile disk settings file place (runFile disk settings name other tree).2).2 := by
        rw [runFile_tree disk settings file place, readAt_runFile disk settings name different,
          runFile_tree]

/-! ### All files -/

section Files

variable (disk : Disk) (settings : Settings) (root : Path) (location : List Text)

theorem runFiles_cons (names : List Text) (files : List (List Text)) (tree : Listing) :
    (runFiles disk settings root location (names :: files) tree).2 =
      (runFiles disk settings root location files (runFile disk settings
        (Path.relativeTo root (Path.joinNames root names)) (location ++ names) tree).2).2 :=
  rfl

/-- **The work on files can be done in any order.** Any two that are next to each other can be
exchanged. -/
theorem runFiles_perm {files others : List (List Text)} (perm : files.Perm others)
    (nodup : files.Nodup) (tree : Listing) :
    (runFiles disk settings root location files tree).2 =
      (runFiles disk settings root location others tree).2 := by
  induction perm generalizing tree with
  | nil => rfl
  | cons names _ ih =>
    rw [runFiles_cons, runFiles_cons]
    exact ih (List.nodup_cons.mp nodup).2 _
  | swap first second files =>
    have different : location ++ second ≠ location ++ first := fun same =>
      (List.nodup_cons.mp nodup).1 (List.append_cancel_left same ▸ List.mem_cons_self)
    simp only [runFiles_cons]
    rw [runFile_comm disk settings _ _ different]
  | trans perm _ first second => exact (first nodup tree).trans (second (perm.nodup nodup) tree)

end Files

/-! ### Runs -/

/-- **Every order of the collected files gives what the run gives**, in every tree whose directories list a
name only once, and on every disk: the same tree, and the same report on each file. -/
theorem run_in_any_order (disk : Disk) {settings : Settings} {tree inner : Listing} {root : Path}
    {location : List Text} (valid : settings.validate = .ok ()) (distinct : tree.Distinct)
    (found : tree.directory? root = some (location, inner)) :
    ∃ (report : List Text → FileReport) (after : Listing),
      runTree settings tree root disk =
        .ok (.of root settings.dryRun ((inner.collect settings.bareExtension).map report), after) ∧
      ∀ files : List (List Text), files.Perm (inner.collect settings.bareExtension) →
        runFiles disk settings root location files tree = (files.map report, after) := by
  have nodup : (inner.collect settings.bareExtension).Nodup :=
    Listing.nodup_collect (distinct.below (Listing.entry?_of_directory? found).2)
  let report (names : List Text) : FileReport :=
    .of disk settings (Path.relativeTo root (Path.joinNames root names)) (location ++ names)
      (tree.readAt (location ++ names))
  have ordered : ∀ files : List (List Text), files.Perm (inner.collect settings.bareExtension) →
      runFiles disk settings root location files tree =
        (files.map report,
          (runFiles disk settings root location (inner.collect settings.bareExtension) tree).2) := by
    intro files perm
    have once : files.Nodup := perm.nodup_iff.mpr nodup
    exact Prod.ext (runFiles_reports disk settings root location once tree)
      (runFiles_perm disk settings root location perm once tree)
  exact ⟨report, _, runTree_eq valid found settings.dryRun (ordered _ (.refl _)), ordered⟩

/-- A file that is changed and cannot be written, one that is not changed and one that cannot be read, from
the last to the first. -/
theorem mixedTree_in_reverse :
    briefSettings.validate = .ok () ∧ mixedTree.Distinct ∧ ∃ reports after,
      runTree briefSettings mixedTree ['t'] fullDisk = .ok (.of ['t'] false reports, after) ∧
      runFiles fullDisk briefSettings ['t'] [['.'], ['t']]
        [["c.java".toList], ["b.java".toList], ["a.java".toList]] mixedTree = (reports.reverse, after) := by
  have valid : briefSettings.validate = .ok () := by decide +kernel
  have distinct : mixedTree.Distinct :=
    (((Listing.distinct_blank.putAt (Entry.distinct_file _) _).putAt (Entry.distinct_file _) _).putAt
      (Entry.distinct_file _) _).putAt (Entry.distinct_file _) _
  obtain ⟨inner, found, collected⟩ : ∃ inner,
      mixedTree.directory? ['t'] = some ([['.'], ['t']], inner) ∧
        inner.collect briefSettings.bareExtension =
          [["a.java".toList], ["b.java".toList], ["c.java".toList]] :=
    ⟨_, rfl, by decide +kernel⟩
  obtain ⟨report, after, ran, ordered⟩ := run_in_any_order fullDisk valid distinct found
  rw [collected] at ran ordered
  exact ⟨valid, distinct, _, after, ran, ordered _ (by decide)⟩

end ScopedHandles
