import LiveSettings.Proofs.Files.Replacement
import Mathlib.Data.List.Induction

/-!
# Writing files

A file that is written is put where its path leads, and all directories are kept. So of several files that are put
one after the other the last at a place lies there, and what lies elsewhere is left.

Results:
* `FileTree.exists_of_write`: what a write puts where, and that it keeps the directories.
* `FileTree.find?_putFiles_of_last`, `FileTree.find?_putFiles_of_other`: what lies where files were put, and where
  none was.
* `Disk.tree_of_write`, `Disk.tree_of_makeDirectoryAll`: what a call that succeeds did to the tree.

Limitations: names differ as texts do; the tree has no links and does not take small letters for large ones.
-/

namespace LiveSettings

namespace FileTree

theorem asDirectory_of_writeSlot {t : FileTree} {p : FilePath} {slot : Slot} (h : t.writeSlot p = .ok slot) :
    slot.asDirectory = false := by
  unfold writeSlot at h
  split at h
  · cases h
  · cases h
  · split at h
    · cases h
    · split at h
      · cases h
      · rename_i plain
        cases h
        exact Bool.eq_false_iff.2 plain
    · split at h
      · cases h
      · rename_i plain
        cases h
        exact Bool.eq_false_iff.2 plain

/-- What a write puts where, and that it keeps the directories. -/
theorem exists_of_write {t t' : FileTree} {p : FilePath} {bytes : ByteArray} (h : t.write p bytes = .ok t') :
    ∃ slot, t.resolveSlot p = .ok (some slot) ∧ slot.asDirectory = false ∧
      t' = t.put slot.place (.file bytes) ∧ t.Keeps t' := by
  unfold write at h
  cases written : t.writeSlot p with
  | error e => simp [written, Except.map] at h
  | ok slot =>
    obtain ⟨leads, free⟩ := writeSlot_spec written
    simp only [written, Except.map, Except.ok.injEq] at h
    exact ⟨slot, leads, asDirectory_of_writeSlot written, h.symm, h ▸ keeps_put _ free⟩

/-! ## Several files -/

/-- The tree with files put at places, one after the other. -/
def putFiles (t : FileTree) (files : List (Place × ByteArray)) : FileTree :=
  files.foldl (fun t file => t.put file.1 (.file file.2)) t

section

variable {t : FileTree} {files : List (Place × ByteArray)} {place : Place}

/-- What lies where no file is put is left. -/
theorem find?_putFiles_of_other (other : ∀ file ∈ files, file.1 ≠ place) :
    (t.putFiles files).find? place = t.find? place := by
  induction files generalizing t with
  | nil => rfl
  | cons file files ih =>
    obtain ⟨here, later⟩ := List.forall_mem_cons.1 other
    exact (ih later).trans (find?_put_of_ne here)

/-- Of the files that are put at a place, the last lies there. -/
theorem find?_putFiles_of_last {before after : List (Place × ByteArray)} {bytes : ByteArray}
    (split : files = before ++ (place, bytes) :: after) (below : place ≠ [])
    (last : ∀ file ∈ after, file.1 ≠ place) : (t.putFiles files).find? place = some (.file bytes) := by
  have parts : t.putFiles files = ((t.putFiles before).put place (.file bytes)).putFiles after := by
    rw [split, putFiles, List.foldl_append, List.foldl_cons]
    rfl
  rw [parts, find?_putFiles_of_other last, find?_put _ _ _ _ below, if_pos rfl]

/-- Where a file is put, a file lies. -/
theorem find?_putFiles_of_mem (mem : place ∈ files.map (·.1)) (below : place ≠ []) :
    ∃ bytes, (t.putFiles files).find? place = some (.file bytes) := by
  induction files using List.reverseRecOn with
  | nil => cases mem
  | append_singleton before file ih =>
    by_cases here : file.1 = place
    · subst here
      exact ⟨file.2, find?_putFiles_of_last (rfl : before ++ [file] = before ++ (file.1, file.2) :: []) below nofun⟩
    · rw [List.map_append, List.mem_append, List.map_singleton, List.mem_singleton] at mem
      obtain ⟨bytes, found⟩ := ih (mem.resolve_right (Ne.symm here))
      refine ⟨bytes, ?_⟩
      rw [putFiles, List.foldl_append]
      exact (find?_put_of_ne here).trans found

end

end FileTree

namespace Disk

/-! ## Calls that succeed -/

theorem tree_nextFault (d : Disk) : d.nextFault.2.tree = d.tree := by
  unfold nextFault
  split <;> rfl

/-- A write that succeeds met no fault, and did to the tree what it does. -/
theorem tree_of_write {d d' : Disk} {p : FilePath} {bytes : ByteArray} (h : d.write p bytes = (d', .ok ())) :
    d.tree.write p bytes = .ok d'.tree := by
  have same := d.tree_nextFault
  unfold write at h
  split at h
  · rename_i rest next
    rw [next] at same
    rw [← same]
    split at h
    · rename_i tree written
      cases h
      exact written
    · cases h
  · split at h <;> cases h

theorem tree_of_makeDirectoryAll {d d' : Disk} {p : FilePath} (h : d.makeDirectoryAll p = (d', .ok ())) :
    d.tree.makeDirectoryAll p = (d'.tree, .ok ()) := by
  have same := d.tree_nextFault
  unfold makeDirectoryAll at h
  split at h
  · rename_i rest next
    rw [next] at same
    rw [← same]
    cases made : rest.tree.makeDirectoryAll p with
    | mk tree result =>
      rw [made] at h
      cases h
      rfl
  · cases h

/-- The text of a file that was written with it. -/
theorem readText_of_read {d : Disk} {p : FilePath} {text : String} (h : d.tree.read p = .ok text.toUTF8) :
    d.readText p = .ok text := by
  have decoded : String.fromUTF8? text.toUTF8 = some text := dif_pos text.isValidUTF8
  rw [readText, h]
  simp only [decoded]

end Disk

end LiveSettings
