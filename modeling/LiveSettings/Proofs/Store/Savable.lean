import LiveSettings.Proofs.Store.Saving

/-!
# Saves that succeed

On a disk without faults, what lies on the disk alone decides whether a document can be saved, and what a save
does to it is known place by place.

Results:
* `FileStore.exists_savable`, `FileStore.save_of_savable`: a save succeeds exactly where a document is `Savable`.
* `FileStore.Saved`: what it leaves at the document, the staging file, the directories around, and elsewhere.
* `FileStore.grounded_save`: saves keep a tree grounded, failed or not.
-/

namespace LiveSettings

open FilePath (trail)
open FileTree (IsShort)

namespace Disk

/-! ## Disks without faults -/

theorem makeDirectoryAll_ofTree (t : FileTree) (q : FilePath) :
    (ofTree t).makeDirectoryAll q = (ofTree (t.makeDirectoryAll q).1, (t.makeDirectoryAll q).2) := rfl

theorem write_ofTree (t : FileTree) (p : FilePath) (bytes : ByteArray) :
    (ofTree t).write p bytes =
      match t.write p bytes with
      | .ok tree => (ofTree tree, .ok ())
      | .error e => (ofTree t, .error e) := rfl

theorem rename_ofTree (t : FileTree) (source target : FilePath) :
    (ofTree t).rename source target =
      match t.rename source target with
      | .ok tree => (ofTree tree, .ok ())
      | .error e => (ofTree t, .error e) := rfl

end Disk

namespace FileStore

section

variable {t t' : FileTree} {p q : FilePath} {name : String} {bytes : ByteArray}

/-- Whether a document can be saved at a path: it can be a file's, with its staging file; no file is in the way
to it; and neither of the two is a directory, or would become one on that way. -/
structure Savable (t : FileTree) (p : FilePath) (name : String) (q : FilePath) : Prop where
  ends : ∃ before, p.EndsIn name q before []
  valid : FileTree.pathError? p = none
  validStaging : FileTree.pathError? (stagingPath p) = none
  clear : t.Clear (trail [] q.steps)
  short : ∀ piece ∈ q.steps, IsShort piece
  shortName : IsShort name.toList
  shortStaging : IsShort (name ++ ".tmp").toList
  document : t.find? p.target ≠ some .directory
  staging : t.find? (stagingPath p).target ≠ some .directory
  documentApart : p.target ∉ trail [] q.steps
  stagingApart : (stagingPath p).target ∉ trail [] q.steps

/-- What a save leaves. -/
structure Saved (t t' : FileTree) (p : FilePath) (bytes : ByteArray) : Prop where
  document : t'.find? p.target = some (.file bytes)
  staging : t'.find? (stagingPath p).target = none
  way : ∀ place ∈ around p, t'.find? place = some .directory
  others : ∀ place, place ≠ p.target → place ≠ (stagingPath p).target → place ∉ around p →
    t'.find? place = t.find? place
  keeps : t.Keeps t'

theorem around_of_endsIn {before blanks : List (List Char)} (h : p.EndsIn name q before blanks) :
    around p = trail [] q.steps := by
  rw [around, h.parent, Option.elim_some]

theorem target_ne_staging {before blanks : List (List Char)} (h : p.EndsIn name q before blanks) :
    p.target ≠ (stagingPath p).target := by
  rw [(stages_of_endsIn h).target, FileTree.target_of_endsIn h]
  exact fun same => append_tmp_ne name (List.singleton_inj.1 (List.append_inj' same rfl).2)

/-! ## The steps of a save -/

theorem exists_of_prepare {outcome : Except StoreError Unit} {d : Disk}
    (h : prepare p (.ofTree t) = (d, outcome)) : ∃ t₁, d = .ofTree t₁ := by
  unfold prepare at h
  split at h
  · cases h
    exact ⟨t, rfl⟩
  · rename_i parent _
    split at h
    · cases h
      exact ⟨t, rfl⟩
    · rw [Disk.makeDirectoryAll_ofTree] at h
      cases made : (t.makeDirectoryAll parent).2 <;> rw [made] at h <;> cases h <;> exact ⟨_, rfl⟩

/-- A save makes the directories around its file, writes the staging file, and moves it over the document. -/
theorem save_eq_ok_iff {s : FileStore} {d : Disk} :
    s.save (.ofTree t) = (d, .ok ()) ↔ ∃ t₁ t₂ t₃, prepare s.config.path (.ofTree t) = (.ofTree t₁, .ok ()) ∧
      t₁.write (stagingPath s.config.path) s.document.toUTF8 = .ok t₂ ∧
      t₂.rename (stagingPath s.config.path) s.config.path = .ok t₃ ∧ d = .ofTree t₃ := by
  constructor
  · intro h
    simp only [save] at h
    split at h
    · cases h
    · rename_i d₁ prepared
      obtain ⟨t₁, rfl⟩ := exists_of_prepare prepared
      rw [Disk.write_ofTree] at h
      cases written : t₁.write (stagingPath s.config.path) s.document.toUTF8 with
      | error e =>
        rw [written] at h
        cases h
      | ok t₂ =>
        rw [written] at h
        simp only [Disk.rename_ofTree] at h
        cases moved : t₂.rename (stagingPath s.config.path) s.config.path with
        | error e =>
          rw [moved] at h
          cases h
        | ok t₃ =>
          rw [moved] at h
          cases h
          exact ⟨t₁, t₂, t₃, prepared, written, moved, rfl⟩
  · rintro ⟨t₁, t₂, t₃, prepared, written, moved, rfl⟩
    simp only [save, prepared, Disk.write_ofTree, written, Disk.rename_ofTree, moved]

/-- The way to a file is open once it is prepared. -/
theorem open_of_prepare (parent : p.parent? = some q) (h : prepare p (.ofTree t) = (.ofTree t', .ok ())) :
    t'.Open [] q.steps := by
  simp only [prepare, parent] at h
  split at h
  · rename_i bare
    cases h
    have none : q.steps = [] := by
      obtain rfl : q = ⟨""⟩ := congrArg FilePath.mk (String.isEmpty_iff.1 bare)
      decide
    rw [none]
    exact t.open_nil
  · rw [Disk.makeDirectoryAll_ofTree] at h
    rcases all : t.makeDirectoryAll q with ⟨t₁, e | ⟨⟩⟩
    · rw [all] at h
      cases h
    · rw [all] at h
      cases h
      exact FileTree.open_of_makeDirectoryAll all

/-- Where no file is in the way and no name is too long, the way to a file can be prepared. -/
theorem prepare_of_clear (parent : p.parent? = some q) (valid : FileTree.pathError? p = none)
    (clear : t.Clear (trail [] q.steps)) (short : ∀ piece ∈ q.steps, IsShort piece) :
    ∃ t₁, prepare p (.ofTree t) = (.ofTree t₁, .ok ()) := by
  simp only [prepare, parent]
  split
  · exact ⟨t, rfl⟩
  · obtain ⟨t₁, all⟩ := FileTree.makeDirectoryAll_isOk (FilePath.tidy_of_parent? parent)
      (FileTree.pathError?_of_parent? parent valid) clear short
    exact ⟨t₁, by rw [Disk.makeDirectoryAll_ofTree, all]⟩

theorem adds_of_prepare (ends : ∃ before, p.EndsIn name q before [])
    (h : prepare p (.ofTree t) = (.ofTree t', .ok ())) : t.Adds t' (trail [] q.steps) := by
  obtain ⟨before, ends⟩ := ends
  have adds := adds_prepare p (.ofTree t)
  rw [around_of_endsIn ends, h] at adds
  exact adds

/-! ## Where a save succeeds -/

/-- A save that succeeds was possible. -/
theorem exists_savable {s : FileStore} {d : Disk} (h : s.save (.ofTree t) = (d, .ok ())) :
    ∃ name q, Savable t s.config.path name q := by
  obtain ⟨t₁, t₂, t₃, prepared, written, moved, -⟩ := save_eq_ok_iff.1 h
  obtain ⟨⟨name', q', staged⟩, free, rfl⟩ := FileTree.write_eq_ok_iff.1 written
  have keeps := FileTree.keeps_put (.file s.document.toUTF8) free
  have root : (stagingPath s.config.path).target ≠ [] := fun bare => free (by rw [bare]; rfl)
  obtain ⟨⟨name, q, reaches⟩, other, -⟩ := (FileTree.rename_eq_ok_iff (staged.keeps keeps)
    ((FileTree.find?_put _ _ _ _ root).trans (if_pos rfl))).1 moved
  obtain ⟨before, ends⟩ := reaches.ends
  have stages := stages_of_endsIn ends
  have way := open_of_prepare ends.parent prepared
  have adds := adds_of_prepare reaches.ends prepared
  have staged : ∃ name' q', t₁.Reaches (q.join (name ++ ".tmp")) name' q' := ⟨name', q', stages.path ▸ staged⟩
  obtain ⟨validStaging, -, shortStaging⟩ := (FileTree.reaches_join_iff stages.names stages.plain).1 staged
  refine ⟨name, q, reaches.ends, reaches.valid, stages.path ▸ validStaging, fun place mem bytes file => ?_, way.short,
    reaches.short, shortStaging, fun directory => ?_, fun directory => ?_, fun mem => ?_, fun mem => ?_⟩
  · have still := adds.grows _ _ file
    rw [way.directories place mem] at still
    cases still
  · exact other (keeps _ (adds.grows _ _ directory))
  · exact free (adds.grows _ _ directory)
  · exact other (keeps _ (way.directories _ mem))
  · exact free (way.directories _ mem)

/-- Where a document can be saved it is, with a known effect. -/
theorem save_of_savable {s : FileStore} (h : Savable t s.config.path name q) :
    ∃ t', s.save (.ofTree t) = (.ofTree t', .ok ()) ∧ Saved t t' s.config.path s.document.toUTF8 := by
  obtain ⟨before, ends⟩ := h.ends
  have stages := stages_of_endsIn ends
  have apart := target_ne_staging ends
  obtain ⟨t₁, prepared⟩ := prepare_of_clear ends.parent h.valid h.clear h.short
  have way := open_of_prepare ends.parent prepared
  have adds := adds_of_prepare h.ends prepared
  -- nothing is made at the places of the two files
  have here : t₁.find? s.config.path.target = t.find? s.config.path.target :=
    (adds _).resolve_right fun made => h.documentApart made.2.2
  have beside : t₁.find? (stagingPath s.config.path).target = t.find? (stagingPath s.config.path).target :=
    (adds _).resolve_right fun made => h.stagingApart made.2.2
  have reaches : ∃ name' q', t₁.Reaches (stagingPath s.config.path) name' q' := by
    rw [stages.path]
    exact (FileTree.reaches_join_iff stages.names stages.plain).2
      ⟨stages.path ▸ h.validStaging, way, h.shortStaging⟩
  have free : t₁.find? (stagingPath s.config.path).target ≠ some .directory := beside ▸ h.staging
  have keeps := FileTree.keeps_put (.file s.document.toUTF8) free
  have written : t₁.write (stagingPath s.config.path) s.document.toUTF8 = .ok _ :=
    FileTree.write_eq_ok_iff.2 ⟨reaches, free, rfl⟩
  have root : (stagingPath s.config.path).target ≠ [] := fun bare => free (by rw [bare]; rfl)
  have root' : s.config.path.target ≠ [] := fun bare => h.document (by rw [bare]; rfl)
  have other : (t₁.put (stagingPath s.config.path).target (.file s.document.toUTF8)).find? s.config.path.target ≠
      some .directory := by
    rw [FileTree.find?_put_of_ne apart.symm, here]
    exact h.document
  obtain ⟨name', q', staged⟩ := reaches
  have moved := (FileTree.rename_eq_ok_iff (staged.keeps keeps)
    ((FileTree.find?_put _ _ _ _ root).trans (if_pos rfl))).2
    ⟨⟨name, q, h.ends, h.valid, way.keeps keeps, h.shortName⟩, other, rfl⟩
  refine ⟨_, save_eq_ok_iff.2 ⟨t₁, _, _, prepared, written, moved, rfl⟩, ?_, ?_, fun place mem => ?_,
    fun place document staging off => ?_, (adds.grows.keeps.trans keeps).trans (FileTree.keeps_rename moved)⟩
  · rw [FileTree.find?_put _ _ _ _ root', if_pos rfl]
  · rw [FileTree.find?_put_of_ne apart, FileTree.find?_remove _ _ _ root, if_pos rfl]
  · rw [around_of_endsIn ends] at mem
    exact FileTree.keeps_rename moved _ (keeps _ (way.directories place mem))
  · rw [around_of_endsIn ends] at off
    rw [FileTree.find?_put_of_ne document.symm, FileTree.find?_remove_of_ne staging.symm,
      FileTree.find?_put_of_ne staging.symm]
    exact (adds place).resolve_right fun made => off made.2.2

/-- What a save that succeeds leaves. -/
theorem saved_of_save {s : FileStore} {d : Disk} (h : s.save (.ofTree t) = (d, .ok ())) :
    ∃ t', d = .ofTree t' ∧ Saved t t' s.config.path s.document.toUTF8 := by
  obtain ⟨name, q, savable⟩ := exists_savable h
  obtain ⟨t', again, saved⟩ := save_of_savable savable
  rw [h] at again
  cases again
  exact ⟨t', rfl, saved⟩

end

theorem grounded_prepare (p : FilePath) {d : Disk} (h : d.tree.Grounded) : (prepare p d).1.tree.Grounded := by
  unfold prepare
  split
  · exact h
  · rename_i parent _
    split
    · exact h
    · obtain ⟨ps, -, tree⟩ := d.tree_makeDirectoryAll parent
      have grounded := FileTree.grounded_makeDirectories h ps
      rw [← tree] at grounded
      split <;> simpa [*] using grounded

/-- Saves keep a tree grounded, on any disk and to whatever end. -/
theorem grounded_save (s : FileStore) {d : Disk} (h : d.tree.Grounded) : (s.save d).1.tree.Grounded := by
  have prepared := grounded_prepare s.config.path h
  unfold save
  simp only
  split
  · rename_i d₁ e first
    rwa [first] at prepared
  · rename_i d₁ first
    rw [first] at prepared
    have wrote : (d₁.write (stagingPath s.config.path) s.document.toUTF8).1.tree.Grounded := by
      rcases d₁.tree_write (stagingPath s.config.path) s.document.toUTF8 with same | ⟨bytes, written⟩
      · rwa [same]
      · exact FileTree.grounded_write prepared written
    split
    · rename_i d₂ e second
      rwa [second] at wrote
    · rename_i d₂ second
      rw [second] at wrote
      have moved : (d₂.rename (stagingPath s.config.path) s.config.path).1.tree.Grounded := by
        rcases d₂.tree_rename (stagingPath s.config.path) s.config.path with same | ⟨-, done⟩
        · rwa [same]
        · exact FileTree.grounded_rename wrote done
      split <;> simpa [*] using moved

end FileStore

end LiveSettings
