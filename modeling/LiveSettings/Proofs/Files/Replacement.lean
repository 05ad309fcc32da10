import LiveSettings.Files.FileTree

/-!
# Replacing a file

A file is replaced by writing its new content beside it and moving that over it. No change that keeps the
directories changes where a path leads, so what was written is what is found at the path afterwards.

Results:
* `walk_of_keeps`, `resolveSlot_of_keeps`: a tree that keeps the directories of another resolves alike.
* `find?_of_write`, `read_of_rename`: what is written is found, and what is moved is read.
* `Disk.read_of_replace`: writing a file and moving it over another makes it the content of the other.

Limitations: the tree has no links, and nobody else changes it between the two calls.
-/

namespace LiveSettings

namespace FileTree

/-- Whether every directory of a tree is one in another. -/
def Keeps (t t' : FileTree) : Prop :=
  ∀ place, t.find? place = some .directory → t'.find? place = some .directory

theorem Keeps.trans {t u v : FileTree} (h : t.Keeps u) (h' : u.Keeps v) : t.Keeps v :=
  fun place hp => h' place (h place hp)

@[simp]
theorem Slot.place_ne_nil (s : Slot) : s.place ≠ [] := by simp [Slot.place]

/-! A change at one place leaves the others, the root among them. -/

theorem find?_put_of_ne {t : FileTree} {place other : Place} {n : Node} (apart : place ≠ other) :
    (t.put place n).find? other = t.find? other := by
  by_cases root : other = []
  · subst root
    rfl
  · rw [find?_put t place other n root, if_neg apart]

theorem find?_remove_of_ne {t : FileTree} {place other : Place} (apart : place ≠ other) :
    (t.remove place).find? other = t.find? other := by
  by_cases root : other = []
  · subst root
    rfl
  · rw [find?_remove t place other root, if_neg apart]

theorem keeps_put {t : FileTree} {place : Place} (n : Node) (h : t.find? place ≠ some .directory) :
    t.Keeps (t.put place n) := by
  intro other hd
  have apart : place ≠ other := fun e => h (e ▸ hd)
  rw [find?_put_of_ne apart]
  exact hd

theorem keeps_remove {t : FileTree} {place : Place} (h : t.find? place ≠ some .directory) :
    t.Keeps (t.remove place) := by
  intro other hd
  have apart : place ≠ other := fun e => h (e ▸ hd)
  rw [find?_remove_of_ne apart]
  exact hd

theorem remove_ne_directory {t : FileTree} {place other : Place} (h : t.find? other ≠ some .directory) :
    (t.remove place).find? other ≠ some .directory := by
  by_cases root : other = []
  · subst root
    exact absurd rfl h
  · rw [find?_remove t place other root]
    split
    · exact nofun
    · exact h

/-! ## Walking -/

/-- Only a directory is left by a step. -/
theorem directory_of_walkStep {t : FileTree} {here next : Place} {piece : List Char}
    (h : t.walkStep here piece = .ok next) : t.find? here = some .directory := by
  unfold walkStep at h
  split at h
  · assumption
  · cases h
  · cases h

/-- What a walk to a directory starts from is a directory. -/
theorem directory_of_walk {t : FileTree} {here place : Place} {pieces : List (List Char)}
    (h : t.walk here pieces = .ok place) (hd : t.find? place = some .directory) :
    t.find? here = some .directory := by
  cases pieces with
  | nil =>
    cases h
    exact hd
  | cons piece rest =>
    simp only [walk] at h
    split at h
    · rename_i next step
      exact directory_of_walkStep step
    · cases h

theorem walkStep_of_keeps {t t' : FileTree} (keeps : t.Keeps t') {here next : Place} {piece : List Char}
    (h : t.walkStep here piece = .ok next) (hd : t.find? next = some .directory) :
    t'.walkStep here piece = .ok next := by
  have start := directory_of_walkStep h
  simp only [walkStep, start] at h
  simp only [walkStep, keeps here start]
  split at h
  · rw [if_pos ‹_›]
    exact h
  · rw [if_neg ‹_›]
    split at h
    · rw [if_pos ‹_›]
      exact h
    · rw [if_neg ‹_›]
      split at h
      · cases h
      · rw [if_neg ‹_›]
        split at h
        · cases h
          rw [keeps _ hd]
          rfl
        · cases h

/-- A walk that ends in a directory goes the same way where all directories are kept. -/
theorem walk_of_keeps {t t' : FileTree} (keeps : t.Keeps t') {here place : Place}
    {pieces : List (List Char)} (h : t.walk here pieces = .ok place) (hd : t.find? place = some .directory) :
    t'.walk here pieces = .ok place := by
  induction pieces generalizing here with
  | nil => exact h
  | cons piece rest ih =>
    simp only [walk] at h ⊢
    split at h
    · rename_i next step
      rw [walkStep_of_keeps keeps step (directory_of_walk h hd)]
      exact ih h
    · cases h

theorem walk_append (t : FileTree) (here : Place) (pieces more : List (List Char)) :
    t.walk here (pieces ++ more) =
      match t.walk here pieces with
      | .ok next => t.walk next more
      | .error e => .error e := by
  induction pieces generalizing here with
  | nil => rfl
  | cons piece rest ih =>
    simp only [List.cons_append, walk]
    cases t.walkStep here piece with
    | ok next => exact ih next
    | error e => rfl

/-! ## Slots -/

/-- What a path with a last name says: the stretches before it and the last one that is not empty. -/
structure Leads (t : FileTree) (p : FilePath) (slot : Slot) : Prop where
  valid : pathError? p = none
  ends : ∃ last before, p.pieces.reverse.dropWhile (·.isEmpty) = last :: before ∧
    t.walk [] before.reverse = .ok slot.directory ∧ last ≠ ['.'] ∧ last ≠ ['.', '.'] ∧
    slot.name = String.ofList last
  directory : t.find? slot.directory = some .directory
  short : ¬longestName < slot.name.utf8ByteSize
  slashes : slot.asDirectory = !(p.pieces.reverse.takeWhile (·.isEmpty)).isEmpty

theorem leads_of_resolveSlot {t : FileTree} {p : FilePath} {slot : Slot}
    (h : t.resolveSlot p = .ok (some slot)) : t.Leads p slot := by
  unfold resolveSlot at h
  split at h
  · cases h
  · rename_i valid
    simp only at h
    split at h
    · cases h
    · rename_i last before pieces
      split at h
      · cases h
      · rename_i directory walked
        split at h
        · rename_i found
          split at h
          · cases h
          · rename_i named
            split at h
            · cases h
            · rename_i short
              cases h
              simp only [Bool.or_eq_true, beq_iff_eq, not_or] at named
              exact ⟨valid, ⟨last, before, pieces, walked, named.1, named.2, rfl⟩, found, short, rfl⟩
        · cases h
        · cases h

theorem Leads.resolveSlot {t : FileTree} {p : FilePath} {slot : Slot} (h : t.Leads p slot) :
    t.resolveSlot p = .ok (some slot) := by
  obtain ⟨valid, ⟨last, before, pieces, walked, dot, dots, name⟩, found, short, slashes⟩ := h
  obtain ⟨directory, _, _⟩ := slot
  subst name
  subst slashes
  simp only [FileTree.resolveSlot, valid, pieces, walked, found, short, if_false]
  simp [dot, dots]

/-- A path has the same slot where all directories are kept. -/
theorem resolveSlot_of_keeps {t t' : FileTree} (keeps : t.Keeps t') {p : FilePath} {slot : Slot}
    (h : t.resolveSlot p = .ok (some slot)) : t'.resolveSlot p = .ok (some slot) := by
  obtain ⟨valid, ⟨last, before, pieces, walked, names⟩, found, short, slashes⟩ := leads_of_resolveSlot h
  refine Leads.resolveSlot ⟨valid, ⟨last, before, pieces, ?_, names⟩, keeps _ found, short, slashes⟩
  exact walk_of_keeps keeps walked found

/-- A slot that is no directory's is the place of the path, if something lies there. -/
theorem resolve_of_slot {t : FileTree} {p : FilePath} {slot : Slot} (h : t.resolveSlot p = .ok (some slot))
    (hd : slot.asDirectory = false) (found : (t.find? slot.place).isSome = true) :
    t.resolve p = .ok slot.place := by
  obtain ⟨valid, ⟨last, before, pieces, walked, dot, dots, name⟩, directory, short, slashes⟩ :=
    leads_of_resolveSlot h
  -- without slashes at the end the last stretch is the name
  have bare : p.pieces.reverse.takeWhile (·.isEmpty) = [] := by simpa [hd] using slashes
  have all : p.pieces.reverse = last :: before := by
    have parts := @List.takeWhile_append_dropWhile _ (·.isEmpty) p.pieces.reverse
    rw [bare, pieces] at parts
    exact parts.symm
  have split : p.pieces = before.reverse ++ [last] := by
    rw [← List.reverse_reverse p.pieces, all, List.reverse_cons]
  have full : last.isEmpty = false := by
    have := List.head?_dropWhile_not (·.isEmpty) p.pieces.reverse
    simpa [pieces] using this
  have named : FilePath.isEmptyPiece last = false := by simp [FilePath.isEmptyPiece, full, dot]
  have step : t.walkStep slot.directory last = .ok slot.place := by
    simp only [walkStep, directory, named, Bool.false_eq_true, if_false, beq_iff_eq, dots, ← name, short]
    exact if_pos found
  rw [resolve, valid]
  simp only [split, walk_append, walked, walk, step]

/-! ## Writing and moving -/

theorem writeSlot_spec {t : FileTree} {p : FilePath} {slot : Slot} (h : t.writeSlot p = .ok slot) :
    t.resolveSlot p = .ok (some slot) ∧ t.find? slot.place ≠ some .directory := by
  unfold writeSlot at h
  split at h
  · cases h
  · cases h
  · rename_i found
    split at h
    · cases h
    · rename_i file
      split at h
      · cases h
      · cases h
        exact ⟨found, by simp [file]⟩
    · rename_i free
      split at h
      · cases h
      · cases h
        exact ⟨found, by simp [free]⟩

/-- Writing keeps the directories, and what was written is found where the path leads. -/
theorem find?_of_write {t t' : FileTree} {p : FilePath} {bytes : ByteArray}
    (h : t.write p bytes = .ok t') :
    ∃ slot, t'.resolveSlot p = .ok (some slot) ∧ t'.find? slot.place = some (.file bytes) := by
  unfold write at h
  cases e : t.writeSlot p with
  | error e' => simp [e, Except.map] at h
  | ok slot =>
    obtain ⟨found, free⟩ := writeSlot_spec e
    simp only [e, Except.map, Except.ok.injEq] at h
    subst h
    refine ⟨slot, resolveSlot_of_keeps (keeps_put _ free) found, ?_⟩
    rw [find?_put _ _ _ _ (Slot.place_ne_nil slot), if_pos rfl]

/-- What a move takes, and what it does. -/
theorem exists_of_rename {t t' : FileTree} {source target : FilePath} (h : t.rename source target = .ok t') :
    ∃ old new bytes, t.resolveSlot source = .ok (some old) ∧ t.resolveSlot target = .ok (some new) ∧
      new.asDirectory = false ∧ t.find? old.place = some (.file bytes) ∧ t.find? new.place ≠ some .directory ∧
      t' = (t.remove old.place).put new.place (.file bytes) := by
  unfold rename at h
  split at h
  · cases h
  · cases h
  · cases h
  · cases h
  · rename_i old new here there
    split at h
    · cases h
    · cases h
    · rename_i bytes file
      split at h
      · cases h
      · rename_i plain
        split at h
        · cases h
        · rename_i free
          cases h
          simp only [Bool.or_eq_true, not_or, Bool.not_eq_true] at plain
          exact ⟨old, new, bytes, here, there, plain.2, file, by simpa using free, rfl⟩

/-- A move of a file keeps the directories. -/
theorem keeps_rename {t t' : FileTree} {source target : FilePath} (h : t.rename source target = .ok t') :
    t.Keeps t' := by
  obtain ⟨old, new, bytes, -, -, -, file, free, rfl⟩ := exists_of_rename h
  exact (keeps_remove (by simp [file])).trans (keeps_put _ (remove_ne_directory free))

/-- What a file held that was moved is read at the path it was moved to. -/
theorem read_of_rename {t t' : FileTree} {source target : FilePath} {slot : Slot} {bytes : ByteArray}
    (hs : t.resolveSlot source = .ok (some slot)) (file : t.find? slot.place = some (.file bytes))
    (h : t.rename source target = .ok t') : t'.read target = .ok bytes := by
  have keeps := keeps_rename h
  obtain ⟨old, new, held, here, found, plain, there, -, rfl⟩ := exists_of_rename h
  rw [hs] at here
  cases here
  rw [file] at there
  cases there
  have holds : ((t.remove slot.place).put new.place (.file bytes)).find? new.place = some (.file bytes) := by
    rw [find?_put _ _ _ _ (Slot.place_ne_nil new), if_pos rfl]
  simp only [read, resolve_of_slot (resolveSlot_of_keeps keeps found) plain (by rw [holds]; rfl), holds]

end FileTree

namespace Disk

/-- A file that is written and moved over another is the content of the other. -/
theorem read_of_replace {d d₁ d₂ : Disk} {source target : FilePath} {bytes : ByteArray}
    (hw : d.write source bytes = (d₁, .ok ())) (hr : d₁.rename source target = (d₂, .ok ())) :
    d₂.tree.read target = .ok bytes := by
  have written : ∃ slot, d₁.tree.resolveSlot source = .ok (some slot) ∧
      d₁.tree.find? slot.place = some (.file bytes) := by
    unfold write at hw
    split at hw
    · split at hw
      · rename_i tree wrote
        cases hw
        exact FileTree.find?_of_write wrote
      · cases hw
    · split at hw <;> cases hw
  obtain ⟨slot, there, file⟩ := written
  unfold rename at hr
  split at hr
  · rename_i d' fault
    have same : d'.tree = d₁.tree := by
      unfold nextFault at fault
      split at fault <;> cases fault <;> rfl
    rw [same] at hr
    split at hr
    · rename_i tree moved
      cases hr
      exact FileTree.read_of_rename there file moved
    · cases hr
  · cases hr

end Disk

end LiveSettings
