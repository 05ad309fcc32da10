import LiveSettings.Proofs.Files.Grounded
import LiveSettings.Store

/-!
# Saves that fail

A document is written beside its file and moved over it as a whole, so a save that fails at any point leaves what
was at the path. A change in memory stands whether its save succeeds or not.

Results:
* `FileStore.read_of_staged`: writing the staging file changes nothing that is read at the path.
* `FileStore.read_of_failed_save`: after a save that fails the path reads as before.
* `Storage.update_of_failed_save`: the same for all uses of a store that save it, with the entries in memory and
  what else is on the disk.
* `Storage.open_differs_after_failed_save`: a path that turns back behind a directory that is missing is opened
  with another answer once the directory is made.

Limitations: the tree has directories and regular files only, each in one place. Where the staging path is a link
to the document, symbolic or not, staging writes over the document itself, and nothing here holds. Moving a file is
one step, and nobody else uses the disk meanwhile.
-/

namespace LiveSettings

open FilePath (trail Names IsName)
open FileTree (IsShort)

namespace Disk

/-! ## What calls leave behind -/

/-- The directories on the way to a path are made from some of them on. -/
theorem tree_makeDirectoryAll (d : Disk) (q : FilePath) :
    ∃ ps, ps <:+ FileTree.missingPaths q ∧ (d.makeDirectoryAll q).1.tree = (d.tree.makeDirectories ps).1 := by
  have same := d.tree_nextFault
  unfold makeDirectoryAll
  split
  · rename_i rest next
    rw [next] at same
    rw [← same]
    exact ⟨_, List.suffix_refl _, rfl⟩
  · rename_i f rest next
    rw [next] at same
    rw [← same]
    exact ⟨_, List.drop_suffix _ _, rfl⟩

theorem adds_makeDirectoryAll (d : Disk) (q : FilePath) :
    d.tree.Adds (d.makeDirectoryAll q).1.tree (trail [] q.steps) := by
  obtain ⟨ps, suffix, tree⟩ := d.tree_makeDirectoryAll q
  rw [tree]
  exact FileTree.adds_of_suffix suffix

/-- A file is written with some bytes or not at all. -/
theorem tree_write (d : Disk) (p : FilePath) (bytes : ByteArray) :
    (d.write p bytes).1.tree = d.tree ∨ ∃ written, d.tree.write p written = .ok (d.write p bytes).1.tree := by
  have same := d.tree_nextFault
  unfold write
  split
  · rename_i rest next
    rw [next] at same
    rw [← same]
    split
    · rename_i tree wrote
      exact .inr ⟨bytes, wrote⟩
    · exact .inl rfl
  · rename_i f rest next
    rw [next] at same
    rw [← same]
    cases f.progress with
    | none => exact .inl rfl
    | some n =>
      simp only [Option.map_some]
      cases wrote : rest.tree.write p (bytes.extract 0 n) with
      | ok tree => exact .inr ⟨_, wrote⟩
      | error e => exact .inl rfl

/-- A file is moved or stays. -/
theorem tree_rename (d : Disk) (source target : FilePath) :
    (d.rename source target).1.tree = d.tree ∨ (d.rename source target).2 = .ok () ∧
      d.tree.rename source target = .ok (d.rename source target).1.tree := by
  have same := d.tree_nextFault
  unfold rename
  split
  · rename_i rest next
    rw [next] at same
    rw [← same]
    cases moved : rest.tree.rename source target with
    | ok tree => exact .inr ⟨rfl, rfl⟩
    | error e => exact .inl rfl
  · rename_i f rest next
    rw [next] at same
    exact .inl same

end Disk

namespace FileStore

/-! ## The staging file -/

/-- What the staging file is: a longer name in the same directory, or a name below a path that ends in none. -/
structure Stages (p base : FilePath) (name : String) : Prop where
  path : stagingPath p = base.join name
  names : Names name.toList
  plain : IsName name
  beside : (∃ last before blanks, p.EndsIn last base before blanks ∧ name = last ++ ".tmp") ∨
    p.fileName? = none ∧ base = p ∧ name = ".tmp"

theorem names_append_tmp (s : String) : Names (s ++ ".tmp").toList := by
  have ending : ".tmp".toList.length = 4 := rfl
  apply FilePath.names_of_length
  rw [String.toList_append, List.length_append, ending]
  omega

theorem isName_append_tmp {s : String} (plain : FilePath.separator ∉ s.toList) : IsName (s ++ ".tmp") :=
  FilePath.isName_append plain (by unfold IsName; decide)

theorem stages_of_endsIn {p q : FilePath} {name : String} {before blanks : List (List Char)}
    (h : p.EndsIn name q before blanks) : Stages p q (name ++ ".tmp") := by
  refine ⟨?_, names_append_tmp name, isName_append_tmp h.isName.2, .inl ⟨name, before, blanks, h, rfl⟩⟩
  rw [stagingPath, FilePath.withFileName, h.fileName, h.parent]
  rfl

theorem exists_stages (p : FilePath) : ∃ base name, Stages p base name := by
  cases found : p.fileName? with
  | none =>
    refine ⟨p, ".tmp", ?_, names_append_tmp "", isName_append_tmp (s := "") (by decide), .inr ⟨found, rfl, rfl⟩⟩
    rw [stagingPath, FilePath.withFileName, found]
    rfl
  | some name =>
    obtain ⟨q, before, blanks, ends⟩ := FilePath.exists_of_fileName? found
    exact ⟨q, _, stages_of_endsIn ends⟩

/-- A longer name is another one. -/
theorem append_tmp_ne (name : String) : name ≠ name ++ ".tmp" := by
  intro same
  have length := congrArg String.length same
  rw [String.length_append] at length
  exact absurd length (Nat.ne_of_lt (Nat.lt_add_of_pos_right (by decide)))

section

variable {t t' : FileTree} {p base : FilePath} {name : String} {bytes : ByteArray}

theorem Stages.target (h : Stages p base name) : (stagingPath p).target = base.target ++ [name] := by
  rw [h.path, FileTree.target_join h.names h.plain]

/-- Writing the staging file changes nothing that is read at the path. -/
theorem read_of_staged (h : t.write (stagingPath p) bytes = .ok t') : t'.read p = t.read p := by
  obtain ⟨base, name, stages⟩ := exists_stages p
  obtain ⟨reaches, free, rfl⟩ := FileTree.write_eq_ok_iff.1 h
  rw [stages.path, FileTree.reaches_join_iff stages.names stages.plain] at reaches
  refine FileTree.read_congr fun place mem => FileTree.find?_put_of_ne fun same => ?_
  have apart : place ∉ trail [] base.steps := fun mem =>
    free (same ▸ reaches.2.1.directories place mem)
  rcases stages.beside with ⟨last, before, blanks, ends, longer⟩ | ⟨-, rfl, -⟩
  · rcases ends.mem_trail_iff.1 mem with above | here
    · exact apart above
    · rw [stages.target, here, FileTree.target_of_endsIn ends, longer] at same
      exact append_tmp_ne last (List.singleton_inj.1 (List.append_inj' same rfl).2).symm
  · exact apart mem

/-! ## The directories around the file -/

/-- The places at which directories are made for a file. -/
def around (p : FilePath) : List Place := p.parent?.elim [] fun q => trail [] q.steps

theorem adds_prepare (p : FilePath) (d : Disk) : d.tree.Adds (prepare p d).1.tree (around p) := by
  unfold prepare around
  cases p.parent? with
  | none => exact .refl _ _
  | some q =>
    simp only [Option.elim_some]
    split
    · exact .refl _ _
    · have adds := d.adds_makeDirectoryAll q
      split <;> simpa [*] using adds

/-- Whether a path, if nothing is there, only leads down behind the directories on its way, by names that are not
too long. -/
def Steady (t : FileTree) (p : FilePath) : Prop :=
  t.read p = .error .notFound → t.Straight p ∧ ∀ piece ∈ p.steps, IsShort piece

/-- Making the directories around a file changes nothing that is read. -/
theorem read_of_prepare {d : Disk} (grounded : d.tree.Grounded) (steady : Steady d.tree p) :
    (prepare p d).1.tree.read p = d.tree.read p := by
  have adds := adds_prepare p d
  by_cases missing : d.tree.read p = .error .notFound
  · obtain ⟨straight, short⟩ := steady missing
    rw [missing]
    unfold prepare around at *
    cases parent : p.parent? with
    | none => simpa only [parent] using missing
    | some q =>
      obtain ⟨tail, steps, bare⟩ := FilePath.steps_of_parent? parent
      rw [parent, Option.elim_some] at adds
      by_cases empty : q.text = ""
      · have blank : q.text.isEmpty = true := by rw [empty]; rfl
        simpa only [parent, blank, if_true] using missing
      · exact FileTree.read_of_adds grounded straight short steps (fun none => empty (bare none)) adds missing
  · exact FileTree.read_of_grows adds.grows missing

/-! ## A save that fails -/

/-- Where a save stops that fails: behind the directories, with some bytes in the staging file or without. -/
theorem tree_of_failed_save {s : FileStore} {d d' : Disk} {e : StoreError} (h : s.save d = (d', .error e)) :
    d'.tree = (prepare s.config.path d).1.tree ∨
      ∃ bytes, (prepare s.config.path d).1.tree.write (stagingPath s.config.path) bytes = .ok d'.tree := by
  simp only [save] at h
  split at h
  · rename_i d₁ e' prepared
    cases h
    exact .inl (by rw [prepared])
  · rename_i d₁ prepared
    have written := d₁.tree_write (stagingPath s.config.path) s.document.toUTF8
    rw [prepared]
    split at h
    · rename_i d₂ e' wrote
      cases h
      rwa [wrote] at written
    · rename_i d₂ wrote
      rw [wrote] at written
      split at h
      · rename_i d₃ e' moved
        cases h
        have stays := d₂.tree_rename (stagingPath s.config.path) s.config.path
        rw [moved] at stays
        rwa [← stays.resolve_right fun done => nomatch done.1] at written
      · cases h

/-- After a save that fails the path reads as before. -/
theorem read_of_failed_save {s : FileStore} {d d' : Disk} {e : StoreError} (h : s.save d = (d', .error e)) :
    d'.tree.read s.config.path = (prepare s.config.path d).1.tree.read s.config.path := by
  rcases tree_of_failed_save h with same | ⟨bytes, written⟩
  · rw [same]
  · exact read_of_staged written

/-- All that a save which fails changes are the staging file and directories that it makes. -/
theorem find?_of_failed_save {s : FileStore} {d d' : Disk} {e : StoreError} (h : s.save d = (d', .error e))
    (place : Place) :
    d'.tree.find? place = d.tree.find? place ∨ place = (stagingPath s.config.path).target ∨
      d.tree.find? place = none ∧ d'.tree.find? place = some .directory ∧ place ∈ around s.config.path := by
  have adds := adds_prepare s.config.path d place
  rcases tree_of_failed_save h with same | ⟨bytes, written⟩
  · rw [same]
    exact adds.imp_right .inr
  · obtain ⟨-, -, tree⟩ := FileTree.write_eq_ok_iff.1 written
    by_cases staged : place = (stagingPath s.config.path).target
    · exact .inr (.inl staged)
    · rw [tree, FileTree.find?_put_of_ne (Ne.symm staged)]
      exact adds.imp_right .inr

end

end FileStore

/-! ## Uses of a store that save it -/

/-- A change of a store, or a save of its own. -/
inductive StoreUpdate where
  | set (key : String) (value : SettingValue)
  | remove (key : String)
  | clear
  | save

/-- The store that an update is to leave. -/
def FileStore.updated (f : FileStore) : StoreUpdate → FileStore
  | .set key v => { f with entries := f.entries.insert key v }
  | .remove key => { f with entries := f.entries.erase key }
  | .clear => { f with entries := .empty }
  | .save => f

theorem FileStore.updated_config (f : FileStore) (u : StoreUpdate) : (f.updated u).config = f.config := by
  cases u <;> rfl

/-- Whether an update saves a store: on demand, or behind a change if the store does so by itself. -/
def FileStore.saves (f : FileStore) : StoreUpdate → Bool
  | .save => true
  | .remove key => f.config.autosave && f.entries.contains key
  | _ => f.config.autosave

namespace Storage

def update (s : Storage) : StoreUpdate → Storage
  | .set key v => s.set key v
  | .remove key => s.remove key
  | .clear => s.clear
  | .save => s.save.1

/-- How the save ends that an update makes, if it makes one. -/
def saved? (s : Storage) (u : StoreUpdate) : Option (Except StoreError Unit) :=
  match s.store with
  | .memory _ => none
  | .file f => if f.saves u then some ((f.updated u).save s.disk).2 else none

variable {s : Storage} {f : FileStore}

theorem save_of_file (store : s.store = .file f) :
    s.save.1.store = .file f ∧ s.save.1.disk = (f.save s.disk).1 ∧ s.save.2 = (f.save s.disk).2 := by
  unfold save
  rw [store]
  rcases saved : f.save s.disk with ⟨disk, e | ⟨⟩⟩
  · simp [saved]
  · simp [saved, report]

/-- What saving behind a change leaves, whether the save succeeds or not. -/
theorem persist_of_file (store : s.store = .file f) :
    s.persist.store = .file f ∧ s.persist.disk = if f.config.autosave then (f.save s.disk).1 else s.disk := by
  obtain ⟨kept, disk, -⟩ := save_of_file store
  unfold persist
  rw [store]
  simp only
  split
  · rw [← disk]
    split
    · rename_i saved
      rw [saved] at kept ⊢
      exact ⟨kept, rfl⟩
    · rename_i saved
      rw [saved] at kept ⊢
      exact ⟨kept, rfl⟩
  · exact ⟨store, rfl⟩

/-- What an update of a file store leaves: its result in memory, and the disk of the save if there is one. -/
theorem update_of_file (u : StoreUpdate) (store : s.store = .file f) :
    (s.update u).store = .file (f.updated u) ∧
      (s.update u).disk = if f.saves u then ((f.updated u).save s.disk).1 else s.disk := by
  have changed (entries : KeyMap SettingValue) :
      (s.withEntries entries).store = .file { f with entries } := by rw [withEntries, store]; rfl
  have here : s.entries = f.entries := by rw [entries, store]; rfl
  cases u with
  | set key v =>
    simp only [update, set, store, here]
    exact persist_of_file (changed (f.entries.insert key v))
  | remove key =>
    simp only [update, remove, contains, here, FileStore.saves, KeyMap.contains]
    by_cases there : (f.entries.find? key).isSome = true
    · simp only [there, if_true, Bool.and_true]
      exact persist_of_file (changed (f.entries.erase key))
    · have same : f.entries.erase key = f.entries := KeyMap.erase_of_not_contains (Bool.eq_false_iff.2 there)
      simp [there, FileStore.updated, same, store]
  | clear => exact persist_of_file (changed .empty)
  | save => exact ⟨(save_of_file store).1, (save_of_file store).2.1⟩

/-- A save that fails loses nothing, asked for or behind a change. The result is in memory; a document that was at
the path is there with all its bytes; and the disk has changed at the staging file and in directories around it
alone. If the path only leads down behind the directories on its way, it is read and opened as before. -/
theorem update_of_failed_save {u : StoreUpdate} {e : StoreError} (store : s.store = .file f)
    (grounded : s.disk.tree.Grounded) (failed : s.saved? u = some (.error e)) :
    (s.update u).store = .file (f.updated u) ∧
      (∀ bytes, s.disk.tree.read f.config.path = .ok bytes →
        (s.update u).disk.tree.read f.config.path = .ok bytes) ∧
      (∀ place, (s.update u).disk.tree.find? place = s.disk.tree.find? place ∨
        place = (FileStore.stagingPath f.config.path).target ∨
        s.disk.tree.find? place = none ∧ (s.update u).disk.tree.find? place = some .directory ∧
          place ∈ FileStore.around f.config.path) ∧
      (FileStore.Steady s.disk.tree f.config.path →
        (s.update u).disk.tree.read f.config.path = s.disk.tree.read f.config.path ∧
        ∀ config, config.path = f.config.path →
          FileStore.openOn config (s.update u).disk = FileStore.openOn config s.disk) := by
  obtain ⟨kept, disk⟩ := update_of_file u store
  simp only [saved?, store] at failed
  split at failed
  · rename_i saves
    rw [if_pos saves] at disk
    rcases saved : (f.updated u).save s.disk with ⟨after, outcome⟩
    rw [saved] at failed disk
    cases Option.some.inj failed
    rw [disk]
    have read := FileStore.read_of_failed_save saved
    have frame := FileStore.find?_of_failed_save saved
    have adds := FileStore.adds_prepare f.config.path s.disk
    rw [FileStore.updated_config] at read frame
    refine ⟨kept, fun bytes before => ?_, frame, fun steady => ?_⟩
    · rw [read, ← before]
      exact FileTree.read_of_grows adds.grows (by rw [before]; nofun)
    · have same := read.trans (FileStore.read_of_prepare grounded steady)
      refine ⟨same, fun config path => ?_⟩
      simp only [FileStore.openOn, Disk.readText, path, same]
  · cases failed

/-- A store without entries, of a path on a disk that may fail. -/
def ofPath (path : FilePath) (d : Disk) : Storage := ⟨.file ⟨.new path, .empty⟩, d, []⟩

/-- A directory with one document. -/
def documentTree (text : String) : FileTree :=
  (FileTree.empty.put ["w"] .directory).put ["w", "s.json"] (.file text.toUTF8)

theorem grounded_documentTree (text : String) : (documentTree text).Grounded := by
  have directory : (FileTree.empty.put ["w"] .directory).Grounded :=
    FileTree.grounded_empty.put rfl (FileTree.keeps_put _ (by decide))
  exact directory.put rfl (FileTree.keeps_put _ (by decide))

/-- The disk is full in the middle of a staging file: a document keeps its bytes, and where there was none in a
directory that is made for it, none is found. -/
theorem update_of_full_disk :
    ((ofPath ⟨"w/s.json"⟩ ⟨documentTree "{}", [none, some ⟨.noSpace, some 3⟩]⟩).update
        (.set "k" (.ofString "x"))).disk.tree.read ⟨"w/s.json"⟩ = .ok "{}".toUTF8 ∧
      FileStore.openOn (.new ⟨"w/a/s.json"⟩)
          ((ofPath ⟨"w/a/s.json"⟩ ⟨documentTree "{}", [none, some ⟨.noSpace, some 3⟩]⟩).update .clear).disk =
        FileStore.openOn (.new ⟨"w/a/s.json"⟩) ⟨documentTree "{}", [none, some ⟨.noSpace, some 3⟩]⟩ := by
  constructor
  · have failed : (ofPath ⟨"w/s.json"⟩ ⟨documentTree "{}", [none, some ⟨.noSpace, some 3⟩]⟩).saved?
        (.set "k" (.ofString "x")) = some (.error (.io ⟨"w/s.json.tmp"⟩ .noSpace)) := by decide +kernel
    exact (update_of_failed_save (f := ⟨.new ⟨"w/s.json"⟩, .empty⟩) rfl (grounded_documentTree "{}") failed).2.1 _
      (by decide +kernel)
  · have failed : (ofPath ⟨"w/a/s.json"⟩ ⟨documentTree "{}", [none, some ⟨.noSpace, some 3⟩]⟩).saved? .clear =
        some (.error (.io ⟨"w/a/s.json.tmp"⟩ .noSpace)) := by decide +kernel
    have steady : FileStore.Steady (documentTree "{}") ⟨"w/a/s.json"⟩ := fun _ =>
      ⟨⟨[['w']], [['a'], "s.json".toList], rfl, by decide +kernel, by decide +kernel⟩, by decide +kernel⟩
    exact ((update_of_failed_save (f := ⟨.new ⟨"w/a/s.json"⟩, .empty⟩) rfl (grounded_documentTree "{}")
      failed).2.2.2 steady).2 _ rfl

/-- How many entries opening a path gives before and after a save of an empty document, if that fails. -/
def sizesAround (path : FilePath) (d : Disk) : Option (Option Nat × Option Nat) :=
  let size (d : Disk) := (FileStore.openOn (.new path) d).toOption.map (·.entries.size)
  match (ofPath path d).saved? .save with
  | some (.error _) => some (size d, size ((ofPath path d).update .save).disk)
  | _ => none

/-- Once a directory is made, a path that turns back behind it is found: as a directory, or with another document. -/
theorem open_differs_after_failed_save :
    sizesAround ⟨"w/a/.."⟩ (.ofTree (documentTree "{}")) = some (some 0, none) ∧
      sizesAround ⟨"w/a/../s.json"⟩ (.ofTree ((documentTree "\x7b\"k\":\x7b\"type\":\"Bool\",\"value\":true\x7d\x7d").put
        ["w", "s.json.tmp"] .directory)) = some (some 0, some 1) := by
  decide +kernel

end Storage

end LiveSettings
