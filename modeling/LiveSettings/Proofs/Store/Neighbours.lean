import LiveSettings.Proofs.Store.Savable

/-!
# Stores on one disk

Stores of several files share a disk, and each save writes, removes and renames files of its own and makes the
directories around them. A run of all stores goes hand in hand with one in which a single store is used: its tree
is the same but for the files of the others and for directories that they made.

Results:
* `FileTree.Beside`: how the two trees differ, with `beside_of_other` and `beside_of_mine` for one save.
* `SharedDisk.run_alone`: while all saves succeed, a store's document is what it would be had the others never
  been used, and the saves of the store alone succeed as well.
* `SharedDisk.document_differs`: paths that name one place, a document where another store stages its own, and a
  path that turns back behind a directory made for another store.

Limitations: the tree has directories and regular files only, each in one place; two paths that lead to one file
by a link are not told apart from paths of two files. A disk without faults stands for calls that all succeed.
-/

namespace LiveSettings

open FilePath (trail)
open FileStore (stagingPath around Savable Saved)

/-- Whether a store of one path keeps off the document of another: neither its document nor its staging file is
that document or lies on the way to it. -/
structure FilePath.Apart (theirs mine : FilePath) : Prop where
  document : theirs.target ≠ mine.target
  staging : (stagingPath theirs).target ≠ mine.target
  documentOff : theirs.target ∉ around mine
  stagingOff : (stagingPath theirs).target ∉ around mine

namespace FileTree

/-- Whether a tree differs from another at some places and by more directories alone. -/
def Beside (theirs : Place → Prop) (t s : FileTree) : Prop :=
  ∀ place, theirs place ∨ s.find? place = t.find? place ∨
    t.find? place = none ∧ s.find? place = some .directory

section

variable {theirs : Place → Prop} {s s' t t' : FileTree} {p : FilePath} {bytes : ByteArray}

theorem Beside.refl (theirs : Place → Prop) (t : FileTree) : Beside theirs t t := fun _ => .inr (.inl rfl)

/-- A save of another store. -/
theorem beside_of_other {name : String} {q : FilePath} (h : Beside theirs t s) (savable : Savable s p name q)
    (saved : Saved s s' p bytes) (document : theirs p.target) (staging : theirs (stagingPath p).target) :
    Beside theirs t s' := by
  obtain ⟨before, ends⟩ := savable.ends
  intro place
  by_cases file : place = p.target
  · exact .inl (file ▸ document)
  by_cases staged : place = (stagingPath p).target
  · exact .inl (staged ▸ staging)
  by_cases way : place ∈ around p
  · have made := saved.way place way
    rw [FileStore.around_of_endsIn ends] at way
    refine (h place).imp_right fun differs => ?_
    -- what was there was a directory already, or nothing
    cases found : s.find? place with
    | none =>
      rcases differs with same | ⟨-, directory⟩
      · exact .inr ⟨same ▸ found, made⟩
      · rw [found] at directory
        cases directory
    | some node =>
      cases node with
      | file bytes => exact absurd found (savable.clear place way bytes)
      | directory => exact differs.imp (fun same => made.trans (found.symm.trans same)) fun more => ⟨more.1, made⟩
  · rw [saved.others place file staged way]
    exact h place

/-- The same save of the store itself. -/
theorem beside_of_mine (h : Beside theirs t s) (saved : Saved s s' p bytes) (alone : Saved t t' p bytes) :
    Beside theirs t' s' := by
  intro place
  by_cases file : place = p.target
  · exact .inr (.inl (by rw [file, saved.document, alone.document]))
  by_cases staged : place = (stagingPath p).target
  · exact .inr (.inl (by rw [staged, saved.staging, alone.staging]))
  by_cases way : place ∈ around p
  · exact .inr (.inl (by rw [saved.way place way, alone.way place way]))
  · rw [saved.others place file staged way, alone.others place file staged way]
    exact h place

/-- A document can be saved without the others if it can be saved with them. -/
theorem Beside.savable {name : String} {q : FilePath} (h : Beside theirs t s) (savable : Savable s p name q)
    (document : ¬theirs p.target) (staging : ¬theirs (stagingPath p).target)
    (off : ∀ place ∈ around p, ¬theirs place) : Savable t p name q := by
  obtain ⟨before, ends⟩ := savable.ends
  have directory {place : Place} (mine : ¬theirs place) (found : t.find? place = some .directory) :
      s.find? place = some .directory := by
    rcases (h place).resolve_left mine with same | ⟨free, -⟩
    · exact same.trans found
    · rw [free] at found
      cases found
  refine { savable with
    clear := fun place mem bytes file => ?_
    document := fun found => savable.document (directory document found)
    staging := fun found => savable.staging (directory staging found) }
  rcases (h place).resolve_left (off place (by rwa [FileStore.around_of_endsIn ends])) with same | ⟨free, -⟩
  · exact savable.clear place mem bytes (same.trans file)
  · rw [free] at file
    cases file

/-- A path that leads down reads alike without the others. -/
theorem Beside.read_eq_ok_iff (h : Beside theirs t s) (grounded : t.Grounded) (straight : t.Straight p)
    (document : ¬theirs p.target) (off : ∀ place ∈ around p, ¬theirs place) :
    s.read p = .ok bytes ↔ t.read p = .ok bytes := by
  have here : s.find? p.target = some (.file bytes) ↔ t.find? p.target = some (.file bytes) := by
    rcases (h p.target).resolve_left document with same | ⟨free, directory⟩
    · rw [same]
    · rw [free, directory]
      exact ⟨nofun, nofun⟩
  rw [FileTree.read_eq_ok_iff, FileTree.read_eq_ok_iff, here]
  refine and_congr_left fun file => ?_
  have around {name : String} {q : FilePath} {before : List (List Char)} (ends : p.EndsIn name q before [])
      {place : Place} (mem : place ∈ trail [] q.steps) : ¬theirs place :=
    off place (by rwa [FileStore.around_of_endsIn ends])
  constructor
  · rintro ⟨name, q, ⟨before, ends⟩, valid, way, short⟩
    refine ⟨name, q, ⟨before, ends⟩, valid, ⟨fun place mem => ?_, way.short⟩, short⟩
    rcases straight.directory_of_mem_trail grounded file (ends.mem_trail_iff.2 (.inl mem)) with rfl | directory
    · rw [way.directories _ mem] at here
      cases here.2 file
    · exact directory
  · rintro ⟨name, q, ⟨before, ends⟩, valid, way, short⟩
    refine ⟨name, q, ⟨before, ends⟩, valid, ⟨fun place mem => ?_, way.short⟩, short⟩
    have directory := way.directories place mem
    rcases (h place).resolve_left (around ends mem) with same | ⟨free, -⟩
    · exact same.trans directory
    · rw [directory] at free
      cases free

end

end FileTree

/-- Staging files of two documents are two files. -/
theorem FileStore.target_of_staging {p r q : FilePath} {name : String} {before : List (List Char)}
    (ends : p.EndsIn name q before []) (same : (stagingPath p).target = (stagingPath r).target) :
    p.target = r.target := by
  obtain ⟨base, name', stages⟩ := FileStore.exists_stages r
  rw [(FileStore.stages_of_endsIn ends).target, stages.target] at same
  obtain ⟨directory, last⟩ := List.append_inj' same rfl
  have last : name ++ ".tmp" = name' := List.singleton_inj.1 last
  rcases stages.beside with ⟨other, before', blanks, ends', rfl⟩ | ⟨-, -, rfl⟩
  · rw [FileTree.target_of_endsIn ends, FileTree.target_of_endsIn ends', directory, (String.append_left_inj ".tmp").1 last]
  · have nothing : name = "" := (String.append_left_inj ".tmp").1 (last.trans String.empty_append.symm)
    exact absurd (nothing ▸ rfl) ends.isName.1

/-! ## Stores that share a disk -/

/-- Stores and the disk that they lie on. -/
structure SharedDisk (ι : Type) where
  stores : ι → Store
  disk : Disk

namespace SharedDisk

variable {ι : Type}

/-- Stores of files on a disk without faults. -/
def ofStores (f : ι → FileStore) (t : FileTree) : SharedDisk ι := ⟨fun i => .file (f i), .ofTree t⟩

/-- One of the stores. -/
def storage (g : SharedDisk ι) (i : ι) : Storage := ⟨g.stores i, g.disk, []⟩

/-- The bytes of a document, if there is one. -/
def document (g : SharedDisk ι) (p : FilePath) : Option ByteArray := (g.disk.tree.read p).toOption

theorem saved?_storage {g : SharedDisk ι} {j : ι} {f : FileStore} (u : StoreUpdate) (store : g.stores j = .file f) :
    (g.storage j).saved? u = if f.saves u then some ((f.updated u).save g.disk).2 else none := by
  simp only [Storage.saved?, storage, store]

variable [DecidableEq ι]

def use (g : SharedDisk ι) (i : ι) (u : StoreUpdate) : SharedDisk ι :=
  let s := (g.storage i).update u
  ⟨Function.update g.stores i s.store, s.disk⟩

def run (g : SharedDisk ι) (us : List (ι × StoreUpdate)) : SharedDisk ι := us.foldl (fun g (i, u) => g.use i u) g

/-- Whether every save of a run succeeds. -/
def savesSucceed (g : SharedDisk ι) : List (ι × StoreUpdate) → Bool
  | [] => true
  | (i, u) :: us => ((g.storage i).saved? u).all (·.isOk) && (g.use i u).savesSucceed us

/-! ## One use -/

section

variable {g : SharedDisk ι} {i j : ι} {u : StoreUpdate} {f : FileStore} {s : FileTree}

theorem stores_use_self (store : g.stores j = .file f) : (g.use j u).stores j = .file (f.updated u) :=
  (Function.update_self ..).trans (Storage.update_of_file (s := g.storage j) u store).1

theorem stores_use_other (other : i ≠ j) : (g.use j u).stores i = g.stores i := Function.update_of_ne other ..

theorem disk_use (store : g.stores j = .file f) :
    (g.use j u).disk = if f.saves u then ((f.updated u).save g.disk).1 else g.disk :=
  (Storage.update_of_file (s := g.storage j) u store).2

/-- A use whose save succeeds: it makes none, or one with a known effect. -/
theorem use_cases (store : g.stores j = .file f) (disk : g.disk = .ofTree s)
    (saved : ((g.storage j).saved? u).all (·.isOk) = true) :
    f.saves u = false ∧ (g.use j u).disk = .ofTree s ∨
      f.saves u = true ∧ ∃ name q s', Savable s f.config.path name q ∧
        Saved s s' f.config.path (f.updated u).document.toUTF8 ∧ (g.use j u).disk = .ofTree s' := by
  rw [saved?_storage u store, disk] at saved
  rw [disk_use store, disk]
  cases saves : f.saves u with
  | false => exact .inl ⟨rfl, rfl⟩
  | true =>
    simp only [saves, if_true, Option.all_some] at saved
    rcases done : (f.updated u).save (.ofTree s) with ⟨d, e | ⟨⟩⟩
    · rw [done] at saved
      cases saved
    · obtain ⟨name, q, savable⟩ := FileStore.exists_savable done
      obtain ⟨s', rfl, effect⟩ := FileStore.saved_of_save done
      rw [FileStore.updated_config] at savable effect
      exact .inr ⟨rfl, name, q, s', savable, effect, rfl⟩

/-- A document can be saved by a use where it is savable. -/
theorem use_of_savable {name : String} {q : FilePath} (store : g.stores j = .file f) (disk : g.disk = .ofTree s)
    (saves : f.saves u = true) (savable : Savable s f.config.path name q) :
    ((g.storage j).saved? u).all (·.isOk) = true ∧ ∃ s', Saved s s' f.config.path (f.updated u).document.toUTF8 ∧
      (g.use j u).disk = .ofTree s' := by
  rw [← f.updated_config u] at savable
  obtain ⟨s', done, effect⟩ := FileStore.save_of_savable savable
  rw [FileStore.updated_config] at effect
  rw [saved?_storage u store, disk_use store, disk, saves, if_pos rfl, if_pos rfl, done]
  exact ⟨rfl, s', effect, rfl⟩

theorem grounded_use (store : g.stores j = .file f) (grounded : g.disk.tree.Grounded) :
    (g.use j u).disk.tree.Grounded := by
  rw [disk_use store]
  split
  · exact FileStore.grounded_save _ grounded
  · exact grounded

end

/-! ## Two runs -/

/-- The files that a document takes up while it is saved. -/
def Takes (p : FilePath) (place : Place) : Prop := place = p.target ∨ place = (stagingPath p).target

/-- How a run of stores goes beside one in which only one of them is used. -/
structure InStep (path : ι → FilePath) (i : ι) (g alone : SharedDisk ι) : Prop where
  files : ∀ j, ∃ f, g.stores j = .file f ∧ f.config.path = path j
  own : alone.stores i = g.stores i
  disks : ∃ s t, g.disk = .ofTree s ∧ alone.disk = .ofTree t ∧ t.Grounded ∧ t.Straight (path i) ∧
    FileTree.Beside (fun place => ∃ j ≠ i, Takes (path j) place) t s

variable {path : ι → FilePath} {g alone : SharedDisk ι} {i j : ι} {u : StoreUpdate}

theorem files_use (h : ∀ j, ∃ f, g.stores j = .file f ∧ f.config.path = path j) (i : ι) (u : StoreUpdate) (j : ι) :
    ∃ f, (g.use i u).stores j = .file f ∧ f.config.path = path j := by
  obtain ⟨f, store, here⟩ := h j
  by_cases same : j = i
  · subst same
    exact ⟨f.updated u, stores_use_self store, by rw [FileStore.updated_config, here]⟩
  · exact ⟨f, (stores_use_other same).trans store, here⟩

/-- A use of another store. -/
theorem inStep_other (h : InStep path i g alone) (other : j ≠ i)
    (saved : ((g.storage j).saved? u).all (·.isOk) = true) : InStep path i (g.use j u) alone := by
  obtain ⟨s, t, disk, aloneDisk, grounded, straight, beside⟩ := h.disks
  obtain ⟨f, store, here⟩ := h.files j
  refine ⟨files_use h.files j u, h.own.trans (stores_use_other other.symm).symm, ?_⟩
  rcases use_cases store disk saved with ⟨-, after⟩ | ⟨-, name, q, s', savable, effect, after⟩
  · exact ⟨s, t, after, aloneDisk, grounded, straight, beside⟩
  · rw [here] at savable effect
    exact ⟨s', t, after, aloneDisk, grounded, straight, FileTree.beside_of_other beside savable effect
      ⟨j, other, .inl rfl⟩ ⟨j, other, .inr rfl⟩⟩

/-- The same use of the store that is used alone. -/
theorem inStep_own (h : InStep path i g alone) (apart : ∀ j ≠ i, (path j).Apart (path i) ∧ (path i).Apart (path j))
    (saved : ((g.storage i).saved? u).all (·.isOk) = true) :
    ((alone.storage i).saved? u).all (·.isOk) = true ∧ InStep path i (g.use i u) (alone.use i u) := by
  obtain ⟨s, t, disk, aloneDisk, grounded, straight, beside⟩ := h.disks
  obtain ⟨f, store, here⟩ := h.files i
  have aloneStore : alone.stores i = .file f := h.own.trans store
  have own : (alone.use i u).stores i = (g.use i u).stores i := by
    rw [stores_use_self store, stores_use_self aloneStore]
  rcases use_cases store disk saved with ⟨saves, after⟩ | ⟨saves, name, q, s', savable, effect, after⟩
  · have aloneAfter : (alone.use i u).disk = .ofTree t := by rw [disk_use aloneStore, saves, aloneDisk]; rfl
    refine ⟨by rw [saved?_storage u aloneStore, saves]; rfl, files_use h.files i u, own, s, t, after, aloneAfter,
      grounded, straight, beside⟩
  · rw [here] at savable effect
    obtain ⟨before, ends⟩ := savable.ends
    have savableAlone := beside.savable savable
      (by
        rintro ⟨j, other, document | staging⟩
        · exact (apart j other).1.document document.symm
        · exact (apart j other).1.staging staging.symm)
      (by
        rintro ⟨j, other, document | staging⟩
        · exact (apart j other).2.staging document
        · exact (apart j other).1.document (FileStore.target_of_staging ends staging).symm)
      (by
        rintro place mem ⟨j, other, rfl | rfl⟩
        · exact (apart j other).1.documentOff mem
        · exact (apart j other).1.stagingOff mem)
    rw [← here] at savableAlone
    obtain ⟨savedAlone, t', effectAlone, aloneAfter⟩ := use_of_savable aloneStore aloneDisk saves savableAlone
    rw [here] at effectAlone
    have groundedAfter := grounded_use (u := u) aloneStore (by rw [aloneDisk]; exact grounded)
    rw [aloneAfter] at groundedAfter
    exact ⟨savedAlone, files_use h.files i u, own, s', t', after, aloneAfter, groundedAfter,
      straight.keeps effectAlone.keeps, FileTree.beside_of_mine beside effect effectAlone⟩

/-- Whole runs: the uses of the one store are what is left in the run beside. -/
theorem inStep_run (us : List (ι × StoreUpdate)) (h : InStep path i g alone)
    (apart : ∀ j ≠ i, (path j).Apart (path i) ∧ (path i).Apart (path j)) (saved : g.savesSucceed us = true) :
    alone.savesSucceed (us.filter (·.1 = i)) = true ∧
      InStep path i (g.run us) (alone.run (us.filter (·.1 = i))) := by
  induction us generalizing g alone with
  | nil => exact ⟨rfl, h⟩
  | cons e us ih =>
    obtain ⟨j, u⟩ := e
    rw [savesSucceed, Bool.and_eq_true] at saved
    obtain ⟨now, later⟩ := saved
    by_cases mine : j = i
    · subst mine
      obtain ⟨savedAlone, after⟩ := inStep_own h apart now
      obtain ⟨rest, final⟩ := ih after later
      rw [List.filter_cons_of_pos (by simp)]
      exact ⟨by rw [savesSucceed, savedAlone, rest]; rfl, final⟩
    · rw [List.filter_cons_of_neg (by simpa using mine)]
      exact ih (inStep_other h mine now) later

omit [DecidableEq ι] in
theorem InStep.document_eq (h : InStep path i g alone) (apart : ∀ j ≠ i, (path j).Apart (path i)) :
    g.document (path i) = alone.document (path i) := by
  obtain ⟨s, t, disk, aloneDisk, grounded, straight, beside⟩ := h.disks
  have reads (bytes : ByteArray) : s.read (path i) = .ok bytes ↔ t.read (path i) = .ok bytes := by
    refine beside.read_eq_ok_iff grounded straight ?_ ?_
    · rintro ⟨j, other, document | staging⟩
      · exact (apart j other).document document.symm
      · exact (apart j other).staging staging.symm
    · rintro place mem ⟨j, other, rfl | rfl⟩
      · exact (apart j other).documentOff mem
      · exact (apart j other).stagingOff mem
  rw [document, document, disk, aloneDisk]
  change (s.read (path i)).toOption = (t.read (path i)).toOption
  cases found : t.read (path i) with
  | ok bytes => rw [(reads bytes).2 found]
  | error e =>
    cases here : s.read (path i) with
    | ok bytes =>
      rw [reads bytes, found] at here
      cases here
    | error e' => rfl

/-- Stores do not interfere. They lie on one disk, each keeps off the document of every other, and no path turns
back behind the directories on its way. Then after any run in which all saves succeed, the document of each store
is what it would be had the others never been used; and all saves of that store succeed without the others. -/
theorem run_alone (f : ι → FileStore) (t : FileTree) (us : List (ι × StoreUpdate)) (grounded : t.Grounded)
    (straight : ∀ i, t.Straight (f i).config.path)
    (apart : ∀ i j, i ≠ j → (f i).config.path.Apart (f j).config.path)
    (saved : (ofStores f t).savesSucceed us = true) (i : ι) :
    ((ofStores f t).run us).document (f i).config.path =
        ((ofStores f t).run (us.filter (·.1 = i))).document (f i).config.path ∧
      (ofStores f t).savesSucceed (us.filter (·.1 = i)) = true := by
  have start : InStep (fun j => (f j).config.path) i (ofStores f t) (ofStores f t) :=
    ⟨fun j => ⟨f j, rfl, rfl⟩, rfl, t, t, rfl, rfl, grounded, straight i, FileTree.Beside.refl _ t⟩
  obtain ⟨savedAlone, final⟩ := inStep_run us start (fun j other => ⟨apart j i other, apart i j other.symm⟩) saved
  exact ⟨final.document_eq fun j other => apart j i other, savedAlone⟩

/-- Two empty stores. -/
def pair (p r : FilePath) (right : Bool) : FileStore := ⟨.new (if right then r else p), .empty⟩

/-- A store in a directory and one in a directory below it. -/
theorem run_alone_pair :
    ((ofStores (pair ⟨"w/a/s.json"⟩ ⟨"w/a/b/s.json"⟩) (Storage.documentTree "{}")).run
        [(true, .set "k" (.ofString "x")), (false, .save), (true, .clear)]).document ⟨"w/a/s.json"⟩ =
      ((ofStores (pair ⟨"w/a/s.json"⟩ ⟨"w/a/b/s.json"⟩) (Storage.documentTree "{}")).run
        [(false, .save)]).document ⟨"w/a/s.json"⟩ := by
  have straight : ∀ i, (Storage.documentTree "{}").Straight (pair ⟨"w/a/s.json"⟩ ⟨"w/a/b/s.json"⟩ i).config.path
    | false => ⟨[['w']], [['a'], "s.json".toList], rfl, by decide +kernel, by decide +kernel⟩
    | true => ⟨[['w']], [['a'], ['b'], "s.json".toList], rfl, by decide +kernel, by decide +kernel⟩
  have apart : ∀ i j, i ≠ j → (pair ⟨"w/a/s.json"⟩ ⟨"w/a/b/s.json"⟩ i).config.path.Apart
      (pair ⟨"w/a/s.json"⟩ ⟨"w/a/b/s.json"⟩ j).config.path
    | false, true, _ | true, false, _ =>
      ⟨by decide +kernel, by decide +kernel, by decide +kernel, by decide +kernel⟩
  exact (run_alone (pair ⟨"w/a/s.json"⟩ ⟨"w/a/b/s.json"⟩) (Storage.documentTree "{}")
    [(true, .set "k" (.ofString "x")), (false, .save), (true, .clear)] (Storage.grounded_documentTree "{}") straight
    apart (by decide +kernel) false).1

/-- Whether the document of the left one of two stores is the same after a run in which all saves succeed as it is
without the right one. -/
def keepsLeft (p r : FilePath) (t : FileTree) (us : List (Bool × StoreUpdate)) : Option Bool :=
  if (ofStores (pair p r) t).savesSucceed us then
    some (((ofStores (pair p r) t).run us).document p ==
      ((ofStores (pair p r) t).run (us.filter (·.1 = false))).document p)
  else none

/-- A place can be named in two ways; a document can lie where another store stages its own, or stage where a
file is left that is a directory for another; and a directory made for one store lets another path turn back. -/
theorem document_differs :
    keepsLeft ⟨"w/../w/s.json"⟩ ⟨"w/s.json"⟩ (Storage.documentTree "{}") [(true, .set "k" (.ofString "x"))] =
        some false ∧
      keepsLeft ⟨"w/x.tmp"⟩ ⟨"w/x"⟩ (Storage.documentTree "{}") [(false, .save), (true, .save)] = some false ∧
      keepsLeft ⟨"w/a/../s.json"⟩ ⟨"w/a/x"⟩ (Storage.documentTree "{}") [(true, .save)] = some false ∧
      keepsLeft ⟨"w/x.tmp/y"⟩ ⟨"w/x"⟩ ((Storage.documentTree "{}").put ["w", "x.tmp"] (.file .empty))
        [(true, .save), (false, .save)] = some false := by
  decide +kernel

end SharedDisk

end LiveSettings
