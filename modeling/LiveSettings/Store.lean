import LiveSettings.Store.FileStore

/-!
# Stores

A store maps keys to setting values, in memory only or with a document on a disk that is written after each
change. `Storage` is a store with the disk it lies on and what has been reported.

Results: `find?_set`, `find?_remove`, `find?_clear` (one equation per change; all stores of one content answer
alike).
-/

namespace LiveSettings

/-- Settings in memory, or of a file. -/
inductive Store where
  | memory (entries : KeyMap SettingValue)
  | file (store : FileStore)
  deriving Inhabited

namespace Store

def empty : Store := .memory .empty

def entries : Store → KeyMap SettingValue
  | .memory entries => entries
  | .file s => s.entries

def withEntries (entries : KeyMap SettingValue) : Store → Store
  | .memory _ => .memory entries
  | .file s => .file { s with entries }

@[simp]
theorem entries_withEntries (s : Store) (es : KeyMap SettingValue) : (s.withEntries es).entries = es := by
  cases s <;> rfl

end Store

/-- A store, its disk, and what has been reported so far. -/
structure Storage where
  store : Store
  disk : Disk
  journal : Journal
  deriving Inhabited

namespace Storage

def memory (entries : KeyMap SettingValue) : Storage := ⟨.memory entries, .empty, []⟩

def report (s : Storage) (e : Entry) : Storage := { s with journal := s.journal ++ [e] }

def entries (s : Storage) : KeyMap SettingValue := s.store.entries

def find? (s : Storage) (key : String) : Option SettingValue := s.entries.find? key

def keys (s : Storage) : List String := s.entries.keys

def contains (s : Storage) (key : String) : Bool := s.entries.contains key

/-- Writes the document of a file store. A store in memory has none. -/
def save (s : Storage) : Storage × Except StoreError Unit :=
  match s.store with
  | .memory _ => (s, .ok ())
  | .file f =>
    match f.save s.disk with
    | (disk, .ok ()) => ({ s with disk }.report f.savedEntry, .ok ())
    | (disk, .error e) => ({ s with disk }, .error e)

/-- Writes the document behind a change, if the store does so. A failure is only reported. -/
def persist (s : Storage) : Storage :=
  match s.store with
  | .memory _ => s
  | .file f =>
    if f.config.autosave then
      match s.save with
      | (s, .ok ()) => s
      | (s, .error e) => s.report (FileStore.unsavedEntry e)
    else s

def withEntries (s : Storage) (entries : KeyMap SettingValue) : Storage :=
  { s with store := s.store.withEntries entries }

/-- What a store in memory reports of a change. -/
def storedEntry (key : String) (v : SettingValue) : Entry :=
  ⟨.trace, .store, "setting stored", [("key", key), ("value_type", v.typeName)]⟩

def set (s : Storage) (key : String) (v : SettingValue) : Storage :=
  let s := match s.store with
    | .memory _ => s.report (storedEntry key v)
    | .file _ => s
  (s.withEntries (s.entries.insert key v)).persist

/-- Takes away a key. Nothing is written if it is not there. -/
def remove (s : Storage) (key : String) : Storage :=
  if s.contains key then (s.withEntries (s.entries.erase key)).persist else s

def clear (s : Storage) : Storage := (s.withEntries .empty).persist

/-- Opens the document of a file store again. -/
def reopen (s : Storage) : Except StoreError Storage :=
  match s.store with
  | .memory _ => .ok s
  | .file f => (FileStore.openOn f.config s.disk).map fun f =>
      { s with store := .file f }.report f.openedEntry

/-- Opens the document of a file. -/
def openFile (config : FileConfig) (d : Disk) : Except StoreError Storage :=
  (FileStore.openOn config d).map fun f => ⟨.file f, d, [f.openedEntry]⟩

/-! ## Laws -/

@[simp]
theorem entries_withEntries (s : Storage) (es : KeyMap SettingValue) : (s.withEntries es).entries = es :=
  Store.entries_withEntries _ _

@[simp]
theorem entries_report (s : Storage) (e : Entry) : (s.report e).entries = s.entries := rfl

@[simp]
theorem entries_save (s : Storage) : s.save.1.entries = s.entries := by
  unfold save
  split
  · rfl
  · split <;> rfl

@[simp]
theorem entries_persist (s : Storage) : s.persist.entries = s.entries := by
  unfold persist
  split
  · rfl
  · split
    · have h := entries_save s
      split <;> simp_all
    · rfl

@[simp]
theorem entries_set (s : Storage) (key : String) (v : SettingValue) :
    (s.set key v).entries = s.entries.insert key v := by
  unfold set
  cases s.store <;> simp

theorem find?_set (s : Storage) (key other : String) (v : SettingValue) :
    (s.set key v).find? other = if key == other then some v else s.find? other := by
  simp [find?]

theorem find?_remove (s : Storage) (key other : String) :
    (s.remove key).find? other = if key == other then none else s.find? other := by
  unfold remove
  split
  · simp [find?]
  · rename_i h
    by_cases e : key = other
    · subst e
      simpa [contains, KeyMap.contains, find?] using h
    · simp [e]

theorem find?_clear (s : Storage) (key : String) : s.clear.find? key = none := by
  simp [clear, find?]

end Storage

end LiveSettings
