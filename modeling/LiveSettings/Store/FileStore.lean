import LiveSettings.Files.FileTree
import LiveSettings.Journal
import LiveSettings.Value.Codec

/-!
# Settings in a file

A file holds one document, an object with a member for each key. It is written as a whole: first to a file
beside it, which is then moved over it.

Results: `ofText?_of_blank` (a blank file holds nothing).
-/

namespace LiveSettings

/-- Where and how settings are kept in a file. -/
structure FileConfig where
  path : FilePath
  pretty : Bool
  autosave : Bool
  deriving DecidableEq, Repr, Inhabited

namespace FileConfig

/-- A compact document that is written after every change. -/
def new (path : FilePath) : FileConfig := ⟨path, false, true⟩

def withPretty (c : FileConfig) (pretty : Bool) : FileConfig := { c with pretty }

def withAutosave (c : FileConfig) (autosave : Bool) : FileConfig := { c with autosave }

end FileConfig

/-- Why a file store cannot be opened or saved. -/
inductive StoreError where
  | io (path : FilePath) (error : IoError)
  | serialization
  deriving DecidableEq, Repr, Inhabited

def StoreError.message : StoreError → String
  | .io path error => "I/O error on " ++ path.text ++ ": " ++ error.message
  | .serialization => "serialization error"

/-- The settings of a file. -/
structure FileStore where
  config : FileConfig
  entries : KeyMap SettingValue
  deriving Inhabited

namespace FileStore

/-! ## Documents -/

def toJson (entries : KeyMap SettingValue) : Json :=
  .object (entries.entries.map fun (k, v) => (k, v.toJson))

/-- The text of the document. -/
def document (s : FileStore) : String :=
  if s.config.pretty then (toJson s.entries).renderPretty else (toJson s.entries).render

/-- The entries of a document, of which the last of equal keys counts. -/
def ofDocument? : Json → Option (KeyMap SettingValue)
  | .object members =>
    (members.mapM fun ((k, j) : String × Json) => (SettingValue.ofJson? 1 j).map fun v => (k, v)).map
      KeyMap.ofList
  | _ => none

/-- The entries of a text; a blank text holds none. -/
def ofText? (s : String) : Option (KeyMap SettingValue) :=
  if (Text.trimBlanks s).isEmpty then some .empty else (Json.ofText? s).bind ofDocument?

theorem ofText?_of_blank {s : String} (h : Text.trimBlanks s = "") : ofText? s = some .empty := by
  simp [ofText?, h]

/-! ## Opening and saving -/

/-- Opens the settings of a file. A file that does not exist holds none. -/
def openOn (config : FileConfig) (d : Disk) : Except StoreError FileStore :=
  match d.readText config.path with
  | .ok text =>
    match ofText? text with
    | some entries => .ok ⟨config, entries⟩
    | none => .error .serialization
  | .error .notFound => .ok ⟨config, .empty⟩
  | .error e => .error (.io config.path e)

def openedEntry (s : FileStore) : Entry :=
  ⟨.debug, .fileStore, "settings file opened",
    [("path", s.config.path.text), ("keys", toString s.entries.size)]⟩

/-- The file beside the document that is written first. -/
def stagingPath (p : FilePath) : FilePath := p.withFileName (p.fileName?.getD "" ++ ".tmp")

/-- Makes the directory for a file, if the path names one. -/
def prepare (p : FilePath) (d : Disk) : Disk × Except StoreError Unit :=
  match p.parent? with
  | none => (d, .ok ())
  | some parent =>
    if parent.text.isEmpty then (d, .ok ())
    else
      match d.makeDirectoryAll parent with
      | (d, .ok ()) => (d, .ok ())
      | (d, .error e) => (d, .error (.io parent e))

/-- Writes the document. -/
def save (s : FileStore) (d : Disk) : Disk × Except StoreError Unit :=
  let path := s.config.path
  match prepare path d with
  | (d, .error e) => (d, .error e)
  | (d, .ok ()) =>
    match d.write (stagingPath path) s.document.toUTF8 with
    | (d, .error e) => (d, .error (.io (stagingPath path) e))
    | (d, .ok ()) =>
      match d.rename (stagingPath path) path with
      | (d, .error e) => (d, .error (.io path e))
      | (d, .ok ()) => (d, .ok ())

def savedEntry (s : FileStore) : Entry :=
  ⟨.trace, .fileStore, "settings file saved", [("path", s.config.path.text)]⟩

/-- What is reported of a failure to save behind a change. -/
def unsavedEntry (e : StoreError) : Entry :=
  ⟨.warn, .fileStore, "failed to persist settings; keeping them in memory", [("error", e.message)]⟩

end FileStore

end LiveSettings
