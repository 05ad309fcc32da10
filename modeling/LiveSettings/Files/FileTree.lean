import LiveSettings.Files.FilePath

/-!
# File trees

Directories and files under one root, which is also where relative paths start. A path is resolved name by
name, so a name that is missing or is no directory on the way is an error of its own. Calls may also fail for
reasons outside the tree: a `Disk` carries the faults that its next calls meet.

A tree holds directories and regular files, each of them in one place. It has no links, neither symbolic ones nor
second names of a file, so what is written under one name is never read under another.

Results: `find?_put`, `find?_remove` (one equation per change of the tree).
-/

namespace LiveSettings

/-- Why a call on files fails. -/
inductive IoError where
  | notFound
  | exists
  | notDirectory
  | isDirectory
  | busy
  | nameTooLong
  | nulInPath
  | notText
  | noSpace
  | denied
  /-- Any other reason, with its text. -/
  | other (text : String)
  deriving DecidableEq, Repr, Inhabited

namespace IoError

def message : IoError → String
  | .notFound => "No such file or directory (os error 2)"
  | .exists => "File exists (os error 17)"
  | .notDirectory => "Not a directory (os error 20)"
  | .isDirectory => "Is a directory (os error 21)"
  | .busy => "Device or resource busy (os error 16)"
  | .nameTooLong => "File name too long (os error 36)"
  | .nulInPath => "file name contained an unexpected NUL byte"
  | .notText => "stream did not contain valid UTF-8"
  | .noSpace => "No space left on device (os error 28)"
  | .denied => "Permission denied (os error 13)"
  | .other text => text

end IoError

/-- What lies at a place in a tree. -/
inductive Node where
  | directory
  | file (bytes : ByteArray)
  deriving Inhabited

instance : DecidableEq Node
  | .directory, .directory => .isTrue rfl
  | .directory, .file _ | .file _, .directory => .isFalse nofun
  | .file a, .file b =>
    match ByteArray.instDecidableEq a b with
    | .isTrue h => .isTrue (congrArg Node.file h)
    | .isFalse h => .isFalse fun e => h (Node.file.inj e)

/-- A place in a tree: the names on the way from the root. -/
abbrev Place := List String

/-- What lies at the places below the root, which is a directory itself. -/
structure FileTree where
  nodes : List (Place × Node)
  deriving DecidableEq, Inhabited

namespace FileTree

def empty : FileTree := ⟨[]⟩

/-- The first entry of a place counts. -/
def lookup (place : Place) : List (Place × Node) → Option Node
  | [] => none
  | (p, n) :: rest => if p == place then some n else lookup place rest

def find? (t : FileTree) (place : Place) : Option Node :=
  if place.isEmpty then some .directory else lookup place t.nodes

/-- Takes away what lies at a place. -/
def remove (t : FileTree) (place : Place) : FileTree := ⟨t.nodes.filter (·.1 != place)⟩

/-- Puts something at a place. -/
def put (t : FileTree) (place : Place) (n : Node) : FileTree := ⟨(place, n) :: (t.remove place).nodes⟩

theorem lookup_filter (place other : Place) (nodes : List (Place × Node)) :
    lookup other (nodes.filter (·.1 != place)) = if place = other then none else lookup other nodes := by
  induction nodes with
  | nil => simp [lookup]
  | cons e nodes ih =>
    obtain ⟨p, n⟩ := e
    by_cases h : p = place <;> by_cases h' : p = other <;> simp_all [lookup]
    grind

theorem find?_remove (t : FileTree) (place other : Place) (h : other ≠ []) :
    (t.remove place).find? other = if place = other then none else t.find? other := by
  simp [find?, remove, lookup_filter, h]

theorem find?_put (t : FileTree) (place other : Place) (n : Node) (h : other ≠ []) :
    (t.put place n).find? other = if place = other then some n else t.find? other := by
  by_cases e : place = other <;> simp_all [find?, put, remove, lookup, lookup_filter]

/-! ## Resolving paths -/

/-- The longest name, in bytes. -/
def longestName : Nat := 255

/-- The longest path, in bytes. -/
def longestPath : Nat := 4095

/-- A step from a place to the next. -/
def walkStep (t : FileTree) (here : Place) (piece : List Char) : Except IoError Place :=
  match t.find? here with
  | some .directory =>
    if FilePath.isEmptyPiece piece then .ok here
    else if piece == ['.', '.'] then .ok here.dropLast
    else
      let name := String.ofList piece
      if longestName < name.utf8ByteSize then .error .nameTooLong
      else
        let next := here ++ [name]
        if (t.find? next).isSome then .ok next else .error .notFound
  | some (.file _) => .error .notDirectory
  | none => .error .notFound

/-- The place reached by steps. -/
def walk (t : FileTree) (here : Place) : List (List Char) → Except IoError Place
  | [] => .ok here
  | piece :: rest =>
    match t.walkStep here piece with
    | .ok next => t.walk next rest
    | .error e => .error e

/-- Why a text is no path, if it is none. -/
def pathError? (p : FilePath) : Option IoError :=
  if p.text.toList.contains '\x00' then some .nulInPath
  else if p.text.isEmpty then some .notFound
  else if longestPath < p.text.utf8ByteSize then some .nameTooLong
  else none

/-- The place that a path names. -/
def resolve (t : FileTree) (p : FilePath) : Except IoError Place :=
  match pathError? p with
  | some e => .error e
  | none => t.walk [] p.pieces

/-- Where the last name of a path is to be found: the directory and the name. -/
structure Slot where
  directory : Place
  name : String
  /-- Whether the path says that the name is a directory's. -/
  asDirectory : Bool
  deriving DecidableEq, Repr

def Slot.place (s : Slot) : Place := s.directory ++ [s.name]

/-- Resolves a path up to its last name; absent if it does not end in a name. -/
def resolveSlot (t : FileTree) (p : FilePath) : Except IoError (Option Slot) :=
  match pathError? p with
  | some e => .error e
  | none =>
    let slashes := p.pieces.reverse.takeWhile (·.isEmpty)
    match p.pieces.reverse.dropWhile (·.isEmpty) with
    | [] => .ok none
    | last :: before =>
      match t.walk [] before.reverse with
      | .error e => .error e
      | .ok directory =>
        match t.find? directory with
        | some .directory =>
          if last == ['.'] || last == ['.', '.'] then .ok none
          else
            let name := String.ofList last
            if longestName < name.utf8ByteSize then .error .nameTooLong
            else .ok (some ⟨directory, name, !slashes.isEmpty⟩)
        | some (.file _) => .error .notDirectory
        | none => .error .notFound

def isDirectory (t : FileTree) (p : FilePath) : Bool :=
  match t.resolve p with
  | .ok place => t.find? place == some .directory
  | .error _ => false

/-! ## Calls -/

/-- The bytes of a file. -/
def read (t : FileTree) (p : FilePath) : Except IoError ByteArray :=
  match t.resolve p with
  | .error e => .error e
  | .ok place =>
    match t.find? place with
    | some (.file bytes) => .ok bytes
    | some .directory => .error .isDirectory
    | none => .error .notFound

/-- Makes one directory. -/
def makeDirectory (t : FileTree) (p : FilePath) : Except IoError FileTree :=
  match t.resolveSlot p with
  | .error e => .error e
  | .ok none => .error .exists
  | .ok (some slot) =>
    if (t.find? slot.place).isSome then .error .exists else .ok (t.put slot.place .directory)

/-- Where a file can be written. -/
def writeSlot (t : FileTree) (p : FilePath) : Except IoError Slot :=
  match t.resolveSlot p with
  | .error e => .error e
  | .ok none => .error .isDirectory
  | .ok (some slot) =>
    match t.find? slot.place with
    | some .directory => .error .isDirectory
    | some (.file _) => if slot.asDirectory then .error .notDirectory else .ok slot
    | none => if slot.asDirectory then .error .isDirectory else .ok slot

/-- Writes a file anew. -/
def write (t : FileTree) (p : FilePath) (bytes : ByteArray) : Except IoError FileTree :=
  (t.writeSlot p).map fun slot => t.put slot.place (.file bytes)

/-- Moves a file over another or to a free place. -/
def rename (t : FileTree) (source target : FilePath) : Except IoError FileTree :=
  match t.resolveSlot source, t.resolveSlot target with
  | .error e, _ => .error e
  | _, .error e => .error e
  | .ok none, _ | _, .ok none => .error .busy
  | .ok (some old), .ok (some new) =>
    match t.find? old.place, t.find? new.place with
    | none, _ => .error .notFound
    | some .directory, _ => .error .busy
    | some (.file bytes), found =>
      if old.asDirectory || new.asDirectory then .error .notDirectory
      else if found == some .directory then .error .isDirectory
      else .ok ((t.remove old.place).put new.place (.file bytes))

/-- Makes directories from the deepest one that exists already, the deepest path first. -/
def makeDirectories (t : FileTree) : List FilePath → FileTree × Except IoError Unit
  | [] => (t, .ok ())
  | p :: above =>
    let settle (t : FileTree) (e : IoError) : FileTree × Except IoError Unit :=
      if t.isDirectory p then (t, .ok ()) else (t, .error e)
    match t.makeDirectory p with
    | .ok made => (made, .ok ())
    | .error .notFound =>
      match t.makeDirectories above with
      | (t, .error e) => (t, .error e)
      | (t, .ok ()) =>
        match t.makeDirectory p with
        | .ok made => (made, .ok ())
        | .error e => settle t e
    | .error e => settle t e

/-- The paths that may have to be made for a directory, the deepest first. -/
def missingPaths (p : FilePath) : List FilePath :=
  p.ancestors.takeWhile fun a => !a.text.isEmpty && a.parent?.isSome

/-- Makes a directory and those above it. -/
def makeDirectoryAll (t : FileTree) (p : FilePath) : FileTree × Except IoError Unit :=
  t.makeDirectories (missingPaths p)

/-- The files of the tree. -/
def files (t : FileTree) : List (Place × ByteArray) :=
  t.nodes.filterMap fun
    | (p, .file bytes) => some (p, bytes)
    | (_, .directory) => none

/-- The files that another tree does not have with the same content, in order of their places. -/
def newFiles (t before : FileTree) : List (Place × ByteArray) :=
  (t.files.filter fun (p, bytes) => before.find? p != some (.file bytes)).mergeSort
    fun a b => decide ("/".intercalate a.1 ≤ "/".intercalate b.1)

/-- Puts a file into a tree, or a directory where there is no content, with the directories around it. -/
def place (t : FileTree) (p : FilePath) : Option ByteArray → Except IoError FileTree
  | none => (t.makeDirectoryAll p).2.map fun _ => (t.makeDirectoryAll p).1
  | some bytes => ((p.parent?.elim t fun d => (t.makeDirectoryAll d).1)).write p bytes

end FileTree

/-- A failure from outside: the error, and how much of its work the call does before it fails, if it starts at
all. -/
structure Fault where
  error : IoError
  progress : Option Nat
  deriving DecidableEq, Repr, Inhabited

/-- A file tree and what happens to the next calls that change it, one entry for each call. -/
structure Disk where
  tree : FileTree
  faults : List (Option Fault)
  deriving DecidableEq, Inhabited

namespace Disk

def empty : Disk := ⟨.empty, []⟩

def ofTree (t : FileTree) : Disk := ⟨t, []⟩

/-- The fault of the next call, and the disk after it is used up. -/
def nextFault (d : Disk) : Option Fault × Disk :=
  match d.faults with
  | [] => (none, d)
  | f :: fs => (f, { d with faults := fs })

/-- Makes a directory and those above it. A fault stops after some of them. -/
def makeDirectoryAll (d : Disk) (p : FilePath) : Disk × Except IoError Unit :=
  match d.nextFault with
  | (none, d) =>
    let (tree, r) := d.tree.makeDirectoryAll p
    ({ d with tree }, r)
  | (some f, d) =>
    let paths := FileTree.missingPaths p
    let (tree, _) := d.tree.makeDirectories (paths.drop (paths.length - f.progress.getD 0))
    ({ d with tree }, .error f.error)

/-- Writes a file anew. A fault leaves a file with the first bytes. -/
def write (d : Disk) (p : FilePath) (bytes : ByteArray) : Disk × Except IoError Unit :=
  match d.nextFault with
  | (none, d) =>
    match d.tree.write p bytes with
    | .ok tree => ({ d with tree }, .ok ())
    | .error e => (d, .error e)
  | (some f, d) =>
    match f.progress.map fun n => d.tree.write p (bytes.extract 0 n) with
    | none => (d, .error f.error)
    | some (.ok tree) => ({ d with tree }, .error f.error)
    | some (.error e) => (d, .error e)

/-- Moves a file. A fault leaves everything in place. -/
def rename (d : Disk) (source target : FilePath) : Disk × Except IoError Unit :=
  match d.nextFault with
  | (none, d) =>
    match d.tree.rename source target with
    | .ok tree => ({ d with tree }, .ok ())
    | .error e => (d, .error e)
  | (some f, d) => (d, .error f.error)

/-- The text of a file. -/
def readText (d : Disk) (p : FilePath) : Except IoError String :=
  match d.tree.read p with
  | .error e => .error e
  | .ok bytes =>
    match String.fromUTF8? bytes with
    | some s => .ok s
    | none => .error .notText

end Disk

end LiveSettings
