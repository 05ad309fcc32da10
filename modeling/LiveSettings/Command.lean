import LiveSettings.Accessors.Generator
import LiveSettings.Command.Arguments
import LiveSettings.Command.ModulePath
import LiveSettings.Files.FileTree

/-!
# The command

A run reads all its files, generates the units, and then writes them: into a directory, or one after the
other to the output. Nothing is written before all files are read.
-/

namespace LiveSettings.Command

open LiveSettings.Accessors

/-- Why a run fails. -/
inductive RunError where
  | badPath (path : String)
  | unreadable (file : FilePath) (error : IoError)
  | unparsable (file : FilePath)
  | unwritable (file : FilePath) (error : IoError)
  deriving DecidableEq, Repr, Inhabited

def RunError.message : RunError → String
  | .badPath path => "invalid crate path `" ++ path ++ "`"
  | .unreadable file error => "failed to read " ++ file.text ++ ": " ++ error.message
  | .unparsable file => "failed to parse " ++ file.text
  | .unwritable file error => "failed to write " ++ file.text ++ ": " ++ error.message

/-- What a run made. -/
structure Outcome where
  written : List FilePath
  units : Nat
  diagnostics : Nat
  deriving DecidableEq, Repr, Inhabited

/-- The state of a run: the disk, what was printed, and what was reported. -/
structure RunState where
  disk : Disk
  printed : String
  journal : Journal
  deriving Inhabited

/-- How the text of a file is got at. -/
abbrev ReadText := FilePath → Except IoError String

/-- Reads one file. -/
def readSource (root : FilePath) (read : ReadText) (file : FilePath) : Except RunError SourceFile :=
  match read file with
  | .error e => .error (.unreadable file e)
  | .ok text =>
    match SourceFile.ofText? (FilePath.modulePath root file) text with
    | some source => .ok source
    | none => .error (.unparsable file)

/-- Reads the files in their order, up to the first that fails. -/
def readSources (root : FilePath) (read : ReadText) : List FilePath → Except RunError (List SourceFile)
  | [] => .ok []
  | file :: files =>
    match readSource root read file with
    | .error e => .error e
    | .ok source => (readSources root read files).map (source :: ·)

/-- The path of the runtime library. -/
def runtimePath (text : String) : Except RunError (List Token) :=
  match parseText? (fun g => g.path false) text with
  | some path => .ok path.tokens
  | none => .error (.badPath text)

def writtenEntry (file : FilePath) (u : GeneratedUnit) : Entry :=
  ⟨.info, .command, "wrote unit", [("path", file.text), ("ty", u.id.qualifiedName)]⟩

def finishedEntry (o : Outcome) : Entry :=
  ⟨.info, .command, "generation finished",
    [("units", toString o.units), ("skipped", toString o.diagnostics)]⟩

/-- Writes the units into a directory. -/
def writeUnits (dir : FilePath) (runtime : List Token) (s : RunState) :
    List GeneratedUnit → RunState × Except RunError (List FilePath)
  | [] => (s, .ok [])
  | u :: us =>
    let file := dir.join u.id.unitFile
    match s.disk.write file (u.text runtime).toUTF8 with
    | (disk, .error e) => ({ s with disk }, .error (.unwritable file e))
    | (disk, .ok ()) =>
      match writeUnits dir runtime { s with disk, journal := s.journal ++ [writtenEntry file u] } us with
      | (s, .error e) => (s, .error e)
      | (s, .ok files) => (s, .ok (file :: files))

/-- Makes the directory and writes the units into it. -/
def writeInto (dir : FilePath) (runtime : List Token) (s : RunState) (units : List GeneratedUnit) :
    RunState × Except RunError (List FilePath) :=
  match s.disk.makeDirectoryAll dir with
  | (disk, .error e) => ({ s with disk }, .error (.unwritable dir e))
  | (disk, .ok ()) => writeUnits dir runtime { s with disk } units

/-- Prints the units, a line break behind each. -/
def printUnits (runtime : List Token) (s : RunState) (units : List GeneratedUnit) : RunState :=
  { s with printed := s.printed ++ String.join (units.map fun u => u.text runtime ++ "\n") }

/-- Writes the units to where the arguments say. -/
def emitUnits (a : Arguments) (runtime : List Token) (s : RunState) (units : List GeneratedUnit) :
    RunState × Except RunError (List FilePath) :=
  match a.outDir with
  | some dir => writeInto dir runtime s units
  | none => (printUnits runtime s units, .ok [])

/-- What a run reads before it writes anything. -/
def prepare (a : Arguments) (read : ReadText) : Except RunError (List Token × List SourceFile) := do
  let runtime ← runtimePath a.cratePath
  let sources ← readSources a.root read a.files
  return (runtime, sources)

/-- Runs the command. -/
def run (a : Arguments) (d : Disk) : RunState × Except RunError Outcome :=
  match prepare a d.readText with
  | .error e => (⟨d, "", []⟩, .error e)
  | .ok (runtime, sources) =>
    let g := generate sources
    let s : RunState := ⟨d, "", generateJournal runtime sources⟩
    match emitUnits a runtime s g.units with
    | (s, .error e) => (s, .error e)
    | (s, .ok written) =>
      let o : Outcome := ⟨written, g.units.length, g.diagnostics.length⟩
      ({ s with journal := s.journal ++ [finishedEntry o] }, .ok o)

end LiveSettings.Command
