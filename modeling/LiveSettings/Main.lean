import LiveSettings.Command

/-!
# The program

The command on real files. What a run reads, decides and writes is `LiveSettings.Command`; here it only meets
the world.
-/

namespace LiveSettings.Command

/-- The reason for which a call on real files failed. -/
def reason (e : IO.Error) : IoError :=
  match e with
  | .noFileOrDirectory .. => .notFound
  | .alreadyExists .. => .exists
  | .permissionDenied .. => .denied
  | .resourceExhausted .. => .noSpace
  | e => .other (toString e)

/-- The result of a call on real files. -/
def attempt (call : IO α) : IO (Except IoError α) :=
  try return .ok (← call) catch e => return .error (reason e)

/-- The text of a real file. -/
def readReal (file : FilePath) : IO (Except IoError String) := do
  match ← attempt (IO.FS.readBinFile file.text) with
  | .error e => return .error e
  | .ok bytes =>
    match String.fromUTF8? bytes with
    | some text => return .ok text
    | none => return .error .notText

/-- Shows entries that the level lets through. -/
def printEntries (level : Level) (entries : Journal) : IO Unit :=
  (entries.filter fun e => level.shows e.level).forM fun e => IO.eprintln e.text

/-- Writes a unit into a real directory. -/
def writeReal (a : Arguments) (runtime : List Token) (dir : FilePath) (u : Accessors.GeneratedUnit) :
    IO (Except RunError FilePath) := do
  let file := dir.join u.id.unitFile
  match ← attempt (IO.FS.writeFile file.text (u.text runtime)) with
  | .error e => return .error (.unwritable file e)
  | .ok () =>
    printEntries a.logLevel [writtenEntry file u]
    return .ok file

/-- Writes units into a real directory, up to the first that fails. -/
def writeAllReal (a : Arguments) (runtime : List Token) (dir : FilePath) :
    List Accessors.GeneratedUnit → IO (Except RunError (List FilePath))
  | [] => return .ok []
  | u :: us => do
    match ← writeReal a runtime dir u with
    | .error e => return .error e
    | .ok file => return (← writeAllReal a runtime dir us).map (file :: ·)

/-- Writes or prints the units, as the arguments say. -/
def emitReal (a : Arguments) (runtime : List Token) (units : List Accessors.GeneratedUnit) :
    IO (Except RunError (List FilePath)) := do
  match a.outDir with
  | none =>
    units.forM fun u => IO.println (u.text runtime)
    return .ok []
  | some dir =>
    match ← attempt (IO.FS.createDirAll dir.text) with
    | .error e => return .error (.unwritable dir e)
    | .ok () => writeAllReal a runtime dir units

/-- Runs the command on real files. -/
def runReal (a : Arguments) : IO (Except RunError Outcome) := do
  let texts ← a.files.mapM fun file => return (file, ← readReal file)
  match prepare a fun file => (texts.lookup file).getD (.error .notFound) with
  | .error e => return .error e
  | .ok (runtime, sources) =>
    let g := Accessors.generate sources
    printEntries a.logLevel (Accessors.generateJournal runtime sources)
    match ← emitReal a runtime g.units with
    | .error e => return .error e
    | .ok written =>
      let o : Outcome := ⟨written, g.units.length, g.diagnostics.length⟩
      printEntries a.logLevel [finishedEntry o]
      return .ok o

def usage : String :=
  "Usage: settings-gen [OPTIONS] <FILES>...\n\n" ++
  "Options:\n" ++
  "      --root <ROOT>              Source root that module paths are derived from [default: src]\n" ++
  "      --out-dir <OUT_DIR>        Directory to write generated files into; stdout if omitted\n" ++
  "      --crate-path <CRATE_PATH>  Path by which generated code names the runtime library\n" ++
  "      --log-level <LOG_LEVEL>    Maximum log level [default: warn]\n" ++
  "      --log-format <LOG_FORMAT>  Log output format: pretty, compact or json\n" ++
  "  -h, --help                     Print help\n" ++
  "  -V, --version                  Print version"

def version : String := "settings-gen 0.0.1"

/-- Ends with 0 after a run or a help text, with 1 after a run that failed, and with 2 if the arguments cannot
be used. -/
def runProgram (args : List String) : IO UInt32 := do
  match Arguments.ofTexts args with
  | .error .displayHelp =>
    IO.println usage
    return 0
  | .error .displayVersion =>
    IO.println version
    return 0
  | .error e =>
    IO.eprintln ("error: " ++ e.name ++ "\n\n" ++ usage)
    return 2
  | .ok a =>
    match ← runReal a with
    | .ok _ => return 0
    | .error e =>
      IO.eprintln ("error: " ++ e.message)
      return 1

end LiveSettings.Command

def main (args : List String) : IO UInt32 := LiveSettings.Command.runProgram args
