import LiveSettings.Files.FilePath
import LiveSettings.Logging

/-!
# Arguments of the command

Options take one value, which follows an equals sign or is the next argument, and are given at most once. All
other arguments are files, as are all behind a double dash. An argument is checked when the next one is
taken up, so an unknown option is found before a bad value right in front of it.

Results: `Arguments.files_ne_nil` (there is always a file).
-/

namespace LiveSettings.Command

/-- Why arguments cannot be used, or what they ask for instead of a run. -/
inductive UsageError where
  | unknownArgument
  | invalidValue
  | valueValidation
  | argumentConflict
  | tooManyValues
  | missingRequiredArgument
  | displayHelp
  | displayVersion
  deriving DecidableEq, Repr, Inhabited

def UsageError.name : UsageError → String
  | .unknownArgument => "UnknownArgument"
  | .invalidValue => "InvalidValue"
  | .valueValidation => "ValueValidation"
  | .argumentConflict => "ArgumentConflict"
  | .tooManyValues => "TooManyValues"
  | .missingRequiredArgument => "MissingRequiredArgument"
  | .displayHelp => "DisplayHelp"
  | .displayVersion => "DisplayVersion"

/-- What the command is to do. -/
structure Arguments where
  root : FilePath
  outDir : Option FilePath
  cratePath : String
  logLevel : Level
  logFormat : LogFormat
  files : List FilePath
  deriving DecidableEq, Repr, Inhabited

/-- The options that take a value. -/
inductive OptionName where
  | root
  | outDir
  | cratePath
  | logLevel
  | logFormat
  deriving DecidableEq, Repr, Inhabited

namespace OptionName

def ofText? (s : String) : Option OptionName :=
  if s == "root" then some .root
  else if s == "out-dir" then some .outDir
  else if s == "crate-path" then some .cratePath
  else if s == "log-level" then some .logLevel
  else if s == "log-format" then some .logFormat
  else none

end OptionName

/-- The values given so far. -/
structure Given where
  root : Option FilePath
  outDir : Option FilePath
  cratePath : Option String
  logLevel : Option Level
  logFormat : Option LogFormat
  files : List FilePath
  deriving DecidableEq, Repr, Inhabited

namespace Given

def nothing : Given := ⟨none, none, none, none, none, []⟩

def has (g : Given) : OptionName → Bool
  | .root => g.root.isSome
  | .outDir => g.outDir.isSome
  | .cratePath => g.cratePath.isSome
  | .logLevel => g.logLevel.isSome
  | .logFormat => g.logFormat.isSome

/-- A path is not empty. -/
def path (s : String) : Except UsageError FilePath :=
  if s.isEmpty then .error .invalidValue else .ok ⟨s⟩

/-- Takes the value of an option. -/
def take (g : Given) (o : OptionName) (value : String) : Except UsageError Given :=
  if g.has o then .error .argumentConflict
  else
    match o with
    | .root => (path value).map fun p => { g with root := some p }
    | .outDir => (path value).map fun p => { g with outDir := some p }
    | .cratePath => .ok { g with cratePath := some value }
    | .logLevel =>
      match Level.ofText? value with
      | some l => .ok { g with logLevel := some l }
      | none => .error .valueValidation
    | .logFormat =>
      match LogFormat.ofText? value with
      | some f => .ok { g with logFormat := some f }
      | none => .error .invalidValue

/-- The arguments, if there is a file. -/
def arguments (g : Given) : Except UsageError Arguments :=
  if g.files.isEmpty then .error .missingRequiredArgument
  else
    .ok
      { root := g.root.getD ⟨"src"⟩
        outDir := g.outDir
        cratePath := g.cratePath.getD "::observable_settings_core"
        logLevel := g.logLevel.getD .warn
        logFormat := g.logFormat.getD .compact
        files := g.files }

end Given

/-- What has been taken up but not yet checked. -/
inductive Pending where
  | nothing
  | option (o : OptionName) (value : Option String)
  | files (texts : List String)
  deriving DecidableEq, Repr, Inhabited

/-- Where the reader of arguments stands. -/
structure Reader where
  given : Given
  pending : Pending
  /-- Whether all that follows are files. -/
  trailing : Bool
  deriving DecidableEq, Repr, Inhabited

namespace Reader

def start : Reader := ⟨.nothing, .nothing, false⟩

/-- Checks what is pending. -/
def settle (r : Reader) : Except UsageError Reader :=
  match r.pending with
  | .nothing => .ok r
  | .option _ none => .error .invalidValue
  | .option o (some value) => (r.given.take o value).map fun given => { r with given, pending := .nothing }
  | .files texts =>
    (texts.mapM Given.path).map fun files =>
      { r with given := { r.given with files := r.given.files ++ files }, pending := .nothing }

/-- Takes up a file. -/
def file (r : Reader) (s : String) : Except UsageError Reader :=
  match r.pending with
  | .files texts => .ok { r with pending := .files (texts ++ [s]) }
  | _ => r.settle.map fun r => { r with pending := .files [s] }

/-- Splits a text at the first equals sign. -/
def splitValue (cs : List Char) : String × Option String :=
  let name := cs.takeWhile (· != '=')
  match cs.drop name.length with
  | [] => (String.ofList name, none)
  | _ :: value => (String.ofList name, some (String.ofList value))

/-- Takes up an option by its long name. -/
def long (r : Reader) (cs : List Char) : Except UsageError Reader :=
  let (name, value) := splitValue cs
  match OptionName.ofText? name with
  | some o => do
    let r ← r.settle
    match value with
    | some value => return { r with given := ← r.given.take o value }
    | none => return { r with pending := .option o none }
  | none =>
    if name == "help" || name == "version" then
      if value.isSome then .error .tooManyValues
      else do
        discard r.settle
        .error (if name == "help" then .displayHelp else .displayVersion)
    else .error .unknownArgument

/-- Takes up options of one letter, of which the first decides. -/
def short (r : Reader) (cs : List Char) : Except UsageError Reader :=
  match cs with
  | 'h' :: _ => r.settle.bind fun _ => .error .displayHelp
  | 'V' :: _ => r.settle.bind fun _ => .error .displayVersion
  | _ => .error .unknownArgument

/-- Takes up an argument that is no option. -/
def plain (r : Reader) (s : String) : Except UsageError Reader :=
  match r.pending with
  | .option o none => if r.trailing then r.file s else .ok { r with pending := .option o (some s) }
  | _ => r.file s

/-- Takes up an argument. -/
def step (r : Reader) (s : String) : Except UsageError Reader :=
  if r.trailing then r.plain s
  else
    match s.toList with
    | ['-', '-'] => .ok { r with trailing := true }
    | '-' :: '-' :: cs => r.long cs
    | '-' :: c :: cs => r.short (c :: cs)
    | _ => r.plain s

end Reader

/-- Reads arguments. -/
def Arguments.ofTexts (texts : List String) : Except UsageError Arguments := do
  let r ← texts.foldlM Reader.step Reader.start
  let r ← r.settle
  r.given.arguments

theorem Arguments.files_ne_nil {texts : List String} {a : Arguments}
    (h : Arguments.ofTexts texts = .ok a) : a.files ≠ [] := by
  simp only [ofTexts, bind, Except.bind] at h
  split at h
  · cases h
  · split at h
    · cases h
    · rename_i r _
      unfold Given.arguments at h
      split at h
      · cases h
      · rename_i files
        cases h
        simpa using files

end LiveSettings.Command
