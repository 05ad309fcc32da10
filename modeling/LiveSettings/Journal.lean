/-!
# The journal

What the program reports while it works: entries with a level, the part that reports, a message and named
fields.

Results: `Level.shows_self` (each level shows its own entries).
-/

namespace LiveSettings

/-- How much an entry matters, most first. -/
inductive Level where
  | error
  | warn
  | info
  | debug
  | trace
  deriving DecidableEq, Repr, Inhabited

namespace Level

def name : Level → String
  | .error => "ERROR"
  | .warn => "WARN"
  | .info => "INFO"
  | .debug => "DEBUG"
  | .trace => "TRACE"

/-- How far a level is from the first. -/
def rank : Level → Nat
  | .error => 0
  | .warn => 1
  | .info => 2
  | .debug => 3
  | .trace => 4

/-- Whether entries of another level are shown at this one. -/
def shows (limit l : Level) : Bool := l.rank ≤ limit.rank

theorem shows_self (l : Level) : l.shows l = true := by simp [shows]

end Level

/-- The parts of the program that report. -/
inductive Source where
  | natives
  | extraction
  | imports
  | emission
  | generator
  | store
  | fileStore
  | access
  | command
  | logging
  deriving DecidableEq, Repr, Inhabited

namespace Source

def name : Source → String
  | .natives => "observable_settings_codegen::native_types"
  | .extraction => "observable_settings_codegen::extract"
  | .imports => "observable_settings_codegen::imports"
  | .emission => "observable_settings_codegen::emit"
  | .generator => "observable_settings_codegen::generator"
  | .store => "observable_settings_core::store"
  | .fileStore => "observable_settings_core::file_store"
  | .access => "observable_settings_core::access"
  | .command => "observable_settings_cli::cli"
  | .logging => "observable_settings_cli::logging"

end Source

/-- One report. -/
structure Entry where
  level : Level
  source : Source
  message : String
  fields : List (String × String)
  deriving DecidableEq, Repr, Inhabited

/-- The entry in one line. -/
def Entry.text (e : Entry) : String :=
  " ".intercalate
    ((e.level.name ++ " " ++ e.source.name ++ ": " ++ e.message) :: e.fields.map fun f => f.1 ++ "=" ++ f.2)

abbrev Journal := List Entry

end LiveSettings
