import LiveSettings.Accessors.Emission
import LiveSettings.Accessors.RuntimePath

/-!
# Accessors beside a declaration

Writes the accessors of a type from its declaration alone. Problems become errors of the compiler: those of
the configuration, else those of the markers, else those of the names.

`expand` writes either accessors or one compiler error for each problem.
-/

namespace LiveSettings.Accessors

/-- A compiler error with a message. -/
def compileError (message : String) : List Token :=
  Token.op "::" ++ word "core" ++ Token.op "::" ++ word "compile_error" ++ Token.op "!" ++
    brace (text message)

/-- The problems of a declaration. -/
inductive Problems where
  | config (e : Config.ConfigError)
  | markers (es : List Marker.MarkerError)
  | names (es : List EmitError)
  deriving Inhabited

namespace Problems

/-- The messages of the problems; the compiler shows the place of each. -/
def messages : Problems → List String
  | .config e => (e.flatten []).map (·.1.message)
  | .markers es => es.map (·.message)
  | .names es => es.map (·.message)

end Problems

/-- What is written for a declaration at the top of a module. -/
def ofDeclaration (d : Declaration) : Except Problems (Option Emitted) :=
  match Target.ofDeclaration d [] .module with
  | .error e => .error (.config e)
  | .ok (target, candidates) =>
    match Candidate.collect candidates with
    | .error es => .error (.markers es)
    | .ok properties => (emit target properties).mapError .names

/-- The items written for a declaration, or its problems as compiler errors. -/
def expand (runtime : List Token) (d : Declaration) : List Token :=
  match ofDeclaration d with
  | .ok (some e) => e.tokens runtime
  | .ok none => []
  | .error p => p.messages.flatMap compileError

/-- What expanding reports. -/
def expandJournal (d : Declaration) : Journal :=
  match Target.ofDeclaration d [] .module with
  | .error _ => []
  | .ok (target, candidates) =>
    Candidate.collectJournal candidates ++
      match Candidate.collect candidates with
      | .error _ => []
      | .ok properties => emitJournal target properties

/-- The items written for a declaration in a package. A package that does not know the runtime library gets
one compiler error that says so. -/
def expandIn (m : Manifest) (d : Declaration) : Except RuntimeError (List Token) :=
  match m.runtimePath with
  | .ok runtime => .ok (expand runtime d)
  | .error .missing => .ok (compileError RuntimeError.missing.message)
  | .error e => .error e

/-- What expanding in a package reports. -/
def expandInJournal (m : Manifest) (d : Declaration) : Journal :=
  match m.runtimePath with
  | .ok _ => expandJournal d
  | .error _ => []

end LiveSettings.Accessors
