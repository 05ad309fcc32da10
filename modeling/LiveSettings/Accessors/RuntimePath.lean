import LiveSettings.Text.Identifier
import LiveSettings.Token

/-!
# The path of the runtime library

Written code names the runtime library by a path. The manifest of the package that the code is for tells
under which name the library is known there: the library itself counts first, then the package that
re-exports it.

Results: `find?_self` (inside the library's own package it goes by its own name).
-/

namespace LiveSettings

/-- A dependency of a package: the name it goes by, and the package, if that has another name. -/
structure Dependency where
  key : String
  package : Option String
  deriving DecidableEq, Repr, Inhabited

/-- What a package depends on. -/
structure Manifest where
  package : Option String
  dependencies : List Dependency
  developmentDependencies : List Dependency
  deriving DecidableEq, Repr, Inhabited

/-- Why there is no path of the runtime library. -/
inductive RuntimeError where
  | missing
  /-- The library goes by a name that cannot stand in code. -/
  | malformed (name : String)
  deriving DecidableEq, Repr, Inhabited

def RuntimeError.message : RuntimeError → String
  | .missing =>
    "observable settings runtime not found; add `observable_settings` or `observable_settings_core` " ++
      "to [dependencies]"
  | .malformed name => "`" ++ name ++ "` is not a name"

namespace Manifest

def runtimePackage : String := "observable_settings_core"

def umbrellaPackage : String := "observable_settings"

/-- The package that a dependency stands for. -/
def packageName (d : Dependency) : String := d.package.getD d.key

/-- A key as a name in code. -/
def codeName (key : String) : String := String.ofList (key.toList.map fun c => if c = '-' then '_' else c)

/-- No table of the manifest has an entry twice. -/
def WellFormed (m : Manifest) : Prop :=
  (m.dependencies.map (·.key)).Nodup ∧ (m.developmentDependencies.map (·.key)).Nodup

instance (m : Manifest) : Decidable m.WellFormed := by unfold WellFormed; infer_instance

/-- The name by which a package goes in the code; the last dependency on it counts. -/
def find? (m : Manifest) (package : String) : Option String :=
  if m.package = some package then some package
  else
    ((m.dependencies ++ m.developmentDependencies).reverse.find? fun d => packageName d = package).map
      fun d => codeName d.key

theorem find?_self (m : Manifest) (package : String) (h : m.package = some package) :
    m.find? package = some package := by
  simp [find?, h]

/-- A name as a token. -/
def nameToken (name : String) : Except RuntimeError (List Token) :=
  if Text.isWord name.toList then .ok [.ident name] else .error (.malformed name)

/-- The path of the runtime library. -/
def runtimePath (m : Manifest) : Except RuntimeError (List Token) :=
  if m.WellFormed then
    match m.find? runtimePackage, m.find? umbrellaPackage with
    | some name, _ => nameToken name
    | none, some name => (nameToken name).map fun ts => ts ++ Token.op "::" ++ [.ident runtimePackage]
    | none, none => .error .missing
  else .error .missing

end Manifest

end LiveSettings
