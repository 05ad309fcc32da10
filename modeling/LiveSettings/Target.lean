import LiveSettings.Property.Record
import LiveSettings.Target.Config

/-!
# Settings types

A type that may receive accessors: its identity, its generic parameters, the traits that it implements by
hand and the field that holds its context. `ofDeclaration` reads it from a declaration, with a candidate
for every field that carries an attribute.

Results: `declares_iff` (a trait counts by its own name).
-/

namespace LiveSettings

/-- Where a type is declared. -/
inductive Container where
  /-- Directly in a module, so that generated items can stand beside it. -/
  | module
  /-- In the body of a function or another block. -/
  | nested
  deriving DecidableEq, Repr, Inhabited

/-- A type that may receive accessors. -/
structure Target where
  id : TypeId
  name : String
  generics : Generics
  capabilities : List Path
  container : Container
  contextField : Option String
  deriving Inhabited

namespace Target

/-- The name of the type that holds the context. -/
def contextType : String := "SettingsContext"

/-- Whether a trait of this name is among those implemented by hand. -/
def declares (t : Target) (name : String) : Bool := t.capabilities.any (·.lastName? == some name)

theorem declares_iff (t : Target) (name : String) :
    t.declares name = true ↔ ∃ p ∈ t.capabilities, p.lastName? = some name := by
  simp [declares]

/-- Notes that the type implements a trait, once. -/
def addCapability (t : Target) (p : Path) : Target :=
  if t.capabilities.any (·.same p) then t else { t with capabilities := t.capabilities ++ [p] }

/-- Whether a field's type is the context, by the last name of its path. -/
def isContextType : Ty → Bool
  | .path _ segments | .projection _ _ _ segments =>
    segments.getLast?.any (·.name == contextType)
  | _ => false

/-- A field as its configuration describes it. -/
structure ConfiguredField where
  name : String
  ty : Ty
  /-- The attributes other than the configuration. -/
  attrs : List Attr
  isContext : Bool
  deriving Inhabited

/-- Reads the configuration of a field. -/
def configureField (f : Field) : Except Config.ConfigError ConfiguredField :=
  let (errors, value) := Config.fromAttrs "context" Config.readContext f.attrs false none
  match Config.combineErrors errors with
  | some e => .error (e.within f.name)
  | none =>
    .ok ⟨f.name, f.ty, f.attrs.filter fun a => a.path.names ≠ [Config.attributeName], value.getD false⟩

/-- The results of all attempts, or all errors. -/
def allOf : List (Except ε α) → Except (List ε) (List α)
  | [] => .ok []
  | .ok a :: rest =>
    match allOf rest with
    | .ok as => .ok (a :: as)
    | .error es => .error es
  | .error e :: rest =>
    match allOf rest with
    | .ok _ => .error [e]
    | .error es => .error (e :: es)

/-- The field that holds the context: the one marked, or else the one of its type. -/
def findContext (fields : List ConfiguredField) : Except Config.ConfigError (Option String) :=
  match fields.filter (·.isContext) with
  | [f] => .ok (some f.name)
  | _ :: _ :: _ => .error (.ofMistake .severalMarked)
  | [] =>
    match fields.filter fun f => isContextType f.ty with
    | [] => .ok none
    | [f] => .ok (some f.name)
    | _ :: _ :: _ => .error (.ofMistake .severalContexts)

/-- The fields of a declaration that may be a settings type. -/
def namedFields : Declaration → Except Config.ConfigError (Struct × List Field)
  | .enum => .error (.ofMistake (.notStruct "enum"))
  | .union => .error (.ofMistake (.notStruct "union"))
  | .struct decl =>
    match decl.fields with
    | .named fields => .ok (decl, fields)
    | .unnamed fields => .error (.ofMistake (.unnamedFields (fields.length = 1)))
    | .unit => .error (.ofMistake .noFields)

/-- Reads a settings type and its candidates from a declaration. Mistakes in the configuration of the type
and of its fields are reported together. -/
def ofDeclaration (d : Declaration) (modulePath : List String) (container : Container) :
    Except Config.ConfigError (Target × List Candidate) := do
  let (decl, fields) ← namedFields d
  let (errors, implemented) :=
    Config.fromAttrs "implements" Config.readImplements decl.attrs false none
  let configured := allOf (fields.map configureField)
  let fieldErrors := match configured with
    | .ok _ => []
    | .error es => (Config.combineErrors es).toList
  match Config.combineErrors (errors ++ fieldErrors), configured with
  | some e, _ => throw e
  | none, .error es => throw (.several es [])
  | none, .ok fields =>
    let context ← findContext fields
    let id : TypeId := ⟨modulePath, decl.name⟩
    let candidates := (fields.filter fun f => !f.attrs.isEmpty).map fun f =>
      Candidate.single id f.attrs f.name f.ty
    return ({ id
              name := decl.name
              generics := decl.generics
              capabilities := (implemented.getD []).map Path.ofNames
              container
              contextField := context }, candidates)

end Target

end LiveSettings
