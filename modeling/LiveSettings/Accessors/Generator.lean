import LiveSettings.Accessors.Emission
import LiveSettings.Target.Imports

/-!
# Units from source files

Reads whole files, finds the structs with marked fields, and writes a unit for each. A struct that already
derives its accessors is left alone, one inside a function is reported. Field types are qualified by the
imports of their module, and implementations of the notification trait count for the type they name.

Results: `scan_append` (the scan of two lists of files is the scan of each, one after the other).
-/

namespace LiveSettings.Accessors

open LiveSettings.Parser

/-- A source file: the path of its module and its items. -/
structure SourceFile where
  modulePath : List String
  items : List Item
  deriving Inhabited

namespace SourceFile

/-- Reads a file, if it can be parsed. -/
def ofText? (modulePath : List String) (text : String) : Option SourceFile := do
  let ts ← Token.ofFile? text
  let items ← parseTokens? (fun g => do
    discard g.innerAttrs
    many (fun ts => !isEnd ts) g.item) ts
  return ⟨modulePath, items⟩

end SourceFile

/-- Generated code for one type. -/
structure GeneratedUnit where
  id : TypeId
  emitted : Emitted
  deriving Inhabited

namespace GeneratedUnit

def text (runtime : List Token) (u : GeneratedUnit) : String :=
  u.id.unitText (Token.render (u.emitted.tokens runtime))

end GeneratedUnit

/-- Why a type has no unit. -/
inductive DiagnosticCause where
  | config (e : Config.ConfigError)
  | marker (e : Marker.MarkerError)
  | nested
  | names (first : EmitError)
  deriving Inhabited

/-- A type that was skipped. -/
structure Diagnostic where
  id : TypeId
  cause : DiagnosticCause
  deriving Inhabited

namespace DiagnosticCause

def message : DiagnosticCause → String
  | .config e => e.message
  | .marker e => e.message
  | .nested => "declared inside a function or block; no accessors generated"
  | .names first => first.message

end DiagnosticCause

namespace Diagnostic

def text (d : Diagnostic) : String := d.id.qualifiedName ++ ": " ++ d.cause.message

end Diagnostic

/-- Units in the order in which their types first occur, and what was skipped. -/
structure Generation where
  units : List GeneratedUnit
  diagnostics : List Diagnostic
  deriving Inhabited

/-! ## Scanning -/

/-- What a scan of items finds, in order. -/
inductive Finding where
  | target (t : Target) (candidates : List Candidate)
  | refused (id : TypeId) (e : Config.ConfigError)
  | implements (id : TypeId) (trait : Path)
  | derived (name : String)
  | qualified (journal : Journal)
  deriving Inhabited

/-- The name of the derive that writes accessors itself. -/
def deriveName : String := "ObservableSettings"

/-- Whether the attributes derive a name. -/
def derives (attrs : List Attr) (name : String) : Bool :=
  attrs.any fun a =>
    a.path.isName "derive" &&
      match a.args with
      | .list _ ts =>
        let rule (g : Grammar) := Prod.fst <$> separated isEnd "," (g.path false)
        ((parseTokens? rule ts).getD []).any (·.lastName? == some name)
      | _ => false

/-- The name of the scope inside a function. -/
def functionScope (name : String) : String := name ++ "()"

/-- A struct whose marked fields make it a settings type. -/
def scanStruct (imports : Imports) (scope : List String) (container : Container) (decl : Struct) :
    List Finding :=
  match decl.fields with
  | .named fields =>
    if !fields.any fun f => f.attrs.any (·.path.isName Marker.markerName) then []
    else if derives decl.attrs deriveName then [.derived decl.name]
    else
      let params := decl.generics.typeNames
      let reports := fields.flatMap fun f => imports.journal params f.ty
      let fields := fields.map fun f => { f with ty := imports.qualify params f.ty }
      .qualified reports ::
        match Target.ofDeclaration (.struct { decl with fields := .named fields }) scope container with
        | .ok (target, candidates) => [.target target candidates]
        | .error e => [.refused ⟨scope, decl.name⟩ e]
  | _ => []

/-- The type that an implementation is for, by the last name of its path. -/
def implementedType? (scope : List String) : Ty → Option TypeId
  | .path _ segments | .projection _ _ _ segments => segments.getLast?.map fun s => ⟨scope, s.name⟩
  | _ => none

mutual

/-- What an item holds. -/
def scanItem (imports : Imports) (scope : List String) (container : Container) : Item → List Finding
  | .struct decl => scanStruct imports scope container decl
  | .module name items =>
    scanItems (Imports.ofItems items) (scope ++ [name]) container items
  | .function name body _ =>
    scanItems (Imports.ofItems body) (scope ++ [functionScope name]) .nested body
  | .implementation head self members =>
    (match head, implementedType? scope self with
      | .positive trait, some id => [.implements id trait]
      | _, _ => []) ++ scanMembers scope members
  | .typeName _ => []
  | .imports _ _ => []
  | .other _ => []

/-- What the items of one module hold; `imports` are those of the module. -/
def scanItems (imports : Imports) (scope : List String) (container : Container) :
    List Item → List Finding
  | [] => []
  | i :: is => scanItem imports scope container i ++ scanItems imports scope container is

/-- What the methods of an implementation hold. -/
def scanMembers (scope : List String) : List Item → List Finding
  | [] => []
  | .function name body _ :: is =>
    scanItems (Imports.ofItems body) (scope ++ [functionScope name]) .nested body ++
      scanMembers scope is
  | _ :: is => scanMembers scope is

end

/-- What the files hold. -/
def scan (sources : List SourceFile) : List Finding :=
  sources.flatMap fun s => scanItems (Imports.ofItems s.items) s.modulePath .module s.items

theorem scan_append (a b : List SourceFile) : scan (a ++ b) = scan a ++ scan b := by
  simp [scan]

/-! ## Generating -/

namespace Finding

def candidates : Finding → List Candidate
  | .target _ cs => cs
  | _ => []

def target? : Finding → Option Target
  | .target t _ => some t
  | _ => none

def implementation? : Finding → Option (TypeId × Path)
  | .implements id trait => some (id, trait)
  | _ => none

def diagnostic? : Finding → Option Diagnostic
  | .refused id e => some ⟨id, .config e⟩
  | _ => none

def journal : Finding → Journal
  | .derived name =>
    [⟨.debug, .generator, "struct derives ObservableSettings; no unit generated", [("ty", name)]⟩]
  | .qualified j => j
  | _ => []

end Finding

/-- The first declaration of a type, with the traits that implementations add to it. -/
def findTarget? (findings : List Finding) (id : TypeId) : Option Target :=
  ((findings.filterMap Finding.target?).find? (·.id == id)).map fun t =>
    ((findings.filterMap Finding.implementation?).filter (·.1 == id)).foldl
      (fun t i => t.addCapability i.2) t

/-- The candidates of all findings, each spelling once. -/
def candidates (findings : List Finding) : List Candidate :=
  Candidate.dedup (findings.flatMap Finding.candidates)

/-- The properties of all candidates whose markers can be read. -/
def properties (findings : List Finding) : List Property :=
  (candidates findings).flatMap fun c => (c.resolve.toOption).getD []

/-- What comes of a group of properties: a unit or a diagnostic. -/
def outcome (findings : List Finding) (id : TypeId) (ps : List Property) :
    Option (GeneratedUnit ⊕ Diagnostic) :=
  (findTarget? findings id).map fun t =>
    match emit t ps with
    | .ok (some e) => .inl ⟨id, e⟩
    | .ok none => .inr ⟨id, .nested⟩
    | .error (e :: _) => .inr ⟨id, .names e⟩
    | .error [] => .inr ⟨id, .nested⟩

def outcomes (findings : List Finding) : List (GeneratedUnit ⊕ Diagnostic) :=
  (Property.group (properties findings)).filterMap fun g => outcome findings g.1 g.2

/-- The diagnostics of markers that cannot be read. -/
def markerDiagnostics (findings : List Finding) : List Diagnostic :=
  (candidates findings).filterMap fun c =>
    match c.resolve with
    | .ok _ => none
    | .error e => some ⟨c.enclosing, .marker e⟩

/-- Units and diagnostics of what was found. -/
def generateFrom (findings : List Finding) : Generation where
  units := (outcomes findings).filterMap Sum.getLeft?
  diagnostics :=
    findings.filterMap Finding.diagnostic? ++ markerDiagnostics findings ++
      (outcomes findings).filterMap Sum.getRight?

/-- Units and diagnostics of the files. -/
def generate (sources : List SourceFile) : Generation := generateFrom (scan sources)

/-! ## The journal of a generation -/

/-- What writing a group of properties reports. -/
def groupJournal (runtime : List Token) (findings : List Finding) (id : TypeId)
    (ps : List Property) : Journal :=
  match findTarget? findings id with
  | none => []
  | some t =>
    emitJournal t ps ++
      match emit t ps with
      | .ok (some e) =>
        let u : GeneratedUnit := ⟨id, e⟩
        [⟨.debug, .generator, "generated settings unit",
            [("ty", id.qualifiedName), ("file", id.unitFile), ("properties", toString ps.length)]⟩,
          ⟨.trace, .generator, "generated source", [("text", u.text runtime)]⟩]
      | _ => []

/-- What generating reports. -/
def generateJournal (runtime : List Token) (sources : List SourceFile) : Journal :=
  let findings := scan sources
  findings.flatMap Finding.journal ++
    (candidates findings).flatMap Candidate.journal ++
    (Property.group (properties findings)).flatMap (fun g => groupJournal runtime findings g.1 g.2) ++
    (generate sources).diagnostics.map fun d =>
      ⟨.warn, .generator, d.cause.message, [("ty", d.id.qualifiedName)]⟩

end LiveSettings.Accessors
