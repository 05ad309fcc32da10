import LiveSettings.Property.Descriptor
import LiveSettings.Property.Marker
import LiveSettings.Property.Naming
import LiveSettings.Target.Identity

/-!
# From fields to properties

A candidate is a field declaration with attributes. One with a marker gives a property for each variable
whose type describes a value. Candidates that are the same in all their parts count once.

Results: `resolve_unmarked` (no marker, no property), `mem_dedup` (no candidate is lost).
-/

namespace LiveSettings

/-- A field declaration with its attributes; it may declare several variables. -/
structure Candidate where
  enclosing : TypeId
  attrs : List Attr
  «variables» : List (String × Ty)
  deriving DecidableEq, Inhabited

/-- A property of a settings type. -/
structure Property where
  field : String
  type : Descriptor
  enclosing : TypeId
  documentation : Option String
  overrideKey : Option String
  raiseEvent : Bool
  strategyOverride : Option Strategy
  deriving Inhabited

namespace Property

def name (p : Property) : String := Naming.propertyName (Naming.accessorName p.field)

/-- The key under which the value is stored. -/
def storageKey (p : Property) : String := p.overrideKey.getD p.name

/-- The marker's strategy, or the one of the type. -/
def strategy (p : Property) : Strategy := p.strategyOverride.getD p.type.strategy

/-- What choosing the strategy reports. -/
def strategyJournal (p : Property) : Journal :=
  match p.strategyOverride with
  | some _ => []
  | none => p.type.journal

end Property

namespace Candidate

/-- A candidate of one variable. -/
def single (enclosing : TypeId) (attrs : List Attr) (field : String) (type : Ty) : Candidate :=
  ⟨enclosing, attrs, [(field, type)]⟩

/-- The properties of the variables, the first with the documentation. -/
def properties (c : Candidate) (s : Marker.Settings) : List Property :=
  (c.variables.zipIdx).filterMap fun ((field, type), i) =>
    (Descriptor.ofTy? type).map fun d =>
      { field
        type := d
        enclosing := c.enclosing
        documentation := if i = 0 then Marker.documentation? c.attrs else none
        overrideKey := s.key
        raiseEvent := s.raiseEvent
        strategyOverride := s.strategy }

/-- The properties that the candidate declares. -/
def resolve (c : Candidate) : Except Marker.MarkerError (List Property) := do
  match ← Marker.find c.attrs with
  | some s => return c.properties s
  | none => return []

/-- What resolving reports: the variables whose types describe no value. -/
def journal (c : Candidate) : Journal :=
  match Marker.find c.attrs with
  | .ok (some _) =>
    c.variables.filterMap fun (field, type) =>
      match Descriptor.ofTy? type with
      | some _ => none
      | none =>
        some ⟨.trace, .extraction, "field type cannot be resolved; skipping",
          [("enclosing", c.enclosing.qualifiedName), ("field", field)]⟩
  | _ => []

theorem resolve_unmarked {c : Candidate} (h : Marker.find c.attrs = .ok none) :
    c.resolve = .ok [] := by
  simp [resolve, h, bind, Except.bind, pure, Except.pure]

/-- Each candidate once, at its first place. -/
def dedup (cs : List Candidate) : List Candidate := cs.eraseDups

@[simp] theorem mem_dedup {cs : List Candidate} {c : Candidate} : c ∈ dedup cs ↔ c ∈ cs := List.mem_eraseDups

/-- The results of a list of attempts: all values, or all errors if there are any. -/
def combine : List (Except ε (List α)) → Except (List ε) (List α)
  | [] => .ok []
  | .ok as :: rest =>
    match combine rest with
    | .ok bs => .ok (as ++ bs)
    | .error es => .error es
  | .error e :: rest =>
    match combine rest with
    | .ok _ => .error [e]
    | .error es => .error (e :: es)

/-- The properties of all candidates, or every error among them. -/
def collect (cs : List Candidate) : Except (List Marker.MarkerError) (List Property) :=
  combine ((dedup cs).map resolve)

/-- What collecting reports. -/
def collectJournal (cs : List Candidate) : Journal := (dedup cs).flatMap journal

end Candidate

namespace Property

/-- Adds a property to the group of its type. -/
def insertGroup (p : Property) : List (TypeId × List Property) → List (TypeId × List Property)
  | [] => [(p.enclosing, [p])]
  | (t, ps) :: rest =>
    if t = p.enclosing then (t, ps ++ [p]) :: rest else (t, ps) :: insertGroup p rest

/-- Properties by type, in the order in which the types first occur. -/
def group (ps : List Property) : List (TypeId × List Property) :=
  ps.foldl (fun groups p => p.insertGroup groups) []

end Property

end LiveSettings
