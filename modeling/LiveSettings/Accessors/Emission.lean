import LiveSettings.Target

/-!
# Emitted accessors

What is written for a settings type: the table of its properties, the notification trait unless the type
implements it by hand, and for each property a getter, a setter and, if it raises events, its event.

Results: `rows_length` (one row and one group for each property), `emit_nested` (nothing is written for a
nested type).
-/

namespace LiveSettings.Accessors

open Token

/-! ## What is written -/

/-- A row of the table of properties. -/
structure Row where
  name : String
  key : String
  strategy : Strategy
  nullable : Bool
  raisesEvent : Bool
  deriving DecidableEq, Repr, Inhabited

/-- The library functions that the accessors of a property call. -/
structure Access where
  read : String
  write : String
  unchanged : String
  deriving DecidableEq, Repr, Inhabited

/-- The functions for a strategy; a document holds a missing value itself. -/
def accessFor : Strategy → Bool → Access
  | .native, false => ⟨"get_native", "set_native", "native_unchanged"⟩
  | .native, true => ⟨"get_native_nullable", "set_native_nullable", "native_nullable_unchanged"⟩
  | .json, false => ⟨"get_json", "set_json", "json_unchanged"⟩
  | .json, true => ⟨"get_json_nullable", "set_json", "json_unchanged"⟩

/-- The accessors of one property. -/
structure Group where
  name : String
  key : String
  field : String
  type : Ty
  getter : String
  setter : String
  event : String
  raisesEvent : Bool
  access : Access
  getterDoc : String
  setterDoc : String
  eventDoc : String
  deriving Inhabited

/-- All that is written for a type. -/
structure Emitted where
  name : String
  generics : Generics
  contextField : String
  notifies : Bool
  properties : List (Row × Group)
  deriving Inhabited

namespace Emitted

def rows (e : Emitted) : List Row := e.properties.map (·.1)

def groups (e : Emitted) : List Group := e.properties.map (·.2)

theorem rows_length (e : Emitted) : e.rows.length = e.groups.length := by simp [rows, groups]

end Emitted

/-! ## Choosing it -/

/-- Why nothing can be written. -/
inductive EmitError where
  | missingContext (type : String)
  | unnamed (field : String)
  | badName (cause : Naming.NameError)
  deriving DecidableEq, Repr, Inhabited

namespace EmitError

def message : EmitError → String
  | .missingContext type =>
    "`" ++ type ++ "` needs a `SettingsContext` field to derive ObservableSettings"
  | .unnamed field => "`" ++ field ++ "` has no name left once leading underscores are removed"
  | .badName cause => cause.message

end EmitError

def rowOf (p : Property) : Row where
  name := p.name
  key := p.storageKey
  strategy := p.strategy
  nullable := p.type.nullable
  raisesEvent := p.raiseEvent

/-- The accessors of a property, if its names can be used. -/
def groupOf (p : Property) : Except EmitError Group :=
  if p.name = "" then .error (.unnamed p.field)
  else
    let accessor := Naming.accessorName p.field
    match Naming.getterName accessor, Naming.setterName accessor, Naming.eventName accessor with
    | .error e, _, _ => .error (.badName e)
    | _, .error e, _ => .error (.badName e)
    | _, _, .error e => .error (.badName e)
    | .ok getter, .ok setter, .ok event =>
      .ok {
        name := p.name
        key := p.storageKey
        field := p.field
        type := p.type.declared
        getter
        setter
        event
        raisesEvent := p.raiseEvent
        access := accessFor p.strategy p.type.nullable
        getterDoc := p.documentation.getD
          (" Returns the `" ++ p.name ++ "` setting, or the field value if it is not stored.")
        setterDoc := " Sets the `" ++ p.name ++ "` setting and raises change notifications."
        eventDoc := " Returns the event raised after `" ++ p.name ++ "` changes." }

/-- The name of the trait that tells of changes. -/
def notifyTrait : String := "NotifyPropertyChanged"

/-- What is written for a type with the given properties; nothing for a nested type. All unusable names are
reported. -/
def emit (t : Target) (ps : List Property) : Except (List EmitError) (Option Emitted) :=
  if t.container = .nested then .ok none
  else match t.contextField with
    | none => .error [.missingContext t.name]
    | some contextField =>
      match Target.allOf (ps.map fun p => (groupOf p).map fun g => (rowOf p, g)) with
      | .error es => .error es
      | .ok properties =>
        .ok (some ⟨t.name, t.generics, contextField, !t.declares notifyTrait, properties⟩)

theorem emit_nested (t : Target) (ps : List Property) (h : t.container = .nested) :
    emit t ps = .ok none := by
  simp [emit, h]

/-- What emitting reports. -/
def emitJournal (t : Target) (ps : List Property) : Journal :=
  if t.container = .nested then
    [⟨.debug, .emission, "type is not declared in a module; skipping", [("ty", t.id.qualifiedName)]⟩]
  else if t.contextField.isNone then []
  else
    let choices := ps.flatMap fun p =>
      match groupOf p with
      | .ok _ => p.strategyJournal ++ p.strategyJournal
      | .error _ => []
    let done := match emit t ps with
      | .ok _ =>
        [⟨.debug, .emission, "emitted observable settings",
          [("ty", t.id.qualifiedName), ("properties", toString ps.length),
            ("notify_impl", if t.declares notifyTrait then "false" else "true")]⟩]
      | .error _ => []
    choices ++ done

/-! ## Writing it -/

def word (n : String) : List Token := [.ident n]

def text (s : String) : List Token := [.literal (Text.Escape.literal s)]

def truth (b : Bool) : List Token := word (if b then "true" else "false")

def paren (ts : List Token) : List Token := Token.group .paren ts

def brace (ts : List Token) : List Token := Token.group .brace ts

/-- A path below the path of the runtime library. -/
def below (runtime : List Token) (names : List String) : List Token :=
  runtime ++ names.flatMap fun n => op "::" ++ word n

/-- A documentation attribute. -/
def doc (s : String) : List Token :=
  op "#" ++ Token.group .bracket (word "doc" ++ op "=" ++ text s)

def selfField (field : String) : List Token := word "self" ++ op "." ++ word field

def selfRef : List Token := op "&" ++ word "self"

namespace Row

def tokens (runtime : List Token) (r : Row) : List Token :=
  below runtime ["SettingProperty"] ++ brace (
    word "name" ++ op ":" ++ text r.name ++ op "," ++
    word "key" ++ op ":" ++ text r.key ++ op "," ++
    word "strategy" ++ op ":" ++ below runtime ["StorageStrategy", r.strategy.name] ++ op "," ++
    word "nullable" ++ op ":" ++ truth r.nullable ++ op "," ++
    word "raises_event" ++ op ":" ++ truth r.raisesEvent ++ op ",")

end Row

namespace Group

def storeArgs (context : String) (g : Group) (value : List Token) : List Token :=
  paren (selfField context ++ op "." ++ word "store" ++ paren [] ++ op "," ++ text g.key ++ op "," ++
    value)

def getterTokens (runtime : List Token) (context : String) (g : Group) : List Token :=
  doc g.getterDoc ++
  word "pub" ++ word "fn" ++ word g.getter ++ paren selfRef ++ op "->" ++ g.type.tokens ++
  brace (below runtime ["access", g.access.read] ++
    g.storeArgs context (op "&" ++ selfField g.field))

/-- Calls the typed event with the old and the new value. -/
def raiseTokens (runtime : List Token) (g : Group) : List Token :=
  selfField g.event ++ paren [] ++ op "." ++ word "raise" ++
    paren (op "&" ++ below runtime ["SettingValueChanged", "new"] ++
      paren (word "old" ++ op "," ++ word "value")) ++ op ";"

def setterTokens (runtime : List Token) (context : String) (g : Group) : List Token :=
  doc g.setterDoc ++
  word "pub" ++ word "fn" ++ word g.setter ++
  paren (selfRef ++ op "," ++ word "value" ++ op ":" ++ g.type.tokens) ++
  brace (
    word "let" ++ word "old" ++ op "=" ++ selfField g.getter ++ paren [] ++ op ";" ++
    word "if" ++ below runtime ["access", g.access.unchanged] ++
      paren (op "&" ++ word "old" ++ op "," ++ op "&" ++ word "value") ++
      brace (word "return" ++ op ";") ++
    below runtime ["access", g.access.write] ++ g.storeArgs context (op "&" ++ word "value") ++
      op ";" ++
    below runtime [notifyTrait, "property_changed"] ++ paren (word "self") ++
      op "." ++ word "raise" ++
      paren (op "&" ++ below runtime ["PropertyChangedEventArgs", "new"] ++ paren (text g.name)) ++
      op ";" ++
    (if g.raisesEvent then g.raiseTokens runtime else []))

def eventTokens (runtime : List Token) (context : String) (g : Group) : List Token :=
  doc g.eventDoc ++
  word "pub" ++ word "fn" ++ word g.event ++ paren selfRef ++ op "->" ++
  op "::" ++ word "std" ++ op "::" ++ word "sync" ++ op "::" ++ word "Arc" ++ op "<" ++
    below runtime ["Event"] ++ op "<" ++ below runtime ["SettingValueChanged"] ++
    op "<" ++ g.type.tokens ++ op ">>" ++ op ">" ++
  brace (selfField context ++ op "." ++ word "value_changed" ++ op "::" ++ op "<" ++ g.type.tokens ++
    op ">" ++ paren (text g.name))

def tokens (runtime : List Token) (context : String) (g : Group) : List Token :=
  g.getterTokens runtime context ++ g.setterTokens runtime context ++
    (if g.raisesEvent then g.eventTokens runtime context else [])

end Group

namespace Emitted

/-- The head of an implementation for the type, of a trait or of its own. -/
def implHead (e : Emitted) (trait : List Token) : List Token :=
  word "impl" ++ e.generics.declaration ++ (if trait.isEmpty then [] else trait ++ word "for") ++
    word e.name ++ e.generics.arguments ++ e.generics.clauseTokens

def tableTokens (runtime : List Token) (e : Emitted) : List Token :=
  e.implHead (below runtime ["ObservableSettings"]) ++ brace (
    word "fn" ++ word "settings_context" ++ paren selfRef ++ op "->" ++ op "&" ++
      below runtime ["SettingsContext"] ++ brace (op "&" ++ selfField e.contextField) ++
    word "fn" ++ word "setting_properties" ++ paren selfRef ++ op "->" ++ op "&" ++
      Token.lifetime "static" ++ Token.group .bracket (below runtime ["SettingProperty"]) ++
      brace (
        word "const" ++ word "PROPERTIES" ++ op ":" ++ op "&" ++
          Token.group .bracket (below runtime ["SettingProperty"]) ++ op "=" ++ op "&" ++
          Token.group .bracket ((op ",").intercalate (e.rows.map (·.tokens runtime))) ++ op ";" ++
        word "PROPERTIES"))

def notifyTokens (runtime : List Token) (e : Emitted) : List Token :=
  e.implHead (below runtime [notifyTrait]) ++ brace (
    word "fn" ++ word "property_changed" ++ paren selfRef ++ op "->" ++ op "&" ++
      below runtime ["Event"] ++ op "<" ++ below runtime ["PropertyChangedEventArgs"] ++ op ">" ++
      brace (selfField e.contextField ++ op "." ++ word "property_changed" ++ paren []))

def accessorTokens (runtime : List Token) (e : Emitted) : List Token :=
  e.implHead [] ++ brace (e.groups.flatMap (·.tokens runtime e.contextField))

/-- The items written for the type; `runtime` is the path of the runtime library. -/
def tokens (runtime : List Token) (e : Emitted) : List Token :=
  e.tableTokens runtime ++ (if e.notifies then e.notifyTokens runtime else []) ++
    e.accessorTokens runtime

end Emitted

end LiveSettings.Accessors
