import LiveSettings.Access
import LiveSettings.Context

/-!
# Settings objects at work

Settings objects share one store. Each has a table of settings, the events that its handlers subscribe to, and
possibly a general event of its own beside the one of its context. Setting a value writes it and then tells
the handlers: first that the property changed, then the old and the new value. Handlers may do anything with
the session, also set further values.
-/

namespace LiveSettings

variable {D : Type} [DocumentType D]

/-- One setting of a type. -/
structure Setting (D : Type) [DocumentType D] where
  name : String
  key : String
  raisesEvent : Bool
  type : SettingType D
  /-- The identity of the type of its values. -/
  valueType : String
  default : type.Carrier

namespace Setting

/-- How the setting is kept. -/
def strategy (s : Setting D) : Strategy :=
  match s.type with
  | .native _ | .optionalNative _ => .native
  | .document _ | .optionalDocument _ => .json

def isNullable (s : Setting D) : Bool :=
  match s.type with
  | .optionalNative _ | .optionalDocument _ => true
  | .native _ | .document _ => false

end Setting

/-- What a handler is told. -/
inductive Notice (D : Type) [DocumentType D] where
  | changed (name : String)
  | value (setting : Setting D) (old new : setting.type.Carrier)

/-- One settings object. -/
structure SettingsObject (D : Type) [DocumentType D] (H : Type) where
  settings : List (Setting D)
  context : Context String H
  /-- The general event, where it is not that of the context. -/
  ownChanged : Option (Event H)

namespace SettingsObject

variable {H : Type}

/-- An object without handlers. -/
def new (settings : List (Setting D)) (ownsEvent : Bool) : SettingsObject D H :=
  ⟨settings, .empty, if ownsEvent then some .empty else none⟩

/-- The event that tells of any change. -/
def changed (o : SettingsObject D H) : Event H := o.ownChanged.getD o.context.changed

def withChanged (o : SettingsObject D H) (e : Event H) : SettingsObject D H :=
  match o.ownChanged with
  | some _ => { o with ownChanged := some e }
  | none => { o with context := { o.context with changed := e } }

/-- The event that tells of the values of a setting, made on first use. -/
def valueChanged (o : SettingsObject D H) (s : Setting D) : SettingsObject D H × Event H :=
  let (context, e) := o.context.request s.name s.valueType
  ({ o with context }, e)

def withValueChanged (o : SettingsObject D H) (s : Setting D) (e : Event H) : SettingsObject D H :=
  { o with context := o.context.put s.name s.valueType e }

def find? (o : SettingsObject D H) (name : String) : Option (Setting D) := o.settings.find? (·.name == name)

end SettingsObject

/-- Settings objects over one store. -/
structure Session (D : Type) [DocumentType D] (H : Type) where
  storage : Storage
  objects : List (SettingsObject D H)

namespace Session

variable {H : Type} {m : Type → Type} [Monad m]

/-- Objects with the same settings. -/
def new (storage : Storage) (count : Nat) (settings : List (Setting D)) (ownsEvent : Bool) : Session D H :=
  ⟨storage, List.replicate count (.new settings ownsEvent)⟩

/-- Changes one object. -/
def withObject (s : Session D H) (i : Nat) (f : SettingsObject D H → SettingsObject D H) : Session D H :=
  { s with objects := s.objects.modify i f }

/-! ## Values -/

/-- The value of a setting. -/
def get (x : Setting D) : StateT (Session D H) m x.type.Carrier := do
  let s ← StateT.get
  let (storage, v) := s.storage.getSetting x.type x.key x.default
  StateT.set { s with storage }
  return v

/-- Calls the handlers that an object has at the moment for an event. -/
def notify (e : Event H) (call : H → Notice D → StateT (Session D H) m Unit) (n : Notice D) :
    StateT (Session D H) m Unit :=
  e.raise (call · n)

/-- Tells that a property of an object changed. -/
def raiseChanged (i : Nat) (call : H → Notice D → StateT (Session D H) m Unit) (x : Setting D) :
    StateT (Session D H) m Unit := do
  match (← StateT.get).objects[i]? with
  | some o => notify o.changed call (.changed x.name)
  | none => return ()

/-- Tells the old and the new value of a setting of an object. -/
def raiseValue (i : Nat) (call : H → Notice D → StateT (Session D H) m Unit) (x : Setting D)
    (old new : x.type.Carrier) : StateT (Session D H) m Unit := do
  let s ← StateT.get
  match s.objects[i]? with
  | some o =>
    let (o, e) := o.valueChanged x
    StateT.set (s.withObject i fun _ => o)
    notify e call (.value x old new)
  | none => return ()

/-- Sets a value through an object, and tells its handlers if the value is another. -/
def set (i : Nat) (call : H → Notice D → StateT (Session D H) m Unit) (x : Setting D) (new : x.type.Carrier) :
    StateT (Session D H) m Unit := do
  let old ← get x
  if x.type.unchanged old new then return ()
  else
    modify fun s => { s with storage := s.storage.setSetting x.type x.key new }
    raiseChanged i call x
    if x.raisesEvent then raiseValue i call x old new

/-- Takes away the keys of all settings of an object. No handler is told. -/
def reset (i : Nat) (s : Session D H) : Session D H :=
  match s.objects[i]? with
  | some o => { s with storage := o.settings.foldl (fun t x => t.remove x.key) s.storage }
  | none => s

/-! ## Subscriptions -/

/-- The general event of an object, or that of a setting. -/
inductive Channel (D : Type) [DocumentType D] where
  | changed
  | value (setting : Setting D)

/-- The event of a channel, made on first use. -/
def event (s : Session D H) (i : Nat) : Channel D → Session D H × Event H
  | .changed => (s, ((s.objects[i]?).map (·.changed)).getD .empty)
  | .value x =>
    match s.objects[i]? with
    | some o =>
      let (o, e) := o.valueChanged x
      (s.withObject i fun _ => o, e)
    | none => (s, .empty)

def withEvent (s : Session D H) (i : Nat) (c : Channel D) (e : Event H) : Session D H :=
  s.withObject i fun o =>
    match c with
    | .changed => o.withChanged e
    | .value x => o.withValueChanged x e

def subscribe (s : Session D H) (i : Nat) (c : Channel D) (h : H) : Session D H × SubscriptionId :=
  let (s, e) := s.event i c
  let (e, id) := e.subscribe h
  (s.withEvent i c e, id)

def unsubscribe (s : Session D H) (i : Nat) (c : Channel D) (id : SubscriptionId) : Session D H × Bool :=
  let (s, e) := s.event i c
  let (e, found) := e.unsubscribe id
  (s.withEvent i c e, found)

end Session

end LiveSettings
