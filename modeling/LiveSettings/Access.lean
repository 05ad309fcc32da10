import LiveSettings.Access.DocumentType
import LiveSettings.Store

/-!
# Typed access to a store

A setting has a type that says how its values lie in a store: as they are, or as the text of a document, and
whether they may be absent. Reading never fails: what cannot be taken for a value of the type gives the
default.

Results: `read_missing` (a missing key gives the default).
-/

namespace LiveSettings

/-- How the values of a setting are kept; `D` has the types of documents. -/
inductive SettingType (D : Type) where
  | native (kind : NativeKind)
  | optionalNative (kind : NativeKind)
  | document (type : D)
  | optionalDocument (type : D)
  deriving DecidableEq, Repr, Inhabited

/-- What a store is to do with a key. -/
inductive Change where
  | put (value : SettingValue)
  | remove
  /-- The value cannot be kept. -/
  | refuse
  deriving Inhabited

namespace SettingType

variable {D : Type} [DocumentType D]

/-- The values of a setting. -/
abbrev Carrier : SettingType D → Type
  | .native k => k.Carrier
  | .optionalNative k => Option k.Carrier
  | .document t => DocumentType.Carrier t
  | .optionalDocument t => Option (DocumentType.Carrier t)

/-! ## Reading -/

/-- The document in a stored value: absent if it is no text, or no document, or null. -/
def storedDocument? (v : SettingValue) : Option Json :=
  match v.text? with
  | none => none
  | some s =>
    match (Json.ofText? s).bind Json.value? with
    | some .null | none => none
    | some j => some j

/-- The value of a stored document. -/
def readDocument? (t : D) (v : SettingValue) : Option (DocumentType.Carrier t) :=
  (storedDocument? v).bind (DocumentType.decode? t)

/-- The value of a setting, from what is stored and its default. -/
def read : (t : SettingType D) → (stored : Option SettingValue) → (default : t.Carrier) → t.Carrier
  | .native k, stored, default => (stored.bind (SettingValue.ofValue? k)).getD default
  | .optionalNative k, stored, default =>
    match stored.bind (SettingValue.ofValue? k) with
    | some x => some x
    | none => (default : Option k.Carrier)
  | .document t, stored, default => (stored.bind (readDocument? t)).getD default
  | .optionalDocument t, stored, default =>
    match stored.bind (readDocument? t) with
    | some x => some x
    | none => (default : Option (DocumentType.Carrier t))

/-- Whether a stored value cannot be taken for one of the kind. -/
def kindReport (k : NativeKind) (key : String) (v : SettingValue) : Journal :=
  if v.kind = k then []
  else
    [⟨.trace, .access, "stored setting has a different type; using default",
      [("key", key), ("stored_type", v.typeName)]⟩]

/-- Whether a stored value is no document of the type. -/
def documentReport (t : D) (key : String) (v : SettingValue) : Journal :=
  match v.text? with
  | none =>
    [⟨.trace, .access, "stored setting is not JSON text; using default",
      [("key", key), ("stored_type", v.typeName)]⟩]
  | some s =>
    let invalid : Journal :=
      [⟨.trace, .access, "stored JSON setting is invalid; using default",
        [("key", key), ("error", "not a document of the type")]⟩]
    match (Json.ofText? s).bind Json.value? with
    | none => invalid
    | some j => if j.isNull || (DocumentType.decode? t j).isSome then [] else invalid

/-- What reading reports. -/
def readReport (t : SettingType D) (key : String) (stored : Option SettingValue) : Journal :=
  match stored with
  | none => []
  | some v =>
    match t with
    | .native k | .optionalNative k => kindReport k key v
    | .document t | .optionalDocument t => documentReport t key v

/-! ## Writing -/

/-- The stored text of a document. -/
def putDocument (j : Option Json) : Change :=
  match j with
  | some j => .put (.ofString j.render)
  | none => .refuse

/-- What writing a value asks of the store. An absent native value takes the key away; an absent document is
written as null. -/
def write : (t : SettingType D) → t.Carrier → Change
  | .native _, x => .put (.toValue x)
  | .optionalNative k, x =>
    match (x : Option k.Carrier) with
    | some x => .put (.toValue x)
    | none => .remove
  | .document t, x => putDocument (DocumentType.encode? t x)
  | .optionalDocument t, x => putDocument (DocumentType.encodeOptional? t x)

/-- Whether assigning a value over another leaves the setting unchanged. -/
def unchanged : (t : SettingType D) → t.Carrier → t.Carrier → Bool
  | .native k, x, y => k.same x y
  | .optionalNative k, x, y =>
    match (x : Option k.Carrier), (y : Option k.Carrier) with
    | some x, some y => k.same x y
    | none, none => true
    | _, _ => false
  | .document t, x, y => DocumentType.equal t x y
  | .optionalDocument t, x, y => DocumentType.equalOptional t x y

/-! ## Laws -/

@[simp]
theorem read_missing (t : SettingType D) (default : t.Carrier) : t.read none default = default := by
  cases t <;> rfl

end SettingType

namespace Storage

variable {D : Type} [DocumentType D]

/-- Reads a setting, and reports where a stored value cannot be used. -/
def getSetting (s : Storage) (t : SettingType D) (key : String) (default : t.Carrier) : Storage × t.Carrier :=
  let stored := s.find? key
  ({ s with journal := s.journal ++ t.readReport key stored }, t.read stored default)

def refusedEntry (key : String) : Entry :=
  ⟨.warn, .access, "setting could not be serialized; not stored",
    [("key", key), ("error", "a key is no text")]⟩

/-- Does to a key what a change asks. -/
def apply (s : Storage) (key : String) : Change → Storage
  | .put v => s.set key v
  | .remove => s.remove key
  | .refuse => s.report (refusedEntry key)

/-- Writes a setting. -/
def setSetting (s : Storage) (t : SettingType D) (key : String) (x : t.Carrier) : Storage :=
  s.apply key (t.write x)

theorem find?_apply (s : Storage) (key other : String) (c : Change) (h : (key == other) = false) :
    (s.apply key c).find? other = s.find? other := by
  cases c with
  | put v => simp [apply, find?_set, h]
  | remove => simp [apply, find?_remove, h]
  | refuse => rfl

end Storage

end LiveSettings
