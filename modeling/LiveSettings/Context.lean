import LiveSettings.Event

/-!
# The events of a settings object

A context holds the general event of an object and, for each property name and value type that was ever asked
for, an event of its own. Events of different value types lie in one registry, so each is kept with its type
and found again only under that type.

Results: `find?_request` (a request finds what it made), `request_request` (a second request changes
nothing).
-/

namespace LiveSettings

/-- An event with the type of the values that it tells about. -/
structure TypedEvent (τ H : Type) where
  type : τ
  event : Event H
  deriving Inhabited

/-- The events of one settings object. -/
structure Context (τ H : Type) where
  changed : Event H
  registry : List ((String × τ) × TypedEvent τ H)

namespace Context

variable {τ H : Type} [DecidableEq τ]

def empty : Context τ H := ⟨.empty, []⟩

instance : Inhabited (Context τ H) := ⟨empty⟩

/-- The entry of a name and a type. -/
def entry? (c : Context τ H) (name : String) (type : τ) : Option (TypedEvent τ H) :=
  (c.registry.find? (·.1 = (name, type))).map (·.2)

/-- The event of a name and a type, if it has been asked for. -/
def find? (c : Context τ H) (name : String) (type : τ) : Option (Event H) :=
  match c.entry? name type with
  | some t => if t.type = type then some t.event else none
  | none => none

/-- Puts an event under a name and a type. -/
def put (c : Context τ H) (name : String) (type : τ) (e : Event H) : Context τ H :=
  { c with
    registry :=
      if c.registry.any (·.1 = (name, type)) then
        c.registry.map fun r => if r.1 = (name, type) then (r.1, ⟨type, e⟩) else r
      else c.registry ++ [((name, type), ⟨type, e⟩)] }

/-- The event of a name and a type, made on first use. -/
def request (c : Context τ H) (name : String) (type : τ) : Context τ H × Event H :=
  match c.find? name type with
  | some e => (c, e)
  | none => (c.put name type .empty, .empty)

/-- How many events of values there are. -/
def typedCount (c : Context τ H) : Nat := c.registry.length

/-- The context for people. -/
def debug (c : Context τ H) : String :=
  "SettingsContext \x7b property_changed: " ++ c.changed.debug ++ ", typed_events: " ++
    toString c.typedCount ++ ", .. \x7d"

/-! ## Laws -/

theorem find?_put_self (c : Context τ H) (name : String) (type : τ) (e : Event H) :
    (c.put name type e).find? name type = some e := by
  have key (rs : List ((String × τ) × TypedEvent τ H)) (h : rs.any (·.1 = (name, type)) = true) :
      (rs.map fun r => if r.1 = (name, type) then (r.1, (⟨type, e⟩ : TypedEvent τ H)) else r).find?
        (·.1 = (name, type)) = some ((name, type), ⟨type, e⟩) := by
    induction rs with
    | nil => simp at h
    | cons r rs ih =>
      by_cases hr : r.1 = (name, type)
      · simp [hr]
      · simp only [List.any_cons, hr, decide_false, Bool.false_or] at h
        simpa [hr] using ih h
  unfold put find? entry?
  by_cases h : c.registry.any (·.1 = (name, type)) = true
  · simp only [h, if_true, key c.registry h]
    simp
  · have none : c.registry.find? (·.1 = (name, type)) = none := by
      rw [List.find?_eq_none]
      intro r hr
      simp only [Bool.not_eq_true, List.any_eq_false] at h
      simpa using h r hr
    simp only [h]
    simp [List.find?_append, none]

theorem find?_request (c : Context τ H) (name : String) (type : τ) :
    (c.request name type).1.find? name type = some (c.request name type).2 := by
  unfold request
  split
  · assumption
  · exact find?_put_self c name type .empty

theorem request_request (c : Context τ H) (name : String) (type : τ) :
    (c.request name type).1.request name type = ((c.request name type).1, (c.request name type).2) := by
  have h := find?_request c name type
  simp only [request] at h ⊢
  split <;> simp_all

end Context

end LiveSettings
