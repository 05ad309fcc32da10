import LiveSettings.Code.Ty

/-!
# Native types

The closed list of types that a store holds as they are. A written type belongs to an entry if it matches
one of the entry's path patterns: primitives and `String` match by the end of the path, every other entry
only by a full path, since another type could bear its bare name. Arguments match recursively, by the end.

Results: `matches_of_lookup?` (what is found is written in an accepted way), `lookup?_eq_none_iff` (nothing is
found only where no kind is written).
-/

namespace LiveSettings

/-- A type that a store holds as it is. -/
inductive NativeKind where
  | i16
  | u16
  | i32
  | u32
  | i64
  | u64
  | f32
  | f64
  | bool
  | char
  | string
  | dateTime
  | duration
  | uuid
  | point
  | size
  | rect
  deriving DecidableEq, Repr, Inhabited

/-- A path pattern with patterns for the arguments of its last name. An `exact` pattern has to be written in
full. -/
inductive PathPattern where
  | mk (names : List String) (args : List PathPattern) (exact : Bool)
  deriving Repr, Inhabited

namespace PathPattern

def names : PathPattern → List String
  | .mk ns _ _ => ns

def args : PathPattern → List PathPattern
  | .mk _ as _ => as

def exact : PathPattern → Bool
  | .mk _ _ e => e

/-- The names before the last are bare. -/
def matchNames : List Segment → List String → Bool
  | [], [] => true
  | [s], [n] => s.name == n
  | s :: ss, n :: ns => s.name == n && s.args.isNone && matchNames ss ns
  | _, _ => false

/-- The arguments of the last name; none are written as none at all or as empty brackets. -/
def lastArgs : List Segment → Args
  | [] => .none
  | [s] => s.args
  | _ :: ss => lastArgs ss

mutual

/-- Whether a type is written like the pattern. -/
def Matches : PathPattern → Ty → Bool
  | .mk names args exact, .path _ segments =>
    segments.length != 0 && segments.length ≤ names.length &&
      (!exact || segments.length == names.length) &&
      matchNames segments (names.drop (names.length - segments.length)) &&
      match lastArgs segments with
      | .none => args.isEmpty
      | .angle _ written _ => matchArgs args written
      | .call _ => false
  | _, _ => false

/-- Whether the arguments are types written like the patterns, as many as they. -/
def matchArgs : List PathPattern → List Arg → Bool
  | [], [] => true
  | p :: ps, .ty t :: as => Matches p t && matchArgs ps as
  | _, _ => false

end

end PathPattern

namespace NativeKind

def all : List NativeKind :=
  [.i16, .u16, .i32, .u32, .i64, .u64, .f32, .f64, .bool, .char, .string, .dateTime, .duration, .uuid,
   .point, .size, .rect]

/-- The type as it is shown. -/
def typeName : NativeKind → String
  | .i16 => "i16"
  | .u16 => "u16"
  | .i32 => "i32"
  | .u32 => "u32"
  | .i64 => "i64"
  | .u64 => "u64"
  | .f32 => "f32"
  | .f64 => "f64"
  | .bool => "bool"
  | .char => "char"
  | .string => "String"
  | .dateTime => "DateTime<FixedOffset>"
  | .duration => "Duration"
  | .uuid => "Uuid"
  | .point => "Point"
  | .size => "Size"
  | .rect => "Rect"

/-- Only a text is of no fixed size. -/
def isPrimitive (k : NativeKind) : Bool := k != .string

/-- A name under which the runtime library gives a type of its own. -/
def runtimePatterns (name : String) : List PathPattern :=
  [.mk ["observable_settings_core", name] [] true,
   .mk ["observable_settings_core", "geometry", name] [] true,
   .mk ["observable_settings_core", "prelude", name] [] true,
   .mk ["observable_settings", name] [] true,
   .mk ["observable_settings", "geometry", name] [] true,
   .mk ["observable_settings", "prelude", name] [] true]

/-- The accepted paths. -/
def patterns (k : NativeKind) : List PathPattern :=
  match k with
  | .string => [.mk ["std", "string", "String"] [] false, .mk ["alloc", "string", "String"] [] false]
  | .dateTime => [.mk ["chrono", "DateTime"] [.mk ["chrono", "FixedOffset"] [] false] true]
  | .duration => [.mk ["std", "time", "Duration"] [] true, .mk ["core", "time", "Duration"] [] true]
  | .uuid => [.mk ["uuid", "Uuid"] [] true]
  | .point | .size | .rect => runtimePatterns k.typeName
  | _ => [.mk [k.typeName] [] false]

/-- Whether the type is written in one of the accepted ways. -/
def Matches (k : NativeKind) (t : Ty) : Bool := k.patterns.any (·.Matches t)

/-- The native type that is written. -/
def lookup? (t : Ty) : Option NativeKind := all.find? (·.Matches t)

theorem mem_all (k : NativeKind) : k ∈ all := by cases k <;> decide

theorem matches_of_lookup? {t : Ty} {k : NativeKind} (h : lookup? t = some k) : k.Matches t = true := by
  have found := @List.find?_some _ (fun k : NativeKind => k.Matches t) k all h
  exact found

theorem lookup?_eq_none_iff (t : Ty) : lookup? t = none ↔ ∀ k : NativeKind, k.Matches t = false := by
  simp [lookup?, mem_all]

end NativeKind

/-- How a property is kept in a store: as it is, or as the text of a document. -/
inductive Strategy where
  | native
  | json
  deriving DecidableEq, Repr, Inhabited

namespace Strategy

def name : Strategy → String
  | .native => "Native"
  | .json => "Json"

end Strategy

end LiveSettings
