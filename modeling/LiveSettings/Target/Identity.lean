/-!
# Identity of a type

A type is known by the path of its module and its name. The text of a generated unit and the name of its
file come from the identity.

Results: `unitFile_eq` (a unit's file is the dotted name and a fixed ending).
-/

namespace LiveSettings

/-- A type, by module path, outermost first, and name. -/
structure TypeId where
  modulePath : List String
  name : String
  deriving DecidableEq, Repr, Inhabited

namespace TypeId

def joined (separator : String) (t : TypeId) : String :=
  separator.intercalate (t.modulePath ++ [t.name])

/-- The name with its modules, joined by `::`. -/
def qualifiedName (t : TypeId) : String := t.joined "::"

/-- The name with its modules, joined by points. -/
def dottedName (t : TypeId) : String := t.joined "."

/-- The ending of a unit's file. -/
def unitEnding : String := "_observable_settings.g.rs"

/-- The file of the unit that is generated for the type. -/
def unitFile (t : TypeId) : String := t.dottedName ++ unitEnding

/-- The text of a unit: a heading and the code. -/
def unitText (t : TypeId) (code : String) : String :=
  "// @generated by settings-gen for `" ++ t.qualifiedName ++ "`. Do not edit.\n\n" ++ code ++ "\n"

theorem unitFile_eq (t : TypeId) : t.unitFile = t.dottedName ++ unitEnding := rfl

/-- The order of two lists of names, a missing name first. -/
def compareNames : List String → List String → Ordering
  | [], [] => .eq
  | [], _ => .lt
  | _, [] => .gt
  | a :: as, b :: bs => (compare a b).then (compareNames as bs)

/-- Types in order of their modules, then of their names. -/
def order (a b : TypeId) : Ordering :=
  (compareNames a.modulePath b.modulePath).then (compare a.name b.name)

end TypeId

end LiveSettings
