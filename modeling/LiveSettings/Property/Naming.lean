import LiveSettings.Text.Uppercase
import LiveSettings.Code.Grammar.Items

/-!
# Names of a property

A field `_volume` gives the property `Volume` with the getter `volume`, the setter `set_volume` and the
event `volume_changed`.

Results: `propertyName_eq_empty` (only underscores give an empty name), `setterName_ok`, `eventName_ok`
(when these are identifiers).
-/

namespace LiveSettings.Naming

open LiveSettings.Text

/-- A name without leading underscores. -/
def stripped (name : String) : List Char := name.toList.dropWhile (· == '_')

/-- A name without the mark of a raw identifier. -/
def withoutRaw (name : String) : String :=
  match name.toList with
  | 'r' :: '#' :: rest => String.ofList rest
  | _ => name

/-- The name of a field without its raw mark and leading underscores. -/
def accessorName (field : String) : String := String.ofList (stripped (withoutRaw field))

/-- The name without leading underscores and with an upper-case first letter. -/
def propertyName (name : String) : String :=
  match stripped name with
  | [] => ""
  | c :: cs => String.ofList (upperForm c ++ cs)

/-- Why a name cannot be used. -/
inductive NameError where
  /-- No identifier is spelled like this. -/
  | unusable (name : String)
  /-- The name holds an identifier but is none. -/
  | malformed (name : String)
  deriving DecidableEq, Repr, Inhabited

namespace NameError

def message : NameError → String
  | .unusable name => "`" ++ name ++ "` cannot be used as a getter name"
  | .malformed name => "`" ++ name ++ "` is not an identifier"

end NameError

/-- Whether a text holds one identifier, and blanks or comments at most around it. -/
def holdsIdentifier (text : String) : Bool :=
  ((Token.ofText? text).bind Parser.ident.runAll).isSome

/-- The name as an identifier. -/
def plainName (name : String) : Except NameError String :=
  if isWord name.toList then .ok name else .error (.malformed name)

/-- The getter's identifier: the name, or a raw identifier where the name is a keyword. -/
def getterName (name : String) : Except NameError String :=
  if holdsIdentifier name then plainName name
  else if holdsIdentifier ("r#" ++ name) then ("r#" ++ ·) <$> plainName name
  else .error (.unusable name)

def setterName (name : String) : Except NameError String := plainName ("set_" ++ name)

def eventName (name : String) : Except NameError String := plainName (name ++ "_changed")

theorem propertyName_eq_empty (name : String) (h : stripped name = []) : propertyName name = "" := by
  simp [propertyName, h]

theorem setterName_ok (name : String) (h : isWord ("set_" ++ name).toList = true) :
    setterName name = .ok ("set_" ++ name) := by
  unfold setterName plainName
  exact if_pos h

theorem eventName_ok (name : String) (h : isWord (name ++ "_changed").toList = true) :
    eventName name = .ok (name ++ "_changed") := by
  unfold eventName plainName
  exact if_pos h

end LiveSettings.Naming
