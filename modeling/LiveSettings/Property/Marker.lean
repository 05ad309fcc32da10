import LiveSettings.Native
import LiveSettings.Code.Grammar.Items

/-!
# The marker of a field

A field becomes a property by the attribute `observable_setting`. Its arguments give the storage key,
whether changes raise an event, and the strategy: the first two by position or by name, the strategy by
name or as a bare word.

Results: `find_eq_none_iff` (there is no marker only where no attribute is one), `find_of_two` (two markers are
refused, whatever they say).
-/

namespace LiveSettings.Marker

open LiveSettings.Parser

def markerName : String := "observable_setting"

/-! ## The value of a marker -/

/-- What a marker says. -/
structure Settings where
  key : Option String
  raiseEvent : Bool
  strategy : Option Strategy
  deriving DecidableEq, Repr, Inhabited

/-- Why a marker is refused. -/
inductive MarkerError where
  | duplicateMarker
  | keyNotText
  | expectedLiteral
  | unfinished
  | expectedComma
  | positionalAfterNamed
  | tooManyPositional
  | unknownArgument
  | duplicateKey
  | keyNotString
  | duplicateRaiseEvent
  | raiseEventNotBool
  | duplicateStrategy
  | strategyNotString
  | unknownStrategy
  deriving DecidableEq, Repr, Inhabited

namespace MarkerError

def message : MarkerError → String
  | .duplicateMarker => "duplicate #[observable_setting] attribute"
  | .keyNotText => "expected a string key, e.g. #[observable_setting = \"Key\"]"
  | .expectedLiteral => "expected literal"
  | .unfinished => "unexpected end of input, expected literal"
  | .expectedComma => "expected `,`"
  | .positionalAfterNamed => "positional arguments must come before named arguments"
  | .tooManyPositional => "expected at most two arguments: (key, raise_event)"
  | .unknownArgument => "unknown argument; expected `key`, `raise_event` or `strategy`"
  | .duplicateKey => "`key` given more than once"
  | .keyNotString => "`key` must be a string literal"
  | .duplicateRaiseEvent => "`raise_event` given more than once"
  | .raiseEventNotBool => "`raise_event` must be `true` or `false`"
  | .duplicateStrategy => "storage strategy given more than once"
  | .strategyNotString => "`strategy` must be \"native\" or \"json\""
  | .unknownStrategy => "unknown storage strategy; expected `native` or `json`"

end MarkerError

/-! ## Arguments -/

/-- A literal, as far as a marker looks into it. -/
inductive Value where
  | text (value : String)
  | truth (value : Bool)
  | other
  deriving DecidableEq, Repr, Inhabited

/-- An argument of a marker. -/
inductive MarkerArg where
  | positional (value : Value)
  | named (name : String) (value : Value)
  | flag (name : String)
  deriving DecidableEq, Repr, Inhabited

/-- The value of a literal's tokens. -/
def valueOf : List Token → Value
  | [.literal text] =>
    match Literal.stringValue? text with
    | some value => .text value
    | none => .other
  | [.ident "true"] => .truth true
  | [.ident "false"] => .truth false
  | _ => .other

/-- The literal in front, and the tokens behind it. -/
def literal (ts : List Token) : Except MarkerError (Value × List Token) :=
  match ts with
  | [] => .error .unfinished
  | t :: rest =>
    if isLiteral ts then
      match t with
      | .mark _ _ => .ok (.other, rest.drop 1)
      | _ => .ok (valueOf [t], rest)
    else .error .expectedLiteral

/-- The argument in front, and the tokens behind it. -/
def arg (ts : List Token) : Except MarkerError (MarkerArg × List Token) :=
  match ts with
  | .ident name :: rest =>
    if isIdent ts then
      match rest with
      | .mark '=' _ :: rest => do
        let (v, rest) ← literal rest
        return (.named name v, rest)
      | _ => .ok (.flag name, rest)
    else do
      let (v, rest) ← literal ts
      return (.positional v, rest)
  | _ => do
    let (v, rest) ← literal ts
    return (.positional v, rest)

/-- Arguments with commas between them; every round takes a token. -/
def argsLoop : Nat → List Token → Except MarkerError (List MarkerArg)
  | 0, _ => .ok []
  | fuel + 1, ts =>
    if ts.isEmpty then .ok []
    else do
      let (a, rest) ← arg ts
      match rest with
      | [] => return [a]
      | .mark ',' _ :: rest => return a :: (← argsLoop fuel rest)
      | _ => throw .expectedComma

/-- The arguments of a marker. -/
def args (ts : List Token) : Except MarkerError (List MarkerArg) := argsLoop (ts.length + 1) ts

/-! ## Slots -/

/-- The slots filled so far. -/
structure Slots where
  key : Option String
  raiseEvent : Option Bool
  strategy : Option Strategy
  /-- Whether an argument with a name has been seen. -/
  named : Bool
  deriving DecidableEq, Repr, Inhabited

namespace Slots

def empty : Slots := ⟨none, none, none, false⟩

def settings (s : Slots) : Settings := ⟨s.key, s.raiseEvent.getD true, s.strategy⟩

def setKey (s : Slots) (v : Value) : Except MarkerError Slots :=
  if s.key.isSome then .error .duplicateKey
  else match v with
    | .text k => .ok { s with key := some k }
    | _ => .error .keyNotString

def setRaiseEvent (s : Slots) (v : Value) : Except MarkerError Slots :=
  if s.raiseEvent.isSome then .error .duplicateRaiseEvent
  else match v with
    | .truth b => .ok { s with raiseEvent := some b }
    | _ => .error .raiseEventNotBool

/-- The strategy of a name. -/
def strategyOf : String → Except MarkerError Strategy
  | "native" => .ok .native
  | "json" => .ok .json
  | _ => .error .unknownStrategy

def setStrategy (s : Slots) (v : Value) : Except MarkerError Slots :=
  if s.strategy.isSome then .error .duplicateStrategy
  else match v with
    | .text name => do return { s with strategy := some (← strategyOf name) }
    | _ => .error .strategyNotString

def setFlag (s : Slots) (name : String) : Except MarkerError Slots :=
  if s.strategy.isSome then .error .duplicateStrategy
  else do return { s with strategy := some (← strategyOf name) }

/-- Takes an argument; `position` counts the arguments before it. -/
def take (s : Slots) (position : Nat) : MarkerArg → Except MarkerError Slots
  | .positional v =>
    if s.named then .error .positionalAfterNamed
    else match position with
      | 0 => s.setKey v
      | 1 => s.setRaiseEvent v
      | _ => .error .tooManyPositional
  | .flag name => { s with named := true }.setFlag name
  | .named "key" v => { s with named := true }.setKey v
  | .named "raise_event" v => { s with named := true }.setRaiseEvent v
  | .named "strategy" v => { s with named := true }.setStrategy v
  | .named _ _ => .error .unknownArgument

def takeAll (s : Slots) (position : Nat) : List MarkerArg → Except MarkerError Slots
  | [] => .ok s
  | a :: as => do (← s.take position a).takeAll (position + 1) as

end Slots

/-- What arguments say. -/
def settingsOf (as : List MarkerArg) : Except MarkerError Settings := do
  return (← Slots.empty.takeAll 0 as).settings

/-- What a marker says. -/
def ofAttr (a : Attr) : Except MarkerError Settings :=
  match a.args with
  | .none => .ok Slots.empty.settings
  | .value e =>
    match valueOf (Part.sourceTokens e.code) with
    | .text key => .ok { Slots.empty.settings with key := some key }
    | _ => .error .keyNotText
  | .list _ ts => do settingsOf (← args ts)

/-- The settings of the marker among the attributes, if there is one. -/
def find (attrs : List Attr) : Except MarkerError (Option Settings) :=
  match attrs.filter (·.path.isName markerName) with
  | [] => .ok none
  | [a] => some <$> ofAttr a
  | _ => .error .duplicateMarker

theorem find_eq_none_iff (attrs : List Attr) :
    find attrs = .ok none ↔ ∀ a ∈ attrs, a.path.isName markerName = false := by
  unfold find
  split
  · rename_i h
    simpa using h
  · rename_i a h
    have ha : a ∈ attrs.filter (·.path.isName markerName) := by simp [h]
    constructor
    · intro e
      cases hm : ofAttr a <;> simp [hm, Functor.map, Except.map] at e
    · intro all
      have := List.mem_filter.1 ha
      simp [all a this.1] at this
  · rename_i some _
    constructor
    · intro e
      simp at e
    · intro all
      exact (some (by simpa using all)).elim

theorem find_of_two {attrs : List Attr} {a b : Attr} {rest : List Attr}
    (h : attrs.filter (·.path.isName markerName) = a :: b :: rest) : find attrs = .error .duplicateMarker := by
  simp [find, h]

/-! ## Documentation -/

/-- The text of a documentation attribute. -/
def docText? (a : Attr) : Option String :=
  if a.path.isName "doc" then
    match a.args with
    | .value e =>
      match valueOf (Part.sourceTokens e.code) with
      | .text value => some value
      | _ => none
    | _ => none
  else none

/-- The documentation among the attributes, line by line; blanks alone are none. -/
def documentation? (attrs : List Attr) : Option String :=
  let text := "\n".intercalate (attrs.filterMap docText?)
  if Text.trimBlanks text = "" then none else some text

end LiveSettings.Marker
