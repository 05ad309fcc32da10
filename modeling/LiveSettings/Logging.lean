import LiveSettings.Binary.Decimal
import LiveSettings.Journal
import LiveSettings.Text.CodePoint
import LiveSettings.Text.Identifier

/-!
# What is logged, and how

A configuration has a level, a format and possibly a filter text. A filter is a list of directives, each with
a level and the target, span or field to which it applies. Directives are kept the most specific first, one
for each scope.

Results: `filter_without_text` (without a filter text the level alone decides).
-/

namespace LiveSettings

namespace Level

def all : List Level := [.error, .warn, .info, .debug, .trace]

/-- The number of a decimal text that may have a plus sign. -/
def number? (s : String) : Option Nat :=
  let ds := match s.toList with
    | '+' :: cs => cs
    | cs => cs
  if ds.isEmpty || !ds.all Char.isDigit then none else some (Binary.digitsValue ds)

/-- A level by its name in any case, or by its number from 1 on. -/
def ofText? (s : String) : Option Level :=
  match number? s with
  | some n => if n == 0 then none else all[n - 1]?
  | none => all.find? fun l => l.name == String.ofList (s.toList.map Char.toUpper)

end Level

/-- How log lines are written. -/
inductive LogFormat where
  | pretty
  | compact
  | json
  deriving DecidableEq, Repr, Inhabited

namespace LogFormat

def name : LogFormat → String
  | .pretty => "Pretty"
  | .compact => "Compact"
  | .json => "Json"

/-- A format by its name in lower case. -/
def ofText? (s : String) : Option LogFormat :=
  if s == "pretty" then some .pretty
  else if s == "compact" then some .compact
  else if s == "json" then some .json
  else none

end LogFormat

/-! ## Directives -/

/-- What a directive lets through: up to a level, or nothing. -/
abbrev Verbosity := Option Level

namespace Verbosity

def text : Verbosity → String
  | none => "off"
  | some l => String.ofList (l.name.toList.map Char.toLower)

/-- As a level, but also with zero or a name for nothing; an empty text is the lowest level. -/
def ofText? (s : String) : Option Verbosity :=
  if s.isEmpty then some (some .error)
  else if Level.number? s == some 0 || s.toList.map Char.toLower == "off".toList then some none
  else (Level.ofText? s).map some

end Verbosity

/-- A field that has to be there, and possibly the value that it has to have. -/
structure FieldMatch where
  name : String
  value : Option String
  deriving DecidableEq, Repr, Inhabited

namespace FieldMatch

/-- An integer of 64 bits with an optional sign. -/
def integer? (s : String) : Option Int :=
  match s.toList with
  | '-' :: cs =>
    (Level.number? (String.ofList cs)).bind fun n =>
      if cs.head? != some '+' && Int64.minValue.toInt ≤ -n then some (-n : Int) else none
  | _ => (Level.number? s).bind fun n => if n < UInt64.size then some (n : Int) else none

/-- The text of a value: numbers are written in their shortest form. -/
def valueText (s : String) : String :=
  match integer? s with
  | some n => toString n
  | none =>
    match Binary.ofText? .double s with
    | some x => x.display
    | none => s

/-- A name, and the value behind the first equals sign. -/
def ofText (s : String) : FieldMatch :=
  match s.splitOn "=" with
  | name :: value :: _ => ⟨name, some (valueText value)⟩
  | _ => ⟨s, none⟩

def text (f : FieldMatch) : String := f.name ++ (f.value.map ("=" ++ ·)).getD ""

end FieldMatch

/-- A level for a target, a span or a field. -/
structure Directive where
  target : Option String
  span : Option String
  field : Option FieldMatch
  verbosity : Verbosity
  deriving DecidableEq, Repr, Inhabited

namespace Directive

/-- A directive for everything. -/
def ofLevel (l : Level) : Directive := ⟨none, none, none, some l⟩

def text (d : Directive) : String :=
  let scope := d.span.isSome || d.field.isSome
  let field := (d.field.map fun f => "\x7b" ++ f.text ++ "\x7d").getD ""
  d.target.getD "" ++ (if scope then "[" ++ d.span.getD "" ++ field ++ "]" else "") ++
    (if d.target.isSome || scope then "=" else "") ++ d.verbosity.text

/-- Where the reader of a directive stands, with what it has read of the part at hand. -/
inductive Stage where
  | start
  | levelOrTarget (read : List Char)
  | span (read : List Char)
  | field (read : List Char)
  | behindField
  | behindScope
  | level (read : List Char)
  deriving DecidableEq, Repr

/-- Whether a directive may start with a character. -/
def mayStart (c : Char) : Bool :=
  c == '-' || c == ':' || c == '_' || c.isAlphanum || (127 < c.toNat && Text.isIdentPart c)

/-- Reads one more character. -/
def step (d : Directive) (stage : Stage) (c : Char) : Option (Directive × Stage) :=
  match stage with
  | .start =>
    if c == '[' then some (d, .span [])
    else if mayStart c then some (d, .levelOrTarget [c])
    else none
  | .levelOrTarget read =>
    if c == '=' then some ({ d with target := some (String.ofList read) }, .level [])
    else if c == '[' then some ({ d with target := some (String.ofList read) }, .span [])
    else some (d, .levelOrTarget (read ++ [c]))
  | .span read =>
    if c == ']' then some ({ d with span := some (String.ofList read) }, .behindScope)
    else if c == '\x7b' then
      some ({ d with span := if read.isEmpty then none else some (String.ofList read) }, .field [])
    else some (d, .span (read ++ [c]))
  | .field read =>
    if c == '\x7d' then
      if read.isEmpty then none
      else some ({ d with field := some (.ofText (String.ofList read)) }, .behindField)
    else some (d, .field (read ++ [c]))
  | .behindField => if c == ']' then some (d, .behindScope) else none
  | .behindScope => if c == '=' then some (d, .level []) else none
  | .level read => some (d, .level (read ++ [c]))

def steps (d : Directive) (stage : Stage) : List Char → Option (Directive × Stage)
  | [] => some (d, stage)
  | c :: cs =>
    match d.step stage c with
    | some (d, stage) => steps d stage cs
    | none => none

/-- What the end of the text makes of the part at hand. -/
def finish (d : Directive) : Stage → Option Directive
  | .levelOrTarget read =>
    let s := String.ofList read
    match Verbosity.ofText? s with
    | some v => some { d with verbosity := v }
    | none => some { d with target := some s }
  | .level read =>
    if read.isEmpty then some d
    else (Verbosity.ofText? (String.ofList read)).map fun v => { d with verbosity := v }
  | .behindScope => some d
  | .start | .span _ | .field _ | .behindField => none

/-- Reads a directive: a level, a target, or a target, span and field with a level. Without a level
everything goes through. -/
def ofText? (s : String) : Option Directive :=
  match steps ⟨none, none, none, some .trace⟩ .start s.toList with
  | some (d, stage) => d.finish stage
  | none => none

/-- Whether the directive applies to everything of its target, or to all with a field. -/
def isStatic (d : Directive) : Bool := d.span.isNone && d.field.all (·.value.isNone)

/-- Whether the directive looks at spans or fields. -/
def isDynamic (d : Directive) : Bool := d.span.isSome || d.field.isSome

/-! ## Order -/

/-- The order of optional texts: none first. -/
def compareOptional (a b : Option String) : Ordering :=
  match a, b with
  | none, none => .eq
  | none, some _ => .lt
  | some _, none => .gt
  | some a, some b => compare a b

/-- The order of optional lengths: none first. -/
def compareLength (a b : Option String) : Ordering :=
  match a, b with
  | none, none => .eq
  | none, some _ => .lt
  | some _, none => .gt
  | some a, some b => compare a.utf8ByteSize b.utf8ByteSize

/-- The order of scopes from the least specific on: by the length of the target, the span, the field. -/
def compareScope (a b : Directive) : Ordering :=
  (compareLength a.target b.target).then <|
  (compare a.span.isSome.toNat b.span.isSome.toNat).then <|
  (compare a.field.isSome.toNat b.field.isSome.toNat).then <|
  (compareOptional a.target b.target).then <|
  (compareOptional a.span b.span).then <|
  (compareOptional (a.field.bind (·.value)) (b.field.bind (·.value))).then <|
  compareOptional (a.field.map (·.name)) (b.field.map (·.name))

/-- Puts a directive in its place, the most specific first, over one of the same scope. -/
def insert (d : Directive) : List Directive → List Directive
  | [] => [d]
  | e :: es =>
    match compareScope d e with
    | .gt => d :: e :: es
    | .eq => d :: es
    | .lt => e :: insert d es

end Directive

/-- Directives that look at targets and field names alone, and those that look at spans and fields. -/
structure Filter where
  statics : List Directive
  dynamics : List Directive
  deriving DecidableEq, Repr, Inhabited

namespace Filter

/-- The filter of directives; without any it lets errors through. -/
def ofDirectives (ds : List Directive) : Filter :=
  let dynamic := ds.filter (·.isDynamic)
  let plain := ds.filter fun d => !d.isDynamic
  let statics := (plain ++ dynamic.filter (·.isStatic)).foldl (fun es d => d.insert es) []
  let dynamics := dynamic.foldl (fun es d => d.insert es) []
  if ds.isEmpty then ⟨[.ofLevel .error], []⟩ else ⟨statics, dynamics⟩

/-- Reads directives between commas. -/
def ofText? (s : String) : Option Filter :=
  (((s.splitOn ",").filter (!·.isEmpty)).mapM Directive.ofText?).map ofDirectives

def text (f : Filter) : String := ",".intercalate ((f.statics ++ f.dynamics).map (·.text))

end Filter

/-! ## Configurations -/

/-- What is logged, and how. -/
structure LoggingConfig where
  level : Level
  format : LogFormat
  filterText : Option String
  spanEvents : Bool
  deriving DecidableEq, Repr

namespace LoggingConfig

/-- Warnings in compact form. -/
def default : LoggingConfig := ⟨.warn, .compact, none, false⟩

instance : Inhabited LoggingConfig := ⟨default⟩

/-- The filter: that of the filter text if it can be read, else the level. -/
def filter (c : LoggingConfig) : Filter :=
  (c.filterText.bind Filter.ofText?).getD (.ofDirectives [.ofLevel c.level])

theorem filter_without_text (c : LoggingConfig) (h : c.filterText = none) :
    c.filter = .ofDirectives [.ofLevel c.level] := by
  simp [filter, h]

/-- What is reported when logging starts. -/
def startEntry (c : LoggingConfig) : Entry :=
  ⟨.debug, .logging, "logging initialized", [("level", c.level.name), ("format", c.format.name)]⟩

end LoggingConfig

end LiveSettings
