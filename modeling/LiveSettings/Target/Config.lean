import LiveSettings.Code.Grammar.Items
import LiveSettings.Text.Similarity

/-!
# Configuration attributes

The attribute `observable_settings` configures a type, by the traits that it implements by hand, and a
field, as the one that holds the context. Every mistake in the attributes of a type and its fields is
reported, with the field and the setting where it was made.

Results: `ConfigError.flatten_single`, `combineErrors_singleton`.
-/

namespace LiveSettings.Config

open LiveSettings.Parser

def attributeName : String := "observable_settings"

/-! ## Mistakes -/

/-- A mistake in a configuration. -/
inductive Mistake where
  | nameValue
  | expectedComma
  | expectedSetting
  | expectedSegment (atEnd : Bool)
  | expectedExpr (atEnd : Bool)
  | literalSetting
  | wordSetting
  | listSetting
  | unknownSetting (name known : String) (similar : Bool)
  | duplicateSetting (name : String)
  | wrongType (type : String)
  | unknownValue (value : String)
  | unnamedFields (single : Bool)
  | noFields
  | notStruct (shape : String)
  | severalMarked
  | severalContexts
  deriving DecidableEq, Repr, Inhabited

namespace Mistake

def atEndText (atEnd : Bool) : String := if atEnd then "unexpected end of input, " else ""

def message : Mistake → String
  | .nameValue => "Name-value arguments are not supported. Use #[observable_settings(...)]"
  | .expectedComma => "expected `,`"
  | .expectedSetting => "expected identifier or literal"
  | .expectedSegment atEnd => atEndText atEnd ++ "expected path segment after `::`"
  | .expectedExpr atEnd => atEndText atEnd ++ "expected an expression"
  | .literalSetting => "Unexpected meta-item format `literal`"
  | .wordSetting => "Unexpected meta-item format `word`"
  | .listSetting => "Unexpected meta-item format `list`"
  | .unknownSetting name known similar =>
    "Unknown field: `" ++ name ++ "`. " ++
      (if similar then "Did you mean `" ++ known ++ "`?" else "Available values: `" ++ known ++ "`")
  | .duplicateSetting name => "Duplicate field `" ++ name ++ "`"
  | .wrongType type => "Unexpected type `" ++ type ++ "`"
  | .unknownValue value => "Unknown value: `" ++ value ++ "`"
  | .unnamedFields single =>
    "Unsupported shape `" ++ (if single then "one unnamed field" else "unnamed fields") ++
      "`. Expected named fields."
  | .noFields => "Unsupported shape `no fields`. Expected named fields."
  | .notStruct shape => "Unsupported shape `" ++ shape ++ "`. Expected struct with named fields."
  | .severalMarked => "only one field can be marked #[observable_settings(context)]"
  | .severalContexts =>
    "several SettingsContext fields; mark one with #[observable_settings(context)]"

end Mistake

/-- One mistake or several, each with the place where it was made, outermost first. -/
inductive ConfigError where
  | single (mistake : Mistake) (place : List String)
  | several (errors : List ConfigError) (place : List String)
  deriving Repr, Inhabited

namespace ConfigError

def ofMistake (m : Mistake) : ConfigError := .single m []

/-- The error inside a place. -/
def within (name : String) : ConfigError → ConfigError
  | .single m place => .single m (name :: place)
  | .several es place => .several es (name :: place)

def placeText : List String → String
  | [] => ""
  | place => " at " ++ "/".intercalate place

mutual

/-- All mistakes in one text. -/
def message : ConfigError → String
  | .single m place => m.message ++ placeText place
  | .several es place => "Multiple errors: (" ++ ", ".intercalate (messages es) ++ ")" ++ placeText place

def messages : List ConfigError → List String
  | [] => []
  | e :: es => e.message :: messages es

end

mutual

/-- The mistakes one by one, each with its whole place. -/
def flatten (outer : List String) : ConfigError → List (Mistake × List String)
  | .single m place => [(m, outer ++ place)]
  | .several es place => flattenAll (outer ++ place) es

def flattenAll (outer : List String) : List ConfigError → List (Mistake × List String)
  | [] => []
  | e :: es => e.flatten outer ++ flattenAll outer es

end

theorem flatten_single (m : Mistake) (place : List String) :
    (ConfigError.single m place).flatten [] = [(m, place)] := by
  simp [flatten]

/-- The texts of the mistakes, with their places. -/
def flatMessages (e : ConfigError) : List String :=
  (e.flatten []).map fun (m, place) => m.message ++ placeText place

end ConfigError

/-- Errors as one, if there are any. -/
def combineErrors : List ConfigError → Option ConfigError
  | [] => none
  | [e] => some e
  | es => some (.several es [])

theorem combineErrors_singleton (e : ConfigError) : combineErrors [e] = some e := rfl

/-! ## Reading settings -/

/-- A setting in a list: a literal, or a path, alone, with a list or with a value. -/
inductive Setting where
  | literal
  | path (attr : Attr)
  deriving Inhabited

/-- The tokens up to the end of a path of names, or what is missing. -/
def settingPath (ts : List Token) : Except Mistake (NamePath × List Token) :=
  match Grammar.namePath.run ⟨ts, []⟩ with
  | some (p, s) => .ok (p, s.rest)
  | none =>
    -- A path that starts with a name can only lack the name behind `::`.
    let rest := ts.dropWhile fun
      | .ident _ => true
      | .mark ':' _ => true
      | _ => false
    .error (.expectedSegment rest.isEmpty)

/-- The value behind the mark of equality. -/
def settingValue (g : Grammar) (ts : List Token) : Except Mistake (Expr × List Token) :=
  match (g.expr true).run ⟨ts, []⟩ with
  | some (e, s) => .ok (e, s.rest)
  | none => .error (.expectedExpr ts.isEmpty)

/-- A setting and the tokens behind it. -/
def setting (g : Grammar) (ts : List Token) : Except Mistake (Setting × List Token) :=
  if isLiteral ts && !(isAnyWord ts && isOp "=" (ts.drop 1)) then
    .ok (.literal, ts.drop (if isOp "-" ts then 2 else 1))
  else if isAnyWord ts then do
    let (p, rest) ←
      if isWord "unsafe" ts then pure (⟨false, ["unsafe"]⟩, ts.drop 1) else settingPath ts
    match rest with
    | .opening d :: inner =>
      match rawGroup.run ⟨rest, []⟩ with
      | some ((d, content), s) => return (.path ⟨p, .list d content⟩, s.rest)
      | none => return (.path ⟨p, .list d inner⟩, [])
    | _ =>
      if isOp "=" rest then
        let (e, rest) ← settingValue g (rest.drop 1)
        return (.path ⟨p, .value e⟩, rest)
      else return (.path ⟨p, .none⟩, rest)
  else .error .expectedSetting

/-- Settings with commas between them; every round takes a token. -/
def settingsLoop (g : Grammar) : Nat → List Token → Except Mistake (List Setting)
  | 0, _ => .ok []
  | fuel + 1, ts =>
    if ts.isEmpty then .ok []
    else do
      let (s, rest) ← setting g ts
      if rest.isEmpty then return [s]
      if isOp "," rest then return s :: (← settingsLoop g fuel (rest.drop 1))
      throw .expectedComma

def settings (ts : List Token) : Except Mistake (List Setting) :=
  settingsLoop (Grammar.forTokens ts) (ts.length + 1) ts

/-- The settings in a configuration attribute. -/
def attrSettings (a : Attr) : Except Mistake (List Setting) :=
  match a.args with
  | .none => .ok []
  | .value _ => .error .nameValue
  | .list _ ts => settings ts

/-- The mistake of an unknown setting where one is known. -/
def unknown (name known : String) : Mistake :=
  .unknownSetting name known (Text.likeness name known > 0.8)

/-- Reads one known setting from a list of settings. The first use counts; further uses, other settings and
literals are mistakes. -/
def known (name : String) (read : Attr → Except Mistake α) :
    List Setting → Bool → Option α → List ConfigError × Bool × Option α
  | [], seen, value => ([], seen, value)
  | .literal :: rest, seen, value =>
    let (es, r) := known name read rest seen value
    (.ofMistake .literalSetting :: es, r)
  | .path a :: rest, seen, value =>
    let written := "::".intercalate a.path.names
    if written = name then
      if seen then
        let (es, r) := known name read rest seen value
        (.ofMistake (.duplicateSetting name) :: es, r)
      else
        match read a with
        | .ok v => known name read rest true (some v)
        | .error m =>
          let (es, r) := known name read rest true value
          (.single m [name] :: es, r)
    else
      let (es, r) := known name read rest seen value
      (.ofMistake (unknown written name) :: es, r)

/-- Reads one known setting from all configuration attributes. -/
def fromAttrs (name : String) (read : Attr → Except Mistake α) :
    List Attr → Bool → Option α → List ConfigError × Option α
  | [], _, value => ([], value)
  | a :: rest, seen, value =>
    if a.path.names = [attributeName] then
      match attrSettings a with
      | .ok ss =>
        let (es, seen, value) := known name read ss seen value
        let (es', value) := fromAttrs name read rest seen value
        (es ++ es', value)
      | .error m =>
        let (es, value) := fromAttrs name read rest seen value
        (.ofMistake m :: es, value)
    else fromAttrs name read rest seen value

/-! ## The known settings -/

/-- The name of a literal's type. -/
def literalType : List Token → String
  | [.ident _] => "bool"
  | [.literal text] =>
    match text.toList with
    | '"' :: _ | 'r' :: _ => "string"
    | 'b' :: '\'' :: _ => "byte"
    | 'b' :: _ => "byte string"
    | 'c' :: _ => "unknown"
    | '\'' :: _ => "char"
    | _ => numberType text
  | [.mark _ _, .literal text] => numberType text
  | _ => "unknown"
where
  numberType (text : String) : String :=
    let cs := text.toList
    let based := match cs with
      | '0' :: c :: _ => c = 'x' || c = 'o' || c = 'b'
      | _ => false
    let fraction := cs.dropWhile fun c => Text.isAsciiDigit c || c = '_'
    if !based && (fraction.head?.any fun c => c = '.' || c = 'e' || c = 'E' || c = 'f') then "float"
    else "int"

/-- The mistake of a value of the wrong type. -/
def wrongValue (e : Expr) : Mistake :=
  .wrongType (if e.kind = .literal then literalType (Part.tokens e.code) else e.kind.name)

/-- The value of the setting `context`: the word alone, or a truth value, also in quotes. -/
def readContext (a : Attr) : Except Mistake Bool :=
  match a.args with
  | .none => .ok true
  | .list _ ts => do
    discard (settings ts)
    throw .listSetting
  | .value e =>
    if e.kind = .literal then
      match Part.tokens e.code with
      | [.ident name] => .ok (name == "true")
      | [.literal text] =>
        match Literal.stringValue? text with
        | some "true" => .ok true
        | some "false" => .ok false
        | some other => .error (.unknownValue other)
        | none => .error (wrongValue e)
      | _ => .error (wrongValue e)
    else .error (wrongValue e)

/-- The value of the setting `implements`: a list of paths. -/
def readImplements (a : Attr) : Except Mistake (List NamePath) :=
  match a.args with
  | .none => .error .wordSetting
  | .value e => .error (wrongValue e)
  | .list _ ts => do
    (← settings ts).mapM fun
      | .path ⟨p, .none⟩ => .ok p
      | _ => .error (.wrongType "non-word")

end LiveSettings.Config
