import LiveSettings.Proofs.Accessors.UnitTable
import LiveSettings.Proofs.Property.Markers

/-!
# The table and the accessors agree

A row of the table says where a property is kept and how, and the accessors of the property keep it there in this
way. Both are read from the code that is written: a reader for rows, and one for the functions of a property that
notes which library functions they call, with which keys and names. The readers take the path of the library and
the type of the property as they stand, so nothing is asked of these.

Results:
* `returns_row`, `returns_accessors`: the readers on what is written.
* `agrees_of_groupOf`: what is written for one property.
* `table_agrees`: a whole unit.
-/

namespace LiveSettings

/-! ## Readers that give one result -/

namespace Parser

variable {α β : Type}

/-- From the tokens the parser gives the result, whatever follows. -/
def Returns (p : Parser α) (ts : List Token) (a : α) : Prop := ∀ rest, p.Reads (ts ++ rest) rest (· = a)

/-- From the tokens the parser gives the result where a group or the input ends behind them. -/
def ReturnsLast (p : Parser α) (ts : List Token) (a : α) : Prop :=
  ∀ rest, isEnd rest = true → p.Reads (ts ++ rest) rest (· = a)

/-- Takes just these tokens. -/
def exactly : List Token → Parser Unit
  | [] => pure ()
  | t :: ts => do
    guarded ((← next) == t)
    exactly ts

/-- The parser, unless a group or the input ends here. -/
def unlessEnd (p : Parser α) : Parser (Option α) := do
  if ← peek isEnd then return none
  return some (← p)

theorem Returns.last {p : Parser α} {ts : List Token} {a : α} (h : p.Returns ts a) : p.ReturnsLast ts a :=
  fun rest _ => h rest

theorem returns_pure (a : α) : (pure a : Parser α).Returns [] a := fun _ => reads_pure rfl

theorem returns_bind {p : Parser α} {f : α → Parser β} {ts us : List Token} {a : α} {b : β} (first : p.Returns ts a)
    (second : (f a).Returns us b) : (p >>= f).Returns (ts ++ us) b := by
  intro rest
  rw [List.append_assoc]
  exact reads_bind (first _) fun _ same => same ▸ second rest

theorem returnsLast_bind {p : Parser α} {f : α → Parser β} {ts us : List Token} {a : α} {b : β}
    (first : p.Returns ts a) (second : (f a).ReturnsLast us b) : (p >>= f).ReturnsLast (ts ++ us) b := by
  intro rest ends
  rw [List.append_assoc]
  exact reads_bind (first _) fun _ same => same ▸ second rest ends

/-- What only gives a result takes nothing more. -/
theorem returnsLast_map {p : Parser α} {f : α → Parser β} {ts : List Token} {a : α} {b : β} (first : p.ReturnsLast ts a)
    (same : f a = pure b) : (p >>= f).ReturnsLast ts b := by
  intro rest ends
  refine reads_bind (first rest ends) ?_
  rintro _ rfl
  rw [same]
  exact reads_pure rfl

theorem returns_discard {p : Parser α} {ts : List Token} {a : α} (h : p.Returns ts a) :
    (discard p : Parser Unit).Returns ts () :=
  fun rest => (takes_discard (h rest).takes).mono fun _ _ => rfl

theorem returns_exactly (ts : List Token) : (exactly ts).Returns ts () := by
  induction ts with
  | nil => exact returns_pure ()
  | cons t ts ih =>
    intro rest
    exact reads_next_bind.2 (reads_guarded_bind (beq_self_eq_true t) (ih rest))

theorem returns_after {p : Parser α} (front : List Token) {ts : List Token} {a : α} (h : p.Returns ts a) :
    (do exactly front; p).Returns (front ++ ts) a :=
  returns_bind (returns_exactly front) h

theorem returnsLast_after {p : Parser α} (front : List Token) {ts : List Token} {a : α} (h : p.ReturnsLast ts a) :
    (do exactly front; p).ReturnsLast (front ++ ts) a :=
  returnsLast_bind (returns_exactly front) h

theorem returns_inside {d : Delimiter} {p : Parser α} {ts : List Token} {a : α} (h : p.ReturnsLast ts a) :
    (inside d p).Returns (Token.group d ts) a := by
  intro rest
  have content := h (.closing d :: rest) rfl
  simpa [Token.group] using reads_inside content

theorem returnsLast_unlessEnd_nil (p : Parser α) : (unlessEnd p).ReturnsLast [] none := by
  intro rest ends
  refine reads_peek_bind.2 ?_
  rw [List.nil_append, ends]
  exact reads_pure rfl

theorem returnsLast_unlessEnd {p : Parser α} {ts : List Token} {a : α} (h : p.Returns ts a)
    (starts : ∀ rest, isEnd (ts ++ rest) = false) : (unlessEnd p).ReturnsLast ts (some a) := by
  intro rest _
  refine reads_peek_bind.2 ?_
  rw [starts]
  exact reads_bind (h rest) fun _ same => same ▸ reads_pure rfl

theorem runAll_of_returnsLast {p : Parser α} {ts : List Token} {a : α} (h : p.ReturnsLast ts a) :
    p.runAll ts = some a := by
  obtain ⟨b, found, ran, same⟩ := h [] rfl []
  rw [List.append_nil] at ran
  simp [runAll, ran, same]

theorem returns_anyWord (name : String) : anyWord.Returns [.ident name] name := reads_anyWord name

end Parser

namespace Accessors

open LiveSettings.Parser

/-! ## Reading a row -/

theorem returns_textValue (s : String) : textValue.Returns (text s) s := reads_textValue s

/-- A name of the library below these. -/
def libraryName (runtime : List Token) (parents : List String) : Parser String := do
  exactly (below runtime parents ++ Token.op "::")
  anyWord

theorem returns_libraryName (runtime : List Token) (parents : List String) (name : String) :
    (libraryName runtime parents).Returns (below runtime (parents ++ [name])) name := by
  have shape : below runtime (parents ++ [name]) = (below runtime parents ++ Token.op "::") ++ [.ident name] := by
    simp [below, word]
  rw [shape]
  exact returns_bind (returns_exactly _) (returns_anyWord name)

/-- The strategy that a name of the library stands for. -/
def libraryStrategy (runtime : List Token) : Parser Strategy := do
  match ← libraryName runtime ["StorageStrategy"] with
  | "Native" => return .native
  | "Json" => return .json
  | _ => failure

theorem returns_libraryStrategy (runtime : List Token) (strategy : Strategy) :
    (libraryStrategy runtime).Returns (below runtime ["StorageStrategy", strategy.name]) strategy := by
  intro rest
  refine reads_bind (returns_libraryName runtime ["StorageStrategy"] strategy.name rest) fun name same => ?_
  subst same
  cases strategy <;> exact reads_pure rfl

/-- The row of a property. -/
def rowCode (runtime : List Token) : Parser Row := do
  exactly (below runtime ["SettingProperty"])
  inside .brace do
    let name ← fieldValue "name" textValue
    let key ← fieldValue "key" textValue
    let strategy ← fieldValue "strategy" (libraryStrategy runtime)
    let nullable ← fieldValue "nullable" truthValue
    let raisesEvent ← fieldValue "raises_event" truthValue
    return ⟨name, key, strategy, nullable, raisesEvent⟩

theorem returns_fieldValue {α : Type} {name : String} {value : Parser α} {ts : List Token} {a : α}
    (h : value.Returns ts a) :
    (fieldValue name value).Returns (word name ++ Token.op ":" ++ ts ++ Token.op ",") a :=
  fun rest => reads_fieldValue (fun rest => h (Token.op "," ++ rest)) rest

theorem returns_row (runtime : List Token) (r : Row) : (rowCode runtime).Returns (r.tokens runtime) r := by
  have shape : r.tokens runtime = below runtime ["SettingProperty"] ++ Token.group .brace (
      (word "name" ++ Token.op ":" ++ text r.name ++ Token.op ",") ++
      ((word "key" ++ Token.op ":" ++ text r.key ++ Token.op ",") ++
      ((word "strategy" ++ Token.op ":" ++ below runtime ["StorageStrategy", r.strategy.name] ++ Token.op ",") ++
      ((word "nullable" ++ Token.op ":" ++ truth r.nullable ++ Token.op ",") ++
      ((word "raises_event" ++ Token.op ":" ++ truth r.raisesEvent ++ Token.op ",") ++ []))))) := by
    simp [Row.tokens, brace]
  rw [shape]
  refine returns_bind (returns_exactly _) (returns_inside (Returns.last ?_))
  refine returns_bind (returns_fieldValue (returns_textValue _)) ?_
  refine returns_bind (returns_fieldValue (returns_textValue _)) ?_
  refine returns_bind (returns_fieldValue (returns_libraryStrategy runtime _)) ?_
  refine returns_bind (returns_fieldValue (reads_truthValue _)) ?_
  refine returns_bind (returns_fieldValue (reads_truthValue _)) ?_
  exact returns_pure _

/-! ## Reading accessors -/

/-- A getter: the library function that it calls, with the key and with the field that holds the default. -/
structure GetterCode where
  name : String
  function : String
  key : String
  field : String
  deriving DecidableEq, Repr

/-- A setter: the getter that it asks for the old value, the library functions by which it compares and writes, the
key, the name that it tells and the event that it raises. -/
structure SetterCode where
  name : String
  old : String
  comparison : String
  function : String
  key : String
  notified : String
  raised : Option String
  deriving DecidableEq, Repr

/-- The function that gives an event, and the name by which it asks the context for it. -/
structure EventCode where
  name : String
  property : String
  deriving DecidableEq, Repr

structure AccessorCode where
  getter : GetterCode
  setter : SetterCode
  event : Option EventCode
  deriving DecidableEq, Repr

section

variable (runtime : List Token) (context : String) (type : List Token)

/-- A text in parentheses or brackets, behind the tokens in front of it. -/
def enclosedText (d : Delimiter) (front : List Token) : Parser String := inside d do
  exactly front
  textValue

/-- The documentation of a function and its name; `signature` is what follows the name. -/
def functionHead (signature : List Token) : Parser String := do
  exactly (Token.op "#")
  discard (enclosedText .bracket (word "doc" ++ Token.op "="))
  exactly (word "pub" ++ word "fn")
  let name ← anyWord
  exactly signature
  return name

/-- A call of a library function on the store: the function and the key; `value` is what follows the key. -/
def storeCall {α : Type} (value : Parser α) : Parser (String × String × α) := do
  let function ← libraryName runtime ["access"]
  inside .paren do
    exactly (selfField context ++ Token.op "." ++ word "store" ++ paren [] ++ Token.op ",")
    let key ← textValue
    exactly (Token.op ",")
    let a ← value
    return (function, key, a)

def getterCode : Parser GetterCode := do
  let name ← functionHead (paren selfRef ++ Token.op "->" ++ type)
  let (function, key, field) ← inside .brace (storeCall runtime context do
    exactly (Token.op "&" ++ word "self" ++ Token.op ".")
    anyWord)
  return ⟨name, function, key, field⟩

/-- The event that a setter raises with the old and the new value. -/
def raiseCode : Parser String := do
  exactly (word "self" ++ Token.op ".")
  let event ← anyWord
  exactly (paren [] ++ Token.op "." ++ word "raise" ++
    paren (Token.op "&" ++ below runtime ["SettingValueChanged", "new"] ++
      paren (word "old" ++ Token.op "," ++ word "value")) ++ Token.op ";")
  return event

/-- The name that a setter tells. -/
def notifyCode : Parser String := do
  exactly (below runtime [notifyTrait, "property_changed"] ++ paren (word "self") ++ Token.op "." ++ word "raise")
  let name ← inside .paren do
    exactly (Token.op "&" ++ below runtime ["PropertyChangedEventArgs", "new"])
    enclosedText .paren []
  exactly (Token.op ";")
  return name

def setterCode : Parser SetterCode := do
  let name ← functionHead (paren (selfRef ++ Token.op "," ++ word "value" ++ Token.op ":" ++ type))
  inside .brace do
    exactly (word "let" ++ word "old" ++ Token.op "=" ++ word "self" ++ Token.op ".")
    let old ← anyWord
    exactly (paren [] ++ Token.op ";" ++ word "if")
    let comparison ← libraryName runtime ["access"]
    exactly (paren (Token.op "&" ++ word "old" ++ Token.op "," ++ Token.op "&" ++ word "value") ++
      brace (word "return" ++ Token.op ";"))
    let (function, key, _) ← storeCall runtime context (exactly (Token.op "&" ++ word "value"))
    exactly (Token.op ";")
    let notified ← notifyCode runtime
    let raised ← unlessEnd (raiseCode runtime)
    return ⟨name, old, comparison, function, key, notified, raised⟩

def eventCode : Parser EventCode := do
  let name ← functionHead (paren selfRef ++ Token.op "->" ++
    Token.op "::" ++ word "std" ++ Token.op "::" ++ word "sync" ++ Token.op "::" ++ word "Arc" ++ Token.op "<" ++
      below runtime ["Event"] ++ Token.op "<" ++ below runtime ["SettingValueChanged"] ++
      Token.op "<" ++ type ++ Token.op ">>" ++ Token.op ">")
  let property ← inside .brace do
    exactly (selfField context ++ Token.op "." ++ word "value_changed" ++ Token.op "::" ++ Token.op "<" ++ type ++
      Token.op ">")
    enclosedText .paren []
  return ⟨name, property⟩

/-- The functions of one property. -/
def accessorCode : Parser AccessorCode := do
  let getter ← getterCode runtime context type
  let setter ← setterCode runtime context type
  let event ← unlessEnd (eventCode runtime context type)
  return ⟨getter, setter, event⟩

end

/-- What is written for a property, as its readers see it. -/
def Group.code (g : Group) : AccessorCode where
  getter := ⟨g.getter, g.access.read, g.key, g.field⟩
  setter := ⟨g.setter, g.getter, g.access.unchanged, g.access.write, g.key, g.name,
    if g.raisesEvent then some g.event else none⟩
  event := if g.raisesEvent then some ⟨g.event, g.name⟩ else none

section

variable (runtime : List Token) (context : String) (g : Group)

theorem returns_enclosedText (d : Delimiter) (front : List Token) (s : String) :
    (enclosedText d front).Returns (Token.group d (front ++ text s)) s :=
  returns_inside (returns_after front (returns_textValue s)).last

theorem returns_functionHead (documentation name : String) (signature : List Token) :
    (functionHead signature).Returns (doc documentation ++ word "pub" ++ word "fn" ++ word name ++ signature) name := by
  have shape : doc documentation ++ word "pub" ++ word "fn" ++ word name ++ signature =
      Token.op "#" ++ (Token.group .bracket ((word "doc" ++ Token.op "=") ++ text documentation) ++
        ((word "pub" ++ word "fn") ++ ([.ident name] ++ (signature ++ [])))) := by
    simp [doc, word]
  rw [shape]
  refine returns_after _ (returns_bind (returns_discard (returns_enclosedText _ _ _)) ?_)
  exact returns_after _ (returns_bind (returns_anyWord name) (returns_after _ (returns_pure name)))

theorem returns_storeCall {α : Type} (function : String) {value : Parser α} {ts : List Token} {a : α}
    (h : value.Returns ts a) : (storeCall runtime context value).Returns
      (below runtime ["access", function] ++ g.storeArgs context ts) (function, g.key, a) := by
  have shape : g.storeArgs context ts = Token.group .paren (
      (selfField context ++ Token.op "." ++ word "store" ++ paren [] ++ Token.op ",") ++
        (text g.key ++ (Token.op "," ++ (ts ++ [])))) := by
    simp [Group.storeArgs, paren]
  rw [shape]
  refine returns_bind (returns_libraryName runtime ["access"] function) (returns_inside (Returns.last ?_))
  refine returns_after _ (returns_bind (returns_textValue g.key) (returns_after _ ?_))
  exact returns_bind h (returns_pure (function, g.key, a))

theorem returns_getter : (getterCode runtime context g.type.tokens).Returns (g.getterTokens runtime context)
    g.code.getter := by
  have shape : g.getterTokens runtime context =
      (doc g.getterDoc ++ word "pub" ++ word "fn" ++ word g.getter ++
        (paren selfRef ++ Token.op "->" ++ g.type.tokens)) ++
      (Token.group .brace (below runtime ["access", g.access.read] ++
        g.storeArgs context ((Token.op "&" ++ word "self" ++ Token.op ".") ++ [.ident g.field])) ++ []) := by
    simp [Group.getterTokens, brace, selfField, word]
  have call := returns_storeCall runtime context g g.access.read
    (returns_after (Token.op "&" ++ word "self" ++ Token.op ".") (returns_anyWord g.field))
  rw [shape]
  refine returns_bind (returns_functionHead _ _ _) ?_
  exact returns_bind (returns_inside call.last) (returns_pure g.code.getter)

theorem returns_raise : (raiseCode runtime).Returns (g.raiseTokens runtime) g.event := by
  have shape : g.raiseTokens runtime = (word "self" ++ Token.op ".") ++ ([.ident g.event] ++
      ((paren [] ++ Token.op "." ++ word "raise" ++
        paren (Token.op "&" ++ below runtime ["SettingValueChanged", "new"] ++
          paren (word "old" ++ Token.op "," ++ word "value")) ++ Token.op ";") ++ [])) := by
    simp [Group.raiseTokens, selfField, word]
  rw [shape]
  exact returns_after _ (returns_bind (returns_anyWord g.event) (returns_after _ (returns_pure g.event)))

theorem returns_notify : (notifyCode runtime).Returns
    (below runtime [notifyTrait, "property_changed"] ++ paren (word "self") ++ Token.op "." ++ word "raise" ++
      paren (Token.op "&" ++ below runtime ["PropertyChangedEventArgs", "new"] ++ paren (text g.name)) ++
      Token.op ";") g.name := by
  have shape (head front last : List Token) : head ++ paren (front ++ paren (text g.name)) ++ last =
      head ++ (Token.group .paren (front ++ Token.group .paren ([] ++ text g.name)) ++ (last ++ [])) := by
    simp [paren]
  have args := returns_after (Token.op "&" ++ below runtime ["PropertyChangedEventArgs", "new"])
    (returns_enclosedText .paren [] g.name)
  rw [shape]
  exact returns_after _ (returns_bind (returns_inside args.last) (returns_after _ (returns_pure g.name)))

theorem returns_setter : (setterCode runtime context g.type.tokens).Returns (g.setterTokens runtime context)
    g.code.setter := by
  have shape : g.setterTokens runtime context =
      (doc g.setterDoc ++ word "pub" ++ word "fn" ++ word g.setter ++
        paren (selfRef ++ Token.op "," ++ word "value" ++ Token.op ":" ++ g.type.tokens)) ++
      Token.group .brace (
        (word "let" ++ word "old" ++ Token.op "=" ++ word "self" ++ Token.op ".") ++ (word g.getter ++
        ((paren [] ++ Token.op ";" ++ word "if") ++ (below runtime ["access", g.access.unchanged] ++
        ((paren (Token.op "&" ++ word "old" ++ Token.op "," ++ Token.op "&" ++ word "value") ++
          brace (word "return" ++ Token.op ";")) ++
        ((below runtime ["access", g.access.write] ++ g.storeArgs context (Token.op "&" ++ word "value")) ++
        (Token.op ";" ++
        ((below runtime [notifyTrait, "property_changed"] ++ paren (word "self") ++ Token.op "." ++ word "raise" ++
          paren (Token.op "&" ++ below runtime ["PropertyChangedEventArgs", "new"] ++ paren (text g.name)) ++
          Token.op ";") ++
        (if g.raisesEvent then g.raiseTokens runtime else []))))))))) := by
    simp only [Group.setterTokens, brace, selfField, List.append_assoc]
  have raised : (unlessEnd (raiseCode runtime)).ReturnsLast (if g.raisesEvent then g.raiseTokens runtime else [])
      (if g.raisesEvent then some g.event else none) := by
    split
    · exact returnsLast_unlessEnd (returns_raise runtime g) fun _ => rfl
    · exact returnsLast_unlessEnd_nil _
  have call := returns_storeCall runtime context g g.access.write (returns_exactly (Token.op "&" ++ word "value"))
  rw [shape]
  refine returns_bind (returns_functionHead _ _ _) (returns_inside (returnsLast_after _ ?_))
  refine returnsLast_bind (returns_anyWord g.getter) (returnsLast_after _ ?_)
  refine returnsLast_bind (returns_libraryName runtime ["access"] _) (returnsLast_after _ ?_)
  refine returnsLast_bind call (returnsLast_after _ (returnsLast_bind (returns_notify runtime g) ?_))
  exact returnsLast_map raised rfl

theorem returns_event : (eventCode runtime context g.type.tokens).Returns (g.eventTokens runtime context)
    ⟨g.event, g.name⟩ := by
  have shape : g.eventTokens runtime context =
      (doc g.eventDoc ++ word "pub" ++ word "fn" ++ word g.event ++ (paren selfRef ++ Token.op "->" ++
        Token.op "::" ++ word "std" ++ Token.op "::" ++ word "sync" ++ Token.op "::" ++ word "Arc" ++ Token.op "<" ++
        below runtime ["Event"] ++ Token.op "<" ++ below runtime ["SettingValueChanged"] ++
        Token.op "<" ++ g.type.tokens ++ Token.op ">>" ++ Token.op ">")) ++
      (Token.group .brace ((selfField context ++ Token.op "." ++ word "value_changed" ++ Token.op "::" ++
        Token.op "<" ++ g.type.tokens ++ Token.op ">") ++ Token.group .paren ([] ++ text g.name)) ++ []) := by
    unfold Group.eventTokens brace paren
    simp only [List.append_assoc, List.nil_append, List.append_nil]
  have asked := returns_after (selfField context ++ Token.op "." ++ word "value_changed" ++ Token.op "::" ++
    Token.op "<" ++ g.type.tokens ++ Token.op ">") (returns_enclosedText .paren [] g.name)
  rw [shape]
  refine returns_bind (returns_functionHead _ _ _) (returns_bind (returns_inside asked.last) ?_)
  exact returns_pure (EventCode.mk g.event g.name)

theorem isEnd_event (rest : List Token) : isEnd (g.eventTokens runtime context ++ rest) = false := by
  have documented (ts : List Token) : isEnd (doc g.eventDoc ++ ts) = false := rfl
  unfold Group.eventTokens
  simp only [List.append_assoc]
  exact documented _

/-- The functions of a property are read as they were written. -/
theorem returns_accessors : (accessorCode runtime context g.type.tokens).ReturnsLast (g.tokens runtime context)
    g.code := by
  have event : (unlessEnd (eventCode runtime context g.type.tokens)).ReturnsLast
      (if g.raisesEvent then g.eventTokens runtime context else [])
      (if g.raisesEvent then some ⟨g.event, g.name⟩ else none) := by
    split
    · exact returnsLast_unlessEnd (returns_event runtime context g) (isEnd_event runtime context g)
    · exact returnsLast_unlessEnd_nil _
  rw [Group.tokens, List.append_assoc]
  refine returnsLast_bind (returns_getter runtime context g) ?_
  exact returnsLast_bind (returns_setter runtime context g) (returnsLast_map event rfl)

end

/-! ## One property -/

/-- A document holds a missing value itself, so only native values are written and compared in another way where
they may be absent. -/
def optionalPart (strategy : Strategy) (nullable : Bool) : String :=
  if strategy = .native ∧ nullable = true then "_nullable" else ""

def readFunction (strategy : Strategy) (nullable : Bool) : String :=
  "get_" ++ strategy.word ++ if nullable then "_nullable" else ""

def writeFunction (strategy : Strategy) (nullable : Bool) : String :=
  "set_" ++ strategy.word ++ optionalPart strategy nullable

def comparisonFunction (strategy : Strategy) (nullable : Bool) : String :=
  strategy.word ++ optionalPart strategy nullable ++ "_unchanged"

theorem accessFor_eq (strategy : Strategy) (nullable : Bool) : accessFor strategy nullable =
    ⟨readFunction strategy nullable, writeFunction strategy nullable, comparisonFunction strategy nullable⟩ := by
  cases strategy <;> cases nullable <;> decide

/-- The row is that of the property, and the accessors keep the value where and how the row says. -/
structure Agrees (p : Property) (r : Row) (c : AccessorCode) : Prop where
  row : r = rowOf p
  field : c.getter.field = p.field
  keys : c.getter.key = r.key ∧ c.setter.key = r.key
  read : c.getter.function = readFunction r.strategy r.nullable
  write : c.setter.function = writeFunction r.strategy r.nullable
  comparison : c.setter.comparison = comparisonFunction r.strategy r.nullable
  old : c.setter.old = c.getter.name
  notified : c.setter.notified = r.name
  asked : ∀ e ∈ c.event, e.property = r.name
  raised : c.setter.raised = c.event.map (·.name)
  raises : r.raisesEvent = true ↔ c.event.isSome = true ∧ c.setter.raised.isSome = true

theorem agrees_of_groupOf {p : Property} {g : Group} (h : groupOf p = .ok g) : Agrees p (rowOf p) g.code := by
  obtain ⟨-, field, -, access, those⟩ := groupOf_ok h
  have row : rowOf p = ⟨g.name, g.key, p.strategy, p.type.nullable, g.raisesEvent⟩ := by
    rw [rowOf, those.name, those.key, those.raisesEvent]
  rw [accessFor_eq] at access
  rw [row]
  refine ⟨row.symm, field, ⟨rfl, rfl⟩, ?_, ?_, ?_, rfl, rfl, ?_, ?_, ?_⟩
  · simp only [Group.code, access]
  · simp only [Group.code, access]
  · simp only [Group.code, access]
  · intro e mem
    simp only [Group.code] at mem
    split at mem
    · rw [← Option.mem_some.1 mem]
    · cases mem
  · simp only [Group.code]
    split <;> rfl
  · simp only [Group.code]
    cases g.raisesEvent <;> simp

/-! ## Units -/

/-- An implementation for the type, with its own parameters; `trait` is empty or ends in `for`. -/
def implementation (t : Target) (trait body : List Token) : List Token :=
  word "impl" ++ t.generics.declaration ++ trait ++ word t.name ++ t.generics.arguments ++ t.generics.clauseTokens ++
    brace body

/-- The function that gives the table, of rows as code. -/
def rowsFunction (runtime : List Token) (rows : List (List Token)) : List Token :=
  Grammar.functionTokens "setting_properties" Grammar.receiverTokens
    (some (Token.op "&" ++ (Token.lifetime "static" ++ Token.group .bracket (below runtime ["SettingProperty"]))))
    (Grammar.constantTokens "PROPERTIES" (Token.op "&" ++ Token.group .bracket (below runtime ["SettingProperty"]))
      (Token.op "&" ++ Token.group .bracket (listed "," false rows)) ++ word "PROPERTIES")

/-- The code of a unit with these rows, and accessors one after the other. -/
def unitCode (t : Target) (runtime : List Token) (context : String) (rows accessors : List (List Token)) :
    List Token :=
  implementation t (below runtime ["ObservableSettings"] ++ word "for")
    (contextFunction runtime context ++ rowsFunction runtime rows) ++
  (if t.declares notifyTrait then []
    else implementation t (below runtime [notifyTrait] ++ word "for") (notificationFunction runtime context)) ++
  implementation t [] accessors.flatten

theorem tokens_eq_unitCode {t : Target} {ps : List Property} {e : Emitted} (h : emit t ps = .ok (some e))
    (runtime : List Token) : e.tokens runtime = unitCode t runtime e.contextField (e.rows.map (·.tokens runtime))
      (e.groups.map (·.tokens runtime e.contextField)) := by
  obtain ⟨-, -, name, generics, notifies, -⟩ := emit_ok h
  have trait (n : String) : (below runtime [n]).isEmpty = false := by simp [below, Token.op, Token.marks]
  have head (n : String) (body : List Token) : e.implHead (below runtime [n]) ++ brace body =
      implementation t (below runtime [n] ++ word "for") body := by
    simp only [Emitted.implHead, implementation, trait, name, generics, List.append_assoc, Bool.false_eq_true, if_false]
  have table : e.tableTokens runtime = implementation t (below runtime ["ObservableSettings"] ++ word "for")
      (contextFunction runtime e.contextField ++ rowsFunction runtime (e.rows.map (·.tokens runtime))) := by
    rw [← head, Emitted.tableTokens, rowsFunction, listed_eq]
    simp [contextFunction, Grammar.functionTokens, Grammar.constantTokens, Grammar.resultTokens,
      Grammar.receiverTokens, word, paren, brace, selfRef]
  have notification : e.notifyTokens runtime =
      implementation t (below runtime [notifyTrait] ++ word "for") (notificationFunction runtime e.contextField) := by
    rw [← head, Emitted.notifyTokens]
    simp [notificationFunction, Grammar.functionTokens, Grammar.resultTokens, Grammar.receiverTokens, word, paren,
      brace, selfRef, Grammar.member, Grammar.arguments, listed]
  have accessors : e.accessorTokens runtime =
      implementation t [] (e.groups.map (·.tokens runtime e.contextField)).flatten := by
    rw [Emitted.accessorTokens, Emitted.implHead, implementation, name, generics, List.flatMap_def]
    rfl
  rw [Emitted.tokens, unitCode, table, notification, accessors, notifies]
  cases t.declares notifyTrait <;> rfl

/-- The table and the accessors of a unit agree, property by property. -/
theorem table_agrees {t : Target} {context : String} (container : t.container = .module)
    (owner : t.contextField = some context) {ps : List Property} (usable : ∀ p ∈ ps, Usable p)
    (runtime : List Token) : ∃ e, emit t ps = .ok (some e) ∧ ∃ parts : List (List Token × List Token),
      e.tokens runtime = unitCode t runtime context (parts.map (·.1)) (parts.map (·.2)) ∧
      List.Forall₂ (fun p part => ∃ r c, (rowCode runtime).runAll part.1 = some r ∧
        (accessorCode runtime context p.type.declared.tokens).runAll part.2 = some c ∧ Agrees p r c) ps parts := by
  obtain ⟨e, written⟩ := exists_emit container (owner ▸ rfl) usable
  obtain ⟨-, contextField, -, -, -, described⟩ := emit_ok written
  obtain rfl : e.contextField = context := Option.some.inj (contextField.symm.trans owner)
  let parts := e.properties.map fun q => (q.1.tokens runtime, q.2.tokens runtime e.contextField)
  refine ⟨e, written, parts, ?_, ?_⟩
  · rw [tokens_eq_unitCode written]
    simp only [parts, List.map_map, Emitted.rows, Emitted.groups]
    rfl
  · rw [List.forall₂_map_right_iff]
    refine (forall₂_of_describes usable described.rows described.groups).imp fun p q its => ?_
    obtain ⟨row, group, type⟩ := its
    refine ⟨rowOf p, q.2.code, ?_, ?_, agrees_of_groupOf group⟩
    · rw [row]
      exact runAll_of_returnsLast (returns_row runtime (rowOf p)).last
    · rw [← type]
      exact runAll_of_returnsLast (returns_accessors runtime e.contextField q.2)

/-- A type with parameters and a clause that tells of changes by hand, with a native property that raises an event
and a document that may be absent. Its parameters are declared and passed on in each implementation. -/
theorem table_agrees_window :
    let clone : List Part := code [.ident "Clone"]
    let generics : Generics := ⟨[.lifetime [] "a" [], .ty [] "T" clone (some (.named ["String"]))], false,
      code [.ident "where", .ident "T", .mark ':' false, .ident "Default"]⟩
    let window : Target := ⟨⟨["app"], "Window"⟩, "Window", generics, [.ofNames ⟨false, [notifyTrait]⟩], .module,
      some "context"⟩
    let width : Property := ⟨"width", ⟨.named ["i32"], .named ["i32"], false⟩, window.id, none, none, true, none⟩
    let title : Property := ⟨"title", ⟨.path false [.mk "Option" (.angle false [.ty (.named ["T"])] false)],
      .named ["T"], true⟩, window.id, none, some "caption", false, some .json⟩
    let library : List Token := [.ident "settings"]
    (∀ trait body, implementation window trait body =
      .ident "impl" :: .mark '<' false :: Token.lifetime "a" ++ .mark ',' false :: .ident "T" :: .mark ':' false ::
        .ident "Clone" :: .mark '>' false :: trait ++ .ident "Window" :: .mark '<' false :: Token.lifetime "a" ++
        .mark ',' false :: .ident "T" :: .mark '>' false :: .ident "where" :: .ident "T" :: .mark ':' false ::
        .ident "Default" :: Token.group .brace body) ∧
    ∃ e, emit window [width, title] = .ok (some e) ∧ ∃ parts : List (List Token × List Token),
      e.tokens library = implementation window (below library ["ObservableSettings"] ++ word "for")
          (contextFunction library "context" ++ rowsFunction library (parts.map (·.1))) ++
        implementation window [] (parts.map (·.2)).flatten ∧
      List.Forall₂ (fun p part => ∃ r c, (rowCode library).runAll part.1 = some r ∧
        (accessorCode library "context" p.type.declared.tokens).runAll part.2 = some c ∧ Agrees p r c)
        [width, title] parts := by
  intro clone generics window width title library
  have usable : ∀ p ∈ [width, title], Usable p := by decide +kernel
  obtain ⟨e, written, parts, tokens, agree⟩ := table_agrees (t := window) rfl rfl usable library
  refine ⟨fun trait body => ?_, e, written, parts, ?_, agree⟩
  · simp [implementation, window, generics, clone, Generics.declaration, Generics.arguments, Generics.clauseTokens,
      Generics.bracketed, arrange, arrange.mark, arrange.write, word, brace, Part.tokens, code, partTokens, Part.flatten,
      Param.declaration, Param.argument, Param.boundTokens, Param.attrTokens, Param.isLifetime, Token.lifetime]
  · have declared : window.declares notifyTrait = true := by decide
    rw [tokens, unitCode, declared, if_pos rfl, List.append_nil]

end Accessors

end LiveSettings
