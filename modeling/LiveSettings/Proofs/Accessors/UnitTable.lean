import LiveSettings.Proofs.Accessors.UnitCode
import LiveSettings.Proofs.Token.TextLiteral

/-!
# The table of a unit

A reader for the table of properties: it goes through the implementation that holds the table up to the constant,
and reads each row field by field. From the code of a unit it gives the rows that the unit was written with,
whatever characters the names and keys in them are of.

Results:
* `reads_row`: a row is read back.
* `reads_table`: the rows of a unit are read back.
-/

namespace LiveSettings.Accessors

open LiveSettings.Parser LiveSettings.Grammar

/-! ## Reading a table -/

/-- The text of a string literal. -/
def textValue : Parser String := do
  match ← next with
  | .literal t =>
    match Literal.stringValue? t with
    | some s => return s
    | none => failure
  | _ => failure

def truthValue : Parser Bool := do
  match ← anyWord with
  | "true" => return true
  | "false" => return false
  | _ => failure

/-- The strategy that a path ends in. -/
def strategyValue : Parser Strategy := do
  let path ← namePath
  match path.names.getLast? with
  | some "Native" => return .native
  | some "Json" => return .json
  | _ => failure

/-- A field of a record, with the comma behind it. -/
def fieldValue {α : Type} (name : String) (value : Parser α) : Parser α := do
  discard (Parser.word name)
  discard (op ":")
  let a ← value
  discard (op ",")
  return a

def rowRule : Parser Row := do
  discard namePath
  inside .brace do
    let name ← fieldValue "name" textValue
    let key ← fieldValue "key" textValue
    let strategy ← fieldValue "strategy" strategyValue
    let nullable ← fieldValue "nullable" truthValue
    let raisesEvent ← fieldValue "raises_event" truthValue
    return ⟨name, key, strategy, nullable, raisesEvent⟩

/-- The rows in the body of the function that gives the table. -/
def rowsRule (g : Grammar) : Parser (List Row) := do
  discard (Parser.word "const")
  discard ident
  discard (op ":")
  discard g.fullTy
  discard (op "=")
  discard (op "&")
  let (rows, _) ← inside .bracket (separated isEnd "," rowRule)
  discard (op ";")
  discard anyWord
  return rows

/-- The rows of the table, from an implementation of a trait whose second function gives it. -/
def tableRule (g : Grammar) : Parser (List Row) := do
  discard (Parser.word "impl")
  if ← peek startsGenerics then discard g.generics
  discard (g.ty true)
  discard (Parser.word "for")
  discard (g.ty true)
  discard g.clause
  inside .brace do
    discard g.implMember
    discard g.functionHead
    inside .brace (rowsRule g)

/-- The rows of the table in a file that starts with the implementation that holds it. -/
def propertyTable? (text : String) : Option (List Row) := do
  let ts ← Token.ofFile? text
  ((tableRule (forTokens ts)).run ⟨ts, []⟩).map (·.1)

/-! ## Values -/

theorem reads_textValue (s : String) (rest : List Token) : textValue.Reads (text s ++ rest) rest (· = s) := by
  unfold textValue
  refine reads_next_bind.2 ?_
  simp only [Literal.stringValue?_literal]
  exact reads_pure rfl

theorem reads_truthValue (b : Bool) (rest : List Token) : truthValue.Reads (truth b ++ rest) rest (· = b) := by
  cases b <;> exact reads_bind (reads_anyWord _ rest) fun name same => by subst same; exact reads_pure rfl

theorem reads_fieldValue {α : Type} {name : String} {value : Parser α} {ts : List Token} {Q : α → Prop}
    (read : ∀ rest, value.Reads (ts ++ (Token.op "," ++ rest)) (Token.op "," ++ rest) Q) (rest : List Token) :
    (fieldValue name value).Reads (word name ++ Token.op ":" ++ ts ++ Token.op "," ++ rest) rest Q := by
  simp only [List.append_assoc]
  unfold fieldValue
  refine takes_discard_bind (reads_word name _).takes (takes_discard_bind (reads_op ":" _).takes ?_)
  exact reads_bind (read rest) fun a same => takes_discard_bind (reads_op "," _).takes (reads_pure same)

section

variable {runtime : NamePath} (path : IsPath runtime)

include path

theorem reads_strategyValue (strategy : Strategy) (rest : List Token) : strategyValue.Reads
    (below runtime.tokens ["StorageStrategy", strategy.name] ++ (Token.op "," ++ rest)) (Token.op "," ++ rest)
    (· = strategy) := by
  have plain : Plain ["StorageStrategy", strategy.name] :=
    forall_mem_pair.2 ⟨by decide, by cases strategy <;> decide⟩
  obtain ⟨chosen, tokens⟩ := below_eq path _ plain
  rw [tokens]
  unfold strategyValue
  refine reads_bind (reads_namePath chosen.some rfl) fun p same => ?_
  subst same
  have last : (["StorageStrategy", strategy.name].foldl NamePath.push runtime).names.getLast? =
      some strategy.name := by
    simp [NamePath.push]
  rw [last]
  cases strategy <;> exact reads_pure rfl

theorem reads_row (r : Row) (rest : List Token) : rowRule.Reads (r.tokens runtime.tokens ++ rest) rest (· = r) := by
  obtain ⟨isPath, tokens⟩ := below_eq path ["SettingProperty"] (by decide)
  have shape : r.tokens runtime.tokens ++ rest = (["SettingProperty"].foldl NamePath.push runtime).tokens ++
      .opening .brace :: (word "name" ++ Token.op ":" ++ text r.name ++ Token.op "," ++
        (word "key" ++ Token.op ":" ++ text r.key ++ Token.op "," ++
        (word "strategy" ++ Token.op ":" ++ below runtime.tokens ["StorageStrategy", r.strategy.name] ++ Token.op "," ++
        (word "nullable" ++ Token.op ":" ++ truth r.nullable ++ Token.op "," ++
        (word "raises_event" ++ Token.op ":" ++ truth r.raisesEvent ++ Token.op "," ++
          .closing .brace :: rest))))) := by
    rw [← tokens]
    simp [Row.tokens, brace, Token.group]
  rw [shape]
  refine takes_discard_bind (reads_namePath isPath.some rfl).takes (reads_inside ?_)
  refine reads_bind (reads_fieldValue (fun _ => reads_textValue _ _) _) fun name named => ?_
  refine reads_bind (reads_fieldValue (fun _ => reads_textValue _ _) _) fun key keyed => ?_
  refine reads_bind (reads_fieldValue (fun _ => reads_strategyValue path _ _) _) fun strategy chosen => ?_
  refine reads_bind (reads_fieldValue (fun _ => reads_truthValue _ _) _) fun nullable may => ?_
  refine reads_bind (reads_fieldValue (fun _ => reads_truthValue _ _) _) fun raisesEvent raises => ?_
  subst named keyed chosen may raises
  exact reads_pure rfl

/-! ## The table -/

/-- A row is not taken for the end of the rows. -/
theorem isEnd_row (r : Row) (rest : List Token) : isEnd (r.tokens runtime.tokens ++ rest) = false := by
  obtain ⟨first, names, -, start⟩ := path.exists_tokens
  rw [Row.tokens, below, start]
  cases runtime.absolute <;> rfl

variable {depth : Nat}

/-- The rows of the function that gives the table. -/
theorem reads_rows (rows : List Row) (rest : List Token) : (rowsRule (deep (depth + 3))).Reads
    (constantTokens "PROPERTIES" (Token.op "&" ++ Token.group .bracket (below runtime.tokens ["SettingProperty"]))
      (Token.op "&" ++ Token.group .bracket (listed "," false (rows.map (·.tokens runtime.tokens)))) ++
        (word "PROPERTIES" ++ rest)) rest (· = rows) := by
  have shape (behind : List Token) : constantTokens "PROPERTIES"
      (Token.op "&" ++ Token.group .bracket (below runtime.tokens ["SettingProperty"]))
      (Token.op "&" ++ Token.group .bracket (listed "," false (rows.map (·.tokens runtime.tokens)))) ++ behind =
      .ident "const" :: .ident "PROPERTIES" :: (Token.op ":" ++ (Token.op "&" ++
        Token.group .bracket (below runtime.tokens ["SettingProperty"]) ++ (Token.op "=" ++ (Token.op "&" ++
          .opening .bracket :: (listed "," false (rows.map (·.tokens runtime.tokens)) ++
            .closing .bracket :: (Token.op ";" ++ behind)))))) := by
    simp [constantTokens, Token.group]
  have members : (separated isEnd "," rowRule).Reads (listed "," false (rows.map (·.tokens runtime.tokens)) ++
      .closing .bracket :: (Token.op ";" ++ (word "PROPERTIES" ++ rest)))
      (.closing .bracket :: (Token.op ";" ++ (word "PROPERTIES" ++ rest)))
      fun r => List.Forall₂ (fun r s => s = id r) rows r.1 := by
    refine reads_separated (fun _ => True) false rfl trivial (fun _ => ⟨rfl, trivial⟩)
      (fun r _ behind _ => isEnd_row path r behind) (fun r _ behind _ => reads_row path r behind) fun r _ none => ?_
    have opens := isEnd_row path r []
    rw [none] at opens
    cases opens
  rw [shape]
  unfold rowsRule
  refine takes_discard_bind (reads_word "const" _).takes (takes_discard_bind (reads_ident (by decide) _).takes ?_)
  refine takes_discard_bind (reads_op ":" _).takes (takes_discard_bind (takes_rowsTy path _) ?_)
  refine takes_discard_bind (reads_op "=" _).takes (takes_discard_bind (reads_op "&" _).takes ?_)
  refine reads_bind (reads_inside members) fun r same => takes_discard_bind (reads_op ";" _).takes ?_
  refine takes_discard_bind (reads_anyWord "PROPERTIES" _).takes (reads_pure ?_)
  exact (eq_map_of_forall₂ same).trans (List.map_id _)

/-- The rows of an implementation that gives them by its second function. -/
theorem reads_table {name : String} (plain : name ∉ keywords) {trait : NamePath} (of : IsPath trait) {g : Generics}
    (head : IsHead (depth + 3) name g) (first : String × List Token) (member : IsMember (depth + 3) first.1 first.2)
    (rows : List Row) (rest : List Token) : (tableRule (deep (depth + 3))).Reads
      (implementationTokens (some trait) name g
        [first, ("setting_properties", tableFunction runtime.tokens rows)] ++ rest) rest (· = rows) := by
  have shape : implementationTokens (some trait) name g
      [first, ("setting_properties", tableFunction runtime.tokens rows)] ++ rest = .ident "impl" :: (g.declaration ++
        (trait.tokens ++ .ident "for" :: .ident name :: (g.arguments ++ (g.clauseTokens ++
          .opening .brace :: (first.2 ++ (tableFunction runtime.tokens rows ++ .closing .brace :: rest)))))) := by
    simp [implementationTokens, traitTokens, membersTokens, Token.group]
  have function : tableFunction runtime.tokens rows ++ .closing .brace :: rest = .ident "fn" ::
      .ident "setting_properties" :: (Token.group .paren receiverTokens ++ (resultTokens (some (Token.op "&" ++
        (Token.lifetime "static" ++ Token.group .bracket (below runtime.tokens ["SettingProperty"])))) ++
          .opening .brace :: (constantTokens "PROPERTIES"
          (Token.op "&" ++ Token.group .bracket (below runtime.tokens ["SettingProperty"]))
          (Token.op "&" ++ Token.group .bracket (listed "," false (rows.map (·.tokens runtime.tokens)))) ++
            (word "PROPERTIES" ++ .closing .brace :: .closing .brace :: rest)))) := by
    simp [tableFunction, functionTokens, Token.group]
  have body : (inside .brace do
      discard (deep (depth + 3)).implMember
      discard (deep (depth + 3)).functionHead
      inside .brace (rowsRule (deep (depth + 3)))).Reads
      (.opening .brace :: (first.2 ++ (tableFunction runtime.tokens rows ++ .closing .brace :: rest))) rest
      (· = rows) := by
    refine reads_inside (takes_discard_bind (member.reads _).takes ?_)
    rw [function]
    have typed : ∀ t ∈ some (Token.op "&" ++ (Token.lifetime "static" ++
        Token.group .bracket (below runtime.tokens ["SettingProperty"]))), IsTy true (depth + 3) t :=
      fun t mem => Option.mem_some.1 mem ▸ isTy_table path
    refine takes_discard_bind ?_ (reads_inside (reads_rows path rows _))
    exact (reads_functionHead (by decide) isParams_receiver typed rfl rfl).takes
  obtain ⟨ends, clause⟩ := head.clause (.opening .brace :: (first.2 ++ (tableFunction runtime.tokens rows ++
    .closing .brace :: rest))) rfl
  have type := head.type _ ends
  obtain ⟨params, -⟩ := startsType_spec plain (fun p mem => Option.mem_some.1 mem ▸ of)
    (g.arguments ++ (g.clauseTokens ++ .opening .brace :: (first.2 ++ (tableFunction runtime.tokens rows ++
      .closing .brace :: rest))))
  rw [traitTokens, List.append_assoc, List.singleton_append] at params
  obtain ⟨declared, undeclared⟩ := head.declaration params
  rw [shape]
  unfold tableRule
  refine takes_discard_bind (reads_word "impl" _).takes (reads_peek_bind.2 (reads_when_bind declared undeclared ?_))
  refine takes_discard_bind (reads_namePathTy true _ of (endsTy_word true "for" _)).takes ?_
  refine takes_discard_bind (reads_word "for" _).takes (takes_discard_bind type.takes ?_)
  exact takes_discard_bind clause body

end

end LiveSettings.Accessors
