import LiveSettings.Code.Grammar.Expressions
import LiveSettings.Token.Lexer

/-!
# Reading items

Declarations, implementations and the statements of a block. What matters of an item is kept; the items
inside code that is only skipped are collected as its inner items.
-/

namespace LiveSettings.Grammar

open LiveSettings.Parser

/-! ## Visibility and functions -/

/-- Who may see an item; a parenthesis behind `pub` may also start a type. -/
def visibility : Parser (List Part) := do
  if !(← peek (isWord "pub")) then return []
  let mark ← word "pub"
  if ← Parser.succeeds (group .paren restricted) then return mark ++ (← group .paren restricted)
  return mark
where
  restricted : Parser (List Part) := do
    if ← peek (isWord "in") then
      let mark ← word "in"
      return mark ++ code (← namePath).tokens
    guarded (["crate", "self", "super"].any (isWord · (← ahead)))
    anyWordCode

/-- Whether a function is declared here, behind the words that may stand in front of `fn`. -/
def startsFunction (ts : List Token) : Bool :=
  let ts := dropWord "const" ts
  let ts := dropWord "async" ts
  let ts := dropWord "unsafe" ts
  let ts := if isWord "extern" ts then
      let rest := ts.drop 1
      if isText rest then rest.drop 1 else rest
    else ts
  isWord "fn" ts
where
  dropWord (w : String) (ts : List Token) : List Token := if isWord w ts then ts.drop 1 else ts

/-- The receiver of a method. -/
def receiver (g : Grammar) : Parser (List Part) := do
  let byReference ← optional (isOp "&") (seq [op "&", optLifetime])
  let head ← seq [optWord "mut", word "self"]
  if byReference.isEmpty then
    return head ++ (← optional (isOp ":") (seq [op ":", g.tyCode]))
  return byReference ++ head

/-- An argument of a function, and whether no other may follow. Only the first may be a receiver; three dots
end the list. -/
def functionParam (g : Grammar) (first : Bool) : Parser (List Part × Bool) := do
  let attrs ← g.outerAttrsCode
  if ← peek (isOp "...") then return (attrs ++ (← seq [op "...", optOp ","]), true)
  if ← Parser.succeeds g.receiver then
    guarded first
    return (attrs ++ (← g.receiver), false)
  if ← peek fun ts => isIdent ts && second (isOp "<") ts then return (attrs ++ (← g.tyCode), false)
  let pattern ← seq [g.pattern, op ":"]
  if ← peek (isOp "...") then return (attrs ++ pattern ++ (← seq [op "...", optOp ","]), true)
  return (attrs ++ pattern ++ (← g.tyCode), false)

/-- The arguments of a function; each round takes a token. -/
def functionParams (g : Grammar) : Nat → Bool → Parser (List Part)
  | 0, _ => failure
  | fuel + 1, first => do
    if ← peek isEnd then return []
    let (param, last) ← g.functionParam first
    let ended ← peek isEnd
    if last || ended then return param
    let comma ← op ","
    return param ++ comma ++ (← functionParams g fuel false)

/-- The head of a function: its name, and all of its code. -/
def functionHead (g : Grammar) : Parser (String × List Part) := do
  let start ← seq [optWord "const", optWord "async", optWord "unsafe", callConvention, word "fn"]
  let name ← Parser.ident
  let params ← g.genericsCode
  let fuel := (← ahead).length + 1
  let rest ← seq [group .paren (g.functionParams fuel true), g.result true, g.clause]
  return (name, start ++ [.token (.ident name)] ++ params ++ rest)

/-- The items directly in the body of a function. -/
def functionBody (g : Grammar) : Parser (List Item) :=
  inside .brace do
    discard g.innerAttrs
    return (← g.statements).2

/-- A function as an item. Without a body it is none, but the items in its head count. -/
def functionItem (g : Grammar) : Parser Item := do
  let ((name, body), inner) ← collecting do
    let (name, _) ← g.functionHead
    if ← peek (isOp ";") then
      discard (op ";")
      return (name, none)
    return (name, some (← g.functionBody))
  match body with
  | some body => return .function name body inner
  | none => return .other inner

/-! ## Fields -/

def namedField (g : Grammar) : Parser Field := do
  let attrs ← g.outerAttrs
  discard visibility
  if ← peek (isWord "_") then
    let name ← anyWord
    discard (op ":")
    let ts ← ahead
    if isWord "struct" ts || (isWord "union" ts && second (isOpening .brace) ts) then
      let shape ← verbatim do
        discard anyWord
        inside .brace raw
      return ⟨attrs, name, .shaped .verbatim [.embedded (.verbatim true) (code shape)]⟩
    return ⟨attrs, name, ← g.fullTy⟩
  let name ← Parser.ident
  discard (op ":")
  return ⟨attrs, name, ← g.fullTy⟩

def namedFields (g : Grammar) : Parser (List Field) :=
  inside .brace (Prod.fst <$> separated isEnd "," g.namedField)

def unnamedField (g : Grammar) : Parser (List Attr × Ty) := do
  let attrs ← g.outerAttrs
  discard visibility
  return (attrs, ← g.fullTy)

def unnamedFields (g : Grammar) : Parser (List (List Attr × Ty)) :=
  inside .paren (Prod.fst <$> separated isEnd "," g.unnamedField)

/-- A struct from its keyword on. -/
def structRest (g : Grammar) (attrs : List Attr) : Parser Struct := do
  discard (word "struct")
  let name ← Parser.ident
  let params ← g.generics
  let before ← peek (isWord "where")
  let clause ← g.clause
  let ts ← ahead
  if !before && isOpening .paren ts then
    let fields ← g.unnamedFields
    let clause ← g.clause
    discard (op ";")
    return ⟨attrs, name, { params with clause }, .unnamed fields⟩
  else if isOpening .brace ts then
    return ⟨attrs, name, { params with clause }, .named (← g.namedFields)⟩
  else
    discard (op ";")
    return ⟨attrs, name, { params with clause }, .unit⟩

/-- A variant of an enum; a value may be given. -/
def variant (g : Grammar) : Parser Unit := do
  discard g.outerAttrs
  discard visibility
  discard Parser.ident
  let ts ← ahead
  if isOpening .brace ts then discard g.namedFields
  else if isOpening .paren ts then discard g.unnamedFields
  if ← peek (isOp "=") then
    discard (op "=")
    discard g.fullExpr

/-- An enum from its keyword on. -/
def enumRest (g : Grammar) : Parser String := do
  discard (word "enum")
  let name ← Parser.ident
  discard g.generics
  discard g.clause
  discard (inside .brace (separated isEnd "," g.variant))
  return name

/-- A union from its keyword on. -/
def unionRest (g : Grammar) : Parser String := do
  discard (word "union")
  let name ← Parser.ident
  discard g.generics
  discard g.clause
  discard g.namedFields
  return name

/-- A struct, enum or union with its attributes. -/
def declarationRule (g : Grammar) : Parser Declaration := do
  let attrs ← g.outerAttrs
  discard visibility
  let ts ← ahead
  if isWord "struct" ts then return .struct (← g.structRest attrs)
  else if isWord "enum" ts then
    let _ ← g.enumRest
    return .enum
  else if isWord "union" ts then
    let _ ← g.unionRest
    return .union
  else failure

/-! ## Imports -/

/-- What an import names; `none` where a name starts at a crate root inside braces, which an import may not
do. Each round takes a token. -/
def useTreeLoop : Nat → Bool → Parser (Option UseTree)
  | 0, _ => failure
  | fuel + 1, roots => do
    let ts ← ahead
    if isIdent ts || isSelfWord ts then
      let name ← anyWord
      if ← peek (isOp "::") then
        discard (op "::")
        return (← useTreeLoop fuel false).map (.path name)
      else if ← peek (isWord "as") then
        discard anyWord
        guarded (isIdent (← ahead) || isWord "_" (← ahead))
        return some (.rename name (← anyWord))
      else return some (.name name)
    else if isOp "*" ts then
      discard (op "*")
      return some .glob
    else if isOpening .brace ts then
      let (trees, _) ← inside .brace (separated isEnd "," do
        if ← peek fun ts => roots && isOp "::" ts then
          discard (op "::")
          discard (useTreeLoop fuel false)
          return none
        else useTreeLoop fuel roots)
      return (trees.mapM id).map .group
    else failure

/-- An import from its keyword on. -/
def importsRest : Parser Item := do
  discard (word "use")
  let absolute ← peek (isOp "::")
  discard (optOp "::")
  let tree ← useTreeLoop ((← ahead).length + 1) (!absolute)
  discard (op ";")
  match tree with
  | some tree => return .imports absolute tree
  | none => return .other []

/-! ## Members and other items -/

/-- Runs a rule whose code is not kept, and gives the items inside it. -/
def skipped (p : Parser α) : Parser Item := do
  let (_, inner) ← collecting p
  return .other inner

/-- A constant from its keyword on; the value may be left out. -/
def constantRest (g : Grammar) : Parser Unit := do
  discard (word "const")
  discard (if ← peek (isWord "_") then anyWord else Parser.ident)
  discard g.generics
  discard (seq [op ":", g.tyCode, optional (isOp "=") (seq [op "=", g.fullExpr]), g.clause, op ";"])

/-- A static from its keyword on. The type may be left out, or the value. -/
def staticRest (g : Grammar) : Parser Unit := do
  discard (seq [word "static", optWord "mut", identCode])
  if ← peek (isOp "=") then discard (seq [op "=", g.fullExpr, op ";"])
  else discard (seq [op ":", g.tyCode, optional (isOp "=") (seq [op "=", g.fullExpr]), op ";"])

/-- A type alias from its keyword on: its name, and whether it only has a definition. Bounds may stand in its
place; a clause stands before or behind the definition. -/
def aliasRest (g : Grammar) (before after : Bool) : Parser (String × Bool) := do
  discard (word "type")
  let name ← Parser.ident
  discard g.generics
  let bounded ← peek (isOp ":")
  if bounded then
    discard (op ":")
    discard (separatedCode endsBounds "+" (g.bound false))
  let early ← if before then g.clause else pure []
  let defined ← peek (isOp "=")
  discard (optional (isOp "=") (seq [op "=", g.tyCode]))
  if after && early.isEmpty then discard g.clause
  discard (op ";")
  return (name, defined && !bounded)
where
  endsBounds (ts : List Token) : Bool := isWord "where" ts || isOp "=" ts || isOp ";" ts

/-- A macro call as an item; without braces a semicolon follows. -/
def macroItem (named : Bool) : Parser Unit := do
  discard namePath
  discard (op "!")
  if named then discard (optional (fun ts => isIdent ts || isWord "try" ts) anyWordCode)
  let (d, _) ← rawGroup
  if d ≠ .brace then discard (op ";")

def startsMacroItem (ts : List Token) : Bool :=
  isIdent ts || ["self", "super", "crate"].any (isWord · ts) || isOp "::" ts

/-- The keyword `default` where it is one. -/
def startsDefault (ts : List Token) : Bool := isWord "default" ts && !second (isOp "!") ts

/-- A member of an implementation. -/
def implMember (g : Grammar) : Parser Item := do
  discard g.outerAttrs
  let visible ← visibility
  let specialised ← peek startsDefault
  if specialised then discard anyWord
  let ts ← ahead
  if startsFunction ts then g.functionItem
  else if isWord "const" ts then skipped g.constantRest
  else if isWord "type" ts then skipped (g.aliasRest false true)
  else if visible.isEmpty && !specialised && startsMacroItem ts then skipped (macroItem false)
  else failure

/-- The clause of an implementation, which is not kept, and its members. -/
def implMembers (g : Grammar) : Parser (List Item) := do
  discard g.clause
  inside .brace do
    discard g.innerAttrs
    many (fun ts => !isEnd ts) g.implMember

/-- An implementation from its first word on. One that is visible, conditional or of no trait by name does
not count. -/
def implementationRest (g : Grammar) (visible : Bool) : Parser Item := do
  discard (seq [optWord "default", optWord "unsafe", word "impl"])
  if ← peek startsGenerics then discard g.generics
  let conditional ← peek fun ts => isWord "const" ts || (isOp "?" ts && second (isWord "const") ts)
  if conditional then discard (seq [optOp "?", word "const"])
  let start ← ahead
  let negative ← peek fun ts => isOp "!" ts && !second (isOpening .brace) ts
  if negative then discard (op "!")
  let first ← g.fullTy
  let after ← ahead
  let forType ← peek (isWord "for")
  let self ←
    if forType then
      discard anyWord
      g.fullTy
    else if negative then
      pure (.shaped .verbatim (code (start.take (start.length - after.length))))
    else pure first
  let members ← g.implMembers
  let trait := match first with
    | .path absolute segments => some (Path.mk absolute segments)
    | _ => none
  if visible || conditional || (forType && trait.isNone) then
    return .other members
  match forType, trait with
  | true, some t => return .implementation (if negative then .negative t else .positive t) self members
  | _, _ => return .implementation .inherent self members

/-- A member of a trait. -/
def traitMember (g : Grammar) : Parser Unit := do
  discard g.outerAttrs
  let visible ← visibility
  let specialised ← peek startsDefault
  if specialised then discard anyWord
  let ts ← ahead
  if startsFunction ts then
    discard g.functionHead
    if ← peek (isOpening .brace) then note (← g.functionBody)
    else discard (op ";")
  else if isWord "const" ts then g.constantRest
  else if isWord "type" ts then discard (g.aliasRest false true)
  else if visible.isEmpty && !specialised && startsMacroItem ts then macroItem false
  else failure

/-- A trait or the alias of a trait, from its first word on. -/
def traitRest (g : Grammar) : Parser Unit := do
  let marks ← seq [optWord "unsafe", optWord "auto"]
  discard (seq [word "trait", identCode, g.genericsCode])
  if marks.isEmpty && (← peek (isOp "=")) then
    discard (seq [op "=", chainedCode (fun ts => isWord "where" ts || isOp ";" ts) "+" (g.bound false),
      g.clause, op ";"])
  else
    if ← peek (isOp ":") then
      discard (g.boundsUpTo fun ts => isWord "where" ts || isOpening .brace ts)
    discard g.clause
    discard (inside .brace do
      discard g.innerAttrs
      many (fun ts => !isEnd ts) g.traitMember)

/-- A member of a block of foreign declarations. -/
def foreignMember (g : Grammar) : Parser Unit := do
  discard g.outerAttrs
  let visible ← visibility
  discard (optional (fun ts => isWord "safe" ts && !second (isOp "!") ts) anyWordCode)
  let ts ← ahead
  if startsFunction ts then
    discard g.functionHead
    if ← peek (isOpening .brace) then note (← g.functionBody)
    else discard (op ";")
  else if isWord "static" ts then g.staticRest
  else if isWord "unsafe" ts && second (isWord "static") ts then
    discard anyWord
    g.staticRest
  else if isWord "type" ts then discard (g.aliasRest true true)
  else if visible.isEmpty && startsMacroItem ts then macroItem false
  else failure

def foreignRest (g : Grammar) : Parser Unit := do
  discard (seq [optWord "unsafe", callConvention])
  discard (inside .brace do
    discard g.innerAttrs
    many (fun ts => !isEnd ts) g.foreignMember)

def externCrateRest : Parser Unit := do
  discard (seq [word "extern", word "crate"])
  discard (if ← peek (isWord "self") then anyWord else Parser.ident)
  if ← peek (isWord "as") then
    discard anyWord
    discard (if ← peek (isWord "_") then anyWord else Parser.ident)
  discard (op ";")

/-- A module from its first word on. -/
def moduleRest (g : Grammar) : Parser Item := do
  discard (seq [optWord "unsafe", word "mod"])
  let name ← if ← peek (isWord "try") then anyWord else Parser.ident
  if ← peek (isOp ";") then
    discard (op ";")
    return .other []
  let items ← inside .brace do
    discard g.innerAttrs
    many (fun ts => !isEnd ts) g.item
  return .module name items

/-- A macro declared by the keyword `macro`. -/
def macroRest : Parser Unit := do
  discard (seq [word "macro", identCode, optional (isOpening .paren) rawGroupCode])
  discard (inside .brace raw)

/-- An item behind its attributes. -/
def itemRest (g : Grammar) (attrs : List Attr) : Parser Item := do
  let visible ← visibility
  let ts ← ahead
  let next := ts.drop 1
  if startsFunction ts then g.functionItem
  else if isWord "extern" ts then
    if isWord "crate" next then skipped externCrateRest else skipped g.foreignRest
  else if isWord "use" ts then importsRest
  else if isWord "static" ts then skipped g.staticRest
  else if isWord "const" ts then skipped g.constantRest
  else if isWord "unsafe" ts then
    if isWord "trait" next || isWord "auto" next then skipped g.traitRest
    else if isWord "impl" next then g.implementationRest !visible.isEmpty
    else if isWord "extern" next then skipped g.foreignRest
    else if isWord "mod" next then g.moduleRest
    else failure
  else if isWord "mod" ts then g.moduleRest
  else if isWord "type" ts then
    let (name, plain) ← g.aliasRest true false
    return if plain then .typeName name else .other []
  else if isWord "struct" ts then return .struct (← g.structRest attrs)
  else if isWord "enum" ts then return .typeName (← g.enumRest)
  else if isWord "union" ts && isIdent next then return .typeName (← g.unionRest)
  else if isWord "trait" ts || (isWord "auto" ts && isWord "trait" next) then skipped g.traitRest
  else if isWord "impl" ts || startsDefault ts then g.implementationRest !visible.isEmpty
  else if isWord "macro" ts then skipped macroRest
  else if visible.isEmpty && startsMacroItem ts then skipped (macroItem true)
  else failure

def itemRule (g : Grammar) : Parser Item := do
  let attrs ← g.outerAttrs
  g.itemRest attrs

/-! ## Statements -/

/-- Whether an item starts here, behind the attributes of a statement. -/
def startsItem (ts : List Token) : Bool :=
  ["pub", "extern", "use", "fn", "mod", "type", "struct", "enum", "trait", "impl", "macro"].any
    (isWord · ts) ||
  (isWord "crate" ts && !second (isOp "::") ts) ||
  (isWord "static" ts && (second (isWord "mut") ts || second isIdent ts)) ||
  (isWord "const" ts && !(second (isOpening .brace) ts || second (isWord "static") ts ||
    (second (isWord "async") ts &&
      !(third (isWord "unsafe") ts || third (isWord "extern") ts || third (isWord "fn") ts)) ||
    second (isWord "move") ts || second (isOp "|") ts)) ||
  (isWord "unsafe" ts && !second (isOpening .brace) ts) ||
  (isWord "async" ts &&
    (second (isWord "unsafe") ts || second (isWord "extern") ts || second (isWord "fn") ts)) ||
  (isWord "union" ts && second isIdent ts) ||
  (isWord "auto" ts && second (isWord "trait") ts) ||
  (isWord "default" ts && (second (isWord "unsafe") ts || second (isWord "impl") ts))

/-- A path and an exclamation mark start a statement: the tokens behind the mark. -/
def behindBang : Parser (Option (List Token)) := do
  match ← behind namePath with
  | some ts => return if isOp "!" ts then some (ts.drop 1) else none
  | none => return none

/-- A binding. Where the value does not end in a block, an alternative may follow it. -/
def binding (g : Grammar) : Parser (List Part) := do
  let head ← seq [word "let", g.pattern, optional (isOp ":") (seq [op ":", g.tyCode])]
  if ← peek (isOp "=") then
    let value ← seq [op "=", g.fullExpr]
    let ended := match (Part.tokens value).getLast? with
      | some (.closing .brace) => true
      | _ => false
    let other ← if !ended && (← peek (isWord "else")) then seq [word "else", g.block false] else pure []
    return head ++ value ++ other ++ (← op ";")
  return head ++ (← op ";")

/-- A statement: its code, the item that it is, and whether a semicolon is missing. -/
def statement (g : Grammar) : Parser (List Part × List Item × Bool) := do
  let before ← ahead
  let attrs ← g.outerAttrs
  let bang ← behindBang
  let ts ← ahead
  let blockCall := bang.any fun ts => isOpening .brace ts && !second (isOp ".") ts && !second (isOp "?") ts
  if blockCall then
    let call ← seq [(return code (← namePath).tokens), op "!", rawGroupCode, optOp ";"]
    return (attrsCode attrs ++ call, [], false)
  else if isWord "let" ts then return (attrsCode attrs ++ (← g.binding), [], false)
  else if startsItem ts || bang.any (fun ts => isIdent ts || isWord "try" ts) then
    let item ← g.itemRest attrs
    let after ← ahead
    return (code (before.take (before.length - after.length)), [item], false)
  else
    let e ← g.lead
    let semi ← optOp ";"
    return (attrsCode attrs ++ e.code ++ semi, [],
      semi.isEmpty && !e.kind.standsAlone)

/-- Statements up to the end of the group. A statement that needs a semicolon may lack it only at the end. -/
def statementsLoop (g : Grammar) : Nat → Parser (List Part × List Item)
  | 0 => failure
  | fuel + 1 => do
    let ts ← ahead
    if isEnd ts then return ([], [])
    if isOp ";" ts then
      let semi ← op ";"
      let (rest, items) ← statementsLoop g fuel
      return (semi ++ rest, items)
    let (parts, here, unfinished) ← g.statement
    guarded (!unfinished || isEnd (← ahead))
    let (rest, items) ← statementsLoop g fuel
    return (parts ++ rest, here ++ items)

def statementsRule (g : Grammar) : Parser (List Part × List Item) := do
  g.statementsLoop ((← ahead).length + 1)

/-! ## The whole grammar -/

/-- The rules over the rules below them. -/
def step (g : Grammar) : Grammar where
  ty := g.tyRule
  bound := g.boundRule
  expr := g.exprRule
  operand := g.operandRule
  operation := g.operationRule
  lead := g.leadRule
  pattern := g.patternRule
  statements := g.statementsRule
  item := g.itemRule

/-- The grammar for code in which rules refer to each other at most `depth` times. -/
def deep (depth : Nat) : Grammar := depth.repeat step empty

/-- The grammar that is deep enough for the tokens: between two tokens few rules refer to each other. -/
def forTokens (ts : List Token) : Grammar := deep (8 * (ts.length + 4))

end LiveSettings.Grammar

namespace LiveSettings

/-- Reads the tokens with a rule of the grammar. -/
def parseTokens? (rule : Grammar → Parser α) (ts : List Token) : Option α :=
  (rule (Grammar.forTokens ts)).runAll ts

/-- Reads a text with a rule of the grammar. -/
def parseText? (rule : Grammar → Parser α) (text : String) : Option α := do
  parseTokens? rule (← Token.ofText? text)

end LiveSettings
