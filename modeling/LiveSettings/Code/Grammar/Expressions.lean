import LiveSettings.Code.Grammar.Patterns

/-!
# Reading expressions

An expression is read for its code; its kind says which operators may follow it and whether a statement
needs a semicolon after it.
-/

namespace LiveSettings.Grammar

open LiveSettings.Parser

/-! ## Operators -/

/-- The binary operators, longer ones before those that they start with. -/
def binaryOps : List (String × Precedence) :=
  [("+=", .assign), ("-=", .assign), ("*=", .assign), ("/=", .assign), ("%=", .assign),
   ("^=", .assign), ("&=", .assign), ("|=", .assign), ("<<=", .assign), (">>=", .assign),
   ("&&", .and), ("||", .or), ("<<", .shift), (">>", .shift), ("==", .compare), ("<=", .compare),
   ("!=", .compare), (">=", .compare), ("+", .sum), ("-", .sum), ("*", .product), ("/", .product),
   ("%", .product), ("^", .bitXor), ("&", .bitAnd), ("|", .bitOr), ("<", .compare), (">", .compare)]

def binaryOp? (ts : List Token) : Option (String × Precedence) :=
  binaryOps.find? fun o => isOp o.1 ts

def isAssign (ts : List Token) : Bool := isOp "=" ts && !isOp "=>" ts

/-- How tightly the operator that stands here binds. -/
def nextPrecedence (ts : List Token) : Precedence :=
  match binaryOp? ts with
  | some (_, p) => p
  | none =>
    if isAssign ts then .assign
    else if isOp ".." ts then .range
    else if isWord "as" ts then .cast
    else .lowest

/-- The right side of an operator: operands as long as the operators between them bind tighter. -/
def rightSideLoop (g : Grammar) (records : Bool) (base : Precedence) : Nat → Expr → Parser Expr
  | 0, _ => failure
  | fuel + 1, rhs => do
    let before ← ahead
    let next := nextPrecedence before
    if base.rank < next.rank || (next = base && base = .assign) then
      let rhs ← g.operation rhs records next
      if (← ahead).length = before.length then return rhs
      rightSideLoop g records base fuel rhs
    else return rhs

def rightSide (g : Grammar) (records : Bool) (base : Precedence) : Parser (List Part) := do
  let first ← g.operand records
  return (← g.rightSideLoop records base ((← ahead).length + 1) first).code

/-- Marks and words before which a range ends. -/
def endsRange (records : Bool) (ts : List Token) : Bool :=
  isEnd ts || (isOp "." ts && !isOp ".." ts) || (!records && isOpening .brace ts) || isWord "as" ts ||
    [",", ";", "?", "=>", "=", "+", "/", "%", "^", ">", "<=", "!=", "-=", "*=", "&=", "|=", "<<="].any
      (isOp · ts)

/-- A range from its marks on. -/
def rangeFrom (g : Grammar) (records : Bool) : Parser (List Part) := do
  let marks ← rangeMarks false
  if marks.length = 2 && (← peek (endsRange records)) then return marks
  return marks ++ (← g.rightSide records .range)

/-- After a conversion no part of the value can be taken. -/
def noTrailer (ts : List Token) : Bool :=
  !((isOp "." ts && !isOp ".." ts) || isOp "?" ts || isOpening .bracket ts || isOpening .paren ts)

/-- Binary operators after an operand, as long as they bind at least as tightly as `base`. -/
def operationLoop (g : Grammar) (records : Bool) (base : Precedence) : Nat → Expr → Parser Expr
  | 0, _ => failure
  | fuel + 1, lhs => do
    let ts ← ahead
    if lhs.kind = .range then return lhs
    match binaryOp? ts with
    | some (spelling, p) =>
      if p.rank < base.rank then return lhs
      guarded (!(p = .compare && lhs.kind = .binary true))
      let mark ← op spelling
      let rhs ← g.rightSide records p
      operationLoop g records base fuel
        ⟨lhs.code ++ mark ++ rhs, .binary (p = .compare)⟩
    | none =>
      if isAssign ts && base.rank ≤ Precedence.assign.rank then
        let mark ← op "="
        let rhs ← g.rightSide records .assign
        operationLoop g records base fuel ⟨lhs.code ++ mark ++ rhs, .assign⟩
      else if isOp ".." ts && base.rank ≤ Precedence.range.rank then
        let rest ← g.rangeFrom records
        operationLoop g records base fuel ⟨lhs.code ++ rest, .range⟩
      else if isWord "as" ts then
        let mark ← word "as"
        let type ← g.ty false
        guarded (noTrailer (← ahead))
        operationLoop g records base fuel ⟨lhs.code ++ mark ++ [.ty type], .cast⟩
      else return lhs

def operationRule (g : Grammar) (lhs : Expr) (records : Bool) (base : Precedence) : Parser Expr := do
  g.operationLoop records base ((← ahead).length + 1) lhs

/-! ## Control flow -/

/-- Whether an expression can start here. -/
def startsExpr (ts : List Token) : Bool :=
  (isAnyWord ts && !isWord "as" ts) || isOpening .paren ts || isOpening .bracket ts ||
    isOpening .brace ts || isLiteral ts || (isOp "!" ts && !isOp "!=" ts) ||
    (isOp "-" ts && !isOp "-=" ts && !isOp "->" ts) || (isOp "*" ts && !isOp "*=" ts) ||
    (isOp "|" ts && !isOp "|=" ts) || (isOp "&" ts && !isOp "&=" ts) || isOp ".." ts ||
    (isOp "<" ts && !isOp "<=" ts && !isOp "<<=" ts) || isOp "::" ts || isLifetime ts || isOp "#" ts

/-- An expression before a block: a path in front of the block is no record. -/
def condition (g : Grammar) : Parser (List Part) := return (← g.expr false).code

def conditionalLoop (g : Grammar) : Nat → Parser (List Part)
  | 0 => failure
  | fuel + 1 => do
    let head ← seq [word "if", g.condition, g.block false]
    if ← peek (isWord "else") then
      let mark ← word "else"
      if ← peek (isWord "if") then return head ++ mark ++ (← conditionalLoop g fuel)
      return head ++ mark ++ (← g.block false)
    return head

def conditional (g : Grammar) : Parser (List Part) := do g.conditionalLoop ((← ahead).length + 1)

def whileLoop (g : Grammar) : Parser (List Part) := seq [word "while", g.condition, g.block true]

def forLoop (g : Grammar) : Parser (List Part) :=
  seq [word "for", g.alternatives, word "in", g.condition, g.block true]

def endlessLoop (g : Grammar) : Parser (List Part) := seq [word "loop", g.block true]

/-- A loop or block with a label. -/
def labeled (g : Grammar) : Parser Expr := do
  let label ← seq [lifetimeCode, op ":"]
  let ts ← ahead
  if isWord "while" ts then return ⟨label ++ (← g.whileLoop), .whileLoop⟩
  else if isWord "for" ts then return ⟨label ++ (← g.forLoop), .forLoop⟩
  else if isWord "loop" ts then return ⟨label ++ (← g.endlessLoop), .endlessLoop⟩
  else return ⟨label ++ (← g.block true), .block⟩

/-- Whether generic parameters, and not a path into a type, start here. -/
def startsGenerics (ts : List Token) : Bool :=
  isOp "<" ts && (second (isOp ">") ts || second (isOp "#") ts ||
    ((second isLifetime ts || second isIdent ts) &&
      (third (isOp ">") ts || third (isOp ",") ts || (third (isOp ":") ts && !third (isOp "::") ts) ||
        third (isOp "=") ts)) ||
    second (isWord "const") ts)

/-- An arm of a `match`. A body that is no block needs a comma, unless it is the last. -/
def arm (g : Grammar) : Parser (List Part) := do
  let head ← seq [g.outerAttrsCode, g.alternatives,
    optional (isWord "if") (seq [word "if", g.fullExpr]), op "=>"]
  let body ← g.lead
  let ends ← peek isEnd
  let comma ← if body.kind.isBlock || ends then optOp "," else op ","
  return head ++ body.code ++ comma

def matching (g : Grammar) : Parser (List Part) :=
  seq [word "match", g.condition, group .brace (seq [g.innerAttrs, List.flatten <$> many (fun ts => !isEnd ts) g.arm])]

/-- The expression in front that ends in a block, if there is one. A `const` block counts, a `const`
closure does not. -/
def control? (g : Grammar) (ts : List Token) : Option (Parser Expr) :=
  if isWord "if" ts then kind .conditional g.conditional
  else if isWord "while" ts then kind .whileLoop g.whileLoop
  else if isWord "for" ts && !startsGenerics (ts.drop 1) then kind .forLoop g.forLoop
  else if isWord "loop" ts then kind .endlessLoop g.endlessLoop
  else if isWord "match" ts then kind .matching g.matching
  else if isWord "try" ts && second (isOpening .brace) ts then
    kind .tryBlock (seq [word "try", g.block false])
  else if isWord "unsafe" ts then kind .unsafeBlock (seq [word "unsafe", g.block true])
  else if isWord "const" ts && second (isOpening .brace) ts then
    kind .constBlock (seq [word "const", g.block true])
  else if isOpening .brace ts then kind .block (g.block true)
  else if isLifetime ts then some g.labeled
  else none
where
  kind (k : ExprKind) (p : Parser (List Part)) : Option (Parser Expr) := some do
    return ⟨← p, k⟩

/-! ## Operands -/

/-- The numbers of an index into nested tuples, such as `0.1`. -/
def indexCode : Parser (List Part) := do
  match ← next with
  | .literal text =>
    let numbers := (text.splitOn ".")
    guarded (numbers.all fun n => !n.isEmpty && n.toList.all Char.isDigit)
    return joinCode "." (numbers.map fun n => code [.literal n]) false
  | _ => failure

def startsField (ts : List Token) : Bool := isOp "." ts && !isOp ".." ts

/-- A field, a method call or an `await`, from the point on. -/
def fieldAccess (g : Grammar) : Parser Expr := do
  let point ← op "."
  let ts ← ahead
  match ts with
  | .literal _ :: _ => return ⟨point ++ (← indexCode), .field⟩
  | _ =>
    if isWord "await" ts then return ⟨point ++ (← anyWordCode), .await⟩
    let name ← Parser.ident
    let args ←
      if ← peek (isOp "::") then
        guarded (third (isOp "<") (← ahead))
        g.angleArgs
      else pure .none
    let called ← peek (isOpening .paren)
    guarded (called || args.isNone)
    let method := point ++ [.segment (.mk name args)]
    if called then return ⟨method ++ (← group .paren (members g.fullExpr)), .methodCall⟩
    return ⟨method, .field⟩

/-- Calls, fields, elements and early returns after an operand. -/
def trailerLoop (g : Grammar) : Nat → Expr → Parser Expr
  | 0, _ => failure
  | fuel + 1, e => do
    let ts ← ahead
    if isOpening .paren ts then
      trailerLoop g fuel ⟨e.code ++ (← group .paren (members g.fullExpr)), .call⟩
    else if startsField ts && e.kind ≠ .range then
      let access ← g.fieldAccess
      trailerLoop g fuel ⟨e.code ++ access.code, access.kind⟩
    else if isOpening .bracket ts then
      trailerLoop g fuel ⟨e.code ++ (← group .bracket g.fullExpr), .index⟩
    else if isOp "?" ts && e.kind ≠ .range then
      trailerLoop g fuel ⟨e.code ++ (← op "?"), .question⟩
    else return e

def trailer (g : Grammar) (e : Expr) : Parser Expr := do
  g.trailerLoop ((← ahead).length + 1) e

def closureArg (g : Grammar) : Parser (List Part) :=
  seq [g.outerAttrsCode, g.pattern, optional (isOp ":") (seq [op ":", g.tyCode])]

/-- A closure. With a result type its body is a block. -/
def closure (g : Grammar) (records : Bool) : Parser (List Part) := do
  let head ← seq [g.binder, optWord "const", optWord "static", optWord "async", optWord "move", op "|",
    separatedCode (isOp "|") "," g.closureArg, op "|"]
  if ← peek (isOp "->") then return head ++ (← seq [op "->", g.tyCode, g.block false])
  return head ++ (← g.expr records).code

def fieldValue (g : Grammar) : Parser (List Part) := do
  let attrs ← g.outerAttrsCode
  let index ← peek fun ts => !isIdent ts
  let name ← fieldName
  if index || (← peek (isOp ":")) then return attrs ++ name ++ (← seq [op ":", g.fullExpr])
  return attrs ++ name

/-- The fields of a record; two dots and a base may end them. -/
def fieldValues (g : Grammar) : Nat → Parser (List Part)
  | 0 => failure
  | fuel + 1 => do
    let ts ← ahead
    if isEnd ts then return []
    if isOp ".." ts then
      let dots ← op ".."
      if ← peek isEnd then return dots
      return dots ++ (← g.fullExpr)
    let field ← g.fieldValue
    if ← peek isEnd then return field
    let comma ← op ","
    return field ++ comma ++ (← fieldValues g fuel)

/-- A path, a macro call or a record. -/
def pathExpr (g : Grammar) (records : Bool) : Parser Expr := do
  let path ← g.exprPath
  let ts ← ahead
  let bare := match path with
    | .path _ segments => bareSegments segments
    | _ => false
  if bare && isOp "!" ts && !isOp "!=" ts then
    let bang ← op "!"
    let braces ← peek (isOpening .brace)
    return ⟨pathCode path ++ bang ++ (← rawGroupCode), .macroCall braces⟩
  if records && isOpening .brace ts then
    let fuel := ts.length
    return ⟨pathCode path ++ (← group .brace (g.fieldValues fuel)), .record⟩
  return ⟨pathCode path, .path⟩

/-- An array by its elements, or by one element and its length. -/
def arrayExpr (g : Grammar) : Parser Expr := do
  let (kind, inner) ← inside .bracket do
    if ← peek isEnd then return (ExprKind.array, [])
    let first ← g.fullExpr
    let ts ← ahead
    if isOp ";" ts then return (.repetition, first ++ (← seq [op ";", g.fullExpr]))
    if isOp "," ts then
      let comma ← op ","
      return (.array, first ++ comma ++ (← members g.fullExpr))
    return (.array, first)
  return ⟨code [.opening .bracket] ++ inner ++ code [.closing .bracket], kind⟩

/-- An expression in parentheses, or a tuple. -/
def parenExpr (g : Grammar) : Parser Expr := do
  let (single, inner) ← inside .paren do
    if ← peek isEnd then return (false, [])
    let first ← g.fullExpr
    if ← peek isEnd then return (true, first)
    let comma ← op ","
    return (false, first ++ comma ++ (← members g.fullExpr))
  return ⟨code [.opening .paren] ++ inner ++ code [.closing .paren], if single then .paren else .tuple⟩

def startsClosure (ts : List Token) : Bool :=
  isOp "|" ts || isWord "move" ts || (isWord "for" ts && startsGenerics (ts.drop 1)) ||
    (isWord "const" ts && !second (isOpening .brace) ts) || isWord "static" ts ||
    (isWord "async" ts && (second (isOp "|") ts || second (isWord "move") ts))

def startsAsyncBlock (ts : List Token) : Bool :=
  isWord "async" ts && (second (isOpening .brace) ts ||
    (second (isWord "move") ts && third (isOpening .brace) ts))

/-- An operand without what may follow it. -/
def atom (g : Grammar) (records : Bool) : Parser Expr := do
  let ts ← ahead
  if isLiteral ts then return ⟨← literal, .literal⟩
  else if startsAsyncBlock ts then
    return ⟨← seq [word "async", optWord "move", g.block false], .async⟩
  else if startsClosure ts then return ⟨← g.closure records, .closure⟩
  else if startsPath ts || (isWord "try" ts && (second (isOp "!") ts || second (isOp "::") ts)) then
    g.pathExpr records
  else if isOpening .paren ts then g.parenExpr
  else if isWord "break" ts then
    let mark ← anyWordCode
    let label ← optLifetime
    guarded (label.isEmpty || !isOp ":" (← ahead))
    if ← peek fun ts => startsExpr ts && (records || !isOpening .brace ts) then
      return ⟨mark ++ label ++ (← g.expr records).code, .breaking⟩
    return ⟨mark ++ label, .breaking⟩
  else if isWord "continue" ts then return ⟨← seq [anyWordCode, optLifetime], .continuing⟩
  else if isWord "return" ts || isWord "yield" ts then
    let kind := if isWord "return" ts then .returning else .yielding
    let mark ← anyWordCode
    if ← peek startsExpr then return ⟨mark ++ (← g.expr true).code, kind⟩
    return ⟨mark, kind⟩
  else if isWord "become" ts then return ⟨← seq [anyWordCode, g.fullExpr], .inferred⟩
  else if isOpening .bracket ts then g.arrayExpr
  else if isWord "let" ts then
    let head ← seq [word "let", g.alternatives, op "="]
    let first ← g.operand records
    return ⟨head ++ (← g.operation first records .compare).code, .binding⟩
  else if isOp ".." ts then return ⟨← g.rangeFrom records, .range⟩
  else if isWord "_" ts then return ⟨← anyWordCode, .inferred⟩
  else
    match g.control? ts with
    | some rule => rule
    | none => failure

/-- An operand with the operators in front of it and what follows it. -/
def operandRule (g : Grammar) (records : Bool) : Parser Expr := do
  let attrs ← g.outerAttrsCode
  let ts ← ahead
  if isOp "&" ts then
    let mark ← op "&"
    if ← peek fun ts => isWord "raw" ts && (second (isWord "mut") ts || second (isWord "const") ts) then
      let kind ← seq [anyWordCode, anyWordCode]
      return ⟨attrs ++ mark ++ kind ++ (← g.operand records).code, .rawAddress⟩
    let kind ← optWord "mut"
    return ⟨attrs ++ mark ++ kind ++ (← g.operand records).code, .reference⟩
  else if isOp "*" ts || isOp "!" ts || isOp "-" ts then
    let mark ← if isOp "*" ts then op "*" else if isOp "!" ts then op "!" else op "-"
    return ⟨attrs ++ mark ++ (← g.operand records).code, .unary⟩
  else
    let first ← g.atom records
    let e ← g.trailer first
    return { e with code := attrs ++ e.code }

def exprRule (g : Grammar) (records : Bool) : Parser Expr := do
  let first ← g.operand records
  g.operation first records .lowest

/-- An expression at the start of a statement. One that ends in a block stands alone, unless a part of its
value is taken. -/
def leadRule (g : Grammar) : Parser Expr := do
  let attrs ← g.outerAttrsCode
  match g.control? (← ahead) with
  | none =>
    let first ← g.operand true
    let e ← g.operation first true .lowest
    return { e with code := attrs ++ e.code }
  | some rule =>
    let e ← rule
    let body : Expr := { e with code := attrs ++ e.code }
    if ← peek fun ts => startsField ts || isOp "?" ts then
      let e ← g.trailer body
      g.operation e true .lowest
    else return body

end LiveSettings.Grammar
