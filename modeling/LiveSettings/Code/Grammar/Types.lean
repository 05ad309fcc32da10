import LiveSettings.Code.Grammar.Basic

/-!
# Reading types

Attributes, paths, bounds, generic parameters and types.
-/

namespace LiveSettings.Grammar

open LiveSettings.Parser

/-! ## Attributes -/

/-- A path of names, keywords included. -/
def namePath : Parser NamePath := do
  let absolute ← peek (isOp "::")
  discard (optOp "::")
  let first ← anyWord
  let rest ← many (isOp "::") do
    discard (op "::")
    anyWord
  return ⟨absolute, first :: rest⟩

/-- What stands between the brackets of an attribute, behind its path. A literal that ends the attribute is
taken as it stands. -/
def attrArgs (g : Grammar) : Parser AttrArgs := do
  let ts ← ahead
  match ts with
  | .opening _ :: _ =>
    let (d, content) ← rawGroup
    return .list d content
  | _ =>
    if isOp "=" ts then
      discard (op "=")
      if ← Parser.succeeds (do discard literal; guarded (isEnd (← ahead))) then
        return .value ⟨← literal, .literal⟩
      if ← peek fun ts => isOp "#" ts && second (isOpening .bracket) ts then failure
      return .value (← g.expr true)
    else return .none

/-- A setting of an attribute: a path, alone, with a group or with a value. -/
def setting (g : Grammar) : Parser Attr := do
  let path ←
    if ← peek (isWord "unsafe") then
      pure ⟨false, [← anyWord]⟩
    else namePath
  return ⟨path, ← attrArgs g⟩

def outerAttr (g : Grammar) : Parser Attr := do
  discard (op "#")
  inside .bracket g.setting

def outerAttrs (g : Grammar) : Parser (List Attr) := many (isOp "#") g.outerAttr

def attrsCode (attrs : List Attr) : List Part := attrs.map fun a => .embedded .attribute (code a.tokens)

def outerAttrsCode (g : Grammar) : Parser (List Part) := return attrsCode (← g.outerAttrs)

def innerAttr (g : Grammar) : Parser (List Part) := do
  discard (op "#")
  discard (op "!")
  let a ← inside .bracket g.setting
  return code ([.mark '#' false, .mark '!' false] ++ Token.group .bracket a.content)

/-- Attributes of the group that they stand in. -/
def innerAttrs (g : Grammar) : Parser (List Part) := do
  let attrs ← many (fun ts => isOp "#" ts && second (isOp "!") ts) g.innerAttr
  return attrs.flatten

/-! ## Arguments and paths -/

/-- A literal, a name or a block, as an argument. -/
def constArgument (g : Grammar) : Parser (List Part) := do
  let ts ← ahead
  if isLiteral ts then embed .literal literal
  else if isIdent ts then identCode
  else if isOpening .brace ts then
    embed .block (group .brace do
      let inner ← g.innerAttrs
      let (body, items) ← g.statements
      note items
      return inner ++ body)
  else failure

def startsValue (ts : List Token) : Bool := isLiteral ts || isOpening .brace ts

def closesArgs (ts : List Token) : Bool := isOp ">" ts

/-- Whether a bound may start after a plus sign. -/
def startsBound (ts : List Token) : Bool :=
  isAnyWord ts || isOp "::" ts || isOp "?" ts || isLifetime ts || isOpening .paren ts ||
    isOpening .bracket ts

/-- Arguments between angle brackets. -/
def angleArgs (g : Grammar) : Parser Args := do
  let turbofish ← peek (isOp "::")
  discard (optOp "::")
  discard (op "<")
  let (args, trailing) ← separated closesArgs "," arg
  discard (op ">")
  return .angle turbofish args trailing
where
  arg : Parser Arg := do
    let ts ← ahead
    if isLifetime ts && !second (isOp "+") ts then return .lifetime (← Parser.lifetime)
    if startsValue ts then return .other (← g.constArgument)
    let type ← g.fullTy
    match type with
    | .path false [s] =>
      if ← peek (isOp "=") then
        let eq ← op "="
        if ← peek startsValue then return .other ([.segment s] ++ eq ++ (← g.constArgument))
        return .other ([.segment s] ++ eq ++ (← g.tyCode))
      else if ← peek (isOp ":") then
        let colon ← op ":"
        let bounds ← chainedCode (fun ts => isOp "," ts || isOp ">" ts) "+" (g.bound false)
        return .other ([.segment s] ++ colon ++ bounds)
      else return .ty type
    | _ => return .ty type

def selfWords : List String := ["super", "self", "crate", "try"]

def isSelfWord : List Token → Bool
  | .ident name :: _ => selfWords.contains name
  | _ => false

/-- A segment of a path. In an expression, arguments need `::` in front. -/
def segment (g : Grammar) (inExpr : Bool) : Parser Segment := do
  if ← peek isSelfWord then return .mk (← anyWord) .none
  let name ← if ← peek (isWord "Self") then anyWord else Parser.ident
  let ts ← ahead
  if (!inExpr && isOp "<" ts && !isOp "<=" ts) || (isOp "::" ts && third (isOp "<") ts) then
    return .mk name (← g.angleArgs)
  return .mk name .none

/-- Further segments, each behind `::`. -/
def furtherSegments (g : Grammar) (inExpr : Bool) :
    Parser (List Segment) :=
  many (fun ts => isOp "::" ts && !third (isOpening .paren) ts) do
    discard (op "::")
    g.segment inExpr

def path (g : Grammar) (inExpr : Bool) : Parser Path := do
  let absolute ← peek (isOp "::")
  discard (optOp "::")
  let first ← g.segment inExpr
  return ⟨absolute, first :: (← g.furtherSegments inExpr)⟩

/-- A path, or a path into a type. -/
def tyPath (g : Grammar) (inExpr : Bool) : Parser Ty := do
  if ← peek (isOp "<") then
    discard (op "<")
    let self ← g.fullTy
    let trait ← if ← peek (isWord "as") then
        discard anyWord
        pure (some (← g.path false))
      else pure none
    discard (op ">")
    discard (op "::")
    let first ← g.segment inExpr
    let rest ← many (isOp "::") do
      discard (op "::")
      g.segment inExpr
    match trait with
    | some p =>
      return .projection self p.segments.length p.absolute (p.segments ++ first :: rest)
    | none => return .projection self 0 true (first :: rest)
  else
    let p ← g.path inExpr
    return p.toTy

/-- Whether all segments are bare names. -/
def bareSegments (segments : List Segment) : Bool := segments.all (·.args.isNone)

/-- The code of a path that does not stand for a type. -/
def pathCode : Ty → List Part
  | .path absolute segments =>
    code (absoluteMark absolute) ++ joinCode "::" (segments.map fun s => [.segment s]) false
  | .projection self 0 absolute segments =>
    [.token (.mark '<' false), .ty self, .token (.mark '>' false)] ++ code (absoluteMark absolute) ++
      joinCode "::" (segments.map fun s => [.segment s]) false
  | .projection self depth absolute segments =>
    [.token (.mark '<' false), .ty self, .token (.ident "as")] ++ code (absoluteMark absolute) ++
      joinCode "::" ((segments.take depth).map fun s => [.segment s]) false ++
      [.token (.mark '>' false)] ++
      (segments.drop depth).flatMap fun s => code (Token.op "::") ++ [.segment s]
  | t => [.ty t]

/-! ## Generic parameters and bounds -/

/-- The result of a function, if one is given. -/
def result (g : Grammar) (plus : Bool) : Parser (List Part) := do
  if ← peek (isOp "->") then
    let arrow ← op "->"
    return arrow ++ [.ty (← g.ty plus)]
  return []

/-- Bounds behind a colon, if one stands here. -/
def boundsUpTo (g : Grammar) (stop : List Token → Bool) : Parser (List Part) := do
  if ← peek (isOp ":") then
    discard (op ":")
    chainedCode stop "+" (g.bound false)
  else return []

def endsParam (ts : List Token) : Bool := isEnd ts || isOp "," ts || isOp ">" ts

/-- A generic parameter behind its attributes. -/
def paramRest (g : Grammar) (attrs : List Attr) : Parser Param := do
  let ts ← ahead
  if isLifetime ts then
    let name ← Parser.lifetime
    if ← peek (isOp ":") then
      discard (op ":")
      return .lifetime attrs name (← chainedCode endsParam "+" lifetimeCode)
    return .lifetime attrs name []
  else if isIdent ts then
    let name ← Parser.ident
    let bounds ← g.boundsUpTo fun ts => endsParam ts || isOp "=" ts
    if ← peek (isOp "=") then
      discard (op "=")
      return .ty attrs name bounds (some (← g.fullTy))
    return .ty attrs name bounds none
  else if isWord "const" ts then
    discard anyWord
    let name ← Parser.ident
    discard (op ":")
    let type ← g.fullTy
    if ← peek (isOp "=") then
      discard (op "=")
      return .const attrs name type (← g.constArgument)
    return .const attrs name type []
  else if isWord "_" ts then return .ty attrs (← anyWord) [] none
  else failure

def param (g : Grammar) : Parser Param := do g.paramRest (← g.outerAttrs)

/-- Generic parameters, if any are declared here. -/
def generics (g : Grammar) : Parser Generics := do
  if ← peek (isOp "<") then
    discard (op "<")
    let (params, trailing) ← separated closesArgs "," g.param
    discard (op ">")
    return ⟨params, trailing, []⟩
  return ⟨[], false, []⟩

def genericsCode (g : Grammar) : Parser (List Part) := return code (← g.generics).tokens

/-- A parameter as code. -/
def paramCode : Param → List Part
  | .lifetime attrs name bounds => attrsCode attrs ++ code (Token.lifetime name) ++ boundCode bounds
  | .ty attrs name bounds default =>
    attrsCode attrs ++ code [.ident name] ++ boundCode bounds ++
      match default with
      | some type => [.token (.mark '=' false), .ty type]
      | none => []
  | .const attrs name type default =>
    attrsCode attrs ++ code [.ident "const", .ident name, .mark ':' false] ++ [.ty type] ++
      if default.isEmpty then [] else .token (.mark '=' false) :: default
where
  boundCode (bounds : List Part) : List Part :=
    if bounds.isEmpty then [] else .token (.mark ':' false) :: bounds

/-- Lifetimes that a bound is made for. -/
def binder (g : Grammar) : Parser (List Part) := do
  if ← peek (isWord "for") then
    let start ← word "for"
    discard (op "<")
    let (params, trailing) ← separated closesArgs "," g.param
    discard (op ">")
    return start ++ code [.mark '<' false] ++ joinCode "," (params.map paramCode) trailing ++
      code [.mark '>' false]
  return []

/-- A condition of a `where` clause. -/
def predicate (g : Grammar) : Parser (List Part) := do
  if ← peek fun ts => isLifetime ts && second (isOp ":") ts then
    let name ← lifetimeCode
    let colon ← op ":"
    let bounds ← chainedCode (fun ts => endsPredicate ts || isOp ":" ts) "+" lifetimeCode
    return name ++ colon ++ bounds
  else
    let binder ← g.binder
    let type ← g.tyCode
    let colon ← op ":"
    let bounds ← chainedCode (fun ts => endsPredicate ts || isOp ":" ts && !isOp "::" ts) "+"
      (g.bound false)
    return binder ++ type ++ colon ++ bounds
where
  endsPredicate (ts : List Token) : Bool :=
    isEnd ts || isOpening .brace ts || isOp "," ts || isOp ";" ts || isOp "=" ts

/-- A `where` clause, if one stands here; nothing is written of an empty one. -/
def clause (g : Grammar) : Parser (List Part) := do
  if ← peek (isWord "where") then
    let start ← word "where"
    let predicates ← chainedCode stops "," g.predicate
    return if predicates.isEmpty then [] else start ++ predicates
  return []
where
  stops (ts : List Token) : Bool :=
    isEnd ts || isOpening .brace ts || isOp "," ts || isOp ";" ts ||
      (isOp ":" ts && !isOp "::" ts) || isOp "=" ts

/-- A path whose last name may be given the arguments of a call. -/
def boundPath (g : Grammar) : Parser Path := do
  let path ← g.path false
  let ts ← ahead
  if (path.segments.getLast?.any (·.args.isEmpty)) &&
      (isOpening .paren ts || (isOp "::" ts && third (isOpening .paren) ts)) then
    discard (optOp "::")
    return path.called (← seq [group .paren (members g.tyCode), g.result false])
  return path

/-- What may say that a trait is meant in constants. -/
def constness : Parser (List Part) := do
  if ← peek (isOpening .bracket) then group .bracket (word "const") else optWord "const"

/-- A trait with what may stand in front of it. -/
def traitBound (g : Grammar) : Parser (List Part) := do
  let before ← g.binder
  let constness ← constness
  let maybe ← optOp "?"
  let behind ← (if before.isEmpty && !maybe.isEmpty then g.binder else pure [] : Parser (List Part))
  guarded (maybe.isEmpty || (before.isEmpty && behind.isEmpty))
  return before ++ constness ++ maybe ++ behind ++ pathCode (← g.boundPath).toTy

def boundRule (g : Grammar) (captures : Bool) : Parser (List Part) := do
  let ts ← ahead
  if isLifetime ts then lifetimeCode
  else if isWord "use" ts then
    guarded captures
    seq [word "use", op "<", separatedCode closesArgs "," captured, op ">"]
  else if isOpening .paren ts then group .paren g.traitBound
  else g.traitBound
where
  captured : Parser (List Part) := do
    if ← peek isLifetime then lifetimeCode
    else if ← peek (isWord "Self") then anyWordCode
    else identCode

/-- Bounds joined by plus signs. Only the first is read where a sum may not stand. -/
def boundSum (g : Grammar) (plus captures : Bool) : Parser (List (List Part) × Bool) := do
  if plus then
    let (first, more) ← step
    if more then
      let (rest, trailing) ← chained (fun ts => !startsBound ts) "+" (g.bound captures)
      return (first :: rest, trailing)
    return ([first], false)
  return ([← g.bound captures], false)
where
  step : Parser (List Part × Bool) := do
    let b ← g.bound captures
    let more ← peek (isOp "+")
    discard (optOp "+")
    return (b, more)

/-- Bounds of which at least one is no lifetime. -/
def traitSum (g : Grammar) (plus captures : Bool) : Parser (List Part) := do
  let (bounds, trailing) ← g.boundSum plus captures
  guarded (bounds.any fun b => match b with
    | .token (.mark '\'' _) :: _ => false
    | _ => true)
  return joinCode "+" bounds trailing

/-! ## Types -/

/-- The convention for calling a function, if one is given. -/
def callConvention : Parser (List Part) :=
  optional (isWord "extern") (seq [word "extern", optional isText (embed .literal text)])

/-- An argument of a function type behind its attributes. -/
def functionArg (g : Grammar) (first : Bool) : Parser (List Part) := do
  let ts ← ahead
  let mutSelf := first && isWord "mut" ts && second (isWord "self") ts
  if mutSelf then return [.embedded .receiver (code (← verbatim self))]
  let named := (isIdent ts || isWord "_" ts || (first && isWord "self" ts)) &&
    second (isOp ":") ts && !second (isOp "::") ts
  if named then seq [anyWordCode, op ":", g.tyCode] else g.tyCode
where
  self : Parser (List Part) :=
    seq [word "mut", word "self", optional (fun ts => isOp ":" ts && !isOp "::" ts)
      (seq [op ":", g.tyCode])]

/-- Whether further arguments of any number are announced here. -/
def startsVariadic (ts : List Token) : Bool :=
  isOp "..." ts || ((isIdent ts || isWord "_" ts) && second (isOp ":") ts && third (isOp "...") ts)

def variadic : Parser (List Part) := do
  let name ← optional (fun ts => !isOp "..." ts) (seq [anyWordCode, op ":"])
  return name ++ (← seq [op "...", optOp ","])

/-- The arguments of a function type; each round takes a token. -/
def functionArgs (g : Grammar) : Nat → Bool → Parser (List Part)
  | 0, _ => failure
  | fuel + 1, first => do
    if ← peek isEnd then return []
    let attrs ← g.outerAttrsCode
    if ← peek startsVariadic then return attrs ++ (← variadic)
    let arg ← g.functionArg first
    if ← peek isEnd then return attrs ++ arg
    let comma ← op ","
    return attrs ++ arg ++ comma ++ (← functionArgs g fuel false)

def functionTy (g : Grammar) : Parser (List Part) := do
  let fuel := (← ahead).length + 1
  seq [optWord "unsafe", callConvention, word "fn", group .paren (g.functionArgs fuel true),
    g.result false]

/-- A type that starts with a parenthesis. -/
def parenTy (g : Grammar) (plus : Bool) : Parser Ty := do
  if ← peek fun ts => isOpening .paren ts && isEnd (ts.drop 1) then
    return .shaped .tuple (← group .paren (pure []))
  if ← peek fun ts => isOpening .paren ts && isLifetime (ts.drop 1) then
    return .paren (.shaped .traitObject (← inside .paren (g.traitSum true false)))
  if ← peek fun ts => isOpening .paren ts && isOp "?" (ts.drop 1) then
    let first ← group .paren g.traitBound
    let rest ← many (isOp "+") (seq [op "+", g.bound false])
    return .shaped (if rest.isEmpty then .bound else .traitObject) (first ++ rest.flatten)
  let (first, others) ← inside .paren do
    let first ← g.fullTy
    if ← peek (isOp ",") then
      let comma ← op ","
      return (first, some (comma ++ (← members g.tyCode)))
    return (first, none)
  match others with
  | some others => return .shaped .tuple (code [.opening .paren] ++ .ty first :: others ++ code [.closing .paren])
  | none =>
    let alone ← peek fun ts => plus && isOp "+" ts
    match summand? first with
    | some bound =>
      if alone then
        let rest ← many (isOp "+") (seq [op "+", g.bound false])
        return .shaped .traitObject
          (code [.opening .paren] ++ bound ++ code [.closing .paren] ++ rest.flatten)
      return .paren first
    | none => return .paren first
where
  /-- The code of a type that is a single bound. -/
  summand? : Ty → Option (List Part)
    | .path absolute segments => some (pathCode (.path absolute segments))
    | .shaped .bound parts => some parts
    | _ => none

/-- A type behind the path that it starts with. -/
def pathTy (g : Grammar) (plus : Bool) (binder : List Part) (p : Path) : Parser Ty := do
  let ts ← ahead
  if isOp "!" ts && !isOp "!=" ts && bareSegments p.segments then
    let bang ← op "!"
    return .shaped .macroCall (pathCode p.toTy ++ bang ++ (← embed .macroInput rawGroupCode))
  if !binder.isEmpty || (plus && isOp "+" ts) then
    let first := binder ++ pathCode p.toTy
    if plus && isOp "+" ts then
      discard (op "+")
      let (rest, trailing) ← chained (fun ts => !startsBound ts) "+" (g.bound false)
      return .shaped .traitObject (joinCode "+" (first :: rest) trailing)
    return .shaped .bound first
  return p.toTy

/-- A type that starts with a path. -/
def namedTy (g : Grammar) (plus : Bool) (binder : List Part) : Parser Ty := do
  match ← g.tyPath false with
  | .path absolute segments => g.pathTy plus binder ⟨absolute, segments⟩
  | type => return type

def startsPathTy (ts : List Token) : Bool :=
  isIdent ts || (["super", "self", "Self", "crate"].any (isWord · ts)) || isOp "::" ts || isOp "<" ts

def startsFunctionTy (ts : List Token) : Bool :=
  isWord "fn" ts || isWord "unsafe" ts || isWord "extern" ts

/-- A type. -/
def tyRule (g : Grammar) (plus : Bool) : Parser Ty := do
  let binder ← g.binder
  let ts ← ahead
  if !binder.isEmpty then
    guarded ((startsPathTy ts && !isOp "::" ts && !isOp "<" ts) || startsFunctionTy ts)
  if isOpening .paren ts then g.parenTy plus
  else if startsFunctionTy ts then return .shaped .function (binder ++ (← g.functionTy))
  else if startsPathTy ts then g.namedTy plus binder
  else if isWord "dyn" ts then
    let before := ts
    let start ← word "dyn"
    let star ← optOp "*"
    let bounds ← g.traitSum plus false
    if star.isEmpty then return .shaped .traitObject (start ++ bounds)
    let after ← ahead
    return .shaped .verbatim [.embedded (.verbatim plus) (code (before.take (before.length - after.length)))]
  else if isOpening .bracket ts then
    let (isArray, parts) ← inside .bracket do
      let elem ← g.tyCode
      if ← peek (isOp ";") then
        let semi ← op ";"
        return (true, elem ++ semi ++ (← embed .expression g.fullExpr))
      return (false, elem)
    return .shaped (if isArray then .array else .slice)
      (code [.opening .bracket] ++ parts ++ code [.closing .bracket])
  else if isOp "*" ts then
    let star ← op "*"
    let kind ← if ← peek (isWord "const") then word "const" else word "mut"
    return .shaped .pointer (star ++ kind ++ [.ty (← g.ty false)])
  else if isOp "&" ts then
    let start ← seq [op "&", optLifetime, optWord "mut"]
    return .shaped .reference (start ++ [.ty (← g.ty false)])
  else if isOp "!" ts && !isOp "!=" ts then return .shaped .never (← op "!")
  else if isWord "impl" ts then
    let start ← word "impl"
    return .shaped .someImplementor (start ++ (← g.traitSum plus true))
  else if isWord "_" ts then return .shaped .inferred (← anyWordCode)
  else if isLifetime ts then return .shaped .traitObject (← g.traitSum true false)
  else failure

end LiveSettings.Grammar
