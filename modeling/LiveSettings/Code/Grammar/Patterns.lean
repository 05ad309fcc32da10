import LiveSettings.Code.Grammar.Types

/-!
# Reading patterns

A pattern is read for its code only.
-/

namespace LiveSettings.Grammar

open LiveSettings.Parser

/-- A block with its statements; `inner` allows attributes of the block itself. -/
def block (g : Grammar) (inner : Bool) : Parser (List Part) :=
  group .brace do
    let attrs ← if inner then g.innerAttrs else pure []
    let (body, items) ← g.statements
    note items
    return attrs ++ body

def startsBar (ts : List Token) : Bool := isOp "|" ts && !isOp "||" ts && !isOp "|=" ts

/-- Alternatives between bars; one bar may stand in front. -/
def alternatives (g : Grammar) : Parser (List Part) := do
  let bar ← optOp "|"
  let first ← g.pattern
  let rest ← many startsBar (seq [op "|", g.pattern])
  return bar ++ first ++ rest.flatten

def startsPath (ts : List Token) : Bool :=
  isIdent ts || isOp "::" ts || isOp "<" ts || ["self", "Self", "super", "crate"].any (isWord · ts)

/-- A path as an expression or pattern. -/
def exprPath (g : Grammar) : Parser Ty := g.tyPath true

/-- The end of a range, if one is given. -/
def rangeBound (g : Grammar) : Parser (List Part) := do
  let ts ← ahead
  if isEnd ts || isOp "|" ts || isOp "=" ts || (isOp ":" ts && !isOp "::" ts) || isOp "," ts ||
      isOp ";" ts || isWord "if" ts then return []
  if isLiteral ts then literal
  else if startsPath ts then return pathCode (← g.exprPath)
  else if isWord "const" ts then seq [word "const", g.block true]
  else failure

/-- The marks of a range; three dots are an old spelling. -/
def rangeMarks (old : Bool) : Parser (List Part) := do
  if ← peek (isOp "..=") then op "..="
  else if ← peek (isOp "...") then
    if old then op "..." else failure
  else op ".."

/-- A range after its start. A closed range needs an end. -/
def rangeRest (g : Grammar) (start : List Part) : Parser (List Part) := do
  let marks ← rangeMarks true
  let stop ← g.rangeBound
  guarded (marks.length = 2 || !stop.isEmpty)
  return start ++ marks ++ stop

/-- A field name or an index. -/
def fieldName : Parser (List Part) := do
  match ← ahead with
  | .literal text :: _ =>
    guarded (text.toList.all Char.isDigit)
    return code [← next]
  | _ => identCode

def fieldPattern (g : Grammar) : Parser (List Part) := do
  let start ← seq [optWord "box", optWord "ref", optWord "mut"]
  if !start.isEmpty then return start ++ (← identCode)
  let index ← peek fun ts => !isIdent ts
  let name ← fieldName
  if index || (← peek (isOp ":")) then return name ++ (← seq [op ":", g.alternatives])
  return name

/-- The fields of a record pattern; two dots end them. -/
def fieldPatterns (g : Grammar) : Nat → Parser (List Part)
  | 0 => failure
  | fuel + 1 => do
    if ← peek isEnd then return []
    let attrs ← g.outerAttrsCode
    if ← peek (isOp "..") then return attrs ++ (← op "..")
    let field ← g.fieldPattern
    if ← peek isEnd then return attrs ++ field
    let comma ← op ","
    return attrs ++ field ++ comma ++ (← fieldPatterns g fuel)

/-- A pattern that starts with a path. -/
def pathPattern (g : Grammar) : Parser (List Part) := do
  let path ← g.exprPath
  let ts ← ahead
  let bare := match path with
    | .path _ segments => bareSegments segments
    | _ => false
  if bare && isOp "!" ts && !isOp "!=" ts then
    return pathCode path ++ (← seq [op "!", rawGroupCode])
  else if isOpening .brace ts then
    let fuel := ts.length
    return pathCode path ++ (← group .brace (g.fieldPatterns fuel))
  else if isOpening .paren ts then
    return pathCode path ++ (← group .paren (members g.alternatives))
  else if isOp ".." ts then g.rangeRest (pathCode path)
  else return pathCode path

/-- Whether a name here starts a longer pattern. -/
def startsPathPattern (ts : List Token) : Bool :=
  let after := ts.drop 1
  (isIdent ts && (isOp "::" after || isOp "!" after || isOpening .brace after ||
    isOpening .paren after || startsRange after)) ||
  (isWord "self" ts && isOp "::" after) || isOp "::" ts || isOp "<" ts ||
  ["Self", "super", "crate"].any (isWord · ts)
where
  /-- A range that goes on behind its marks. -/
  startsRange (ts : List Token) : Bool :=
    isOp ".." ts && (isOp "..=" ts || !isOp "..." ts) &&
      !(let rest := ts.drop (if isOp "..=" ts then 3 else 2)
        isEnd rest || isOp "," rest)

/-- A range that lacks an end may not stand in a list. -/
def openRange (parts : List Part) : Bool :=
  let ts := Part.tokens parts
  2 < ts.length && (isOp ".." ts || isOp ".." (ts.drop (ts.length - 2)))

def patternRule (g : Grammar) : Parser (List Part) := do
  let ts ← ahead
  if startsPathPattern ts then g.pathPattern
  else if isWord "_" ts then anyWordCode
  else if isWord "box" ts then seq [word "box", g.pattern]
  else if isOp "-" ts || isLiteral ts || isWord "const" ts then
    let start ← g.rangeBound
    if ← peek (isOp "..") then g.rangeRest start else return start
  else if isWord "ref" ts || isWord "mut" ts || isWord "self" ts || isIdent ts then
    let start ← seq [optWord "ref", optWord "mut"]
    let name ← if ← peek (isWord "self") then anyWordCode else identCode
    return start ++ name ++ (← optional (isOp "@") (seq [op "@", g.pattern]))
  else if isOp "&" ts then seq [op "&", optWord "mut", g.pattern]
  else if isOpening .paren ts then group .paren (members g.alternatives)
  else if isOpening .bracket ts then
    group .bracket (members do
      let p ← g.alternatives
      guarded (!openRange p)
      return p)
  else if isOp ".." ts && !isOp "..." ts then
    let marks ← rangeMarks false
    let stop ← g.rangeBound
    guarded (marks.length = 2 || !stop.isEmpty)
    return marks ++ stop
  else failure

end LiveSettings.Grammar
