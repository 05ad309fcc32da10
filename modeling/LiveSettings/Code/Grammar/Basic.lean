import LiveSettings.Code.Parser

/-!
# The grammar

The rules refer to each other in circles. They take the parsers that close a circle from a `Grammar`, so
that each rule is an ordinary definition.
-/

namespace LiveSettings

/-- How tightly an operator binds, loosest first. -/
inductive Precedence where
  | lowest
  | assign
  | range
  | or
  | and
  | letBinding
  | compare
  | bitOr
  | bitXor
  | bitAnd
  | shift
  | sum
  | product
  | cast
  deriving DecidableEq, Repr, Inhabited

namespace Precedence

def rank : Precedence → Nat
  | .lowest => 0
  | .assign => 1
  | .range => 2
  | .or => 3
  | .and => 4
  | .letBinding => 5
  | .compare => 6
  | .bitOr => 7
  | .bitXor => 8
  | .bitAnd => 9
  | .shift => 10
  | .sum => 11
  | .product => 12
  | .cast => 13

end Precedence

/-- The parsers that the rules take for granted. -/
structure Grammar where
  /-- A type; `plus` allows a sum of bounds. -/
  ty (plus : Bool) : Parser Ty
  /-- A bound; `captures` allows a list of captured names. -/
  bound (captures : Bool) : Parser (List Part)
  /-- An expression; `records` allows a record after a path. -/
  expr (records : Bool) : Parser Expr
  /-- An expression without binary operators. -/
  operand (records : Bool) : Parser Expr
  /-- The rest of an expression after its first operand. -/
  operation (lhs : Expr) (records : Bool) (base : Precedence) : Parser Expr
  /-- An expression at the start of a statement, which ends with its block. -/
  lead : Parser Expr
  /-- A pattern without alternatives. -/
  pattern : Parser (List Part)
  /-- Statements up to the end of the group, as code and as the items among them. -/
  statements : Parser (List Part × List Item)
  item : Parser Item

namespace Grammar

/-- Fails everywhere. -/
def empty : Grammar where
  ty _ := failure
  bound _ := failure
  expr _ := failure
  operand _ := failure
  operation _ _ _ := failure
  lead := failure
  pattern := failure
  statements := failure
  item := failure

instance : Inhabited Grammar := ⟨empty⟩

/-- A type in which a sum of bounds may stand. -/
def fullTy (g : Grammar) : Parser Ty := g.ty true

/-- The code of an expression that may be a record. -/
def fullExpr (g : Grammar) : Parser (List Part) := return (← g.expr true).code

def tyCode (g : Grammar) : Parser (List Part) := return [.ty (← g.fullTy)]

end Grammar

end LiveSettings
