import LiveSettings.Code.Ty

/-!
# Expressions

An expression is kept as its code and its kind. The kind tells which operators may follow, whether a
statement needs a semicolon, and how an attribute value is described.

Results: `isBlock_of_standsAlone` (what needs no semicolon ends in a block).
-/

namespace LiveSettings

/-- The kinds of expressions. -/
inductive ExprKind where
  | array
  | assign
  | async
  | await
  | binary (comparison : Bool)
  | block
  | breaking
  | call
  | cast
  | closure
  | constBlock
  | continuing
  | field
  | forLoop
  | conditional
  | inferred
  | index
  | binding
  | literal
  | endlessLoop
  | macroCall (braces : Bool)
  | matching
  | methodCall
  | paren
  | path
  | range
  | rawAddress
  | reference
  | repetition
  | returning
  | record
  | question
  | tryBlock
  | tuple
  | unary
  | unsafeBlock
  | whileLoop
  | yielding
  deriving DecidableEq, Repr, Inhabited

namespace ExprKind

/-- The name under which a value of the kind is described. -/
def name : ExprKind → String
  | .array => "array"
  | .assign => "assign"
  | .async => "async"
  | .await => "await"
  | .binary _ => "binary"
  | .block => "block"
  | .breaking => "break"
  | .call => "call"
  | .cast => "cast"
  | .closure => "closure"
  | .continuing => "continue"
  | .field => "field"
  | .forLoop => "for_loop"
  | .conditional => "if"
  | .index => "index"
  | .binding => "let"
  | .literal => "lit"
  | .endlessLoop => "loop"
  | .macroCall _ => "macro"
  | .matching => "match"
  | .methodCall => "method_call"
  | .paren => "paren"
  | .path => "path"
  | .range => "range"
  | .reference => "reference"
  | .repetition => "repeat"
  | .returning => "return"
  | .record => "struct"
  | .question => "try"
  | .tryBlock => "try_block"
  | .tuple => "tuple"
  | .unary => "unary"
  | .unsafeBlock => "unsafe"
  | .whileLoop => "while"
  | .yielding => "yield"
  | .constBlock | .inferred | .rawAddress => "unknown"

/-- Ends in a block and needs neither a comma after an arm nor a semicolon after a statement. -/
def isBlock : ExprKind → Bool
  | .conditional | .matching | .block | .unsafeBlock | .whileLoop | .endlessLoop | .forLoop | .tryBlock |
    .constBlock => true
  | _ => false

/-- Needs no semicolon after a statement. -/
def standsAlone : ExprKind → Bool
  | .macroCall braces => braces
  | k => k.isBlock

theorem isBlock_of_standsAlone {k : ExprKind} (h : k.standsAlone = true) :
    k.isBlock = true ∨ k = .macroCall true := by
  cases k <;> simp_all [standsAlone, isBlock]

end ExprKind

/-- An expression: its code and its kind. -/
structure Expr where
  code : List Part
  kind : ExprKind
  deriving DecidableEq, Inhabited

end LiveSettings
