import LiveSettings.Token

/-!
# Types

The syntax of a type: a path, a path into a type, a type in parentheses, or one of the other shapes, which
keep their tokens and the types among them. `tokens` is how a type is written, with the lifetimes of an
argument list in front; `Part.sourceTokens` keeps the order of the source. `same` tells types apart piece by
piece.

Results: `Ty.same_iff` (types that are the same are equal), `peel_path`, `peel_paren` (what is left without the
parentheses around a type).
-/

namespace LiveSettings

/-- What a type is, when it is neither a path nor in parentheses. -/
inductive Shape where
  | tuple
  | array
  | slice
  | reference
  | pointer
  | function
  | never
  | inferred
  | someImplementor
  /-- Bounds. -/
  | traitObject
  /-- A single bound on its own, without a word in front. -/
  | bound
  | macroCall
  | verbatim
  deriving DecidableEq, Repr, Inhabited

/-- What code is that stands in a type without being one. -/
inductive Embedded where
  | literal
  /-- The length of an array. -/
  | expression
  /-- A block as a constant argument. -/
  | block
  | attribute
  /-- The group that a macro is called with. -/
  | macroInput
  /-- The receiver in front of the arguments of a function. -/
  | receiver
  /-- A type that is kept as it stands, where a sum of bounds may stand or not. -/
  | verbatim (plus : Bool)
  deriving DecidableEq, Repr, Inhabited

mutual

/-- A type. In a `projection` the first `depth` segments name the trait. -/
inductive Ty where
  | path (absolute : Bool) (segments : List Segment)
  | projection (self : Ty) (depth : Nat) (absolute : Bool) (segments : List Segment)
  | paren (inner : Ty)
  | shaped (shape : Shape) (parts : List Part)

/-- A name in a path with its arguments. -/
inductive Segment where
  | mk (name : String) (args : Args)

/-- What a name in a path is given. Arguments between angle brackets may be introduced by `::` and end in a
comma; those of a `call`, as in `Fn(u8) -> bool`, stand in parentheses, with a result behind them. -/
inductive Args where
  | none
  | angle (turbofish : Bool) (args : List Arg) (trailing : Bool)
  | call (parts : List Part)

inductive Arg where
  | lifetime (name : String)
  | ty (t : Ty)
  | other (parts : List Part)

/-- A piece of code: a token, a piece that holds types, or code of another kind. -/
inductive Part where
  | token (t : Token)
  | ty (t : Ty)
  | segment (s : Segment)
  | embedded (kind : Embedded) (parts : List Part)

end

instance : Inhabited Ty := ⟨.shaped .verbatim []⟩
instance : Inhabited Segment := ⟨.mk "" .none⟩
instance : Inhabited Part := ⟨.ty default⟩

namespace Segment

def name : Segment → String
  | .mk n _ => n

def args : Segment → Args
  | .mk _ a => a

end Segment

namespace Args

def isNone : Args → Bool
  | .none => true
  | .angle .. | .call _ => false

/-- Whether there is no argument; empty brackets hold none. -/
def isEmpty : Args → Bool
  | .none => true
  | .angle _ args _ => args.isEmpty
  | .call _ => false

end Args

/-! ## As tokens -/

/-- Writes the members of a list: a comma follows every member but the last, the last one too if `trailing`.
With `lifetimesFirst` the members marked as lifetimes come first, and a missing comma is supplied. -/
def arrange (lifetimesFirst trailing : Bool) (members : List (Bool × List Token)) : List Token :=
  let punctuated := mark members
  let ordered :=
    if lifetimesFirst then punctuated.filter (·.1) ++ punctuated.filter (!·.1) else punctuated
  write true (ordered.map (·.2))
where
  /-- Each member with whether a comma follows it. -/
  mark : List (Bool × List Token) → List (Bool × List Token × Bool)
    | [] => []
    | [(lifetime, ts)] => [(lifetime, ts, trailing)]
    | (lifetime, ts) :: rest => (lifetime, ts, true) :: mark rest
  write : Bool → List (List Token × Bool) → List Token
    | _, [] => []
    | clear, (ts, comma) :: rest =>
      (if clear then [] else [.mark ',' false]) ++ ts ++
        (if comma then [.mark ',' false] else []) ++ write comma rest

@[simp] theorem arrange_nil (first trailing : Bool) : arrange first trailing [] = [] := by
  cases first <;> rfl

/-- Segments joined by `::`. -/
def joinSegments (segments : List (List Token)) : List Token := (Token.op "::").intercalate segments

def absoluteMark (absolute : Bool) : List Token := if absolute then Token.op "::" else []

/-- The tokens of a path into a type. -/
def projectionTokens (self : List Token) (depth : Nat) (absolute : Bool)
    (segments : List (List Token)) : List Token :=
  if depth = 0 then
    [.mark '<' false] ++ self ++ [.mark '>' false] ++ absoluteMark absolute ++ joinSegments segments
  else
    [.mark '<' false] ++ self ++ [.ident "as"] ++ absoluteMark absolute ++
      joinSegments (segments.take depth) ++ [.mark '>' false] ++
      (segments.drop depth).flatMap (Token.op "::" ++ ·)

mutual

/-- The tokens of a type. -/
def Ty.flatten (lifetimesFirst : Bool) : Ty → List Token
  | .path absolute segments =>
    absoluteMark absolute ++ joinSegments (segmentTokens lifetimesFirst segments)
  | .projection self depth absolute segments =>
    projectionTokens (self.flatten lifetimesFirst) depth absolute (segmentTokens lifetimesFirst segments)
  | .paren inner => Token.group .paren (inner.flatten lifetimesFirst)
  | .shaped _ parts => partTokens lifetimesFirst parts

def segmentTokens (lifetimesFirst : Bool) : List Segment → List (List Token)
  | [] => []
  | s :: ss => s.flatten lifetimesFirst :: segmentTokens lifetimesFirst ss

def Segment.flatten (lifetimesFirst : Bool) : Segment → List Token
  | .mk name args => .ident name :: args.flatten lifetimesFirst

def Args.flatten (lifetimesFirst : Bool) : Args → List Token
  | .none => []
  | .angle turbofish args trailing =>
    absoluteMark turbofish ++ [.mark '<' false] ++
      arrange lifetimesFirst trailing (argTokens lifetimesFirst args) ++ [.mark '>' false]
  | .call parts => partTokens lifetimesFirst parts

def argTokens (lifetimesFirst : Bool) : List Arg → List (Bool × List Token)
  | [] => []
  | a :: as => a.flatten lifetimesFirst :: argTokens lifetimesFirst as

/-- The tokens of an argument, and whether it is a lifetime. -/
def Arg.flatten (lifetimesFirst : Bool) : Arg → Bool × List Token
  | .lifetime name => (true, Token.lifetime name)
  | .ty t => (false, t.flatten lifetimesFirst)
  | .other parts => (false, partTokens lifetimesFirst parts)

def partTokens (lifetimesFirst : Bool) : List Part → List Token
  | [] => []
  | p :: ps => p.flatten lifetimesFirst ++ partTokens lifetimesFirst ps

def Part.flatten (lifetimesFirst : Bool) : Part → List Token
  | .token t => [t]
  | .ty t => t.flatten lifetimesFirst
  | .segment s => s.flatten lifetimesFirst
  | .embedded _ parts => partTokens lifetimesFirst parts

end

/-! ## Sameness -/

mutual

/-- The same type, piece by piece. -/
def Ty.same : Ty → Ty → Bool
  | .path a ss, .path b ts => a == b && segmentsSame ss ts
  | .projection s m a ss, .projection t n b ts => s.same t && m == n && a == b && segmentsSame ss ts
  | .paren s, .paren t => s.same t
  | .shaped a ps, .shaped b qs => a == b && partsSame ps qs
  | _, _ => false
termination_by structural t => t

def segmentsSame : List Segment → List Segment → Bool
  | [], [] => true
  | s :: ss, t :: ts => s.same t && segmentsSame ss ts
  | _, _ => false
termination_by structural t => t

def Segment.same : Segment → Segment → Bool
  | .mk m as, .mk n bs => m == n && as.same bs
termination_by structural t => t

def Args.same : Args → Args → Bool
  | .none, .none => true
  | .angle f as l, .angle g bs m => f == g && argsSame as bs && l == m
  | .call ps, .call qs => partsSame ps qs
  | _, _ => false
termination_by structural t => t

def argsSame : List Arg → List Arg → Bool
  | [], [] => true
  | a :: as, b :: bs => a.same b && argsSame as bs
  | _, _ => false
termination_by structural t => t

def Arg.same : Arg → Arg → Bool
  | .lifetime m, .lifetime n => m == n
  | .ty s, .ty t => s.same t
  | .other ps, .other qs => partsSame ps qs
  | _, _ => false
termination_by structural t => t

def partsSame : List Part → List Part → Bool
  | [], [] => true
  | p :: ps, q :: qs => p.same q && partsSame ps qs
  | _, _ => false
termination_by structural t => t

def Part.same : Part → Part → Bool
  | .token s, .token t => s == t
  | .ty s, .ty t => s.same t
  | .segment s, .segment t => s.same t
  | .embedded k ps, .embedded l qs => k == l && partsSame ps qs
  | _, _ => false
termination_by structural t => t

end

mutual

theorem Ty.same_iff : (s t : Ty) → (s.same t = true ↔ s = t)
  | .path _ ss, t => by cases t <;> simp [Ty.same, segmentsSame_iff ss]
  | .projection s _ _ ss, t => by cases t <;> simp [Ty.same, Ty.same_iff s, segmentsSame_iff ss, and_assoc]
  | .paren s, t => by cases t <;> simp [Ty.same, Ty.same_iff s]
  | .shaped _ ps, t => by cases t <;> simp [Ty.same, partsSame_iff ps]

theorem segmentsSame_iff : (ss ts : List Segment) → (segmentsSame ss ts = true ↔ ss = ts)
  | [], ts => by cases ts <;> simp [segmentsSame]
  | s :: ss, ts => by cases ts <;> simp [segmentsSame, Segment.same_iff s, segmentsSame_iff ss]

theorem Segment.same_iff : (s t : Segment) → (s.same t = true ↔ s = t)
  | .mk _ as, .mk _ bs => by simp [Segment.same, Args.same_iff as bs]

theorem Args.same_iff : (as bs : Args) → (as.same bs = true ↔ as = bs)
  | .none, bs => by cases bs <;> simp [Args.same]
  | .angle _ as _, bs => by cases bs <;> simp [Args.same, argsSame_iff as, and_assoc]
  | .call ps, bs => by cases bs <;> simp [Args.same, partsSame_iff ps]

theorem argsSame_iff : (as bs : List Arg) → (argsSame as bs = true ↔ as = bs)
  | [], bs => by cases bs <;> simp [argsSame]
  | a :: as, bs => by cases bs <;> simp [argsSame, Arg.same_iff a, argsSame_iff as]

theorem Arg.same_iff : (a b : Arg) → (a.same b = true ↔ a = b)
  | .lifetime _, b => by cases b <;> simp [Arg.same]
  | .ty s, b => by cases b <;> simp [Arg.same, Ty.same_iff s]
  | .other ps, b => by cases b <;> simp [Arg.same, partsSame_iff ps]

theorem partsSame_iff : (ps qs : List Part) → (partsSame ps qs = true ↔ ps = qs)
  | [], qs => by cases qs <;> simp [partsSame]
  | p :: ps, qs => by cases qs <;> simp [partsSame, Part.same_iff p, partsSame_iff ps]

theorem Part.same_iff : (p q : Part) → (p.same q = true ↔ p = q)
  | .token _, q => by cases q <;> simp [Part.same]
  | .ty s, q => by cases q <;> simp [Part.same, Ty.same_iff s]
  | .segment s, q => by cases q <;> simp [Part.same, Segment.same_iff s]
  | .embedded _ ps, q => by cases q <;> simp [Part.same, partsSame_iff ps]

end

instance : DecidableEq Ty := fun s t => decidable_of_iff _ (Ty.same_iff s t)

instance : DecidableEq Part := fun p q => decidable_of_iff _ (Part.same_iff p q)

namespace Ty

/-- A type as it is written. -/
def tokens (t : Ty) : List Token := t.flatten true

/-- A path of plain names. -/
def named (names : List String) : Ty := .path false (names.map fun n => .mk n .none)

/-- A type without the parentheses around it. -/
def peel : Ty → Ty
  | .paren inner => inner.peel
  | t => t

@[simp] theorem peel_path (a : Bool) (s : List Segment) : (Ty.path a s).peel = .path a s := rfl

@[simp] theorem peel_paren (t : Ty) : (Ty.paren t).peel = t.peel := rfl

end Ty

namespace Part

/-- Code as it is written. -/
def tokens (parts : List Part) : List Token := partTokens true parts

/-- Code in the order of its source. -/
def sourceTokens (parts : List Part) : List Token := partTokens false parts

end Part

end LiveSettings
