import LiveSettings.Code.Item

/-!
# Parsers over tokens

A parser takes tokens from the front of the input and may fail. The content of a group ends at its closing
token. Most parsers give the code that they have read, in the fixed spacing of written code. Items that
stand in nested code are noted on the side. `many` and `separated` repeat a parser at most as often as there
are tokens.

Results: `run_bind` (one parser runs on what the other left), `suffix_of_run` (what is left is an end of what
there was).
-/

namespace LiveSettings

/-- The tokens to be read, and the items noted so far. -/
structure Input where
  rest : List Token
  found : List Item
  deriving Inhabited

/-- Takes tokens from the front of the input, or fails. It can only leave an end of them. -/
structure Parser (α : Type) where
  step : (s : Input) → Option (α × { s' : Input // s'.rest <:+ s.rest })

namespace Parser

instance : Monad Parser where
  pure a := ⟨fun s => some (a, ⟨s, List.suffix_rfl⟩)⟩
  bind p f := ⟨fun s =>
    match p.step s with
    | none => none
    | some (a, s') =>
      match (f a).step s'.val with
      | none => none
      | some (b, s'') => some (b, ⟨s''.val, s''.property.trans s'.property⟩)⟩

instance : Alternative Parser where
  failure := ⟨fun _ => none⟩
  orElse p q := ⟨fun s => (p.step s).orElse fun _ => (q ()).step s⟩

/-- What the parser gives, and the input behind it. -/
def run (p : Parser α) (s : Input) : Option (α × Input) := (p.step s).map fun r => (r.1, r.2.val)

theorem suffix_of_run {p : Parser α} {s s' : Input} {a : α} (h : p.run s = some (a, s')) :
    s'.rest <:+ s.rest := by
  obtain ⟨⟨a, s', behind⟩, -, same⟩ := Option.map_eq_some_iff.1 h
  cases same
  exact behind

@[simp]
theorem run_pure (a : α) (s : Input) : (pure a : Parser α).run s = some (a, s) := rfl

@[simp]
theorem run_failure (s : Input) : (failure : Parser α).run s = none := rfl

@[simp]
theorem run_bind (p : Parser α) (f : α → Parser β) (s : Input) :
    (p >>= f).run s = (p.run s).bind fun r => (f r.1).run r.2 := by
  simp only [run, bind]
  cases p.step s with
  | none => rfl
  | some r =>
    obtain ⟨a, s', behind⟩ := r
    simp only [Option.map_some, Option.bind_some]
    cases (f a).step s' <;> rfl

@[simp]
theorem run_map (f : α → β) (p : Parser α) (s : Input) :
    (f <$> p).run s = (p.run s).map fun r => (f r.1, r.2) := by
  have bound : (f <$> p).run s = (p >>= fun a => pure (f a)).run s := rfl
  rw [bound, run_bind]
  cases p.run s <;> rfl

@[simp]
theorem run_discard (p : Parser α) (s : Input) :
    (discard p : Parser Unit).run s = (p.run s).map fun r => ((), r.2) :=
  run_map (fun _ => ()) p s

/-! ## Looking ahead -/

/-- The marks of an operator stand in front, joined. A longer operator may go on from them. -/
def startsOp : List Char → List Token → Bool
  | [], _ => true
  | [c], .mark d _ :: _ => c == d
  | c :: cs, .mark d true :: ts => c == d && startsOp cs ts
  | _, _ => false

def isOp (spelling : String) (ts : List Token) : Bool := startsOp spelling.toList ts

def isWord (word : String) : List Token → Bool
  | .ident name :: _ => name == word
  | _ => false

/-- Words that are no identifiers. -/
def keywords : List String :=
  ["_", "abstract", "as", "async", "await", "become", "box", "break", "const", "continue", "crate",
   "do", "dyn", "else", "enum", "extern", "false", "final", "fn", "for", "if", "impl", "in", "let",
   "loop", "macro", "match", "mod", "move", "mut", "override", "priv", "pub", "ref", "return",
   "Self", "self", "static", "struct", "super", "trait", "true", "try", "type", "typeof", "unsafe",
   "unsized", "use", "virtual", "where", "while", "yield"]

def isIdent : List Token → Bool
  | .ident name :: _ => !keywords.contains name
  | _ => false

def isAnyWord : List Token → Bool
  | .ident _ :: _ => true
  | _ => false

def isOpening (d : Delimiter) : List Token → Bool
  | .opening e :: _ => d == e
  | _ => false

/-- The input, or the content of the group being read, is at its end. -/
def isEnd : List Token → Bool
  | [] => true
  | .closing _ :: _ => true
  | _ => false

def isLifetime : List Token → Bool
  | .mark '\'' true :: .ident _ :: _ => true
  | _ => false

/-- A literal of a number. -/
def isNumber (text : String) : Bool := text.toList.head?.any fun c => '0' ≤ c && c ≤ '9'

/-- A literal; a negative number is one too, and so are the truth values. -/
def isLiteral : List Token → Bool
  | .literal _ :: _ => true
  | .mark '-' _ :: .literal text :: _ => isNumber text
  | .ident name :: _ => name == "true" || name == "false"
  | _ => false

/-- A literal of a text. -/
def isText : List Token → Bool
  | .literal text :: _ => text.startsWith "\"" || text.startsWith "r"
  | _ => false

/-- The tokens behind one token tree; a lifetime counts as one. -/
def skip (ts : List Token) : List Token :=
  if isLifetime ts then ts.drop 2 else Token.skipTree ts

/-- Looks behind one token tree. -/
def second (p : List Token → Bool) (ts : List Token) : Bool := p (skip ts)

/-- Looks behind two token trees. -/
def third (p : List Token → Bool) (ts : List Token) : Bool := p (skip (skip ts))

/-! ## Basic parsers -/

/-- The tokens that are left. -/
def ahead : Parser (List Token) := ⟨fun s => some (s.rest, ⟨s, List.suffix_rfl⟩)⟩

def peek (p : List Token → Bool) : Parser Bool := return p (← ahead)

/-- Takes one token. -/
def next : Parser Token := ⟨fun
  | ⟨t :: ts, found⟩ => some (t, ⟨⟨ts, found⟩, List.suffix_cons t ts⟩)
  | ⟨[], _⟩ => none⟩

/-- Takes a number of tokens. -/
def advance (n : Nat) : Parser Unit :=
  ⟨fun s => some ((), ⟨{ s with rest := s.rest.drop n }, List.drop_suffix n s.rest⟩)⟩

/-- Puts other items in the place of those noted so far, and gives these. -/
def exchange (items : List Item) : Parser (List Item) :=
  ⟨fun s => some (s.found, ⟨{ s with found := items }, List.suffix_rfl⟩)⟩

def guarded (b : Bool) : Parser Unit := if b then pure () else failure

def code (ts : List Token) : List Part := ts.map .token

/-- The operator. -/
def op (spelling : String) : Parser (List Part) := do
  guarded (isOp spelling (← ahead))
  advance spelling.length
  return code (Token.op spelling)

/-- The word. -/
def word (w : String) : Parser (List Part) := do
  guarded (isWord w (← ahead))
  return code [← next]

/-- An identifier. -/
def ident : Parser String := do
  guarded (isIdent (← ahead))
  match ← next with
  | .ident name => return name
  | _ => failure

/-- An identifier or keyword. -/
def anyWord : Parser String := do
  match ← next with
  | .ident name => return name
  | _ => failure

def identCode : Parser (List Part) := return code [.ident (← ident)]

def anyWordCode : Parser (List Part) := return code [.ident (← anyWord)]

/-- The name of a lifetime. -/
def lifetime : Parser String := do
  guarded (isLifetime (← ahead))
  discard next
  anyWord

def lifetimeCode : Parser (List Part) := return code (Token.lifetime (← lifetime))

/-- A literal. The sign of a negative number stands apart. -/
def literal : Parser (List Part) := do
  guarded (isLiteral (← ahead))
  match ← next with
  | .mark c _ => return code [.mark c false, ← next]
  | t => return code [t]

def text : Parser (List Part) := do
  guarded (isText (← ahead))
  return code [← next]

/-! ## Combining parsers -/

/-- One after the other. -/
def seq : List (Parser (List Part)) → Parser (List Part)
  | [] => pure []
  | p :: ps => return (← p) ++ (← seq ps)

/-- Code of a kind of its own. -/
def embed (kind : Embedded) (p : Parser (List Part)) : Parser (List Part) := return [.embedded kind (← p)]

/-- The parser if the input looks like it, or nothing. -/
def optional (look : List Token → Bool) (p : Parser (List Part)) : Parser (List Part) := do
  if ← peek look then p else pure []

def optOp (spelling : String) : Parser (List Part) := optional (isOp spelling) (op spelling)

def optWord (w : String) : Parser (List Part) := optional (isWord w) (word w)

def optLifetime : Parser (List Part) := optional isLifetime lifetimeCode

/-- The content of a group, which the parser has to read to its end. -/
def inside (d : Delimiter) (p : Parser α) : Parser α := do
  guarded (isOpening d (← ahead))
  discard next
  let a ← p
  match ← next with
  | .closing e => if d = e then return a else failure
  | _ => failure

/-- A group with its brackets. -/
def group (d : Delimiter) (p : Parser (List Part)) : Parser (List Part) :=
  return code [.opening d] ++ (← inside d p) ++ code [.closing d]

/-- Repeats the parser while the input looks like it. -/
def manyLoop (look : List Token → Bool) (p : Parser α) : Nat → Parser (List α)
  | 0 => failure
  | fuel + 1 => do
    if ← peek look then
      let a ← p
      return a :: (← manyLoop look p fuel)
    else return []

def many (look : List Token → Bool) (p : Parser α) : Parser (List α) := do
  manyLoop look p ((← ahead).length + 1)

/-- Members and whether the last is followed by a separator. Reading stops before a member where the
input looks like `stop`, and after a member that no separator follows. -/
def separatedLoop (stop : List Token → Bool) (more : List Token → Bool) (sep : Parser (List Part))
    (p : Parser α) : Nat → Parser (List α × Bool)
  | 0 => failure
  | fuel + 1 => do
    if ← peek stop then return ([], true)
    let a ← p
    if ← peek more then
      discard sep
      let (rest, trailing) ← separatedLoop stop more sep p fuel
      return (a :: rest, trailing)
    else return ([a], false)

/-- Members between which a separator has to stand, up to `stop`. -/
def separated (stop : List Token → Bool) (sep : String) (p : Parser α) : Parser (List α × Bool) := do
  separatedLoop stop (fun ts => !stop ts) (op sep) p ((← ahead).length + 1)

/-- Members for as long as separators follow them. -/
def chained (stop : List Token → Bool) (sep : String) (p : Parser α) : Parser (List α × Bool) := do
  separatedLoop stop (isOp sep) (op sep) p ((← ahead).length + 1)

/-- Members as code, with the separators between them. -/
def joinCode (sep : String) (members : List (List Part)) (trailing : Bool) : List Part :=
  (code (Token.op sep)).intercalate members ++
    if trailing && !members.isEmpty then code (Token.op sep) else []

def separatedCode (stop : List Token → Bool) (sep : String) (p : Parser (List Part)) :
    Parser (List Part) := do
  let (members, trailing) ← separated stop sep p
  return joinCode sep members trailing

def chainedCode (stop : List Token → Bool) (sep : String) (p : Parser (List Part)) :
    Parser (List Part) := do
  let (members, trailing) ← chained stop sep p
  return joinCode sep members trailing

/-- Members with commas between them, up to the end of the group. -/
def members (p : Parser (List Part)) : Parser (List Part) := separatedCode isEnd "," p

/-- The tokens up to the end of the group, unread. -/
def rawLoop : Nat → Nat → Parser (List Token)
  | 0, _ => failure
  | fuel + 1, depth => do
    match ← ahead with
    | [] => if depth = 0 then return [] else failure
    | .closing d :: _ =>
      if depth = 0 then return []
      discard next
      return .closing d :: (← rawLoop fuel (depth - 1))
    | .opening d :: _ =>
      discard next
      return .opening d :: (← rawLoop fuel (depth + 1))
    | t :: _ =>
      discard next
      return t :: (← rawLoop fuel depth)

def raw : Parser (List Token) := do rawLoop ((← ahead).length + 1) 0

/-- A group of any kind with its content unread. -/
def rawGroup : Parser (Delimiter × List Token) := do
  match ← ahead with
  | .opening d :: _ => return (d, ← inside d raw)
  | _ => failure

def rawGroupCode : Parser (List Part) := do
  let (d, ts) ← rawGroup
  return code (Token.group d ts)

/-- The tokens that the parser takes, as they stand in the source. -/
def verbatim (p : Parser α) : Parser (List Token) := do
  let before ← ahead
  discard p
  let after ← ahead
  return before.take (before.length - after.length)

/-- Runs the parser without noting items, and gives those that it would have noted. -/
def collecting (p : Parser α) : Parser (α × List Item) := do
  let before ← exchange []
  let a ← p
  let found ← exchange before
  return (a, found)

def note (items : List Item) : Parser Unit := do
  let before ← exchange []
  discard (exchange (before ++ items))

/-- The tokens that the parser would leave, if it succeeds here; nothing is taken. -/
def behind (p : Parser α) : Parser (Option (List Token)) :=
  ⟨fun s => some ((p.run s).map (·.2.rest), ⟨s, List.suffix_rfl⟩)⟩

/-- Whether the parser succeeds here; nothing is taken. -/
def succeeds (p : Parser α) : Parser Bool := return (← behind p).isSome

/-- The result of a parser that takes all tokens. -/
def runAll (p : Parser α) (ts : List Token) : Option α := do
  let (a, s) ← p.run ⟨ts, []⟩
  if s.rest.isEmpty then some a else none

end Parser

end LiveSettings
