import LiveSettings.Proofs.Code.ReadTypes

/-!
# Reading expressions

An operand is an atom and what is taken of its value: calls, fields and methods. It is read wherever a comma,
a semicolon or a closing bracket follows it, and in front of a block where no record may stand.

Results:
* `isAtom_path`, `isAtom_record`, `isAtom_array`, `isAtom_literal`: what an operand starts with.
* `isTrailers_call`, `isTrailers_field`, `isTrailers_method`: what may go on behind it.
* `isExpr_of_isOperand`: an operand is an expression.
-/

namespace LiveSettings.Grammar

open LiveSettings.Parser

/-! ## What follows -/

/-- What may follow an expression: a closing bracket, a comma or a semicolon, or a block in front of which no
record may stand. -/
def endsExpr (records : Bool) : List Token → Bool
  | .closing _ :: _ => true
  | .opening .brace :: _ => !records
  | .mark c _ :: _ => c == ',' || c == ';'
  | _ => false

/-- What may follow an atom: a call, a field or the end of the expression. -/
def endsAtom (records : Bool) (ts : List Token) : Bool :=
  endsExpr records ts || isOpening .paren ts || startsField ts

/-- Nothing goes on from an atom by itself. -/
structure EndsAtom (records : Bool) (ts : List Token) : Prop where
  args : NoArgs true ts
  path : isOp "::" ts = false
  bang : isOp "!" ts = false
  record : (records && isOpening .brace ts) = false
  word : isAnyWord ts = false

/-- Nothing goes on from an operand. -/
structure EndsExpr (records : Bool) (ts : List Token) : Prop where
  binary : binaryOp? ts = none
  assign : isAssign ts = false
  range : isOp ".." ts = false
  cast : Parser.isWord "as" ts = false
  call : isOpening .paren ts = false
  field : startsField ts = false
  index : isOpening .bracket ts = false
  question : isOp "?" ts = false
  path : isOp "::" ts = false

theorem endsExpr_cases {records : Bool} {ts : List Token} (h : endsExpr records ts = true) :
    (∃ d us, ts = .closing d :: us) ∨ (records = false ∧ ∃ us, ts = .opening .brace :: us) ∨
      ∃ c ∈ [',', ';'], ∃ joint us, ts = .mark c joint :: us := by
  cases ts with
  | nil => cases h
  | cons t us =>
    cases t with
    | closing d => exact .inl ⟨d, us, rfl⟩
    | opening d =>
      cases d with
      | brace =>
        have strict : records = false := by simpa [endsExpr] using h
        exact .inr (.inl ⟨strict, us, rfl⟩)
      | paren | bracket => cases h
    | mark c joint => exact .inr (.inr ⟨c, by simpa [endsExpr] using h, joint, us, rfl⟩)
    | ident _ | literal _ => cases h

theorem endsExpr_spec {records : Bool} {ts : List Token} (h : endsExpr records ts = true) : EndsExpr records ts := by
  obtain ⟨d, us, rfl⟩ | ⟨-, us, rfl⟩ | ⟨c, either, joint, us, rfl⟩ := endsExpr_cases h
  · exact ⟨rfl, rfl, rfl, rfl, rfl, rfl, rfl, rfl, rfl⟩
  · exact ⟨rfl, rfl, rfl, rfl, rfl, rfl, rfl, rfl, rfl⟩
  · simp only [List.mem_cons, List.not_mem_nil, or_false] at either
    rcases either with rfl | rfl <;> cases joint <;> exact ⟨rfl, rfl, rfl, rfl, rfl, rfl, rfl, rfl, rfl⟩

theorem endsAtom_spec {records : Bool} {ts : List Token} (h : endsAtom records ts = true) : EndsAtom records ts := by
  have never (b : Bool) : (b && false) = false := Bool.and_false b
  rcases Bool.or_eq_true_iff.1 h with h | field
  · rcases Bool.or_eq_true_iff.1 h with ends | call
    · obtain ⟨d, us, rfl⟩ | ⟨rfl, us, rfl⟩ | ⟨c, either, joint, us, rfl⟩ := endsExpr_cases ends
      · exact ⟨rfl, rfl, rfl, never _, rfl⟩
      · exact ⟨rfl, rfl, rfl, rfl, rfl⟩
      · simp only [List.mem_cons, List.not_mem_nil, or_false] at either
        rcases either with rfl | rfl <;> cases joint <;> exact ⟨rfl, rfl, rfl, never _, rfl⟩
    · obtain ⟨us, rfl⟩ := exists_of_isOpening call
      exact ⟨rfl, rfl, rfl, never _, rfl⟩
  · obtain ⟨joint, us, rfl⟩ := exists_mark_of_startsOp '.' [] (Bool.and_eq_true_iff.1 field).1
    cases joint <;> exact ⟨rfl, rfl, rfl, never _, rfl⟩

theorem endsAtom_of_endsExpr {records : Bool} {ts : List Token} (h : endsExpr records ts = true) :
    endsAtom records ts = true := by
  rw [endsAtom, h, Bool.true_or, Bool.true_or]

/-! ## Operands -/

/-- The tokens are read as an expression. -/
structure IsExpr (records : Bool) (depth : Nat) (ts : List Token) : Prop where
  opens : ∀ rest, isEnd (ts ++ rest) = false
  takes : ∀ rest, endsExpr records rest = true → ((deep depth).expr records).Takes (ts ++ rest) rest

/-- The expression is no range, so that more may be taken of its value. -/
def NoRange (e : Expr) : Prop := e.kind ≠ .range

/-- The tokens are read as an operand. -/
structure IsOperand (records : Bool) (depth : Nat) (ts : List Token) : Prop where
  opens : ∀ rest, isEnd (ts ++ rest) = false
  reads : ∀ rest, endsExpr records rest = true →
    ((deep depth).operand records).Reads (ts ++ rest) rest NoRange

/-- What an operand without operators starts with. -/
def startsAtom : List Token → Bool
  | .ident _ :: _ | .literal _ :: _ | .opening _ :: _ => true
  | .mark c _ :: _ => c == ':'
  | _ => false

theorem startsAtom_spec {ts : List Token} (h : startsAtom ts = true) :
    isOp "#" ts = false ∧ isOp "&" ts = false ∧ isOp "*" ts = false ∧ isOp "!" ts = false ∧
      isOp "-" ts = false ∧ isEnd ts = false := by
  unfold startsAtom at h
  split at h
  · exact ⟨rfl, rfl, rfl, rfl, rfl, rfl⟩
  · exact ⟨rfl, rfl, rfl, rfl, rfl, rfl⟩
  · exact ⟨rfl, rfl, rfl, rfl, rfl, rfl⟩
  · obtain rfl := beq_iff_eq.1 h
    exact ⟨rfl, rfl, rfl, rfl, rfl, rfl⟩
  · cases h

/-- The tokens are read as an atom by rules over those of the depth. -/
structure IsAtom (records : Bool) (depth : Nat) (ts : List Token) : Prop where
  starts : ∀ rest, startsAtom (ts ++ rest) = true
  reads : ∀ rest, endsAtom records rest = true →
    ((deep depth).atom records).Reads (ts ++ rest) rest NoRange

/-- The tokens are read as what is taken of a value. -/
structure IsTrailers (records : Bool) (depth : Nat) (ts : List Token) : Prop where
  follows : ∀ rest, endsExpr records rest = true → endsAtom records (ts ++ rest) = true
  reads : ∀ rest, endsExpr records rest = true → ∀ e : Expr, NoRange e →
    LoopReads (fun fuel => (deep depth).trailerLoop fuel e) (ts ++ rest) rest NoRange

theorem reads_no_attrs {g : Grammar} {ts : List Token} (h : isOp "#" ts = false) :
    g.outerAttrs.Reads ts ts (· = []) := by
  unfold outerAttrs many
  refine reads_ahead_bind.2 ?_
  unfold manyLoop
  refine reads_peek_bind.2 ?_
  rw [h]
  exact reads_pure rfl

theorem takes_no_attrs {g : Grammar} {ts : List Token} (h : isOp "#" ts = false) : g.outerAttrsCode.Takes ts ts :=
  takes_bind (reads_no_attrs h).takes fun _ => reads_pure trivial

variable {records : Bool} {depth : Nat} {ts us : List Token}

theorem isOperand_of_isAtom (atom : IsAtom records depth ts) (trailers : IsTrailers records depth us) :
    IsOperand records (depth + 1) (ts ++ us) where
  opens rest := by
    rw [List.append_assoc]
    exact (startsAtom_spec (atom.starts _)).2.2.2.2.2
  reads rest ends := by
    rw [List.append_assoc]
    obtain ⟨attrs, reference, deref, not, minus, -⟩ := startsAtom_spec (atom.starts (us ++ rest))
    show ((deep depth).operandRule records).Reads _ _ _
    unfold operandRule
    refine takes_bind (takes_no_attrs attrs) fun _ => reads_ahead_bind.2 ?_
    simp only [reference, deref, not, minus, Bool.or_self, Bool.false_eq_true, if_false]
    refine reads_bind (atom.reads _ (trailers.follows rest ends)) fun first kind => ?_
    have taken : ((deep depth).trailer first).Reads (us ++ rest) rest NoRange :=
      reads_ahead_bind.2 (trailers.reads rest ends first kind _ (Nat.lt_succ_self _))
    exact reads_bind taken fun e kind => reads_pure kind

/-- Whether a keyword of a reference stands here. -/
def startsQualifier (ts : List Token) : Bool :=
  Parser.isWord "mut" ts ||
    (Parser.isWord "raw" ts && (second (Parser.isWord "mut") ts || second (Parser.isWord "const") ts))

/-- A reference to an operand. -/
theorem isOperand_reference (h : IsOperand records depth ts)
    (plain : ∀ rest, endsExpr records rest = true → startsQualifier (ts ++ rest) = false) :
    IsOperand records (depth + 1) (Token.op "&" ++ ts) where
  opens _ := rfl
  reads rest ends := by
    obtain ⟨shared, safe⟩ := Bool.or_eq_false_iff.1 (plain rest ends)
    rw [List.append_assoc]
    show ((deep depth).operandRule records).Reads _ _ _
    unfold operandRule
    refine takes_bind (takes_no_attrs rfl) fun _ => reads_ahead_bind.2 ?_
    rw [if_pos (show isOp "&" (Token.op "&" ++ (ts ++ rest)) = true from rfl)]
    refine takes_bind (reads_op "&" _).takes fun _ => reads_peek_bind.2 ?_
    rw [safe]
    refine reads_bind (reads_no_optional shared) fun _ _ => ?_
    exact takes_bind (h.reads rest ends).takes fun _ => reads_pure nofun

/-- No operator follows, so that the operand is the expression. -/
theorem reads_no_operation {base : Precedence} {e : Expr} (ends : endsExpr records us = true) :
    ((deep (depth + 1)).operation e records base).Reads us us (· = e) := by
  obtain ⟨binary, assign, range, cast, -, -, -, -, -⟩ := endsExpr_spec ends
  show ((deep depth).operationRule e records base).Reads _ _ _
  unfold operationRule
  refine reads_ahead_bind.2 ?_
  unfold operationLoop
  refine reads_ahead_bind.2 ?_
  split
  · exact reads_pure rfl
  · simp only [binary, assign, range, cast, Bool.false_and, Bool.false_eq_true, if_false]
    exact reads_pure rfl

theorem isExpr_of_isOperand (h : IsOperand records (depth + 1) ts) : IsExpr records (depth + 2) ts where
  opens := h.opens
  takes rest ends := by
    show ((deep (depth + 1)).exprRule records).Takes _ _
    unfold exprRule
    exact takes_bind (h.reads rest ends).takes fun e => (reads_no_operation ends).takes

theorem takes_fullExpr (h : IsExpr true depth ts) (rest : List Token) (ends : endsExpr true rest = true) :
    (deep depth).fullExpr.Takes (ts ++ rest) rest :=
  takes_bind (h.takes rest ends) fun _ => reads_pure trivial

/-! ## What is taken of a value -/

theorem isTrailers_nil : IsTrailers records depth [] where
  follows _ ends := endsAtom_of_endsExpr ends
  reads rest ends e kind := by
    obtain ⟨-, -, -, -, call, field, index, question, -⟩ := endsExpr_spec ends
    refine loopReads_of_last fun fuel => ?_
    unfold trailerLoop
    refine reads_ahead_bind.2 ?_
    simp only [List.nil_append, call, field, index, question, Bool.false_eq_true, if_false]
    exact reads_pure kind

/-- Expressions between commas. -/
theorem takes_members {rest : List Token} {d : Delimiter} (trailing : Bool) {args : List (List Token)}
    (each : ∀ a ∈ args, IsExpr true depth a) :
    (members (deep depth).fullExpr).Takes (listed "," trailing args ++ .closing d :: rest) (.closing d :: rest) := by
  unfold members separatedCode
  refine takes_bind (takes_separated (fun ts => endsExpr true ts = true) trailing rfl rfl (fun _ => ⟨rfl, rfl⟩)
    (fun ts mem r _ => (each ts mem).opens r) (fun ts mem => takes_fullExpr (each ts mem)) ?_) fun _ =>
      reads_pure trivial
  rintro _ mem rfl
  exact absurd ((each [] mem).opens []) (by decide)

/-- The arguments of a call. -/
def arguments (args : List (List Token)) : List Token := Token.group .paren (listed "," false args)

theorem takes_arguments {rest : List Token} {args : List (List Token)} (each : ∀ a ∈ args, IsExpr true depth a) :
    (group .paren (members (deep depth).fullExpr)).Takes (arguments args ++ rest) rest := by
  have tokens : arguments args ++ rest = .opening .paren :: (listed "," false args ++ .closing .paren :: rest) := by
    simp [arguments, Token.group]
  rw [tokens]
  exact takes_group (takes_members false each)

/-- A piece in front, of which one round of the loop makes another value. -/
theorem isTrailers_cons {piece : List Token} (some : piece ≠ [])
    (starts : ∀ rest, endsAtom records (piece ++ rest) = true)
    (later : IsTrailers records depth ts)
    (round : ∀ rest Q fuel (e : Expr), endsExpr records rest = true → NoRange e →
      (∀ e' : Expr, NoRange e' → ((deep depth).trailerLoop fuel e').Reads (ts ++ rest) rest Q) →
      ((deep depth).trailerLoop (fuel + 1) e).Reads (piece ++ (ts ++ rest)) rest Q) :
    IsTrailers records depth (piece ++ ts) where
  follows rest _ := by
    rw [List.append_assoc]
    exact starts _
  reads rest ends e kind fuel enough := by
    have length := List.length_pos_iff.2 some
    rw [List.append_assoc, List.length_append] at enough
    obtain ⟨fuel, rfl⟩ := Nat.exists_eq_succ_of_ne_zero (Nat.ne_zero_of_lt enough)
    rw [List.append_assoc]
    exact round _ _ fuel e ends kind fun e' kind' => later.reads rest ends e' kind' fuel (by omega)

/-- A call of the value. -/
theorem isTrailers_call {args : List (List Token)} (each : ∀ a ∈ args, IsExpr true depth a)
    (later : IsTrailers records depth ts) : IsTrailers records depth (arguments args ++ ts) := by
  refine isTrailers_cons nofun (fun rest => ?_) later fun rest Q fuel e _ _ loop => ?_
  · rw [endsAtom, show isOpening .paren (arguments args ++ rest) = true from rfl, Bool.or_true, Bool.true_or]
  · unfold trailerLoop
    refine reads_ahead_bind.2 ?_
    rw [if_pos (show isOpening .paren (arguments args ++ (ts ++ rest)) = true from rfl)]
    exact takes_bind (takes_arguments each) fun _ => loop _ nofun

/-- The name of a member behind a point. -/
def member (name : String) : List Token := Token.op "." ++ [.ident name]

/-- The type argument of a member, if one is given. -/
def typeArgument : Option (List Token) → List Token
  | none => []
  | some ts => Token.op "::" ++ (Token.op "<" ++ (ts ++ [.mark '>' false]))

/-- Behind the name of a member its type argument is read first. -/
theorem reads_typeArgument_bind {α : Type} {arg : Option (List Token)} (each : ∀ a ∈ arg, IsArg depth a)
    {mid rest : List Token} (unmarked : isOp "::" mid = false) {next : Args → Parser α} {Q : α → Prop}
    (later : ∀ args, (arg = none → args.isNone = true) → (next args).Reads mid rest Q) : (do
      if ← peek (isOp "::") then
        guarded (third (isOp "<") (← ahead))
        let args ← (deep depth).angleArgs
        next args
      else do
        let args ← pure Args.none
        next args).Reads (typeArgument arg ++ mid) rest Q := by
  refine reads_peek_bind.2 ?_
  cases arg with
  | none =>
    rw [typeArgument, List.nil_append, unmarked]
    exact reads_bind (reads_pure rfl) fun args same => same ▸ later .none fun _ => rfl
  | some ts =>
    have tokens : typeArgument (some ts) ++ mid =
        absoluteMark true ++ (Token.op "<" ++ (listed "," false [ts] ++ .mark '>' false :: mid)) := by
      simp [typeArgument, absoluteMark, listed]
    rw [tokens]
    refine reads_ahead_bind.2 (reads_guarded_bind rfl ?_)
    have args := (reads_angleArgs true false false (fun a mem => each a (List.mem_singleton.1 mem ▸ rfl)) mid).takes
    exact takes_bind args fun args => later args fun none => by cases none

/-- A member whose name a parenthesis follows or nothing. -/
theorem reads_member {name : String} (plain : name ∉ keywords) {arg : Option (List Token)}
    (each : ∀ a ∈ arg, IsArg depth a) {mid rest : List Token} (unmarked : isOp "::" mid = false)
    (later : ∀ (method : List Part) (args : Args), (arg = none → args.isNone = true) → (do
      let called ← peek (isOpening .paren)
      guarded (called || args.isNone)
      if called then return (⟨method ++ (← group .paren (members (deep depth).fullExpr)), .methodCall⟩ : Expr)
      return (⟨method, .field⟩ : Expr)).Reads mid rest NoRange) :
    (deep depth).fieldAccess.Reads (member name ++ (typeArgument arg ++ mid)) rest NoRange := by
  have await : Parser.isWord "await" (.ident name :: (typeArgument arg ++ mid)) = false := by
    simpa [Parser.isWord] using fun same : name = "await" => plain (same ▸ by decide)
  rw [member, List.append_assoc, List.singleton_append]
  unfold fieldAccess
  refine reads_bind (reads_op "." _) fun point _ => reads_ahead_bind.2 ?_
  simp only [await]
  refine reads_bind (reads_ident plain _) fun n _ => reads_typeArgument_bind each unmarked fun args none => ?_
  exact later _ args none

theorem startsField_member (name : String) (rest : List Token) : startsField (member name ++ rest) = true := by
  simp [startsField, member, Token.op, Token.marks, isOp, startsOp]

/-- The round of a loop that takes a member. -/
theorem reads_memberRound {name : String} {mid mid' rest : List Token} {fuel : Nat} {e : Expr}
    {Q : Expr → Prop} (kind : NoRange e)
    (access : (deep depth).fieldAccess.Reads (member name ++ mid) mid' NoRange)
    (loop : ∀ e' : Expr, NoRange e' → ((deep depth).trailerLoop fuel e').Reads mid' rest Q) :
    ((deep depth).trailerLoop (fuel + 1) e).Reads (member name ++ mid) rest Q := by
  unfold trailerLoop
  refine reads_ahead_bind.2 ?_
  rw [if_neg (show ¬isOpening .paren (member name ++ mid) = true from nofun), 
    if_pos (by simpa [startsField_member, NoRange] using kind)]
  exact reads_bind access fun e' kind' => loop _ kind'

/-- A member of the value that is no method. -/
theorem isTrailers_field {name : String} (plain : name ∉ keywords)
    (uncalled : ∀ rest, endsExpr records rest = true → isOpening .paren (ts ++ rest) = false)
    (later : IsTrailers records depth ts) : IsTrailers records depth (member name ++ ts) := by
  refine isTrailers_cons nofun (fun rest => ?_) later fun rest Q fuel e ends kind loop => ?_
  · rw [endsAtom, startsField_member, Bool.or_true]
  · have unmarked := (endsAtom_spec (later.follows rest ends)).path
    have access : (deep depth).fieldAccess.Reads (member name ++ (typeArgument none ++ (ts ++ rest))) (ts ++ rest)
        NoRange := by
      refine reads_member plain (fun a mem => absurd mem (Option.not_mem_none a)) unmarked fun method args none => ?_
      refine reads_peek_bind.2 (reads_guarded_bind (by rw [none rfl, Bool.or_true]) ?_)
      rw [uncalled rest ends]
      exact reads_pure nofun
    exact reads_memberRound kind access loop

/-- A method call, with a type argument if one is given. -/
theorem isTrailers_method {name : String} (plain : name ∉ keywords) {arg : Option (List Token)}
    (typed : ∀ a ∈ arg, IsArg depth a) {args : List (List Token)} (each : ∀ a ∈ args, IsExpr true depth a)
    (later : IsTrailers records depth ts) :
    IsTrailers records depth (member name ++ (typeArgument arg ++ arguments args) ++ ts) := by
  refine isTrailers_cons nofun (fun rest => ?_) later fun rest Q fuel e ends kind loop => ?_
  · rw [List.append_assoc, endsAtom, startsField_member, Bool.or_true]
  · rw [List.append_assoc, List.append_assoc]
    refine reads_memberRound kind (reads_member plain typed rfl fun method args none => ?_) loop
    refine reads_peek_bind.2 (reads_guarded_bind rfl ?_)
    exact takes_bind (takes_arguments each) fun _ => reads_pure nofun

/-! ## Atoms -/

theorem isAtom_literal (text : String) : IsAtom records depth [.literal text] where
  starts _ := rfl
  reads rest _ := by
    unfold atom
    refine reads_ahead_bind.2 ?_
    rw [if_pos (show isLiteral ([.literal text] ++ rest) = true from rfl)]
    exact takes_bind (takes_literal text rest) fun _ => reads_pure nofun

theorem isAtom_truth (b : Bool) : IsAtom records depth [.ident (if b then "true" else "false")] where
  starts _ := rfl
  reads rest _ := by
    have literal : isLiteral ([.ident (if b then "true" else "false")] ++ rest) = true := by cases b <;> rfl
    unfold atom
    refine reads_ahead_bind.2 ?_
    rw [if_pos literal]
    exact takes_bind (takes_truth b rest) fun _ => reads_pure nofun

/-- A path that may stand in code starts neither a literal nor a keyword's expression. -/
theorem startsAtom_path {p : NamePath} (h : IsPath p) (rest : List Token) :
    isLiteral (p.tokens ++ rest) = false ∧ startsAsyncBlock (p.tokens ++ rest) = false ∧
      startsClosure (p.tokens ++ rest) = false ∧ startsPath (p.tokens ++ rest) = true ∧
      isOp "<" (p.tokens ++ rest) = false ∧ startsAtom (p.tokens ++ rest) = true := by
  obtain ⟨name, names, named, tokens⟩ := h.exists_tokens
  have inPath := h.words name (named ▸ List.mem_cons_self)
  rw [tokens, List.append_assoc, List.cons_append]
  cases p.absolute with
  | true => exact ⟨rfl, rfl, rfl, rfl, rfl, rfl⟩
  | false =>
    have other {w : String} (keyword : w ∈ keywords) (outside : w ∉ pathWords) (us : List Token) :
        Parser.isWord w (.ident name :: us) = false := isWord_inPath inPath keyword outside us
    have ne {w : String} (keyword : w ∈ keywords) (outside : w ∉ pathWords) : (name == w) = false :=
      beq_false_of_ne (inPath.ne keyword outside)
    refine ⟨?_, ?_, ?_, ?_, rfl, rfl⟩
    · simp [absoluteMark, isLiteral, ne (w := "true") (by decide) (by decide),
        ne (w := "false") (by decide) (by decide)]
    · simp [absoluteMark, startsAsyncBlock, other (w := "async") (by decide) (by decide)]
    · simp [absoluteMark, startsClosure, other (w := "async") (by decide) (by decide),
        other (w := "move") (by decide) (by decide), other (w := "for") (by decide) (by decide),
        other (w := "const") (by decide) (by decide), other (w := "static") (by decide) (by decide), isOp, startsOp]
    · rcases inPath with plain | path
      · simp [absoluteMark, startsPath, isIdent, plain]
      · simp only [pathWords, List.mem_cons, List.not_mem_nil, or_false] at path
        rcases path with rfl | rfl | rfl | rfl <;> rfl

theorem reads_exprPath {g : Grammar} {p : NamePath} (h : IsPath p) {rest : List Token} (plain : NoArgs true rest)
    (ends : isOp "::" rest = false) :
    g.exprPath.Reads (p.tokens ++ rest) rest (· = (Path.ofNames p).toTy) := by
  obtain ⟨-, -, -, -, projection, -⟩ := startsAtom_path h rest
  unfold exprPath tyPath
  refine reads_peek_bind.2 ?_
  rw [projection]
  exact reads_bind (reads_path h plain ends) fun q same => reads_pure (by rw [same])

/-- A path is an atom. -/
theorem isAtom_path {p : NamePath} (h : IsPath p) : IsAtom records depth p.tokens where
  starts rest := (startsAtom_path h rest).2.2.2.2.2
  reads rest ends := by
    obtain ⟨literal, asyncBlock, closure, path, -, -⟩ := startsAtom_path h rest
    have follows := endsAtom_spec ends
    unfold atom
    refine reads_ahead_bind.2 ?_
    simp only [literal, asyncBlock, closure, path, Bool.true_or, Bool.false_eq_true, if_false, if_true]
    unfold pathExpr
    refine reads_bind (reads_exprPath h follows.args follows.path) fun q _ => reads_ahead_bind.2 ?_
    simp only [follows.bang, follows.record, Bool.and_false, Bool.false_and, Bool.false_eq_true, if_false]
    exact reads_pure nofun

/-- The value of a field in a record. -/
def fieldValueTokens (name : String) (value : List Token) : List Token :=
  .ident name :: (Token.op ":" ++ (value ++ Token.op ","))

theorem takes_fieldValues {fields : List (String × List Token)} (names : ∀ f ∈ fields, f.1 ∉ keywords)
    (values : ∀ f ∈ fields, IsExpr true depth f.2) (d : Delimiter) (rest : List Token) :
    LoopReads (deep depth).fieldValues (fields.flatMap (fun f => fieldValueTokens f.1 f.2) ++ .closing d :: rest)
      (.closing d :: rest) fun _ => True := by
  induction fields with
  | nil =>
    refine loopReads_of_last fun fuel => ?_
    unfold fieldValues
    exact reads_ahead_bind.2 (reads_pure trivial)
  | cons f fields ih =>
    have later := ih (fun f mem => names f (List.mem_cons_of_mem _ mem)) fun f mem =>
      values f (List.mem_cons_of_mem _ mem)
    have plain := names f List.mem_cons_self
    have value := values f List.mem_cons_self
    rw [List.flatMap_cons, List.append_assoc]
    generalize (fields.flatMap fun f => fieldValueTokens f.1 f.2) ++ Token.closing d :: rest = mid at later ⊢
    have tokens : fieldValueTokens f.1 f.2 ++ mid = .ident f.1 :: (Token.op ":" ++ (f.2 ++ (Token.op "," ++ mid))) := by
      simp [fieldValueTokens]
    rw [tokens]
    refine loopReads_of_round (by simp only [List.length_cons, List.length_append]; omega) later fun fuel tail => ?_
    have field : (deep depth).fieldValue.Takes (.ident f.1 :: (Token.op ":" ++ (f.2 ++ (Token.op "," ++ mid))))
        (Token.op "," ++ mid) := by
      have name : fieldName.Takes (.ident f.1 :: (Token.op ":" ++ (f.2 ++ (Token.op "," ++ mid))))
          (Token.op ":" ++ (f.2 ++ (Token.op "," ++ mid))) := by
        unfold fieldName
        refine reads_ahead_bind.2 ?_
        exact takes_bind (reads_ident plain _).takes fun _ => reads_pure trivial
      unfold fieldValue
      refine takes_bind (takes_no_attrs rfl) fun _ => reads_peek_bind.2 (takes_bind name fun _ => ?_)
      refine reads_peek_bind.2 ?_
      rw [show isOp ":" (Token.op ":" ++ (f.2 ++ (Token.op "," ++ mid))) = true from rfl, Bool.or_true]
      have read := takes_seq_cons (reads_op ":" _).takes
        (takes_seq_cons (takes_fullExpr value (Token.op "," ++ mid) rfl) takes_seq_nil)
      exact takes_bind read fun _ => reads_pure trivial
    unfold fieldValues
    refine reads_ahead_bind.2 ?_
    rw [if_neg (show ¬isEnd (.ident f.1 :: (Token.op ":" ++ (f.2 ++ (Token.op "," ++ mid)))) = true from nofun),
      if_neg (show ¬isOp ".." (.ident f.1 :: (Token.op ":" ++ (f.2 ++ (Token.op "," ++ mid)))) = true from nofun)]
    refine takes_bind field fun _ => reads_peek_bind.2 ?_
    rw [if_neg (show ¬isEnd (Token.op "," ++ mid) = true from nofun)]
    exact takes_bind (reads_op "," mid).takes fun _ => takes_bind tail fun _ => reads_pure trivial

/-- A record by its path and its fields, each with a comma behind it. -/
theorem isAtom_record {p : NamePath} (h : IsPath p) {fields : List (String × List Token)}
    (names : ∀ f ∈ fields, f.1 ∉ keywords) (values : ∀ f ∈ fields, IsExpr true depth f.2) :
    IsAtom true depth (p.tokens ++ Token.group .brace (fields.flatMap fun f => fieldValueTokens f.1 f.2)) where
  starts rest := by
    rw [List.append_assoc]
    exact (startsAtom_path h _).2.2.2.2.2
  reads rest _ := by
    have tokens : p.tokens ++ Token.group .brace (fields.flatMap fun f => fieldValueTokens f.1 f.2) ++ rest =
        p.tokens ++ .opening .brace :: ((fields.flatMap fun f => fieldValueTokens f.1 f.2) ++
          .closing .brace :: rest) := by
      simp [Token.group]
    rw [tokens]
    have inner := takes_fieldValues names values .brace rest
    generalize (fields.flatMap fun f => fieldValueTokens f.1 f.2) ++ Token.closing .brace :: rest = mid at inner ⊢
    obtain ⟨literal, asyncBlock, closure, path, -, -⟩ := startsAtom_path h (.opening .brace :: mid)
    unfold atom
    refine reads_ahead_bind.2 ?_
    simp only [literal, asyncBlock, closure, path, Bool.true_or, Bool.false_eq_true, if_false, if_true]
    unfold pathExpr
    refine reads_bind (reads_exprPath h rfl rfl) fun q _ => reads_ahead_bind.2 ?_
    rw [show isOp "!" (Token.opening .brace :: mid) = false from rfl,
      show isOpening .brace (Token.opening .brace :: mid) = true from rfl]
    simp only [Bool.and_false, Bool.false_and, Bool.false_eq_true, if_false, Bool.and_true, if_true]
    exact takes_bind (takes_group (inner _ (Nat.lt_succ_self _))) fun _ => reads_pure fun same => by cases same

/-- An array by its elements. -/
theorem isAtom_array {elements : List (List Token)} (each : ∀ a ∈ elements, IsExpr true depth a) :
    IsAtom records depth (Token.group .bracket (listed "," false elements)) where
  starts _ := rfl
  reads rest _ := by
    have tokens : Token.group .bracket (listed "," false elements) ++ rest =
        .opening .bracket :: (listed "," false elements ++ .closing .bracket :: rest) := by
      simp [Token.group]
    rw [tokens]
    unfold atom
    refine reads_ahead_bind.2 ?_
    show ((deep depth).arrayExpr).Reads _ _ _
    have inner : (do
        if ← peek isEnd then return (ExprKind.array, [])
        let first ← (deep depth).fullExpr
        let ts ← ahead
        if isOp ";" ts then return (.repetition, first ++ (← seq [op ";", (deep depth).fullExpr]))
        if isOp "," ts then
          let comma ← op ","
          return (.array, first ++ comma ++ (← members (deep depth).fullExpr))
        return (.array, first)).Reads (listed "," false elements ++ Token.closing .bracket :: rest)
          (Token.closing .bracket :: rest) fun r => r.1 ≠ ExprKind.range := by
      refine reads_peek_bind.2 ?_
      cases elements with
      | nil => exact reads_pure fun same => by cases same
      | cons first more =>
        have here := each first List.mem_cons_self
        have each : ∀ a ∈ more, IsExpr true depth a := fun a mem => each a (List.mem_cons_of_mem _ mem)
        cases more with
        | nil =>
          have single : listed "," false [first] = first := List.append_nil _
          rw [single, here.opens]
          refine takes_bind (takes_fullExpr here _ rfl) fun _ => reads_ahead_bind.2 ?_
          exact reads_pure fun same => by cases same
        | cons second more =>
          rw [listed, List.append_assoc, List.append_assoc, here.opens]
          refine takes_bind (takes_fullExpr here _ rfl) fun _ => reads_ahead_bind.2 ?_
          refine takes_bind (reads_op "," _).takes fun _ => takes_bind (takes_members false each) fun _ => ?_
          exact reads_pure fun same => by cases same
    unfold arrayExpr
    exact reads_bind (reads_inside inner) fun r kind => reads_pure kind

end LiveSettings.Grammar
