import LiveSettings.Proofs.Code.ReadExpressions

/-!
# Reading statements and items

The body of a block is read statement by statement, the members of an implementation function by function.

Results:
* `isBody_value`, `isBody_statement`, `isBody_binding`, `isBody_conditional`, `isBody_constant`: bodies, put
  together from their first statement and the rest.
* `reads_implementation`: an implementation gives its trait, its type and the names of its functions.
-/

namespace LiveSettings.Grammar

open LiveSettings.Parser

/-! ## What a statement starts with -/

theorem reads_namePath {p : NamePath} (some : p.names ≠ []) {rest : List Token} (ends : isOp "::" rest = false) :
    namePath.Reads (p.tokens ++ rest) rest (· = p) := by
  obtain ⟨absolute, names⟩ := p
  cases names with
  | nil => exact absurd rfl some
  | cons name names =>
    have tokens : (NamePath.mk absolute (name :: names)).tokens ++ rest =
        absoluteMark absolute ++ .ident name :: ((names.flatMap fun n => further [.ident n]) ++ rest) := by
      rw [NamePath.tokens, List.map_cons, joinSegments_cons, List.flatMap_map]
      simp
    have later : (many (isOp "::") do
        discard (op "::")
        anyWord).Reads ((names.flatMap fun n => further [.ident n]) ++ rest) rest (· = names) := by
      have round (n : String) (r : List Token) : (do
          discard (op "::")
          anyWord).Reads (further [.ident n] ++ r) r (· = n) := by
        rw [further, List.append_assoc]
        exact takes_discard_bind (reads_op "::" _).takes (reads_anyWord n r)
      have loop : (many (isOp "::") do
          discard (op "::")
          anyWord).Reads ((names.flatMap fun n => further [.ident n]) ++ rest) rest
            (List.Forall₂ (fun n m => m = n) names) :=
        reads_many (fun _ => True) ends trivial (fun _ _ _ => rfl) (fun _ _ _ => trivial) (fun n _ r _ => round n r)
          fun _ _ same => by cases same
      exact loop.mono fun ns same => (eq_map_of_forall₂ same).trans (List.map_id names)
    rw [tokens]
    unfold namePath
    refine reads_peek_bind.2 ?_
    have words : (do
        let first ← anyWord
        let rest ← many (isOp "::") do
          discard (op "::")
          anyWord
        return (⟨absolute, first :: rest⟩ : NamePath)).Reads
          (.ident name :: ((names.flatMap fun n => further [.ident n]) ++ rest)) rest
            (· = NamePath.mk absolute (name :: names)) :=
      reads_bind (reads_anyWord name _) fun first same => reads_bind later fun ns rest =>
        reads_pure (by rw [same, rest])
    cases absolute with
    | true => exact takes_discard_bind (reads_optional rfl (reads_op "::" _)).takes words
    | false => exact takes_discard_bind (reads_no_optional rfl).takes words

/-- An expression that may start a statement. -/
structure StartsStatement (ts : List Token) : Prop where
  attrs : isOp "#" ts = false
  bang : behindBang.Reads ts ts (· = none)
  binding : Parser.isWord "let" ts = false
  item : startsItem ts = false
  control : ∀ g : Grammar, g.control? ts = none
  opens : isEnd ts = false
  some : isOp ";" ts = false

theorem reads_behindBang {ts rest : List Token} {S : NamePath → Prop} (path : namePath.Reads ts rest S)
    (plain : isOp "!" rest = false) : behindBang.Reads ts ts (· = none) := by
  unfold behindBang
  refine reads_bind (reads_behind path.takes) fun found same => ?_
  subst same
  simp only [plain]
  exact reads_pure rfl

theorem reads_no_behindBang {ts : List Token} (no : namePath.Fails ts) : behindBang.Reads ts ts (· = none) := by
  unfold behindBang
  refine reads_bind (reads_not_behind no) fun found same => ?_
  subst same
  exact reads_pure rfl

theorem startsStatement_reference (ts : List Token) : StartsStatement (Token.op "&" ++ ts) where
  attrs := rfl
  bang := by
    refine reads_no_behindBang (fails_peek_bind.2 ?_)
    refine fails_bind_of_reads (takes_discard (reads_no_optional rfl).takes) fun _ _ => fails_bind ?_
    exact fun _ => rfl
  binding := rfl
  item := rfl
  control _ := rfl
  opens := rfl
  some := rfl

/-- No word stands at the start. -/
theorem isWord_of_not_isAnyWord {ts : List Token} (h : isAnyWord ts = false) (w : String) :
    Parser.isWord w ts = false := by
  unfold isAnyWord at h
  split at h
  · cases h
  · unfold Parser.isWord
    split
    · simp_all
    · rfl

theorem isIdent_of_not_isAnyWord {ts : List Token} (h : isAnyWord ts = false) : isIdent ts = false := by
  unfold isAnyWord at h
  split at h
  · cases h
  · unfold isIdent
    split
    · simp_all
    · rfl

/-- No item starts with a name behind which no other one stands. -/
theorem not_startsItem_ident {name : String} (h : InPath name) {us : List Token} (word : isAnyWord us = false)
    (crate : name = "crate" → isOp "::" us = true) : startsItem (.ident name :: us) = false := by
  have other {w : String} (keyword : w ∈ keywords) (outside : w ∉ pathWords) :
      Parser.isWord w (.ident name :: us) = false := isWord_inPath h keyword outside us
  have second (look : List Token → Bool) : second look (.ident name :: us) = look us := rfl
  have rooted : (Parser.isWord "crate" (.ident name :: us) && !isOp "::" us) = false := by
    by_cases same : name = "crate"
    · rw [crate same, Bool.not_true, Bool.and_false]
    · simp [Parser.isWord, same]
  simp only [startsItem, List.any_cons, List.any_nil, second, rooted, isWord_of_not_isAnyWord word,
    isIdent_of_not_isAnyWord word, Bool.or_self, Bool.and_false, Bool.or_false,
    other (w := "pub") (by decide) (by decide), other (w := "extern") (by decide) (by decide),
    other (w := "use") (by decide) (by decide), other (w := "fn") (by decide) (by decide),
    other (w := "mod") (by decide) (by decide), other (w := "type") (by decide) (by decide),
    other (w := "struct") (by decide) (by decide), other (w := "enum") (by decide) (by decide),
    other (w := "trait") (by decide) (by decide), other (w := "impl") (by decide) (by decide),
    other (w := "macro") (by decide) (by decide), other (w := "static") (by decide) (by decide),
    other (w := "const") (by decide) (by decide), other (w := "unsafe") (by decide) (by decide),
    other (w := "async") (by decide) (by decide), Bool.false_and]

/-- No control flow starts with a name in a path. -/
theorem control?_ident {g : Grammar} {name : String} (h : InPath name) (us : List Token) :
    g.control? (.ident name :: us) = none := by
  have other {w : String} (keyword : w ∈ keywords) (outside : w ∉ pathWords) :
      Parser.isWord w (.ident name :: us) = false := isWord_inPath h keyword outside us
  have block : isOpening .brace (.ident name :: us) = false := rfl
  have label : isLifetime (.ident name :: us) = false := rfl
  simp only [control?, block, label, Bool.false_and, Bool.false_eq_true, if_false,
    other (w := "if") (by decide) (by decide), other (w := "while") (by decide) (by decide),
    other (w := "for") (by decide) (by decide), other (w := "loop") (by decide) (by decide),
    other (w := "match") (by decide) (by decide), other (w := "try") (by decide) (by decide),
    other (w := "unsafe") (by decide) (by decide), other (w := "const") (by decide) (by decide)]

/-- A path that is more than the word `crate`, in front of what is no part of it. -/
theorem startsStatement_path {p : NamePath} (h : IsPath p) (more : p.names ≠ ["crate"]) {rest : List Token}
    (path : isOp "::" rest = false) (bang : isOp "!" rest = false) (word : isAnyWord rest = false) :
    StartsStatement (p.tokens ++ rest) := by
  have reads := reads_behindBang (reads_namePath h.some path) bang
  obtain ⟨-, -, -, -, -, starts⟩ := startsAtom_path h rest
  obtain ⟨attrs, -, -, -, -, opens⟩ := startsAtom_spec starts
  obtain ⟨name, names, named, tokens⟩ := h.exists_tokens
  have inPath := h.words name (named ▸ List.mem_cons_self)
  have noWord : isAnyWord ((names.flatMap fun n => further [.ident n]) ++ rest) = false := by
    cases names with
    | nil => exact word
    | cons => rfl
  have crate : name = "crate" → isOp "::" ((names.flatMap fun n => further [.ident n]) ++ rest) = true := by
    rintro rfl
    cases names with
    | nil => exact absurd named more
    | cons => rfl
  rw [tokens, List.append_assoc, List.cons_append] at reads attrs opens ⊢
  generalize (names.flatMap fun n => further [.ident n]) ++ rest = us at *
  generalize p.absolute = absolute at *
  cases absolute with
  | true => exact ⟨attrs, reads, rfl, rfl, fun _ => rfl, opens, rfl⟩
  | false => exact ⟨attrs, reads, isWord_inPath inPath (by decide) (by decide) us,
      not_startsItem_ident inPath noWord crate, fun g => control?_ident inPath us, opens, rfl⟩

/-! ## Bodies -/

/-- The tokens are read as the statements of a block, by rules over those of the depth. -/
def IsBody (depth : Nat) (ts : List Token) : Prop :=
  ∀ rest, LoopReads (deep depth).statementsLoop (ts ++ .closing .brace :: rest) (.closing .brace :: rest) fun _ => True

variable {depth : Nat} {ts us : List Token}

theorem takes_statements (h : IsBody depth ts) (rest : List Token) :
    (deep (depth + 1)).statements.Takes (ts ++ .closing .brace :: rest) (.closing .brace :: rest) := by
  show ((deep depth).statementsRule).Takes _ _
  unfold statementsRule
  exact reads_ahead_bind.2 (h rest _ (Nat.lt_succ_self _))

theorem isBody_nil : IsBody depth [] := by
  refine fun rest => loopReads_of_last fun fuel => ?_
  unfold statementsLoop
  exact reads_ahead_bind.2 (reads_pure trivial)

/-- A statement in front of others. -/
theorem isBody_cons (opens : ∀ rest, isEnd (ts ++ rest) = false) (some : ∀ rest, isOp ";" (ts ++ rest) = false)
    (first : ∀ rest, (deep depth).statement.Reads (ts ++ (us ++ .closing .brace :: rest))
      (us ++ .closing .brace :: rest) (·.2.2 = false)) (later : IsBody depth us) : IsBody depth (ts ++ us) := by
  intro rest
  have length : 0 < ts.length := by
    cases ts with
    | nil => exact absurd (opens []) (by decide)
    | cons => exact Nat.succ_pos _
  rw [List.append_assoc]
  refine loopReads_of_round (by simp only [List.length_append]; omega) (later rest) fun fuel tail => ?_
  unfold statementsLoop
  refine reads_ahead_bind.2 ?_
  rw [if_neg (by rw [opens]; decide), if_neg (by rw [some]; decide)]
  refine reads_bind (first rest) fun r finished => reads_ahead_bind.2 (reads_guarded_bind (by rw [finished]; rfl) ?_)
  exact takes_bind tail fun _ => reads_pure trivial

/-- An expression at the start of a statement. -/
theorem takes_lead {rest : List Token} (starts : StartsStatement (ts ++ rest)) (value : IsOperand true (depth + 1) ts)
    (ends : endsExpr true rest = true) : (deep (depth + 2)).lead.Takes (ts ++ rest) rest := by
  show ((deep (depth + 1)).leadRule).Takes _ _
  unfold leadRule
  refine takes_bind (takes_no_attrs starts.attrs) fun _ => reads_ahead_bind.2 ?_
  rw [starts.control]
  refine takes_bind (value.reads rest ends).takes fun e => ?_
  exact takes_bind (reads_no_operation ends).takes fun _ => reads_pure trivial

/-- A statement that is an expression is read as one. -/
theorem reads_valueStatement {mid rest : List Token} (starts : StartsStatement (ts ++ mid))
    (lead : (deep depth).lead.Takes (ts ++ mid) mid) {S : List Part → Prop}
    (semi : (optOp ";").Reads mid rest S) : (deep depth).statement.Reads (ts ++ mid) rest fun r =>
      ∃ semi k, S semi ∧ r.2.2 = (semi.isEmpty && !ExprKind.standsAlone k) := by
  unfold statement
  refine reads_ahead_bind.2 (takes_bind (reads_no_attrs starts.attrs).takes fun attrs => ?_)
  refine reads_bind starts.bang fun bang none => reads_ahead_bind.2 ?_
  subst none
  simp only [Option.any_none, Bool.false_eq_true, if_false, starts.binding, starts.item, Bool.or_self]
  refine takes_bind lead fun e => reads_bind semi fun marks hm => ?_
  exact reads_pure ⟨marks, e.kind, hm, rfl⟩

/-- A value at the end of a block. -/
theorem isBody_value (starts : ∀ rest, endsExpr true rest = true → StartsStatement (ts ++ rest))
    (value : IsOperand true (depth + 1) ts) : IsBody (depth + 2) ts := by
  intro rest
  have starts := starts (.closing .brace :: rest) rfl
  have length : 0 < ts.length := by
    cases ts with
    | nil => exact absurd starts.opens nofun
    | cons => exact Nat.succ_pos _
  refine loopReads_of_round (by simp only [List.length_append, List.length_nil]; omega) (isBody_nil rest)
    fun fuel tail => ?_
  unfold statementsLoop
  refine reads_ahead_bind.2 ?_
  rw [if_neg (by rw [starts.opens]; decide), if_neg (by rw [starts.some]; decide)]
  have read := reads_valueStatement starts (takes_lead starts value rfl) (reads_no_optional rfl)
  refine takes_bind read.takes fun r => reads_ahead_bind.2 (reads_guarded_bind (by simp [isEnd]) ?_)
  exact takes_bind tail fun _ => reads_pure trivial

/-- A value with a semicolon behind it. -/
theorem isBody_statement (starts : ∀ rest, endsExpr true rest = true → StartsStatement (ts ++ rest))
    (value : IsOperand true (depth + 1) ts) (later : IsBody (depth + 2) us) :
    IsBody (depth + 2) (ts ++ Token.op ";" ++ us) := by
  have starts (rest : List Token) : StartsStatement (ts ++ (Token.op ";" ++ rest)) := starts _ rfl
  refine isBody_cons (fun rest => ?_) (fun rest => ?_) (fun rest => ?_) later
  · rw [List.append_assoc]
    exact (starts rest).opens
  · rw [List.append_assoc]
    exact (starts rest).some
  · rw [List.append_assoc]
    have semi : (optOp ";").Reads (Token.op ";" ++ (us ++ .closing .brace :: rest)) (us ++ .closing .brace :: rest)
        (· = code (Token.op ";")) := reads_optional rfl (reads_op ";" _)
    refine (reads_valueStatement (starts _) (takes_lead (starts _) value rfl) semi).mono fun r finished => ?_
    obtain ⟨_, k, rfl, same⟩ := finished
    exact same

/-- A name that a value is bound to. -/
def bindingTokens (name : String) (value : List Token) : List Token :=
  .ident "let" :: .ident name :: (Token.op "=" ++ (value ++ Token.op ";"))

/-- A name as a pattern. -/
theorem takes_namePattern {name : String} (plain : name ∉ keywords) {c : Char} (either : c ∈ ['=', ':'])
    (rest : List Token) : (deep (depth + 1)).pattern.Takes (.ident name :: .mark c false :: rest)
      (.mark c false :: rest) := by
  have other {w : String} (keyword : w ∈ keywords) :
      Parser.isWord w (.ident name :: .mark c false :: rest) = false := by
    simpa [Parser.isWord] using fun same : name = w => plain (same ▸ keyword)
  have literal : isLiteral (.ident name :: .mark c false :: rest) = false := by
    have ne {w : String} (keyword : w ∈ keywords) : (name == w) = false :=
      beq_false_of_ne fun same => plain (same ▸ keyword)
    simp [isLiteral, ne (w := "true") (by decide), ne (w := "false") (by decide)]
  have path : startsPathPattern (.ident name :: .mark c false :: rest) = false := by
    simp only [List.mem_cons, List.not_mem_nil, or_false] at either
    rcases either with rfl | rfl <;>
      simp [startsPathPattern, startsPathPattern.startsRange, isOp, startsOp, isOpening,
        other (w := "self") (by decide), other (w := "Self") (by decide), other (w := "super") (by decide),
        other (w := "crate") (by decide)]
  have at_ : isOp "@" (.mark c false :: rest) = false := by
    simp only [List.mem_cons, List.not_mem_nil, or_false] at either
    rcases either with rfl | rfl <;> rfl
  show ((deep depth).patternRule).Takes _ _
  unfold patternRule
  refine reads_ahead_bind.2 ?_
  rw [path, other (w := "_") (by decide), other (w := "box") (by decide), literal, other (w := "const") (by decide),
    other (w := "ref") (by decide), other (w := "mut") (by decide), other (w := "self") (by decide),
    show isIdent (.ident name :: .mark c false :: rest) = true by simp [isIdent, plain]]
  show (do
    let start ← seq [optWord "ref", optWord "mut"]
    let name ← if ← peek (isWord "self") then anyWordCode else identCode
    return start ++ name ++ (← optional (isOp "@") (seq [op "@", (deep depth).pattern]))).Takes _ _
  refine takes_bind (takes_seq_cons (reads_no_optional (other (by decide))).takes
    (takes_seq_cons (reads_no_optional (other (by decide))).takes takes_seq_nil)) fun start => reads_peek_bind.2 ?_
  rw [other (w := "self") (by decide)]
  refine takes_bind (takes_bind (reads_ident plain _).takes fun _ => reads_pure trivial) fun _ => ?_
  exact takes_bind (reads_no_optional at_).takes fun _ => reads_pure trivial

/-- A binding in front of other statements. -/
theorem isBody_binding {name : String} (plain : name ∉ keywords) (value : IsExpr true (depth + 1) ts)
    (later : IsBody (depth + 1) us) : IsBody (depth + 1) (bindingTokens name ts ++ us) := by
  refine isBody_cons (fun _ => rfl) (fun _ => rfl) (fun rest => ?_) later
  have tokens : bindingTokens name ts ++ (us ++ .closing .brace :: rest) = .ident "let" :: .ident name ::
      (Token.op "=" ++ (ts ++ (Token.op ";" ++ (us ++ .closing .brace :: rest)))) := by
    simp [bindingTokens]
  rw [tokens]
  generalize us ++ Token.closing .brace :: rest = rest
  have path : namePath.Takes (.ident "let" :: .ident name :: (Token.op "=" ++ (ts ++ (Token.op ";" ++ rest))))
      (.ident name :: (Token.op "=" ++ (ts ++ (Token.op ";" ++ rest)))) :=
    (reads_namePath (p := ⟨false, ["let"]⟩) nofun rfl).takes
  unfold statement
  refine reads_ahead_bind.2 (takes_bind (reads_no_attrs rfl).takes fun attrs => ?_)
  refine reads_bind (reads_behindBang path rfl) fun bang none => reads_ahead_bind.2 ?_
  subst none
  show (do return (attrsCode attrs ++ (← (deep (depth + 1)).binding), ([] : List Item), false)).Reads _ _ _
  refine takes_bind (f := fun parts => pure (attrsCode attrs ++ parts, ([] : List Item), false)) ?_
    fun _ => reads_pure rfl
  unfold binding
  refine takes_bind (takes_seq_cons (reads_word "let" _).takes (takes_seq_cons (takes_namePattern plain (by decide) _)
    (takes_seq_cons (reads_no_optional rfl).takes takes_seq_nil))) fun head => reads_peek_bind.2 ?_
  refine takes_bind (takes_seq_cons (reads_op "=" _).takes (takes_seq_cons
    (takes_fullExpr value (Token.op ";" ++ rest) rfl) takes_seq_nil)) fun value => ?_
  refine reads_peek_bind.2 ?_
  rw [show Parser.isWord "else" (Token.op ";" ++ rest) = false from rfl, Bool.and_false]
  exact takes_bind (reads_pure trivial) fun _ => takes_bind (reads_op ";" rest).takes fun _ => reads_pure trivial

/-- A condition and its block. -/
def conditionalTokens (condition body : List Token) : List Token :=
  .ident "if" :: (condition ++ Token.group .brace body)

/-- What may follow a block as the next statement. -/
structure FollowsBlock (ts : List Token) : Prop where
  alternative : Parser.isWord "else" ts = false
  field : startsField ts = false
  question : isOp "?" ts = false
  semi : isOp ";" ts = false

theorem followsBlock_path {p : NamePath} (h : IsPath p) (rest : List Token) : FollowsBlock (p.tokens ++ rest) := by
  obtain ⟨name, names, named, tokens⟩ := h.exists_tokens
  have inPath := h.words name (named ▸ List.mem_cons_self)
  rw [tokens, List.append_assoc, List.cons_append]
  cases p.absolute with
  | true => exact ⟨rfl, rfl, rfl, rfl⟩
  | false => exact ⟨isWord_inPath inPath (by decide) (by decide) _, rfl, rfl, rfl⟩

/-- A word in front of a path does not make it a macro call. -/
theorem reads_behindBang_word (w : String) {p : NamePath} (h : IsPath p) {rest : List Token}
    (path : isOp "::" rest = false) (bang : isOp "!" rest = false) :
    behindBang.Reads (.ident w :: (p.tokens ++ rest)) (.ident w :: (p.tokens ++ rest)) (· = none) := by
  obtain ⟨name, names, named, tokens⟩ := h.exists_tokens
  obtain ⟨absolute, names'⟩ := p
  obtain rfl : names' = name :: names := named
  cases absolute with
  | true =>
    -- the word and the path behind it are one longer path
    have longer : Token.ident w :: ((NamePath.mk true (name :: names)).tokens ++ rest) =
        (NamePath.mk false (w :: name :: names)).tokens ++ rest := by
      rw [tokens, NamePath.tokens, List.map_cons, joinSegments_cons, List.flatMap_map]
      simp [absoluteMark, further]
    rw [longer]
    exact reads_behindBang (reads_namePath (List.cons_ne_nil _ _) path) bang
  | false =>
    have word : namePath.Takes (.ident w :: ((NamePath.mk false (name :: names)).tokens ++ rest))
        ((NamePath.mk false (name :: names)).tokens ++ rest) :=
      (reads_namePath (p := ⟨false, [w]⟩) (List.cons_ne_nil _ _) (by rw [tokens]; rfl)).takes
    exact reads_behindBang word (by rw [tokens]; rfl)

/-- A condition with its block in front of other statements. -/
theorem isBody_conditional {body : List Token}
    (bang : ∀ rest, behindBang.Reads (.ident "if" :: (ts ++ (Token.group .brace body ++ rest)))
      (.ident "if" :: (ts ++ (Token.group .brace body ++ rest))) (· = none))
    (condition : IsExpr false (depth + 1) ts) (inner : IsBody depth body)
    (follows : ∀ rest, FollowsBlock (us ++ .closing .brace :: rest)) (later : IsBody (depth + 2) us) :
    IsBody (depth + 2) (conditionalTokens ts body ++ us) := by
  refine isBody_cons (fun _ => rfl) (fun _ => rfl) (fun rest => ?_) later
  have follows := follows rest
  generalize us ++ Token.closing .brace :: rest = rest at follows ⊢
  have bang := bang rest
  have tokens : conditionalTokens ts body ++ rest = .ident "if" :: (ts ++ (Token.group .brace body ++ rest)) := by
    simp [conditionalTokens]
  have group : Token.group .brace body ++ rest = .opening .brace :: (body ++ .closing .brace :: rest) := by
    simp [Token.group]
  have read : (deep (depth + 1)).conditional.Takes (.ident "if" :: (ts ++ (Token.group .brace body ++ rest))) rest := by
    have taken : ((deep (depth + 1)).block false).Takes (Token.group .brace body ++ rest) rest := by
      rw [group]
      unfold block
      refine takes_group (takes_bind (reads_pure trivial) fun _ => takes_bind (takes_statements inner rest) fun r => ?_)
      exact takes_bind (takes_note r.2) fun _ => reads_pure trivial
    have value : (deep (depth + 1)).condition.Takes (ts ++ (Token.group .brace body ++ rest))
        (Token.group .brace body ++ rest) :=
      takes_bind (condition.takes _ (by rw [group]; rfl)) fun _ => reads_pure trivial
    have head := takes_seq_cons (reads_word "if" _).takes (takes_seq_cons value (takes_seq_cons taken takes_seq_nil))
    unfold conditional
    refine reads_ahead_bind.2 ?_
    unfold conditionalLoop
    refine takes_bind head fun head => reads_peek_bind.2 ?_
    rw [follows.alternative]
    exact reads_pure trivial
  have lead : (deep (depth + 2)).lead.Reads (.ident "if" :: (ts ++ (Token.group .brace body ++ rest))) rest
      (·.kind = .conditional) := by
    show ((deep (depth + 1)).leadRule).Reads _ _ _
    unfold leadRule
    refine takes_bind (takes_no_attrs rfl) fun attrs => reads_ahead_bind.2 ?_
    show (do
      let e ← (do return (⟨← (deep (depth + 1)).conditional, .conditional⟩ : Expr))
      let body : Expr := { e with code := attrs ++ e.code }
      if ← peek fun ts => startsField ts || isOp "?" ts then
        let e ← (deep (depth + 1)).trailer body
        (deep (depth + 1)).operation e true .lowest
      else return body).Reads _ _ _
    have made : (do return (⟨← (deep (depth + 1)).conditional, .conditional⟩ : Expr)).Reads
        (.ident "if" :: (ts ++ (Token.group .brace body ++ rest))) rest (·.kind = ExprKind.conditional) :=
      takes_bind read fun _ => reads_pure rfl
    refine reads_bind made fun e kind => reads_peek_bind.2 ?_
    rw [follows.field, follows.question]
    exact reads_pure kind
  rw [tokens]
  unfold statement
  refine reads_ahead_bind.2 (takes_bind (reads_no_attrs rfl).takes fun attrs => ?_)
  refine reads_bind bang fun bang none => reads_ahead_bind.2 ?_
  subst none
  show (do
    let e ← (deep (depth + 2)).lead
    let semi ← optOp ";"
    return (attrsCode attrs ++ e.code ++ semi, ([] : List Item), semi.isEmpty && !e.kind.standsAlone)).Reads _ _ _
  refine reads_bind lead fun e kind => reads_bind (reads_no_optional follows.semi) fun semi none => reads_pure ?_
  rw [kind, none]
  rfl

/-- Leaving a function without a value. -/
theorem isOperand_return : IsOperand true (depth + 1) [.ident "return"] where
  opens _ := rfl
  reads rest ends := by
    have value : startsExpr rest = false := by
      obtain ⟨d, us, rfl⟩ | ⟨⟨⟩, -⟩ | ⟨c, either, joint, us, rfl⟩ := endsExpr_cases ends
      · rfl
      · simp only [List.mem_cons, List.not_mem_nil, or_false] at either
        rcases either with rfl | rfl <;> cases joint <;> rfl
    show ((deep depth).operandRule true).Reads _ _ _
    unfold operandRule
    refine takes_bind (takes_no_attrs rfl) fun attrs => reads_ahead_bind.2 ?_
    show (do
      let first ← (deep depth).atom true
      let e ← (deep depth).trailer first
      return ({ e with code := attrs ++ e.code } : Expr)).Reads _ _ _
    have atom : ((deep depth).atom true).Reads (.ident "return" :: rest) rest NoRange := by
      unfold atom
      refine reads_ahead_bind.2 ?_
      show (do
        let mark ← anyWordCode
        if ← peek startsExpr then return (⟨mark ++ (← (deep depth).expr true).code, .returning⟩ : Expr)
        return (⟨mark, .returning⟩ : Expr)).Reads _ _ _
      refine takes_bind (takes_bind (reads_anyWord "return" rest).takes fun _ => reads_pure trivial) fun mark =>
        reads_peek_bind.2 ?_
      rw [value]
      exact reads_pure nofun
    refine reads_bind atom fun first kind => ?_
    have none : ((deep depth).trailer first).Reads rest rest NoRange :=
      reads_ahead_bind.2 (isTrailers_nil.reads rest ends first kind _ (Nat.lt_succ_self _))
    exact reads_bind none fun e kind => reads_pure kind

/-! ## Items in a body -/

/-- A constant with its type and its value. -/
def constantTokens (name : String) (type value : List Token) : List Token :=
  .ident "const" :: .ident name :: (Token.op ":" ++ (type ++ (Token.op "=" ++ (value ++ Token.op ";"))))

theorem reads_no_visibility {rest : List Token} (h : Parser.isWord "pub" rest = false) :
    visibility.Reads rest rest (· = []) := by
  unfold visibility
  refine reads_peek_bind.2 ?_
  rw [h]
  exact reads_pure rfl

theorem takes_no_generics {g : Grammar} {rest : List Token} (h : isOp "<" rest = false) :
    g.generics.Takes rest rest := by
  unfold generics
  refine reads_peek_bind.2 ?_
  rw [h]
  exact reads_pure trivial

theorem takes_no_clause {g : Grammar} {rest : List Token} (h : Parser.isWord "where" rest = false) :
    g.clause.Takes rest rest := by
  unfold clause
  refine reads_peek_bind.2 ?_
  rw [h]
  exact reads_pure trivial

/-- A constant in front of other statements. -/
theorem isBody_constant (name : String) (plain : name ∉ keywords) {type : List Token}
    (typed : ∀ rest, ((deep depth).ty true).Takes (type ++ (Token.op "=" ++ rest)) (Token.op "=" ++ rest))
    (value : IsExpr true depth ts) (later : IsBody depth us) : IsBody depth (constantTokens name type ts ++ us) := by
  refine isBody_cons (fun _ => rfl) (fun _ => rfl) (fun rest => ?_) later
  have tokens : constantTokens name type ts ++ (us ++ .closing .brace :: rest) = .ident "const" :: .ident name ::
      (Token.op ":" ++ (type ++ (Token.op "=" ++ (ts ++ (Token.op ";" ++ (us ++ .closing .brace :: rest)))))) := by
    simp [constantTokens]
  rw [tokens]
  generalize us ++ Token.closing .brace :: rest = rest
  have bang : behindBang.Reads (.ident "const" :: .ident name :: (Token.op ":" ++ (type ++ (Token.op "=" ++
      (ts ++ (Token.op ";" ++ rest)))))) (.ident "const" :: .ident name :: (Token.op ":" ++ (type ++
        (Token.op "=" ++ (ts ++ (Token.op ";" ++ rest)))))) (· = none) :=
    reads_behindBang (reads_namePath (p := ⟨false, ["const"]⟩) (List.cons_ne_nil _ _) rfl) rfl
  have constant : (deep depth).constantRest.Takes (.ident "const" :: .ident name :: (Token.op ":" ++ (type ++
      (Token.op "=" ++ (ts ++ (Token.op ";" ++ rest)))))) rest := by
    unfold constantRest
    refine takes_discard_bind (reads_word "const" _).takes (reads_peek_bind.2 ?_)
    rw [show Parser.isWord "_" (.ident name :: (Token.op ":" ++ (type ++ (Token.op "=" ++ (ts ++
      (Token.op ";" ++ rest)))))) = false by
        simpa [Parser.isWord] using fun same : name = "_" => plain (same ▸ by decide)]
    have tyCode : (deep depth).tyCode.Takes (type ++ (Token.op "=" ++ (ts ++ (Token.op ";" ++ rest))))
        (Token.op "=" ++ (ts ++ (Token.op ";" ++ rest))) := takes_bind (typed _) fun _ => reads_pure trivial
    have defined : (optional (isOp "=") (seq [op "=", (deep depth).fullExpr])).Takes
        (Token.op "=" ++ (ts ++ (Token.op ";" ++ rest))) (Token.op ";" ++ rest) :=
      reads_optional rfl (takes_seq_cons (reads_op "=" _).takes (takes_seq_cons (takes_fullExpr value _ rfl)
        takes_seq_nil))
    refine takes_discard_bind (reads_ident plain _).takes (takes_discard_bind (takes_no_generics rfl) ?_)
    exact takes_discard (takes_seq_cons (reads_op ":" _).takes (takes_seq_cons tyCode (takes_seq_cons defined
      (takes_seq_cons (takes_no_clause rfl) (takes_seq_cons (reads_op ";" rest).takes takes_seq_nil)))))
  generalize Token.op ":" ++ (type ++ (Token.op "=" ++ (ts ++ (Token.op ";" ++ rest)))) = us at bang constant ⊢
  have other {w : String} (keyword : w ∈ keywords) : Parser.isWord w (.ident name :: us) = false := by
    simpa [Parser.isWord] using fun same : name = w => plain (same ▸ keyword)
  have function : startsFunction (.ident "const" :: .ident name :: us) = false := by
    have const : Parser.isWord "const" (.ident "const" :: .ident name :: us) = true := rfl
    simp only [startsFunction, startsFunction.dropWord, const, if_true, List.drop_succ_cons, List.drop_zero,
      other (w := "async") (by decide), other (w := "unsafe") (by decide), other (w := "extern") (by decide),
      other (w := "fn") (by decide), Bool.false_eq_true, if_false]
  have item (attrs : List Attr) : ((deep depth).itemRest attrs).Takes (.ident "const" :: .ident name :: us) rest := by
    unfold itemRest
    refine reads_bind (reads_no_visibility rfl) fun visible none => reads_ahead_bind.2 ?_
    rw [function]
    show (skipped (deep depth).constantRest).Takes _ _
    unfold skipped
    exact reads_bind (reads_collecting constant) fun _ _ => reads_pure trivial
  have starts : startsItem (.ident "const" :: .ident name :: us) = true := by
    have second (look : List Token → Bool) :
      second look (.ident "const" :: .ident name :: us) = look (.ident name :: us) := rfl
    have block : isOpening .brace (.ident name :: us) = false := rfl
    have bar : isOp "|" (.ident name :: us) = false := rfl
    have const : Parser.isWord "const" (.ident "const" :: .ident name :: us) = true := rfl
    simp only [startsItem, second, block, bar, const, other (w := "static") (by decide),
      other (w := "async") (by decide), other (w := "move") (by decide), Bool.or_self, Bool.false_and, Bool.not_false,
      Bool.true_and, Bool.or_true, Bool.true_or]
  unfold statement
  refine reads_ahead_bind.2 (takes_bind (reads_no_attrs rfl).takes fun attrs => ?_)
  refine reads_bind bang fun bang none => reads_ahead_bind.2 ?_
  subst none
  rw [starts]
  exact takes_bind (item attrs) fun i => reads_ahead_bind.2 (reads_pure rfl)

/-! ## Functions -/

/-- The tokens are read as the arguments of a function. -/
def IsParams (depth : Nat) (ts : List Token) : Prop :=
  ∀ rest, LoopReads (fun fuel => (deep depth).functionParams fuel true) (ts ++ .closing .paren :: rest)
    (.closing .paren :: rest) fun _ => True

/-- A receiver by reference. -/
def receiverTokens : List Token := Token.op "&" ++ [.ident "self"]

theorem takes_receiver {g : Grammar} {rest : List Token} (plain : isOp ":" rest = false) :
    g.receiver.Takes (receiverTokens ++ rest) rest := by
  have self : (seq [optWord "mut", word "self"]).Takes (.ident "self" :: rest) rest :=
    takes_seq_cons (reads_no_optional rfl).takes (takes_seq_cons (reads_word "self" rest).takes takes_seq_nil)
  unfold receiver
  refine takes_bind (reads_optional rfl (takes_seq_cons (reads_op "&" (.ident "self" :: rest)).takes
    (takes_seq_cons (reads_no_optional rfl).takes takes_seq_nil))) fun byReference => takes_bind self fun head => ?_
  split
  · exact takes_bind (reads_no_optional plain).takes fun _ => reads_pure trivial
  · exact reads_pure trivial

theorem reads_receiverParam {g : Grammar} {rest : List Token} (plain : isOp ":" rest = false) :
    (g.functionParam true).Reads (receiverTokens ++ rest) rest (·.2 = false) := by
  unfold functionParam
  refine takes_bind (takes_no_attrs rfl) fun attrs => reads_peek_bind.2 ?_
  refine reads_bind (reads_succeeds (takes_receiver plain)) fun found same => ?_
  subst same
  exact reads_guarded_bind rfl (takes_bind (takes_receiver plain) fun _ => reads_pure rfl)

/-- A function that takes its receiver alone. -/
theorem isParams_receiver : IsParams depth receiverTokens := by
  refine fun rest => loopReads_of_last fun fuel => ?_
  unfold functionParams
  refine reads_peek_bind.2 (reads_bind (reads_receiverParam rfl) fun r last => reads_peek_bind.2 ?_)
  rw [show isEnd (Token.closing .paren :: rest) = true from rfl, Bool.or_true]
  exact reads_pure trivial

/-- An argument with its type behind the receiver. -/
theorem isParams_argument (name : String) (plain : name ∉ keywords) (h : IsTy true (depth + 1) ts) :
    IsParams (depth + 1) (receiverTokens ++ Token.op "," ++ .ident name :: (Token.op ":" ++ ts)) := by
  intro rest
  have tokens : receiverTokens ++ Token.op "," ++ .ident name :: (Token.op ":" ++ ts) ++ .closing .paren :: rest =
      receiverTokens ++ (Token.op "," ++ (.ident name :: .mark ':' false :: (ts ++ .closing .paren :: rest))) := by
    simp [Token.op, Token.marks]
  rw [tokens]
  have param : ((deep (depth + 1)).functionParam false).Reads (.ident name :: .mark ':' false ::
      (ts ++ .closing .paren :: rest)) (.closing .paren :: rest) (·.2 = false) := by
    have other {w : String} (keyword : w ∈ keywords) (us : List Token) :
        Parser.isWord w (.ident name :: us) = false := by
      simpa [Parser.isWord] using fun same : name = w => plain (same ▸ keyword)
    have noReceiver : (deep (depth + 1)).receiver.Fails (.ident name :: .mark ':' false ::
        (ts ++ .closing .paren :: rest)) := by
      unfold receiver
      refine fails_bind_of_reads (reads_no_optional rfl) fun _ _ => fails_bind ?_
      exact fails_bind_of_reads (reads_no_optional (other (by decide) _)) fun _ _ =>
        fails_bind (fails_bind (fails_word (other (by decide) _)))
    have dots : isOp "..." (ts ++ .closing .paren :: rest) = false := (h.startsTy rfl).dots
    unfold functionParam
    refine takes_bind (takes_no_attrs rfl) fun attrs => reads_peek_bind.2 ?_
    refine reads_bind (reads_not_succeeds noReceiver) fun found same => ?_
    subst same
    refine reads_peek_bind.2 ?_
    rw [show second (isOp "<") (.ident name :: .mark ':' false :: (ts ++ .closing .paren :: rest)) = false from rfl,
      Bool.and_false]
    have pattern : (seq [(deep (depth + 1)).pattern, op ":"]).Takes (.ident name :: .mark ':' false ::
        (ts ++ .closing .paren :: rest)) (ts ++ .closing .paren :: rest) :=
      takes_seq_cons (takes_namePattern plain (by decide) _) (takes_seq_cons (reads_op ":" _).takes takes_seq_nil)
    refine takes_bind pattern fun _ => reads_peek_bind.2 ?_
    rw [dots]
    exact takes_bind (takes_bind (h _ rfl) fun _ => reads_pure trivial) fun _ => reads_pure rfl
  have last : LoopReads (fun fuel => (deep (depth + 1)).functionParams fuel false) (.ident name :: .mark ':' false ::
      (ts ++ .closing .paren :: rest)) (.closing .paren :: rest) fun _ => True := by
    refine loopReads_of_last fun fuel => ?_
    unfold functionParams
    refine reads_peek_bind.2 (reads_bind param fun r last => reads_peek_bind.2 ?_)
    rw [show isEnd (Token.closing .paren :: rest) = true from rfl, Bool.or_true]
    exact reads_pure trivial
  intro fuel enough
  obtain ⟨fuel, rfl⟩ := Nat.exists_eq_succ_of_ne_zero (Nat.ne_zero_of_lt enough)
  have tail := last fuel (by
    simp only [List.length_append, List.length_cons, receiverTokens, Token.op] at enough ⊢
    omega)
  unfold functionParams
  refine reads_peek_bind.2 (reads_bind (reads_receiverParam rfl) fun r unended => reads_peek_bind.2 ?_)
  rw [unended]
  exact takes_bind (reads_op "," _).takes fun _ => takes_bind tail fun _ => reads_pure trivial

/-- The result of a function, if it has one. -/
def resultTokens : Option (List Token) → List Token
  | none => []
  | some ts => Token.op "->" ++ ts

/-- A function with its receiver and its body. -/
def functionTokens (name : String) (params : List Token) (type : Option (List Token)) (body : List Token) :
    List Token :=
  .ident "fn" :: .ident name :: (Token.group .paren params ++ (resultTokens type ++ Token.group .brace body))

/-- The item is a function of the name. -/
def IsFunction (name : String) (i : Item) : Prop := ∃ body inner, i = .function name body inner

/-- The tokens are read as the inside of a function, by rules over those of the depth. -/
structure IsFunctionBody (depth : Nat) (ts : List Token) : Prop where
  plain : ∀ rest, isOp "#" (ts ++ .closing .brace :: rest) = false
  body : IsBody depth ts

theorem takes_result {plus : Bool} {type : Option (List Token)} (h : ∀ t ∈ type, IsTy plus depth t) {rest : List Token}
    (ends : isOpening .brace rest = true) : ((deep depth).result plus).Takes (resultTokens type ++ rest) rest := by
  obtain ⟨us, rfl⟩ := exists_of_isOpening ends
  unfold result
  refine reads_peek_bind.2 ?_
  cases type with
  | none => exact reads_pure trivial
  | some t =>
    rw [resultTokens, List.append_assoc]
    refine takes_bind (reads_op "->" _).takes fun arrow => takes_bind (h t rfl _ rfl) fun _ => reads_pure trivial

theorem takes_innerAttrs {g : Grammar} {rest : List Token} (plain : (isOp "#" rest && second (isOp "!") rest) = false) :
    g.innerAttrs.Takes rest rest := by
  unfold innerAttrs many
  have none : (manyLoop (fun ts => isOp "#" ts && second (isOp "!") ts) g.innerAttr (rest.length + 1)).Takes rest
      rest := by
    unfold manyLoop
    refine reads_peek_bind.2 ?_
    rw [plain]
    exact reads_pure trivial
  exact takes_bind (reads_ahead_bind.2 none) fun attrs => reads_pure trivial

theorem isOpening_group (d : Delimiter) (ts rest : List Token) : isOpening d (Token.group d ts ++ rest) = true := by
  simp [Token.group, isOpening]

theorem reads_functionHead {name : String} (plain : name ∉ keywords) {params : List Token} {type : Option (List Token)}
    (arguments : IsParams depth params) (result : ∀ t ∈ type, IsTy true depth t) {rest : List Token}
    (ends : isOpening .brace rest = true) (clause : Parser.isWord "where" rest = false) :
    (deep depth).functionHead.Reads (.ident "fn" :: .ident name :: (Token.group .paren params ++
      (resultTokens type ++ rest))) rest (·.1 = name) := by
  have tokens : Token.group .paren params ++ (resultTokens type ++ rest) =
      .opening .paren :: (params ++ .closing .paren :: (resultTokens type ++ rest)) := by
    simp [Token.group]
  rw [tokens]
  unfold functionHead
  refine takes_bind (takes_seq_cons (reads_no_optional rfl).takes (takes_seq_cons (reads_no_optional rfl).takes
    (takes_seq_cons (reads_no_optional rfl).takes (takes_seq_cons (reads_no_optional rfl).takes
      (takes_seq_cons (reads_word "fn" _).takes takes_seq_nil))))) fun start => ?_
  refine reads_bind (reads_ident plain _) fun n same => ?_
  refine takes_bind (takes_bind (takes_no_generics rfl) fun _ => reads_pure trivial) fun generics => ?_
  refine reads_ahead_bind.2 ?_
  have list : (group .paren ((deep depth).functionParams ((Token.opening .paren :: (params ++ .closing .paren ::
      (resultTokens type ++ rest))).length + 1) true)).Takes (.opening .paren :: (params ++ .closing .paren ::
        (resultTokens type ++ rest))) (resultTokens type ++ rest) :=
    takes_group (arguments _ _ (Nat.lt_succ_of_lt (Nat.lt_succ_self _)))
  exact takes_bind (takes_seq_cons list (takes_seq_cons (takes_result result ends)
    (takes_seq_cons (takes_no_clause clause) takes_seq_nil))) fun _ => reads_pure same

theorem takes_functionBody (content : IsFunctionBody depth ts) (rest : List Token) :
    (deep (depth + 1)).functionBody.Takes (Token.group .brace ts ++ rest) rest := by
  have tokens : Token.group .brace ts ++ rest = .opening .brace :: (ts ++ .closing .brace :: rest) := by
    simp [Token.group]
  rw [tokens]
  unfold functionBody
  refine reads_inside (takes_discard_bind (takes_innerAttrs (by rw [content.plain, Bool.false_and])) ?_)
  exact takes_bind (takes_statements content.body rest) fun _ => reads_pure trivial

theorem reads_functionItem {name : String} (plain : name ∉ keywords) {params : List Token} {type : Option (List Token)}
    (arguments : IsParams (depth + 1) params) (result : ∀ t ∈ type, IsTy true (depth + 1) t)
    (content : IsFunctionBody depth ts) (rest : List Token) :
    (deep (depth + 1)).functionItem.Reads (functionTokens name params type ts ++ rest) rest (IsFunction name) := by
  have tokens : functionTokens name params type ts ++ rest = .ident "fn" :: .ident name ::
      (Token.group .paren params ++ (resultTokens type ++ (Token.group .brace ts ++ rest))) := by
    simp [functionTokens]
  have whole : (do
      let head ← (deep (depth + 1)).functionHead
      if ← peek (isOp ";") then
        discard (op ";")
        return (head.1, none)
      return (head.1, some (← (deep (depth + 1)).functionBody))).Reads (functionTokens name params type ts ++ rest)
        rest fun r => r.1 = name ∧ r.2.isSome = true := by
    rw [tokens]
    refine reads_bind (reads_functionHead plain arguments result (isOpening_group _ _ _) rfl) fun r same => ?_
    refine reads_peek_bind.2 ?_
    exact takes_bind (takes_functionBody content rest) fun _ => reads_pure ⟨same, rfl⟩
  unfold functionItem
  refine reads_bind (reads_collecting whole) fun r made => ?_
  obtain ⟨⟨n, body⟩, inner⟩ := r
  obtain ⟨rfl, some⟩ := made
  cases body with
  | none => cases some
  | some body => exact reads_pure ⟨body, inner, rfl⟩

/-! ## Members -/

/-- The tokens are read as a function of the name, as a member of an implementation. -/
structure IsMember (depth : Nat) (name : String) (ts : List Token) : Prop where
  opens : ∀ rest, isEnd (ts ++ rest) = false
  reads : ∀ rest, (deep depth).implMember.Reads (ts ++ rest) rest (IsFunction name)

theorem isMember_function {name : String} (plain : name ∉ keywords) {params : List Token} {type : Option (List Token)}
    (arguments : IsParams (depth + 1) params) (result : ∀ t ∈ type, IsTy true (depth + 1) t)
    (content : IsFunctionBody depth ts) : IsMember (depth + 1) name (functionTokens name params type ts) where
  opens _ := rfl
  reads rest := by
    unfold implMember
    refine takes_discard_bind (reads_no_attrs rfl).takes (reads_bind (reads_no_visibility rfl) fun visible none => ?_)
    refine reads_peek_bind.2 ?_
    rw [show startsDefault (functionTokens name params type ts ++ rest) = false from rfl]
    refine reads_ahead_bind.2 ?_
    exact reads_functionItem plain arguments result content rest

/-- The documentation of a member. -/
def docTokens (text : String) : List Token :=
  Token.op "#" ++ Token.group .bracket (.ident "doc" :: (Token.op "=" ++ [.literal text]))

theorem takes_docTokens {text : String} {rest : List Token} (plain : isOp "#" rest = false) :
    (deep depth).outerAttrs.Takes (docTokens text ++ rest) rest := by
  have value (rest : List Token) : (do
      discard literal
      guarded (isEnd (← ahead))).Takes (.literal text :: .closing .bracket :: rest) (.closing .bracket :: rest) :=
    takes_discard_bind (takes_literal text _) (reads_ahead_bind.2 (reads_guarded rfl))
  have args (rest : List Token) : (deep depth).attrArgs.Takes
      (.mark '=' false :: .literal text :: .closing .bracket :: rest) (.closing .bracket :: rest) := by
    unfold attrArgs
    refine reads_ahead_bind.2 ?_
    simp only
    rw [if_pos (show isOp "=" (.mark '=' false :: .literal text :: .closing .bracket :: rest) = true from rfl)]
    refine takes_discard_bind (reads_op "=" _).takes (reads_bind (reads_succeeds (value rest)) fun found same => ?_)
    rw [same]
    exact takes_bind (takes_literal text _) fun _ => reads_pure trivial
  have setting (rest : List Token) : (deep depth).setting.Takes (.ident "doc" :: .mark '=' false :: .literal text ::
      .closing .bracket :: rest) (.closing .bracket :: rest) := by
    have path : namePath.Takes (.ident "doc" :: .mark '=' false :: .literal text :: .closing .bracket :: rest)
        (.mark '=' false :: .literal text :: .closing .bracket :: rest) :=
      (reads_namePath (p := ⟨false, ["doc"]⟩) (List.cons_ne_nil _ _) rfl).takes
    unfold setting
    refine reads_peek_bind.2 ?_
    rw [show Parser.isWord "unsafe" (.ident "doc" :: .mark '=' false :: .literal text :: .closing .bracket :: rest) =
      false from rfl]
    exact takes_bind path fun path => takes_bind (args rest) fun _ => reads_pure trivial
  have attr (rest : List Token) : (deep depth).outerAttr.Takes (docTokens text ++ rest) rest := by
    have tokens : docTokens text ++ rest = Token.op "#" ++ .opening .bracket :: .ident "doc" :: .mark '=' false ::
        .literal text :: .closing .bracket :: rest := by
      simp [docTokens, Token.group, Token.op, Token.marks]
    rw [tokens]
    unfold outerAttr
    exact takes_discard_bind (reads_op "#" _).takes (reads_inside (setting rest))
  have all : (deep depth).outerAttrs.Reads ([()].flatMap (fun _ => docTokens text) ++ rest) rest
      (List.Forall₂ (fun _ _ => True) [()]) :=
    reads_many (fun _ => True) plain trivial (fun _ _ _ => rfl) (fun _ _ _ => trivial) (fun _ _ r _ => attr r)
      fun _ _ same => by cases same
  rw [List.flatMap_singleton] at all
  exact all.takes

theorem takes_pub {rest : List Token} (plain : isOpening .paren rest = false) :
    visibility.Takes (.ident "pub" :: rest) rest := by
  unfold visibility
  refine reads_peek_bind.2 ?_
  refine takes_bind (reads_word "pub" rest).takes fun mark => ?_
  have none : (group .paren visibility.restricted).Fails rest := by
    unfold group inside
    refine fails_bind (fails_ahead_bind.2 (fails_guarded_bind plain))
  refine reads_bind (reads_not_succeeds none) fun found same => ?_
  subst same
  exact reads_pure trivial

/-- A function that is documented and public. -/
theorem isMember_documented (text : String) {name : String} (plain : name ∉ keywords) {params : List Token}
    {type : Option (List Token)} (arguments : IsParams (depth + 1) params)
    (result : ∀ t ∈ type, IsTy true (depth + 1) t) (content : IsFunctionBody depth ts) :
    IsMember (depth + 1) name (docTokens text ++ .ident "pub" :: functionTokens name params type ts) where
  opens _ := rfl
  reads rest := by
    rw [List.append_assoc, List.cons_append]
    unfold implMember
    refine takes_discard_bind (takes_docTokens rfl) (takes_bind (takes_pub rfl) fun visible => ?_)
    refine reads_peek_bind.2 ?_
    rw [show startsDefault (functionTokens name params type ts ++ rest) = false from rfl]
    refine reads_ahead_bind.2 ?_
    exact reads_functionItem plain arguments result content rest

/-! ## Implementations -/

/-- The item implements the trait, or nothing, for the type of the name, by functions of these names. -/
def Implements (head : ImplHead) (name : String) (functions : List String) (i : Item) : Prop :=
  ∃ args members, i = .implementation head (.path false [.mk name args]) members ∧
    List.Forall₂ IsFunction functions members

/-- The parameters of a type are read back wherever they stand in the head of an implementation. -/
structure IsHead (depth : Nat) (name : String) (g : Generics) : Prop where
  declared : g.params ≠ [] → ∀ rest, startsGenerics (g.declaration ++ rest) = true ∧
    (deep depth).generics.Takes (g.declaration ++ rest) rest
  type : ∀ rest, EndsTy true rest → ((deep depth).ty true).Reads (.ident name :: (g.arguments ++ rest)) rest fun t =>
    ∃ args, t = .path false [.mk name args]
  clause : ∀ rest, isOpening .brace rest = true → EndsTy true (g.clauseTokens ++ rest) ∧
    (deep depth).clause.Takes (g.clauseTokens ++ rest) rest
  bare : ∀ rest, isOpening .brace rest = true → Parser.isWord "for" (g.clauseTokens ++ rest) = false

/-- The members of an implementation between braces. -/
def membersTokens (members : List (String × List Token)) : List Token :=
  Token.group .brace (members.flatMap (·.2))

theorem reads_implMembers {clause : List Token} {members : List (String × List Token)} {rest : List Token}
    (read : (deep depth).clause.Takes (clause ++ (membersTokens members ++ rest)) (membersTokens members ++ rest))
    (plain : ∀ m ∈ members, ∀ rest, (isOp "#" (m.2 ++ rest) && second (isOp "!") (m.2 ++ rest)) = false)
    (each : ∀ m ∈ members, IsMember depth m.1 m.2) :
    (deep depth).implMembers.Reads (clause ++ (membersTokens members ++ rest)) rest
      (List.Forall₂ (fun m i => IsFunction m.1 i) members) := by
  have tokens : membersTokens members ++ rest =
      .opening .brace :: (members.flatMap (·.2) ++ .closing .brace :: rest) := by
    simp [membersTokens, Token.group]
  have bare : (isOp "#" (members.flatMap (·.2) ++ .closing .brace :: rest) &&
      second (isOp "!") (members.flatMap (·.2) ++ .closing .brace :: rest)) = false := by
    cases members with
    | nil => rfl
    | cons m ms =>
      rw [List.flatMap_cons, List.append_assoc]
      exact plain m List.mem_cons_self _
  have all : (many (fun ts => !isEnd ts) (deep depth).implMember).Reads
      (members.flatMap (·.2) ++ .closing .brace :: rest) (.closing .brace :: rest)
      (List.Forall₂ (fun m i => IsFunction m.1 i) members) := by
    refine reads_many (fun _ => True) rfl trivial (fun m mem r => ?_) (fun _ _ _ => trivial)
      (fun m mem r _ => (each m mem).reads r) fun m mem empty => ?_
    · rw [(each m mem).opens]
      rfl
    · have opens := (each m mem).opens []
      rw [empty] at opens
      cases opens
  rw [tokens] at read ⊢
  unfold implMembers
  exact takes_discard_bind read (reads_inside (takes_discard_bind (takes_innerAttrs bare) all))

/-- What an implementation is for, in front of its type. -/
def traitTokens : Option NamePath → List Token
  | none => []
  | some p => p.tokens ++ [.ident "for"]

/-- What an implementation implements. -/
def traitHead : Option NamePath → ImplHead
  | none => .inherent
  | some p => .positive (Path.ofNames p)

/-- An implementation with its head and its members. -/
def implementationTokens (trait : Option NamePath) (name : String) (g : Generics)
    (members : List (String × List Token)) : List Token :=
  .ident "impl" :: (g.declaration ++ (traitTokens trait ++ (.ident name :: (g.arguments ++ (g.clauseTokens ++
    membersTokens members)))))

/-- What an implementation is for starts neither parameters nor a condition. -/
theorem startsType_spec {name : String} (plain : name ∉ keywords) {trait : Option NamePath}
    (paths : ∀ p ∈ trait, IsPath p) (rest : List Token) : isOp "<" (traitTokens trait ++ .ident name :: rest) = false ∧
      Parser.isWord "const" (traitTokens trait ++ .ident name :: rest) = false ∧
      isOp "?" (traitTokens trait ++ .ident name :: rest) = false ∧
      isOp "!" (traitTokens trait ++ .ident name :: rest) = false := by
  have start (absolute : Bool) {w : String} (h : InPath w) (us : List Token) :
      isOp "<" (absoluteMark absolute ++ .ident w :: us) = false ∧
        Parser.isWord "const" (absoluteMark absolute ++ .ident w :: us) = false ∧
        isOp "?" (absoluteMark absolute ++ .ident w :: us) = false ∧
        isOp "!" (absoluteMark absolute ++ .ident w :: us) = false := by
    cases absolute with
    | true => exact ⟨rfl, rfl, rfl, rfl⟩
    | false => exact ⟨rfl, isWord_inPath h (by decide) (by decide) us, rfl, rfl⟩
  cases trait with
  | none => exact start false (.inl plain) rest
  | some p =>
    have path := paths p rfl
    obtain ⟨first, names, named, tokens⟩ := path.exists_tokens
    rw [traitTokens, tokens, List.append_assoc, List.append_assoc, List.cons_append]
    exact start p.absolute (path.words first (named ▸ List.mem_cons_self)) _

/-- The parameters are read where there are any. -/
theorem IsHead.declaration {name : String} {g : Generics} (h : IsHead depth name g) {rest : List Token}
    (plain : isOp "<" rest = false) :
    (startsGenerics (g.declaration ++ rest) = true →
      (discard (deep depth).generics : Parser Unit).Takes (g.declaration ++ rest) rest) ∧
    (startsGenerics (g.declaration ++ rest) = false → g.declaration ++ rest = rest) := by
  by_cases none : g.params = []
  · have empty : g.declaration = [] := by rw [Generics.declaration, Generics.bracketed, none]; rfl
    have other : startsGenerics rest = false := by rw [startsGenerics, plain, Bool.false_and]
    rw [empty, List.nil_append, other]
    exact ⟨nofun, fun _ => rfl⟩
  · obtain ⟨starts, takes⟩ := h.declared none rest
    rw [starts]
    exact ⟨fun _ => takes_discard takes, nofun⟩

/-- An implementation is read back with its trait, its type and its functions. -/
theorem reads_implementation {name : String} (plain : name ∉ keywords) {trait : Option NamePath}
    (paths : ∀ p ∈ trait, IsPath p) {g : Generics} (head : IsHead (depth + 1) name g)
    {members : List (String × List Token)}
    (bare : ∀ m ∈ members, ∀ rest, (isOp "#" (m.2 ++ rest) && second (isOp "!") (m.2 ++ rest)) = false)
    (each : ∀ m ∈ members, IsMember (depth + 1) m.1 m.2) (rest : List Token) :
    ((deep (depth + 1)).implementationRest false).Reads (implementationTokens trait name g members ++ rest) rest
      (Implements (traitHead trait) name (members.map (·.1))) := by
  have tokens : implementationTokens trait name g members ++ rest = .ident "impl" :: (g.declaration ++
      (traitTokens trait ++ .ident name :: (g.arguments ++ (g.clauseTokens ++ (membersTokens members ++ rest))))) := by
    simp [implementationTokens]
  have brace : isOpening .brace (membersTokens members ++ rest) = true := isOpening_group _ _ _
  obtain ⟨ends, clause⟩ := head.clause _ brace
  have type := head.type _ ends
  have unrelated := head.bare _ brace
  have all := reads_implMembers clause bare each
  obtain ⟨params, const, maybe, negative⟩ := startsType_spec plain paths
    (g.arguments ++ (g.clauseTokens ++ (membersTokens members ++ rest)))
  obtain ⟨declared, undeclared⟩ := head.declaration params
  have all := all.mono fun is same => List.forall₂_map_left_iff.2 same
  rw [tokens]
  generalize g.clauseTokens ++ (membersTokens members ++ rest) = body at *
  unfold implementationRest
  refine takes_discard_bind (takes_seq_cons (reads_no_optional rfl).takes (takes_seq_cons (reads_no_optional rfl).takes
    (takes_seq_cons (reads_word "impl" _).takes takes_seq_nil))) (reads_peek_bind.2 ?_)
  dsimp only
  refine reads_when_bind declared undeclared (reads_peek_bind.2 ?_)
  rw [const, maybe, Bool.false_and, Bool.or_self]
  refine reads_ahead_bind.2 (reads_peek_bind.2 ?_)
  rw [negative, Bool.false_and]
  cases trait with
  | none =>
    refine reads_bind type fun first same => reads_ahead_bind.2 (reads_peek_bind.2 ?_)
    obtain ⟨args, rfl⟩ := same
    rw [unrelated]
    refine reads_bind (reads_pure rfl) fun self same => reads_bind all fun items names => ?_
    exact reads_pure ⟨args, items, by rw [← same]; rfl, names⟩
  | some p =>
    rw [traitTokens, List.append_assoc]
    refine reads_bind (reads_namePathTy true depth (paths p rfl) (endsTy_word true "for" _)) fun first same => ?_
    refine reads_ahead_bind.2 (reads_peek_bind.2 ?_)
    subst same
    refine takes_discard_bind (reads_anyWord "for" _).takes (reads_bind type fun self same => ?_)
    obtain ⟨args, rfl⟩ := same
    refine reads_bind all fun items names => ?_
    exact reads_pure ⟨args, items, rfl, names⟩

/-! ## Files -/

/-- The tokens are read as an item that is as said. -/
structure IsItem (depth : Nat) (S : Item → Prop) (ts : List Token) : Prop where
  opens : ∀ rest, isEnd (ts ++ rest) = false
  bare : ∀ rest, isOp "#" (ts ++ rest) = false
  reads : ∀ rest, (deep depth).item.Reads (ts ++ rest) rest S

theorem isItem_implementation {name : String} (plain : name ∉ keywords) {trait : Option NamePath}
    (paths : ∀ p ∈ trait, IsPath p) {g : Generics} (head : IsHead (depth + 1) name g)
    {members : List (String × List Token)}
    (bare : ∀ m ∈ members, ∀ rest, (isOp "#" (m.2 ++ rest) && second (isOp "!") (m.2 ++ rest)) = false)
    (each : ∀ m ∈ members, IsMember (depth + 1) m.1 m.2) :
    IsItem (depth + 2) (Implements (traitHead trait) name (members.map (·.1)))
      (implementationTokens trait name g members) where
  opens _ := rfl
  bare _ := rfl
  reads rest := by
    have read := reads_implementation plain paths head bare each rest
    have tokens : ∃ us, implementationTokens trait name g members ++ rest = .ident "impl" :: us := ⟨_, rfl⟩
    obtain ⟨us, tokens⟩ := tokens
    rw [tokens] at read ⊢
    show ((deep (depth + 1)).itemRule).Reads _ _ _
    unfold itemRule
    refine takes_bind (reads_no_attrs rfl).takes fun attrs => ?_
    unfold itemRest
    refine reads_bind (reads_no_visibility rfl) fun visible none => reads_ahead_bind.2 ?_
    subst none
    exact read

/-- The items of a file. -/
theorem parse_items {γ : Type} {xs : List γ} {tokens : γ → List Token} {S : γ → Item → Prop}
    (each : ∀ x ∈ xs, IsItem (8 * ((xs.flatMap tokens).length + 4)) (S x) (tokens x)) :
    ∃ items, parseTokens? (fun g => do
      discard g.innerAttrs
      many (fun ts => !isEnd ts) g.item) (xs.flatMap tokens) = some items ∧ List.Forall₂ S xs items := by
  have bare : isOp "#" (xs.flatMap tokens) = false := by
    cases xs with
    | nil => rfl
    | cons x xs =>
      rw [List.flatMap_cons]
      exact (each x List.mem_cons_self).bare _
  have all : (do
      discard (forTokens (xs.flatMap tokens)).innerAttrs
      many (fun ts => !isEnd ts) (forTokens (xs.flatMap tokens)).item).Reads (xs.flatMap tokens ++ []) []
        (List.Forall₂ S xs) := by
    refine takes_discard_bind (takes_innerAttrs (by rw [List.append_nil, bare, Bool.false_and])) ?_
    refine reads_many (fun _ => True) rfl trivial (fun x mem r => ?_) (fun _ _ _ => trivial)
      (fun x mem r _ => (each x mem).reads r) fun x mem empty => ?_
    · rw [(each x mem).opens]
      rfl
    · have opens := (each x mem).opens []
      rw [empty] at opens
      cases opens
  obtain ⟨items, found, run, same⟩ := all []
  rw [List.append_nil] at run
  refine ⟨items, ?_, same⟩
  unfold parseTokens? runAll
  rw [run]
  rfl

end LiveSettings.Grammar
