import LiveSettings.Proofs.Code.RereadBounds

/-!
# Types of functions that are read again

The arguments of a function type have attributes and may have names; a first one may be a receiver, and others of any
number may be announced at the end.

Results: `ensures_functionTy`.
-/

namespace LiveSettings.Grammar

open LiveSettings.Parser
open LiveSettings.Token (Printable Spelled printable_ident printable_nil printable_op)

variable {f : Bool → List Segment → Option NamePath}

/-! ## Conventions -/

/-- The code of a convention for calls, if there is one. -/
inductive IsConvention : List Part → Prop
  | none : IsConvention []
  | default : IsConvention (code [.ident "extern"])
  | named {text : String} (quoted : isText [.literal text] = true) :
    IsConvention (code [.ident "extern"] ++ [.embedded .literal (code [.literal text])])

theorem ensures_callConvention {ts : List Token} : callConvention.Ensures ts fun parts _ => IsConvention parts := by
  unfold callConvention
  refine ensures_optional (fun _ => ?_) fun _ => .none
  have name (us : List Token) : (optional isText (embed .literal text)).Ensures us fun parts _ =>
      IsConvention (code [.ident "extern"] ++ parts) := by
    refine ensures_optional (fun here => ?_) fun _ => .default
    refine ensures_bind (R := fun parts _ => ∃ text, parts = code [.literal text] ∧ isText [.literal text] = true) ?_
      fun parts us found => ensures_pure ?_
    · refine ensures_ahead_bind.2 (ensures_guarded_bind fun quoted => ensures_bind ensures_next fun t us same => ?_)
      subst same
      cases t with
      | literal text => exact ensures_pure ⟨text, rfl, quoted⟩
      | ident _ | mark _ _ | opening _ | closing _ => cases here
    · obtain ⟨text, rfl, quoted⟩ := found
      exact .named quoted
  refine ensures_seq_cons ensures_word fun start us found => ensures_seq_cons (name us) fun parts vs convention =>
    ensures_seq_nil ?_
  rw [found.1, List.append_nil]
  exact convention

theorem IsConvention.tokens {parts : List Part} (h : IsConvention parts) (held : Held f parts) :
    Printable (Part.written f parts) ∧ ∀ rest,
      callConvention.Takes (Part.written f parts ++ .ident "fn" :: rest) (.ident "fn" :: rest) := by
  have word : Printable [.ident "extern"] := printable_ident (by decide)
  unfold callConvention
  cases h with
  | none => exact ⟨printable_nil, fun rest => (reads_no_optional rfl).takes⟩
  | default =>
    refine ⟨word, fun rest => reads_optional rfl ?_⟩
    exact takes_seq_cons (reads_word "extern" _).takes (takes_seq_cons (reads_no_optional rfl).takes takes_seq_nil)
  | @named text quoted =>
    simp only [held_append, held_code, held_embedded, Part.written_code] at held
    rw [Part.written_append, Part.written_code, Part.written_embedded, Part.written_code, Part.written_nil,
      List.append_nil]
    refine ⟨word.append held.2.1.printable, fun rest => reads_optional rfl ?_⟩
    have name : (embed .literal Parser.text).Takes (.literal text :: .ident "fn" :: rest) (.ident "fn" :: rest) := by
      refine takes_bind (reads_ahead_bind.2 (reads_guarded_bind quoted ?_)) fun _ => reads_pure trivial
      exact takes_bind (takes_next _ _) fun _ => reads_pure trivial
    exact takes_seq_cons (reads_word "extern" _).takes (takes_seq_cons (reads_optional quoted name) takes_seq_nil)

/-! ## Arguments -/

/-- The tokens of an argument behind its attributes are read again. -/
structure ArgTokens (first : Bool) (ts : List Token) : Prop where
  printable : Printable ts
  opens : ∀ rest, endsTy rest = true → isEnd (ts ++ rest) = false
  bare : ∀ rest, endsTy rest = true → isOp "#" (ts ++ rest) = false
  single : ∀ rest, endsTy rest = true → startsVariadic (ts ++ rest) = false
  takes : ∀ depth, Below depth ts → ∀ rest, endsTy rest = true → ((deep depth).functionArg first).Takes (ts ++ rest) rest

/-- An argument with a receiver. -/
theorem argTokens_receiver {us : List Token} (legible : LegibleCode .receiver (.ident "mut" :: .ident "self" :: us)) :
    ArgTokens true (.ident "mut" :: .ident "self" :: us) where
  printable := legible.printable
  opens _ _ := rfl
  bare _ _ := rfl
  single _ _ := rfl
  takes depth below rest ends := by
    have receiver := legible.reads depth below.enough rest ends
    unfold functionArg
    refine reads_ahead_bind.2 ?_
    show Parser.Takes (do return [Part.embedded .receiver (code (← verbatim (functionArg.self (deep depth))))]) _ _
    have kept : (verbatim (functionArg.self (deep depth))).Takes
        (.ident "mut" :: .ident "self" :: us ++ rest) rest := by
      unfold verbatim
      exact reads_ahead_bind.2 (takes_discard_bind receiver (reads_ahead_bind.2 (reads_pure trivial)))
    exact takes_bind kept fun _ => reads_pure trivial

/-- The word may name an argument. -/
def NamesArg (first : Bool) (name : String) : Prop := name ∉ keywords ∨ name = "_" ∨ (first = true ∧ name = "self")

theorem namesArg_iff {first : Bool} {name : String} {ts : List Token} : NamesArg first name ↔
    (isIdent (.ident name :: ts) || Parser.isWord "_" (.ident name :: ts) ||
      (first && Parser.isWord "self" (.ident name :: ts))) = true := by
  simp [NamesArg, isIdent, Parser.isWord, or_assoc]

/-- An argument with a name. -/
theorem argTokens_named {first : Bool} {name : String} (spelled : Spelled name) (names : NamesArg first name)
    {before after : List Token} {t : Ty} {ts : List Token} (type : TyTokens true before after t ts) :
    ArgTokens first (.ident name :: (Token.op ":" ++ ts)) where
  printable := by
    have colon : Printable (Token.op ":") := printable_op (by decide)
    exact (printable_ident spelled).append (colon.append type.printable)
  opens _ _ := rfl
  bare _ _ := rfl
  single rest ends := by
    have dots : isOp "..." (ts ++ rest) = false := (type.starts (follows_of_endsTy ends)).dots
    show (false || (_ && isOp "..." (ts ++ rest))) = false
    rw [dots, Bool.and_false]
    rfl
  takes depth below rest ends := by
    have other : Parser.isWord "mut" (.ident name :: (Token.op ":" ++ ts ++ rest)) = false := by
      refine Bool.eq_false_iff.2 fun same => ?_
      obtain rfl : name = "mut" := beq_iff_eq.1 same
      rcases names with plain | none | ⟨-, self⟩
      · exact plain (by decide)
      · exact absurd none (by decide)
      · exact absurd self (by decide)
    have colon : (second (isOp ":") (.ident name :: (Token.op ":" ++ ts ++ rest)) &&
        !second (isOp "::") (.ident name :: (Token.op ":" ++ ts ++ rest))) = true := rfl
    have body := takes_seq_cons (p := anyWordCode) (takes_bind (reads_anyWord name _).takes fun _ => reads_pure trivial)
      (takes_seq_cons (reads_op ":" (ts ++ rest)).takes (takes_seq_cons
        (type.takes_tyCode rfl below.tail.right (follows_of_endsTy ends)) takes_seq_nil))
    rw [← List.append_assoc] at body
    unfold functionArg
    refine reads_ahead_bind.2 ?_
    rw [List.cons_append, other, Bool.and_false, Bool.false_and, if_neg Bool.false_ne_true, Bool.and_assoc, colon,
      Bool.and_true, if_pos (namesArg_iff.1 names)]
    exact body

/-- What is left does not depend on the items noted. -/
theorem rest_eq {α : Type} {p : Parser α} {ts us vs : List Token} (h : p.Takes ts us) (h' : p.Takes ts vs) : us = vs := by
  obtain ⟨a, found, run, -⟩ := h []
  obtain ⟨b, found', run', -⟩ := h' []
  rw [run] at run'
  cases run'
  rfl

theorem exists_of_isAnyWord {ts : List Token} (h : isAnyWord ts = true) : ∃ name us, ts = .ident name :: us := by
  cases ts with
  | nil => cases h
  | cons t ts =>
    cases t with
    | ident name => exact ⟨name, ts, rfl⟩
    | mark _ _ | literal _ | opening _ | closing _ => cases h

theorem isAnyWord_of_named {ts : List Token}
    (h : (isIdent ts || Parser.isWord "_" ts || Parser.isWord "self" ts) = true) : isAnyWord ts = true := by
  cases ts with
  | nil => cases h
  | cons t ts =>
    cases t with
    | ident name => rfl
    | mark _ _ | literal _ | opening _ | closing _ => cases h

/-- What is read as a type has no name in front. -/
theorem not_named {depth : Nat} {ts rest : List Token} (type : ((deep depth).tyRule true).Takes ts rest)
    (other : isOp ":" rest = false) : ((isIdent ts || Parser.isWord "_" ts || Parser.isWord "self" ts) &&
      second (isOp ":") ts && !second (isOp "::") ts) = false := by
  refine Bool.eq_false_iff.2 fun named => ?_
  simp only [Bool.and_eq_true] at named
  obtain ⟨⟨word, colon⟩, single⟩ := named
  obtain ⟨name, us, rfl⟩ := exists_of_isAnyWord (isAnyWord_of_named word)
  have colon : isOp ":" us = true := colon
  have single : isOp "::" us = false := by rwa [Bool.not_eq_true'] at single
  have ends : EndsTy true us := by
    obtain ⟨joint, vs, rfl⟩ := exists_mark_of_startsOp ':' [] colon
    have args : NoArgs false (.mark ':' joint :: vs) := by
      rw [NoArgs, single, Bool.false_and]
      rfl
    cases joint <;> exact ⟨⟨args, single⟩, rfl, rfl, rfl, fun _ => rfl⟩
  have alone : ((deep depth).tyRule true).Takes (.ident name :: us) us := by
    have path (inPath : InPath name) : ((deep depth).tyRule true).Takes (.ident name :: us) us := by
      have path : IsPath ⟨false, [name]⟩ := ⟨nofun, List.forall_mem_singleton.2 inPath⟩
      exact (reads_namePathTy true depth path ends).takes
    rcases namesArg_iff.2 (by simpa using word : (isIdent (.ident name :: us) || Parser.isWord "_" (.ident name :: us) ||
        (true && Parser.isWord "self" (.ident name :: us))) = true) with plain | rfl | ⟨-, rfl⟩
    · exact path (.inl plain)
    · unfold tyRule
      refine reads_bind (reads_binder rfl) fun binder none => reads_ahead_bind.2 ?_
      subst none
      show Parser.Takes (do return Ty.shaped .inferred (← anyWordCode)) _ _
      exact takes_bind (takes_bind (reads_anyWord "_" us).takes fun _ => reads_pure trivial) fun _ => reads_pure trivial
    · exact path (by decide)
  rw [rest_eq type alone, colon] at other
  cases other

/-- An argument without a name. -/
theorem argTokens_type {first : Bool} {before after : List Token} {t : Ty} {ts : List Token}
    (type : TyTokens true before after t ts) : ArgTokens first ts := by
  have starts {rest : List Token} (ends : endsTy rest = true) := type.starts (follows_of_endsTy ends)
  have unnamed {rest : List Token} (ends : endsTy rest = true) := by
    obtain ⟨-, -, colon, -⟩ := endsTy_spec ends
    exact not_named (type.reads _ (Nat.le_refl _) rest (follows_of_endsTy ends)).takes colon
  refine ⟨type.printable, fun rest ends => (starts ends).opens, fun rest ends => (starts ends).bare, fun rest ends => ?_,
    fun depth below rest ends => ?_⟩
  · have unnamed := unnamed ends
    rw [startsVariadic, (starts ends).dots, Bool.false_or]
    refine Bool.eq_false_iff.2 fun more => ?_
    simp only [Bool.and_eq_true] at more
    obtain ⟨⟨word, colon⟩, dots⟩ := more
    have word : (isIdent (ts ++ rest) || Parser.isWord "_" (ts ++ rest) || Parser.isWord "self" (ts ++ rest)) = true := by
      rw [word, Bool.true_or]
    -- the dots stand right behind the colon, so there is no other
    have single : second (isOp "::") (ts ++ rest) = false := by
      obtain ⟨name, us, same⟩ := exists_of_isAnyWord (isAnyWord_of_named word)
      rw [same] at colon dots ⊢
      obtain ⟨joint, vs, rfl⟩ := exists_mark_of_startsOp ':' [] (colon : isOp ":" us = true)
      obtain ⟨_, ws, rfl⟩ := exists_mark_of_startsOp '.' ['.', '.'] (dots : isOp "..." vs = true)
      cases joint <;> rfl
    rw [word, colon, single] at unnamed
    cases unnamed
  · have unnamed : ((isIdent (ts ++ rest) || Parser.isWord "_" (ts ++ rest) || (first && Parser.isWord "self" (ts ++ rest)))
        && second (isOp ":") (ts ++ rest) && !second (isOp "::") (ts ++ rest)) = false := by
      cases first with
      | true => exact unnamed ends
      | false =>
        refine Bool.eq_false_iff.2 fun named => Bool.eq_false_iff.1 (unnamed ends) ?_
        simp only [Bool.and_eq_true, Bool.or_eq_true, Bool.false_and, Bool.false_eq_true, or_false] at named ⊢
        exact ⟨⟨.inl named.1.1, named.1.2⟩, named.2⟩
    unfold functionArg
    refine reads_ahead_bind.2 ?_
    rw [(starts ends).exclusive, Bool.and_false, Bool.false_and, if_neg Bool.false_ne_true, unnamed,
      if_neg Bool.false_ne_true]
    exact type.takes_tyCode rfl below (follows_of_endsTy ends)

theorem ensures_self {g : Grammar} {ts : List Token} : (verbatim (functionArg.self g)).Ensures ts fun us _ =>
    ∃ vs, us = .ident "mut" :: .ident "self" :: vs := by
  have receiver : (functionArg.self g).Ensures ts fun _ us =>
      ∃ vs, ts = .ident "mut" :: .ident "self" :: vs ∧ us <:+ vs := by
    unfold functionArg.self
    refine ensures_seq_cons ensures_word fun first us found => ensures_seq_cons ensures_word fun second vs found' =>
      ensures_suffix.mono fun parts ws within => ?_
    exact ⟨vs, by rw [found.2, found'.2], within⟩
  unfold verbatim
  refine ensures_ahead_bind.2 (ensures_discard_bind receiver fun parts us found => ensures_ahead_bind.2 (ensures_pure ?_))
  obtain ⟨vs, rfl, within⟩ := found
  have shorter := within.length_le
  have length : (Token.ident "mut" :: .ident "self" :: vs).length - us.length = vs.length - us.length + 2 := by
    simp only [List.length_cons]
    omega
  exact ⟨vs.take (vs.length - us.length), by rw [length]; rfl⟩

theorem ensures_functionArg {g : Grammar} (rereads : Rereads f g) {first : Bool} {ts : List Token} :
    (g.functionArg first).Ensures ts fun parts _ => Held f parts → ArgTokens first (Part.written f parts) := by
  unfold functionArg
  refine ensures_ahead_bind.2 (ensures_ite (fun mutSelf => ?_) fun _ => ensures_ite (fun named => ?_) fun _ => ?_)
  · obtain rfl : first = true := by
      simp only [Bool.and_eq_true] at mutSelf
      exact mutSelf.1.1
    refine ensures_bind ensures_self fun us vs found => ensures_pure fun held => ?_
    obtain ⟨ws, rfl⟩ := found
    have legible := (held_embedded.1 held).1
    rw [Part.written_code] at legible
    rw [Part.written_embedded, Part.written_code, Part.written_nil, List.append_nil]
    exact argTokens_receiver legible
  · simp only [Bool.and_eq_true] at named
    have name : anyWordCode.Ensures ts fun parts _ => ∃ name, parts = code [.ident name] ∧ Spelled name ∧
        NamesArg first name := by
      refine ensures_bind ensures_anyWord fun name us found => ensures_pure ⟨name, rfl, found.2, ?_⟩
      rw [namesArg_iff, ← found.1]
      exact named.1.1
    refine ensures_seq_cons name fun parts us found => ensures_seq_cons ensures_op fun colon vs mark =>
      ensures_seq_cons (ensures_tyCode rereads) fun type ws reread => ensures_seq_nil fun held => ?_
    obtain ⟨name, rfl, spelled, names⟩ := found
    obtain ⟨t, rfl, reread⟩ := reread
    obtain ⟨-, rfl, -⟩ := mark
    simp only [held_append, held_code, held_ty, held_nil, and_true, true_and] at held
    have tokens : Part.written f (code [.ident name] ++ (code (Token.op ":") ++ ([.ty t] ++ []))) =
        .ident name :: (Token.op ":" ++ (t.mapHeads f).tokens) := by
      simp [Part.written_append]
    rw [tokens]
    exact argTokens_named spelled names (reread.tokens held)
  · refine (ensures_tyCode rereads).mono fun parts us found held => ?_
    obtain ⟨t, rfl, reread⟩ := found
    rw [Part.written_ty, Part.written_nil, List.append_nil]
    exact argTokens_type (reread.tokens (held_ty.1 held).1)

/-! ## Argument lists -/

/-- The code of an announcement of further arguments. -/
inductive IsVariadic : List Part → Prop
  | bare (trailing : Bool) : IsVariadic (code (Token.op "...") ++ if trailing then code (Token.op ",") else [])
  | named {name : String} (spelled : Spelled name) (names : NamesArg false name) (trailing : Bool) :
    IsVariadic (code (.ident name :: (Token.op ":" ++ Token.op "...")) ++ if trailing then code (Token.op ",") else [])

/-- The arguments of a function type, or those behind the first. -/
inductive ArgsRead (f : Bool → List Segment → Option NamePath) : Bool → List Part → Prop
  | none (first : Bool) : ArgsRead f first []
  | variadic (first : Bool) (attrs : List Attr) {parts : List Part} (announced : IsVariadic parts) :
    ArgsRead f first (attrsCode attrs ++ parts)
  | last (first : Bool) (attrs : List Attr) {arg : List Part} (reread : Held f arg → ArgTokens first (Part.written f arg)) :
    ArgsRead f first (attrsCode attrs ++ arg)
  | more (first : Bool) (attrs : List Attr) {arg parts : List Part}
    (reread : Held f arg → ArgTokens first (Part.written f arg)) (later : ArgsRead f false parts) :
    ArgsRead f first (attrsCode attrs ++ arg ++ code (Token.op ",") ++ parts)

theorem ensures_variadic {ts : List Token} (starts : startsVariadic ts = true) :
    variadic.Ensures ts fun parts _ => IsVariadic parts := by
  have name : (optional (fun ts => !isOp "..." ts) (seq [anyWordCode, op ":"])).Ensures ts fun parts _ =>
      parts = [] ∨ ∃ name, parts = code (.ident name :: Token.op ":") ∧ Spelled name ∧ NamesArg false name := by
    refine ensures_optional (fun here => ?_) fun _ => .inl rfl
    rw [Bool.not_eq_true'] at here
    simp only [startsVariadic, here, Bool.false_or, Bool.and_eq_true] at starts
    have word : anyWordCode.Ensures ts fun parts _ => ∃ name, parts = code [.ident name] ∧ Spelled name ∧
        NamesArg false name := by
      refine ensures_bind ensures_anyWord fun name us found => ensures_pure ⟨name, rfl, found.2, ?_⟩
      rw [namesArg_iff, ← found.1, Bool.false_and, Bool.or_false]
      exact starts.1.1
    refine ensures_seq_cons word fun parts us found => ensures_seq_cons ensures_op fun colon vs mark => ensures_seq_nil ?_
    obtain ⟨name, rfl, spelled⟩ := found
    exact .inr ⟨name, by rw [mark.2.1]; rfl, spelled⟩
  have comma (us : List Token) : (optOp ",").Ensures us fun parts _ => ∃ trailing : Bool,
      parts = if trailing then code (Token.op ",") else [] :=
    ensures_optional (fun _ => ensures_op.mono fun parts vs found => ⟨true, found.2.1⟩) fun _ => ⟨false, rfl⟩
  have dots (us : List Token) : (seq [op "...", optOp ","]).Ensures us fun parts _ => ∃ trailing : Bool,
      parts = code (Token.op "...") ++ if trailing then code (Token.op ",") else [] := by
    refine ensures_seq_cons ensures_op fun dots vs mark => ensures_seq_cons (comma vs) fun parts ws found =>
      ensures_seq_nil ?_
    obtain ⟨trailing, rfl⟩ := found
    exact ⟨trailing, by rw [mark.2.1, List.append_nil]⟩
  unfold variadic
  refine ensures_bind name fun parts us found => ensures_bind (dots us) fun parts' vs found' => ensures_pure ?_
  obtain ⟨trailing, rfl⟩ := found'
  rcases found with rfl | ⟨name, rfl, spelled, names⟩
  · exact .bare trailing
  · have same := IsVariadic.named spelled names trailing
    simpa [code] using same

theorem IsVariadic.tokens {parts : List Part} (h : IsVariadic parts) : Printable (Part.written f parts) ∧ ∀ rest,
    isEnd (Part.written f parts ++ rest) = false ∧ isOp "#" (Part.written f parts ++ rest) = false ∧
      startsVariadic (Part.written f parts ++ rest) = true ∧
        variadic.Takes (Part.written f parts ++ .closing .paren :: rest) (.closing .paren :: rest) := by
  have comma (trailing : Bool) : Part.written f (if trailing then code (Token.op ",") else []) =
      if trailing then Token.op "," else [] := by
    cases trailing <;> simp
  have printable (trailing : Bool) : Printable (Token.op "..." ++ if trailing then Token.op "," else []) := by
    refine (printable_op (by decide)).append ?_
    split
    · exact printable_op (by decide)
    · exact printable_nil
  have dots (trailing : Bool) (rest : List Token) : (seq [op "...", optOp ","]).Takes
      (Token.op "..." ++ (if trailing then Token.op "," else []) ++ .closing .paren :: rest) (.closing .paren :: rest) := by
    rw [List.append_assoc]
    refine takes_seq_cons (reads_op "..." _).takes (takes_seq_cons ?_ takes_seq_nil)
    cases trailing with
    | true => exact (reads_optional rfl (reads_op "," _)).takes
    | false => exact (reads_no_optional rfl).takes
  unfold variadic
  cases h with
  | bare trailing =>
    rw [Part.written_append, Part.written_code, comma]
    refine ⟨printable trailing, fun rest => ⟨rfl, rfl, rfl, ?_⟩⟩
    exact takes_bind (reads_no_optional rfl).takes fun name => takes_bind (dots trailing rest) fun _ => reads_pure trivial
  | @named name spelled names trailing =>
    have tokens : Part.written f (code (.ident name :: (Token.op ":" ++ Token.op "...")) ++
        if trailing then code (Token.op ",") else []) =
          .ident name :: (Token.op ":" ++ (Token.op "..." ++ if trailing then Token.op "," else [])) := by
      rw [Part.written_append, Part.written_code, comma, List.cons_append, List.append_assoc]
    have colon : Printable (Token.op ":") := printable_op (by decide)
    rw [tokens]
    refine ⟨(printable_ident spelled).append (colon.append (printable trailing)), fun rest => ⟨rfl, rfl, ?_, ?_⟩⟩
    · have word (us : List Token) : (isIdent (.ident name :: us) || isWord "_" (.ident name :: us)) = true := by
        simpa using namesArg_iff.1 names
      rw [List.cons_append, startsVariadic, word]
      rfl
    · have name : (seq [anyWordCode, op ":"]).Takes (.ident name :: (Token.op ":" ++
          (Token.op "..." ++ (if trailing then Token.op "," else []) ++ .closing .paren :: rest)))
          (Token.op "..." ++ (if trailing then Token.op "," else []) ++ .closing .paren :: rest) :=
        takes_seq_cons (takes_bind (reads_anyWord name _).takes fun _ => reads_pure trivial)
          (takes_seq_cons (reads_op ":" _).takes takes_seq_nil)
      exact takes_bind (reads_optional rfl name) fun _ => takes_bind (dots trailing rest) fun _ => reads_pure trivial

theorem ensures_functionArgs {g : Grammar} (rereads : Rereads f g) (fuel : Nat) (first : Bool) {ts : List Token} :
    (g.functionArgs fuel first).Ensures ts fun parts _ => ArgsRead f first parts := by
  induction fuel generalizing first ts with
  | zero => exact ensures_failure
  | succ fuel ih =>
    have attrs (ts : List Token) : g.outerAttrsCode.Ensures ts fun parts _ => ∃ attrs, parts = attrsCode attrs :=
      ensures_after fun attrs us => ensures_pure ⟨attrs, rfl⟩
    unfold functionArgs
    refine ensures_peek_bind.2 (ensures_ite (fun _ => ensures_pure (.none first)) fun _ => ?_)
    refine ensures_bind (attrs ts) fun parts us found => ensures_peek_bind.2 (ensures_ite (fun starts => ?_) fun _ => ?_)
    · obtain ⟨attrs, rfl⟩ := found
      exact ensures_bind (ensures_variadic starts) fun parts vs announced => ensures_pure (.variadic first attrs announced)
    · obtain ⟨attrs, rfl⟩ := found
      refine ensures_bind (ensures_functionArg rereads) fun arg vs reread => ensures_peek_bind.2 (ensures_ite (fun _ => ?_)
        fun _ => ?_)
      · exact ensures_pure (.last first attrs reread)
      · refine ensures_bind ensures_op fun comma ws mark => ensures_bind (ih false) fun parts xs later => ensures_pure ?_
        rw [mark.2.1]
        exact .more first attrs reread later

/-- An argument with its attributes is read, and then what follows it. -/
theorem takes_behindAttrs {attrs : List Attr} (legible : ∀ a ∈ attrs, LegibleCode .attribute a.tokens) {depth : Nat}
    (enough : Enough depth (attrs.flatMap Attr.tokens)) {us rest : List Token} (opens : isEnd us = false)
    (bare : isOp "#" us = false) {K : List Part → Parser (List Part)} (behind : ∀ parts, (K parts).Takes us rest) : (do
      if ← peek isEnd then return []
      K (← (deep depth).outerAttrsCode) : Parser (List Part)).Takes (attrs.flatMap Attr.tokens ++ us) rest := by
  have opens : isEnd (attrs.flatMap Attr.tokens ++ us) = false := by
    cases attrs with
    | nil => exact opens
    | cons a attrs => rfl
  refine reads_peek_bind.2 ?_
  rw [if_neg (by simp [opens])]
  exact takes_bind (takes_bind (takes_attrs legible enough bare) fun _ => reads_pure trivial) behind

/-- The arguments are read again, up to the end of their group. -/
theorem ArgsRead.tokens {first : Bool} {parts : List Part} (h : ArgsRead f first parts) (held : Held f parts) :
    Printable (Part.written f parts) ∧ ∀ depth, Below depth (Part.written f parts) → ∀ rest fuel,
      (Part.written f parts).length < fuel → ((deep depth).functionArgs fuel first).Takes
        (Part.written f parts ++ .closing .paren :: rest) (.closing .paren :: rest) := by
  induction h with
  | none first =>
    refine ⟨printable_nil, fun depth _ rest fuel enough => ?_⟩
    obtain ⟨fuel, rfl⟩ := Nat.exists_eq_succ_of_ne_zero (Nat.ne_zero_of_lt enough)
    unfold functionArgs
    exact reads_peek_bind.2 (reads_pure trivial)
  | @variadic first attrs parts announced =>
    rw [held_append, held_attrsCode] at held
    obtain ⟨printable, reads⟩ := announced.tokens (f := f)
    rw [Part.written_append, written_attrsCode]
    refine ⟨(printable_attrs held.1).append printable, fun depth below rest fuel enough => ?_⟩
    obtain ⟨fuel, rfl⟩ := Nat.exists_eq_succ_of_ne_zero (Nat.ne_zero_of_lt enough)
    have enough : Enough depth (attrs.flatMap Attr.tokens) := below.left.enough
    obtain ⟨opens, bare, starts, takes⟩ := reads (.closing .paren :: rest)
    rw [List.append_assoc]
    unfold functionArgs
    refine takes_behindAttrs held.1 enough opens bare fun before => reads_peek_bind.2 ?_
    rw [starts]
    exact takes_bind (reads rest).2.2.2 fun _ => reads_pure trivial
  | @last first attrs arg reread =>
    rw [held_append, held_attrsCode] at held
    have tokens := reread held.2
    rw [Part.written_append, written_attrsCode]
    refine ⟨(printable_attrs held.1).append tokens.printable, fun depth below rest fuel enough => ?_⟩
    obtain ⟨fuel, rfl⟩ := Nat.exists_eq_succ_of_ne_zero (Nat.ne_zero_of_lt enough)
    have enough : Enough depth (attrs.flatMap Attr.tokens) := below.left.enough
    have ends : endsTy (.closing .paren :: rest) = true := rfl
    rw [List.append_assoc]
    unfold functionArgs
    refine takes_behindAttrs held.1 enough (tokens.opens _ ends) (tokens.bare _ ends) fun before => reads_peek_bind.2 ?_
    rw [tokens.single _ ends]
    exact takes_bind (tokens.takes depth below.right _ ends) fun _ => reads_peek_bind.2 (reads_pure trivial)
  | @more first attrs arg parts reread later ih =>
    simp only [held_append, held_attrsCode, held_code, and_true] at held
    obtain ⟨⟨legible, held⟩, heldLater⟩ := held
    have tokens := reread held
    obtain ⟨printable, takes⟩ := ih heldLater
    have comma : Printable (Token.op ",") := printable_op (by decide)
    have written : Part.written f (attrsCode attrs ++ arg ++ code (Token.op ",") ++ parts) =
        attrs.flatMap Attr.tokens ++ (Part.written f arg ++ (Token.op "," ++ Part.written f parts)) := by
      simp only [Part.written_append, written_attrsCode, Part.written_code, List.append_assoc]
    rw [written]
    refine ⟨(printable_attrs legible).append (tokens.printable.append (comma.append printable)),
      fun depth below rest fuel length => ?_⟩
    obtain ⟨fuel, rfl⟩ := Nat.exists_eq_succ_of_ne_zero (Nat.ne_zero_of_lt length)
    have enough : Enough depth (attrs.flatMap Attr.tokens) := below.left.enough
    have ends : endsTy (Token.op "," ++ (Part.written f parts ++ .closing .paren :: rest)) = true := rfl
    have mark : (Token.op ",").length = 1 := rfl
    simp only [List.length_append, mark] at length
    simp only [List.append_assoc]
    unfold functionArgs
    refine takes_behindAttrs legible enough (tokens.opens _ ends) (tokens.bare _ ends) fun before => reads_peek_bind.2 ?_
    rw [tokens.single _ ends]
    refine takes_bind (tokens.takes depth below.right.left _ ends) fun _ => reads_peek_bind.2 ?_
    refine takes_bind (reads_op "," _).takes fun _ => takes_bind ?_ fun _ => reads_pure trivial
    exact takes depth below.right.right.right rest fuel (by omega)

/-! ## Function types -/

/-- The tokens are read as the type of a function, which left `after`. -/
structure FunctionTokens (after ts : List Token) : Prop where
  printable : Printable ts
  starts : ∃ w us, ts = .ident w :: us ∧ w ∈ ["unsafe", "extern", "fn"]
  takes : ∀ depth, Enough depth ts → ∀ rest, Follows false after rest → (deep depth).functionTy.Takes (ts ++ rest) rest

/-- What may stand first in the type of a function. -/
def markTokens (marked : Bool) : List Token := if marked then [.ident "unsafe"] else []

theorem functionTokens_of {marked : Bool} {convention inner output : List Part} (call : IsConvention convention)
    (args : ArgsRead f true inner) {after : List Token} (heldConvention : Held f convention) (heldArgs : Held f inner)
    (result : ResultTokens false after (Part.written f output)) : FunctionTokens after
      (markTokens marked ++ (Part.written f convention ++
        (.ident "fn" :: (Token.group .paren (Part.written f inner) ++ Part.written f output)))) := by
  obtain ⟨printableCall, takesCall⟩ := call.tokens heldConvention
  obtain ⟨printableArgs, takesArgs⟩ := args.tokens heldArgs
  have fn : Printable [.ident "fn"] := printable_ident (by decide)
  have word : Printable (markTokens marked) := by
    cases marked with
    | true => exact printable_ident (by decide)
    | false => exact printable_nil
  refine ⟨word.append (printableCall.append (fn.append ((printableArgs.group .paren).append result.printable))), ?_,
    fun depth enough rest follows => ?_⟩
  · cases marked with
    | true => exact ⟨_, _, rfl, by decide⟩
    | false =>
      cases call with
      | none => exact ⟨_, _, rfl, by decide⟩
      | default | named _ => exact ⟨_, _, rfl, by decide⟩
  · have shorter : (Part.written f inner).length + (Part.written f output).length + 2 ≤
        (markTokens marked ++ (Part.written f convention ++
          (.ident "fn" :: (Token.group .paren (Part.written f inner) ++ Part.written f output)))).length := by
      simp only [List.length_append, List.length_cons, Token.group]
      omega
    have arguments (fuel : Nat) (long : (Part.written f inner).length < fuel) :
        (group .paren ((deep depth).functionArgs fuel true)).Takes
          (.opening .paren :: (Part.written f inner ++ .closing .paren :: (Part.written f output ++ rest)))
          (Part.written f output ++ rest) :=
      takes_group (takesArgs depth (enough.below (by omega)) _ fuel long)
    have unmarked : (optWord "unsafe").Takes (markTokens marked ++ (Part.written f convention ++
        (.ident "fn" :: (.opening .paren :: (Part.written f inner ++ .closing .paren :: (Part.written f output ++ rest))))))
        (Part.written f convention ++ (.ident "fn" :: (.opening .paren :: (Part.written f inner ++
          .closing .paren :: (Part.written f output ++ rest))))) := by
      cases marked with
      | true => exact (reads_optional rfl (reads_word "unsafe" _)).takes
      | false =>
        refine (reads_no_optional ?_).takes
        cases call with
        | none | default | named _ => rfl
    simp only [List.append_assoc, List.cons_append, group_append]
    unfold functionTy
    refine reads_ahead_bind.2 (takes_seq_cons unmarked (takes_seq_cons (takesCall _) (takes_seq_cons
      (reads_word "fn" _).takes (takes_seq_cons (arguments _ ?_) (takes_seq_cons
        (result.takes depth (enough.below (by omega)) rest follows) takes_seq_nil)))))
    simp only [List.length_append, List.length_cons]
    omega

theorem ensures_functionTy {g : Grammar} (rereads : Rereads f g) {ts : List Token} : g.functionTy.Ensures ts
    fun parts us => Held f parts → FunctionTokens us (Part.written f parts) := by
  have word (us : List Token) : (optWord "unsafe").Ensures us fun parts _ => ∃ marked : Bool,
      parts = if marked then code [.ident "unsafe"] else [] :=
    ensures_optional (fun _ => ensures_word.mono fun parts vs found => ⟨true, found.1⟩) fun _ => ⟨false, rfl⟩
  have arguments (fuel : Nat) (us : List Token) : (group .paren (g.functionArgs fuel true)).Ensures us fun parts _ =>
      ∃ inner, parts = code [.opening .paren] ++ inner ++ code [.closing .paren] ∧ ArgsRead f true inner :=
    ensures_group fun vs _ => (ensures_functionArgs rereads fuel true).mono fun inner ws read rest _ => ⟨inner, rfl, read⟩
  unfold functionTy
  refine ensures_ahead_bind.2 ?_
  refine ensures_seq_cons (word ts) fun before us first =>
    ensures_seq_cons ensures_callConvention fun convention vs second =>
    ensures_seq_cons ensures_word fun fn ws third => ensures_seq_cons (arguments _ ws) fun args xs fourth =>
      ensures_seq_cons (ensures_result rereads) fun output ys result => ensures_seq_nil fun held => ?_
  obtain ⟨marked, rfl⟩ := first
  obtain ⟨inner, rfl, read⟩ := fourth
  obtain ⟨rfl, -⟩ := third
  simp only [held_append, held_code, held_nil, and_true, true_and] at held
  obtain ⟨-, heldConvention, heldArgs, heldResult⟩ := held
  have tokens (marked : Bool) : FunctionTokens ys (markTokens marked ++ (Part.written f convention ++
      (.ident "fn" :: (Token.group .paren (Part.written f inner) ++ Part.written f output)))) :=
    functionTokens_of second read heldConvention heldArgs (result heldResult)
  have tokens := tokens marked
  cases marked <;> simpa [markTokens, Part.written_append, Token.group] using tokens

end LiveSettings.Grammar
