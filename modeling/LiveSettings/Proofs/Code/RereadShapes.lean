import LiveSettings.Proofs.Code.RereadFunctions

/-!
# Types of marks and words that are read again

The types that start with a word or a mark of their own: pointers, references, arrays, slices, sums of bounds and
functions. Each is read again if that holds of the types and bounds in it.

Results: `tyReread_reference`, `tyReread_array`, `tyReread_some`, `tyReread_dyn`, `tyReread_lifetime`, `tyReread_function`.
-/

namespace LiveSettings.Grammar

open LiveSettings.Parser
open LiveSettings.Token (Printable Spelled printable_ident printable_lifetime printable_listed printable_nil printable_op)

variable {f : Bool → List Segment → Option NamePath}

section

variable {plus : Bool} {before after : List Token}

/-! ## Code of types -/

/-- A type that is put together from code is read again if that code is. -/
theorem tyReread_shaped {shape : Shape} {parts : List Part}
    (tokens : Held f parts → TyTokens plus before after (.shaped shape parts) (Part.written f parts)) :
    TyReread f plus before (.shaped shape parts) after where
  tokens := tokens
  path := nofun
  peeled full held := ⟨before, after, .shaped shape parts, full ▸ tokens held⟩

/-- The code of a type that is no single bound. -/
theorem tyTokens_of_takes {shape : Shape} {parts : List Part} {ts : List Token}
    (other : (Ty.shaped shape parts).isBound = false)
    (printable : Printable ts) (unmarked : isLifetime before = false → ∀ rest, isLifetime (ts ++ rest) = false)
    (unbound : Parser.isWord "for" before = false → ∀ rest, Parser.isWord "for" (ts ++ rest) = false)
    (takes : ∀ depth, Enough depth ts → ∀ rest, Follows plus after rest →
      ((deep depth).tyRule plus).Takes (ts ++ rest) rest) :
    TyTokens plus before after (.shaped shape parts) ts where
  printable := printable
  unmarked := unmarked
  unbound := unbound
  reads depth enough rest follows := by
    refine (takes depth enough rest follows).mono fun u _ bound => ?_
    rw [other] at bound
    cases bound

/-! ## Types of a mark or a word -/

theorem tyReread_never : TyReread f plus before (.shaped .never (code (Token.op "!"))) after := by
  have bang : Printable (Token.op "!") := printable_op (by decide)
  refine tyReread_shaped fun _ => tyTokens_of_takes rfl bang (fun _ _ => rfl) (fun _ _ => rfl) fun depth _ rest _ => ?_
  unfold tyRule
  refine reads_bind (reads_binder rfl) fun binder none => reads_ahead_bind.2 ?_
  subst none
  exact takes_bind (reads_op "!" rest).takes fun _ => reads_pure trivial

theorem tyReread_inferred : TyReread f plus before (.shaped .inferred (code [.ident "_"])) after := by
  refine tyReread_shaped fun _ => tyTokens_of_takes rfl (printable_ident (by decide)) (fun _ _ => rfl) (fun _ _ => rfl)
    fun depth _ rest _ => ?_
  unfold tyRule
  refine reads_bind (reads_binder rfl) fun binder none => reads_ahead_bind.2 ?_
  subst none
  exact takes_bind (takes_bind (reads_anyWord "_" rest).takes fun _ => reads_pure trivial) fun _ => reads_pure trivial

/-! ## Pointers and references -/

theorem tyReread_pointer {kind : String} (known : kind = "const" ∨ kind = "mut") {before' : List Token} {t : Ty}
    (reread : TyReread f false before' t after) :
    TyReread f plus before (.shaped .pointer (code (Token.op "*") ++ code [.ident kind] ++ [.ty t])) after := by
  refine tyReread_shaped fun held => ?_
  simp only [held_append, held_code, held_ty, held_nil, and_true, true_and] at held
  have type := reread.tokens held
  have tokens : Part.written f (code (Token.op "*") ++ code [.ident kind] ++ [.ty t]) =
      Token.op "*" ++ .ident kind :: (t.mapHeads f).tokens := by
    simp [Part.written_append]
  have spelled : Spelled kind := by rcases known with rfl | rfl <;> decide
  have star : Printable (Token.op "*") := printable_op (by decide)
  rw [tokens]
  refine tyTokens_of_takes rfl (star.append ((printable_ident spelled).append type.printable)) (fun _ _ => rfl)
    (fun _ _ => rfl) fun depth enough rest follows => ?_
  have target : ((deep depth).ty false).Takes ((t.mapHeads f).tokens ++ rest) rest :=
    (type.reads_field enough.right.tail follows.alone).takes
  rw [List.append_assoc]
  unfold tyRule
  refine reads_bind (reads_binder rfl) fun binder none => reads_ahead_bind.2 ?_
  subst none
  refine takes_bind (reads_op "*" _).takes fun _ => reads_peek_bind.2 ?_
  rcases known with rfl | rfl
  · exact takes_bind (reads_word "const" _).takes fun _ => takes_bind target fun _ => reads_pure trivial
  · exact takes_bind (reads_word "mut" _).takes fun _ => takes_bind target fun _ => reads_pure trivial

/-- The lifetime of a reference and whether it is exclusive, as tokens. -/
def referenceMark (lifetime : Option String) (exclusive : Bool) : List Token :=
  (lifetime.map Token.lifetime).getD [] ++ if exclusive then [.ident "mut"] else []

theorem tyReread_reference {lifetime : Option String} (spelled : ∀ name ∈ lifetime, Spelled name) {exclusive : Bool}
    {before' : List Token} {t : Ty} (reread : TyReread f false before' t after)
    (unmarked : lifetime = none → exclusive = false → isLifetime before' = false) :
    TyReread f plus before (.shaped .reference (code (Token.op "&" ++ referenceMark lifetime exclusive) ++ [.ty t]))
      after := by
  refine tyReread_shaped fun held => ?_
  simp only [held_append, held_code, held_ty, held_nil, and_true, true_and] at held
  have type := reread.tokens held
  have tokens : Part.written f (code (Token.op "&" ++ referenceMark lifetime exclusive) ++ [.ty t]) =
      Token.op "&" ++ (referenceMark lifetime exclusive ++ (t.mapHeads f).tokens) := by
    simp [Part.written_append]
  have printable : Printable (referenceMark lifetime exclusive) := by
    refine .append ?_ ?_
    · cases lifetime with
      | none => exact printable_nil
      | some name => exact printable_lifetime (spelled name rfl)
    · cases exclusive with
      | true => exact printable_ident (by decide)
      | false => exact printable_nil
  have mark : Printable (Token.op "&") := printable_op (by decide)
  rw [tokens]
  refine tyTokens_of_takes rfl (mark.append (printable.append type.printable)) (fun _ _ => rfl) (fun _ _ => rfl)
    fun depth enough rest follows => ?_
  have below : Below depth (t.mapHeads f).tokens := (enough.behind (by decide)).right
  have word : (optWord "mut").Takes ((if exclusive then [.ident "mut"] else []) ++ ((t.mapHeads f).tokens ++ rest))
      ((t.mapHeads f).tokens ++ rest) := by
    cases exclusive with
    | true => exact (reads_optional rfl (reads_word "mut" _)).takes
    | false => exact (reads_no_optional (type.starts follows.alone).exclusive).takes
  have named : optLifetime.Takes (referenceMark lifetime exclusive ++ ((t.mapHeads f).tokens ++ rest))
      ((if exclusive then [.ident "mut"] else []) ++ ((t.mapHeads f).tokens ++ rest)) := by
    rw [referenceMark, List.append_assoc]
    cases lifetime with
    | some name => exact reads_optional rfl (reads_bind (reads_lifetime name _) fun _ _ => reads_pure trivial)
    | none =>
      refine (reads_no_optional ?_).takes
      cases exclusive with
      | true => rfl
      | false => exact type.unmarked (unmarked rfl rfl) rest
  simp only [List.append_assoc]
  unfold tyRule
  refine reads_bind (reads_binder rfl) fun binder none => reads_ahead_bind.2 ?_
  subst none
  refine takes_bind (p := seq [op "&", optLifetime, optWord "mut"]) (takes_seq_cons (reads_op "&" _).takes
    (takes_seq_cons named (takes_seq_cons word takes_seq_nil))) fun _ => ?_
  exact takes_bind (type.reads_field below follows.alone).takes fun _ => reads_pure trivial

/-! ## Arrays and slices -/

theorem tyReread_slice {before' after' : List Token} {t : Ty} (reread : TyReread f true before' t after') :
    TyReread f plus before (.shaped .slice (code [.opening .bracket] ++ [.ty t] ++ code [.closing .bracket])) after := by
  refine tyReread_shaped fun held => ?_
  simp only [held_append, held_code, held_ty, held_nil, and_true, true_and] at held
  have type := reread.tokens held
  have tokens : Part.written f (code [.opening .bracket] ++ [.ty t] ++ code [.closing .bracket]) =
      Token.group .bracket (t.mapHeads f).tokens := by
    simp [Part.written_append, Token.group]
  rw [tokens]
  refine tyTokens_of_takes rfl (type.printable.group .bracket) (fun _ _ => rfl) (fun _ _ => rfl)
    fun depth enough rest _ => ?_
  have element : (do
      let elem ← (deep depth).tyCode
      if ← peek (isOp ";") then
        let semi ← op ";"
        return (true, elem ++ semi ++ (← embed .expression (deep depth).fullExpr))
      return (false, elem)).Takes ((t.mapHeads f).tokens ++ Token.closing .bracket :: rest)
        (Token.closing .bracket :: rest) := by
    have below : Below depth (t.mapHeads f).tokens := enough.inside
    exact takes_bind (type.takes_tyCode rfl below (follows_of_endsTy rfl)) fun _ => reads_peek_bind.2 (reads_pure trivial)
  rw [group_append]
  unfold tyRule
  refine reads_bind (reads_binder rfl) fun binder none => reads_ahead_bind.2 ?_
  subst none
  exact takes_bind (reads_inside element) fun _ => reads_pure trivial

theorem tyReread_array {before' after' : List Token} {t : Ty} (reread : TyReread f true before' t after')
    (length : List Part) : TyReread f plus before (.shaped .array (code [.opening .bracket] ++
      ([.ty t] ++ code (Token.op ";") ++ [.embedded .expression length]) ++ code [.closing .bracket])) after := by
  refine tyReread_shaped fun held => ?_
  simp only [held_append, held_code, held_ty, held_embedded, held_nil, and_true, true_and] at held
  have type := reread.tokens held.1
  have tokens : Part.written f (code [.opening .bracket] ++ ([.ty t] ++ code (Token.op ";") ++
      [.embedded .expression length]) ++ code [.closing .bracket]) =
        Token.group .bracket ((t.mapHeads f).tokens ++ (Token.op ";" ++ Part.written f length)) := by
    simp [Part.written_append, Token.group]
  have semicolon : Printable (Token.op ";") := printable_op (by decide)
  rw [tokens]
  refine tyTokens_of_takes rfl ((type.printable.append (semicolon.append held.2.printable)).group .bracket)
    (fun _ _ => rfl) (fun _ _ => rfl) fun depth enough rest _ => ?_
  have element : (do
      let elem ← (deep depth).tyCode
      if ← peek (isOp ";") then
        let semi ← op ";"
        return (true, elem ++ semi ++ (← embed .expression (deep depth).fullExpr))
      return (false, elem)).Takes ((t.mapHeads f).tokens ++ (Token.op ";" ++
        (Part.written f length ++ Token.closing .bracket :: rest))) (Token.closing .bracket :: rest) := by
    have below : Below depth (t.mapHeads f).tokens := enough.inside.left
    have value := held.2.reads depth enough.inside.right.right.enough .bracket rest
    refine takes_bind (type.takes_tyCode rfl below (follows_of_endsTy rfl)) fun _ => reads_peek_bind.2 ?_
    refine takes_bind (reads_op ";" _).takes fun _ => takes_bind ?_ fun _ => reads_pure trivial
    exact takes_bind value fun _ => reads_pure trivial
  rw [group_append]
  simp only [List.append_assoc]
  unfold tyRule
  refine reads_bind (reads_binder rfl) fun binder none => reads_ahead_bind.2 ?_
  subst none
  exact takes_bind (reads_inside element) fun _ => reads_pure trivial

/-! ## Sums of bounds -/

theorem tyReread_some {before' : List Token} {parts : List Part} (sum : SumReread f true plus before' parts after) :
    TyReread f plus before (.shaped .someImplementor (code [.ident "impl"] ++ parts)) after := by
  refine tyReread_shaped fun held => ?_
  simp only [held_append, held_code, true_and] at held
  have tokens : Part.written f (code [.ident "impl"] ++ parts) = .ident "impl" :: Part.written f parts := by
    simp [Part.written_append]
  rw [tokens]
  refine tyTokens_of_takes rfl ((printable_ident (by decide)).append (sum.printable held)) (fun _ _ => rfl)
    (fun _ _ => rfl) fun depth enough rest follows => ?_
  have bounds := sum.takes held enough.tail follows.alone
  unfold tyRule
  refine reads_bind (reads_binder rfl) fun binder none => reads_ahead_bind.2 ?_
  subst none
  exact takes_bind (reads_word "impl" _).takes fun _ => takes_bind bounds fun _ => reads_pure trivial

theorem tyReread_dyn {before' : List Token} {parts : List Part} (sum : SumReread f false plus before' parts after) :
    TyReread f plus before (.shaped .traitObject (code [.ident "dyn"] ++ parts)) after := by
  refine tyReread_shaped fun held => ?_
  simp only [held_append, held_code, true_and] at held
  have tokens : Part.written f (code [.ident "dyn"] ++ parts) = .ident "dyn" :: Part.written f parts := by
    simp [Part.written_append]
  rw [tokens]
  refine tyTokens_of_takes rfl ((printable_ident (by decide)).append (sum.printable held)) (fun _ _ => rfl)
    (fun _ _ => rfl) fun depth enough rest follows => ?_
  have bounds := sum.takes held enough.tail follows.alone
  have plain : isOp "*" (Part.written f parts ++ rest) = false := (startsBound_spec (sum.startsBound held rest)).star
  unfold tyRule
  refine reads_bind (reads_binder rfl) fun binder none => reads_ahead_bind.2 ?_
  subst none
  refine takes_bind (reads_word "dyn" _).takes fun _ => reads_bind (reads_no_optional plain) fun star none => ?_
  subst none
  exact takes_bind bounds fun _ => reads_pure trivial

theorem takes_lifetimeTy {depth : Nat} {ts rest : List Token} (lifetime : isLifetime ts = true)
    (sum : ((deep depth).traitSum true false).Takes ts rest) : ((deep depth).tyRule plus).Takes ts rest := by
  obtain ⟨name, us, rfl⟩ := exists_of_isLifetime lifetime
  unfold tyRule
  refine reads_bind (reads_binder rfl) fun binder none => reads_ahead_bind.2 ?_
  subst none
  exact takes_bind sum fun _ => reads_pure trivial

/-- A sum that starts with a lifetime. -/
theorem tyReread_lifetime {parts : List Part} (lifetime : isLifetime before = true)
    (sum : SumReread f false true before parts after) : TyReread f plus before (.shaped .traitObject parts) after := by
  refine tyReread_shaped fun held => ?_
  obtain ⟨starts, takes⟩ := sum.marked lifetime held
  refine tyTokens_of_takes rfl (sum.printable held) (fun none => absurd lifetime (by simp [none])) (fun _ rest => ?_)
    fun depth enough rest follows => takes_lifetimeTy (starts rest) (takes depth enough rest follows.alone)
  obtain ⟨name, us, same⟩ := exists_of_isLifetime (starts rest)
  rw [same]
  rfl

/-- A type that is kept as it stands. -/
theorem tyReread_verbatim {us : List Token} (starts : ∃ vs, us = .ident "dyn" :: vs) :
    TyReread f plus before (.shaped .verbatim [.embedded (.verbatim plus) (code us)]) after := by
  refine tyReread_shaped fun held => ?_
  have legible := (held_embedded.1 held).1
  rw [Part.written_code] at legible
  rw [Part.written_embedded, Part.written_code, Part.written_nil, List.append_nil]
  obtain ⟨vs, rfl⟩ := starts
  exact tyTokens_of_takes rfl legible.printable (fun _ _ => rfl) (fun _ _ => rfl) fun depth enough rest follows =>
    legible.reads depth enough rest follows.toEndsTy

/-! ## Functions -/

theorem startsFunctionTy_of_mem {w : String} (mem : w ∈ ["unsafe", "extern", "fn"]) (ts : List Token) :
    startsFunctionTy (.ident w :: ts) = true ∧ Parser.isWord "for" (.ident w :: ts) = false := by
  simp only [List.mem_cons, List.not_mem_nil, or_false] at mem
  rcases mem with rfl | rfl | rfl <;> exact ⟨rfl, rfl⟩

/-- Parameters that a type is made for, if the source has them. -/
def BinderReread (f : Bool → List Segment → Option NamePath) (before : List Token)
    (binder : List Part) : Prop :=
  (binder = [] ∧ Parser.isWord "for" before = false) ∨ (Parser.isWord "for" before = true ∧
    ∃ params trailing, binder = binderCode params trailing ∧ ∀ p ∈ params, ParamReread f p)

theorem BinderReread.isBinder {binder : List Part} (h : BinderReread f before binder) (held : Held f binder) :
    IsBinder f binder := by
  rcases h with ⟨none, -⟩ | ⟨-, params, trailing, same, each⟩
  · exact .inl none
  · exact .inr ⟨params, trailing, same, each, held⟩

theorem BinderReread.unbound {binder : List Part} (h : BinderReread f before binder) {ts : List Token}
    (single : Parser.isWord "for" before = false) (other : Parser.isWord "for" ts = false) :
    Parser.isWord "for" (Part.written f binder ++ ts) = false := by
  rcases h with ⟨rfl, -⟩ | ⟨word, -⟩
  · exact other
  · rw [single] at word
    cases word

theorem tyReread_function {binder : List Part} (bound : BinderReread f before binder) {parts : List Part}
    (function : Held f parts → FunctionTokens after (Part.written f parts)) :
    TyReread f plus before (.shaped .function (binder ++ parts)) after := by
  refine tyReread_shaped fun held => ?_
  rw [held_append] at held
  have binder := bound.isBinder held.1
  have function := function held.2
  obtain ⟨w, us, start, word⟩ := function.starts
  have starts (rest : List Token) := startsFunctionTy_of_mem word (us ++ rest)
  rw [Part.written_append]
  refine tyTokens_of_takes rfl (binder.printable.append function.printable) (fun _ rest => ?_)
    (fun single rest => ?_) fun depth enough rest follows => ?_
  · rw [List.append_assoc, start]
    exact binder.first _ (fun _ => rfl) rfl
  · rw [List.append_assoc, start]
    exact bound.unbound single (starts rest).2
  · have type := function.takes depth enough.right rest follows.alone
    rw [List.append_assoc]
    rw [start, List.cons_append] at type ⊢
    unfold tyRule
    refine reads_bind (binder.reads enough.left (starts rest).2) fun parts same => reads_ahead_bind.2 ?_
    have function := (starts rest).1
    refine reads_when_bind (fun _ => reads_guarded ?_) (fun _ => rfl) ?_
    · exact Bool.or_eq_true_iff.2 (.inr function)
    · rw [if_neg (by simp [isOpening]), if_pos function]
      exact takes_bind type fun _ => reads_pure trivial

end

end LiveSettings.Grammar
