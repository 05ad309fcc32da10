import LiveSettings.Proofs.Code.RereadPaths

/-!
# Parameters that are read again

Lifetimes with lifetimes as bounds, types with bounds, and constants with types, each with attributes and a default. What
the rules give for a list of them is read again if that holds of the types and bounds in it.

Results: `ensures_param`, `ParamReread.tokens`, `ensures_binder`.
-/

namespace LiveSettings.Grammar

open LiveSettings.Parser
open LiveSettings.Token (Printable Spelled printable_flatMap printable_ident printable_lifetime printable_listed
  printable_op)

variable {f : Bool → List Segment → Option NamePath}

/-! ## Attributes -/

theorem written_attrsCode (attrs : List Attr) : Part.written f (attrsCode attrs) = attrs.flatMap Attr.tokens := by
  induction attrs with
  | nil => rfl
  | cons a attrs ih =>
    rw [List.flatMap_cons, ← ih]
    exact congrArg (· ++ Part.written f (attrsCode attrs)) (Part.written_code a.tokens)

theorem held_attrsCode {attrs : List Attr} :
    Held f (attrsCode attrs) ↔ ∀ a ∈ attrs, LegibleCode .attribute a.tokens := by
  induction attrs with
  | nil => simp [attrsCode]
  | cons a attrs ih =>
    rw [List.forall_mem_cons, ← ih, ← Part.written_code (f := f) a.tokens]
    rfl

section

variable {attrs : List Attr} (legible : ∀ a ∈ attrs, LegibleCode .attribute a.tokens)

include legible

theorem printable_attrs : Printable (attrs.flatMap Attr.tokens) :=
  printable_flatMap fun a mem => (legible a mem).printable

/-- Attributes are read again. -/
theorem takes_attrs {depth : Nat} (enough : Enough depth (attrs.flatMap Attr.tokens)) {rest : List Token}
    (bare : isOp "#" rest = false) : (deep depth).outerAttrs.Takes (attrs.flatMap Attr.tokens ++ rest) rest := by
  refine (reads_many (S := fun _ _ => True) (fun _ => True) bare trivial (fun _ _ _ => rfl) (fun _ _ _ => trivial)
    (fun a mem r _ => (legible a mem).reads depth (enough.of_le ?_) r) fun _ _ => List.cons_ne_nil _ _).takes
  obtain ⟨before, after, rfl⟩ := List.append_of_mem mem
  simp only [List.flatMap_append, List.flatMap_cons, List.length_append]
  omega

end

/-! ## Parameters -/

/-- A parameter is read again. -/
inductive ParamReread (f : Bool → List Segment → Option NamePath) : Param → Prop
  | lifetime (attrs : List Attr) {name : String} (spelled : Spelled name) {bounds : List Part}
      (reread : LifetimesReread bounds) : ParamReread f (.lifetime attrs name bounds)
  | ty (attrs : List Attr) {name : String} (spelled : Spelled name) (plain : name ∉ keywords) {bounds : List Part}
      (reread : BoundsReread f bounds) {default : Option Ty}
      (type : ∀ t ∈ default, ∃ before after, TyReread f true before t after) :
      ParamReread f (.ty attrs name bounds default)
  | inferred (attrs : List Attr) : ParamReread f (.ty attrs "_" [] none)
  | const (attrs : List Attr) {name : String} (spelled : Spelled name) (plain : name ∉ keywords) {t : Ty}
      {before after : List Token} (type : TyReread f true before t after) {default : List Part}
      (value : default = [] ∨ ∃ ts, Held f default → ConstTokens ts (Part.written f default)) :
      ParamReread f (.const attrs name t default)

theorem ensures_boundsUpTo {g : Grammar} (rereads : Rereads f g) {stop : List Token → Bool} {ts : List Token} :
    (g.boundsUpTo stop).Ensures ts fun parts _ => BoundsReread f parts := by
  unfold boundsUpTo
  refine ensures_peek_bind.2 (ensures_ite (fun _ => ?_) fun _ => ensures_pure chained_nil)
  exact ensures_after fun _ us => ensures_bounds rereads

theorem ensures_param {g : Grammar} (rereads : Rereads f g) {ts : List Token} :
    g.param.Ensures ts fun p _ => ParamReread f p := by
  unfold param
  refine ensures_after fun attrs us => ?_
  unfold paramRest
  refine ensures_ahead_bind.2 (ensures_ite (fun _ => ?lifetime) fun _ =>
    ensures_ite (fun _ => ?ty) fun _ => ensures_ite (fun _ => ?const) fun _ => ensures_ite (fun inferred => ?_) fun _ =>
      ensures_failure)
  case lifetime =>
    refine ensures_bind ensures_lifetime fun name vs found => ensures_peek_bind.2 (ensures_ite (fun _ => ?_) fun _ => ?_)
    · exact ensures_after fun _ ws => ensures_bind ensures_lifetimes fun bounds xs reread =>
        ensures_pure (.lifetime attrs found.2 reread)
    · exact ensures_pure (.lifetime attrs found.2 chained_nil)
  case ty =>
    refine ensures_bind ensures_ident fun name vs found => ?_
    refine ensures_bind (ensures_boundsUpTo rereads) fun bounds ws reread => ensures_peek_bind.2 ?_
    refine ensures_ite (fun _ => ensures_after fun _ xs => ?_) fun _ => ?_
    · refine ensures_bind (rereads.ty true xs) fun t ys type => ensures_pure (.ty attrs found.2.1 found.2.2 reread ?_)
      exact fun u same => Option.mem_some.1 same ▸ ⟨xs, ys, type⟩
    · exact ensures_pure (.ty attrs found.2.1 found.2.2 reread fun _ none => nomatch none)
  case const =>
    refine ensures_after fun _ vs => ensures_bind ensures_ident fun name ws found => ensures_after fun _ xs => ?_
    refine ensures_bind (rereads.ty true xs) fun t ys type => ensures_peek_bind.2 (ensures_ite (fun _ => ?_) fun _ => ?_)
    · refine ensures_after fun _ zs => ensures_bind (ensures_constArgument (f := f)) fun default _ value => ?_
      exact ensures_pure (.const attrs found.2.1 found.2.2 type (.inr ⟨zs, value⟩))
    · exact ensures_pure (.const attrs found.2.1 found.2.2 type (.inl rfl))
  refine ensures_bind ensures_anyWord fun name vs found => ensures_pure ?_
  obtain ⟨rfl, -⟩ := found
  obtain rfl : name = "_" := beq_iff_eq.1 inferred
  exact .inferred attrs

/-! ## Reading parameters again -/

theorem written_boundCode (bounds : List Part) : Part.written f (paramCode.boundCode bounds) =
    if bounds.isEmpty then [] else Token.op ":" ++ Part.written f bounds := by
  unfold paramCode.boundCode
  split <;> rfl

theorem held_boundCode {bounds : List Part} : Held f (paramCode.boundCode bounds) ↔ Held f bounds := by
  unfold paramCode.boundCode
  split
  · rename_i empty
    rw [List.isEmpty_iff.1 empty]
  · exact held_token

theorem printable_boundCode {bounds : List Part} (printable : Printable (Part.written f bounds)) :
    Printable (Part.written f (paramCode.boundCode bounds)) := by
  rw [written_boundCode]
  split
  · exact Token.printable_nil
  · exact (printable_op (by decide)).append printable

/-- Bounds behind a colon are read again, if there are any. -/
theorem BoundsReread.takes_boundsUpTo {bounds : List Part} (reread : BoundsReread f bounds) (held : Held f bounds)
    {stop : List Token → Bool} (stops : ∀ r, startsBound r = true → stop r = false) {depth : Nat}
    (below : Below depth (Part.written f (paramCode.boundCode bounds))) {rest : List Token} (ended : stop rest = true)
    (ends : EndsTy true rest) (unbound : startsBound rest = false) (single : isOp ":" rest = false) :
    ((deep depth).boundsUpTo stop).Takes (Part.written f (paramCode.boundCode bounds) ++ rest) rest := by
  rw [written_boundCode] at below ⊢
  unfold boundsUpTo
  refine reads_peek_bind.2 ?_
  split
  · rw [List.nil_append, single]
    exact reads_pure trivial
  · rename_i some
    rw [if_neg some] at below
    rw [List.append_assoc]
    refine takes_discard_bind (reads_op ":" _).takes ?_
    exact reread.takes held stops below.right ended ends unbound

/-- The tokens are read as a parameter that is declared. -/
structure ParamTokens (depth : Nat) (ts : List Token) : Prop where
  some : ts ≠ []
  opens : ∀ rest, isOp ">" (ts ++ rest) = false
  takes : ∀ rest, endsArg rest = true → (deep depth).param.Takes (ts ++ rest) rest

theorem paramTokens_of_rest {attrs : List Attr} (legible : ∀ a ∈ attrs, LegibleCode .attribute a.tokens) {depth : Nat}
    {us : List Token} (below : Below depth (attrs.flatMap Attr.tokens ++ us)) (some : us ≠ [])
    (opens : ∀ rest, isOp ">" (us ++ rest) = false ∧ isOp "#" (us ++ rest) = false)
    (takes : ∀ rest, endsArg rest = true → ∀ attrs, ((deep depth).paramRest attrs).Takes (us ++ rest) rest) :
    ParamTokens depth (attrs.flatMap Attr.tokens ++ us) where
  some := List.append_ne_nil_of_right_ne_nil _ some
  opens rest := by
    cases attrs with
    | nil => exact (opens rest).1
    | cons a attrs => rfl
  takes rest ends := by
    have enough : Enough depth (attrs.flatMap Attr.tokens) := below.left.enough
    rw [List.append_assoc]
    unfold param
    exact takes_bind (takes_attrs legible enough (opens rest).2) fun attrs' => takes rest ends attrs'

theorem endsParam_of_endsArg {ts : List Token} (h : endsArg ts = true) : endsParam ts = true := by
  rw [endsParam, Bool.or_assoc]
  exact (congrArg _ h).trans (Bool.or_true _)

theorem paramTokens_lifetime {attrs : List Attr} (legible : ∀ a ∈ attrs, LegibleCode .attribute a.tokens) {depth : Nat}
    {name : String} {bounds : List Part} (reread : LifetimesReread bounds) (held : Held f bounds)
    (below : Below depth (attrs.flatMap Attr.tokens ++
      (Token.lifetime name ++ Part.written f (paramCode.boundCode bounds)))) :
    ParamTokens depth (attrs.flatMap Attr.tokens ++
      (Token.lifetime name ++ Part.written f (paramCode.boundCode bounds))) := by
  refine paramTokens_of_rest legible below nofun (fun _ => ⟨rfl, rfl⟩) fun rest ends attrs' => ?_
  obtain ⟨alone, -, single, -⟩ := endsTy_spec (endsArg_spec ends).1
  have stops (r : List Token) (lifetime : isLifetime r = true) : endsParam r = false := by
    obtain ⟨_, _, rfl⟩ := exists_of_isLifetime lifetime
    rfl
  rw [List.append_assoc]
  unfold paramRest
  refine reads_ahead_bind.2 (takes_bind (reads_lifetime name _).takes fun _ => reads_peek_bind.2 ?_)
  rw [written_boundCode]
  split
  · rw [List.nil_append, single]
    exact reads_pure trivial
  · rw [List.append_assoc]
    refine takes_discard_bind (reads_op ":" _).takes ?_
    exact takes_bind (reread.takes held stops (endsParam_of_endsArg ends) (alone.sum rfl)) fun _ => reads_pure trivial

/-- What is written of a default, if there is one. -/
def defaultTokens : Option (List Token) → List Token
  | none => []
  | some ts => Token.op "=" ++ ts

theorem paramTokens_ty {attrs : List Attr} (legible : ∀ a ∈ attrs, LegibleCode .attribute a.tokens) {depth : Nat}
    {name : String} (plain : name ∉ keywords) {bounds : List Part} (reread : BoundsReread f bounds)
    (held : Held f bounds) {default : Option (List Token)}
    (type : ∀ us ∈ default, ∃ before after t, TyTokens true before after t us)
    (below : Below depth (attrs.flatMap Attr.tokens ++
      ([.ident name] ++ (Part.written f (paramCode.boundCode bounds) ++ defaultTokens default)))) :
    ParamTokens depth (attrs.flatMap Attr.tokens ++
      ([.ident name] ++ (Part.written f (paramCode.boundCode bounds) ++ defaultTokens default))) := by
  refine paramTokens_of_rest legible below nofun (fun _ => ⟨rfl, rfl⟩) fun rest ends attrs' => ?_
  have follows : endsTy rest = true := (endsArg_spec ends).1
  have stops (r : List Token) (bound : startsBound r = true) : (endsParam r || isOp "=" r) = false := by
    have starts := startsBound_spec bound
    rw [endsParam, starts.opens, starts.comma, starts.closing, starts.equals]
    rfl
  have word (us : List Token) : isIdent (.ident name :: us) = true := by simpa [isIdent] using plain
  have inner : Below depth (Part.written f (paramCode.boundCode bounds)) := below.right.right.left
  rw [List.append_assoc, List.append_assoc]
  unfold paramRest
  refine reads_ahead_bind.2 ?_
  rw [List.singleton_append, word]
  refine takes_bind (reads_ident plain _).takes fun _ => ?_
  cases default with
  | none =>
    obtain ⟨alone, equals, single, unbound⟩ := endsTy_spec follows
    have ended : (endsParam rest || isOp "=" rest) = true := by rw [endsParam_of_endsArg ends, Bool.true_or]
    refine takes_bind (reread.takes_boundsUpTo held stops inner ended alone unbound single) fun _ => ?_
    refine reads_peek_bind.2 ?_
    rw [show defaultTokens none ++ rest = rest from rfl, equals]
    exact reads_pure trivial
  | some us =>
    obtain ⟨before, after, t, type⟩ := type us rfl
    have field : Below depth us := below.right.right.right.right
    have equals (us : List Token) : EndsTy true (Token.op "=" ++ us) := ⟨⟨rfl, rfl⟩, rfl, rfl, rfl, fun _ => rfl⟩
    rw [defaultTokens, List.append_assoc]
    refine takes_bind (reread.takes_boundsUpTo held stops inner (Bool.or_true _) (equals _) rfl rfl) fun _ => ?_
    refine reads_peek_bind.2 (takes_discard_bind (reads_op "=" _).takes ?_)
    exact takes_bind (type.reads_field field (follows_of_endsTy follows)).takes fun _ => reads_pure trivial

theorem paramTokens_inferred {attrs : List Attr} (legible : ∀ a ∈ attrs, LegibleCode .attribute a.tokens) {depth : Nat}
    (below : Below depth (attrs.flatMap Attr.tokens ++ [.ident "_"])) :
    ParamTokens depth (attrs.flatMap Attr.tokens ++ [.ident "_"]) := by
  refine paramTokens_of_rest legible below nofun (fun _ => ⟨rfl, rfl⟩) fun rest ends attrs' => ?_
  unfold paramRest
  exact reads_ahead_bind.2 (takes_bind (reads_anyWord "_" rest).takes fun _ => reads_pure trivial)

theorem paramTokens_const {attrs : List Attr} (legible : ∀ a ∈ attrs, LegibleCode .attribute a.tokens) {depth : Nat}
    {name : String} (plain : name ∉ keywords) {t : Ty} {before after us : List Token}
    (type : TyTokens true before after t us) {default : Option (List Token)}
    (value : ∀ vs ∈ default, ∃ ts, ConstTokens ts vs)
    (below : Below depth (attrs.flatMap Attr.tokens ++
      ([.ident "const", .ident name] ++ (Token.op ":" ++ (us ++ defaultTokens default))))) :
    ParamTokens depth (attrs.flatMap Attr.tokens ++
      ([.ident "const", .ident name] ++ (Token.op ":" ++ (us ++ defaultTokens default)))) := by
  refine paramTokens_of_rest legible below nofun (fun _ => ⟨rfl, rfl⟩) fun rest ends attrs' => ?_
  have follows : endsTy rest = true := (endsArg_spec ends).1
  have field : Below depth us := below.right.right.right.left
  rw [List.append_assoc, List.append_assoc, List.append_assoc]
  unfold paramRest
  refine reads_ahead_bind.2 ?_
  show Parser.Takes (do
    discard anyWord
    let name ← Parser.ident
    discard (op ":")
    let type ← (deep depth).fullTy
    if ← peek (isOp "=") then
      discard (op "=")
      return .const attrs' name type (← (deep depth).constArgument)
    return .const attrs' name type [] : Parser Param) _ _
  refine takes_discard_bind (reads_anyWord "const" _).takes ?_
  refine takes_bind (reads_ident plain _).takes fun _ => takes_discard_bind (reads_op ":" _).takes ?_
  cases default with
  | none =>
    refine takes_bind (type.reads_field field (follows_of_endsTy follows)).takes fun _ => reads_peek_bind.2 ?_
    rw [(endsTy_spec follows).2.1]
    exact reads_pure trivial
  | some vs =>
    obtain ⟨ts, value⟩ := value vs rfl
    have equals : Follows true after (Token.op "=" ++ (vs ++ rest)) :=
      ⟨⟨⟨rfl, rfl⟩, rfl, rfl, rfl, fun _ => rfl⟩, nofun, nofun⟩
    have inner : Below depth vs := below.right.right.right.right.right
    rw [defaultTokens, List.append_assoc]
    refine takes_bind (type.reads_field field equals).takes fun _ => reads_peek_bind.2 ?_
    refine takes_discard_bind (reads_op "=" _).takes ?_
    exact takes_bind (value.reads depth inner.enough rest) fun _ => reads_pure trivial

theorem printable_default {default : Option (List Token)} (h : ∀ us ∈ default, Printable us) :
    Printable (defaultTokens default) := by
  cases default with
  | none => exact Token.printable_nil
  | some us => exact (printable_op (by decide)).append (h us rfl)

/-- The parameter can be written, and is read again by rules of which those below are deep enough. -/
def ParamRead (f : Bool → List Segment → Option NamePath) (p : Param) : Prop :=
  Printable (Part.written f (paramCode p)) ∧
    ∀ depth, Below depth (Part.written f (paramCode p)) → ParamTokens depth (Part.written f (paramCode p))

theorem paramRead_ty {attrs : List Attr} {name : String} (spelled : Spelled name) (plain : name ∉ keywords)
    {bounds : List Part} (reread : BoundsReread f bounds) {default : Option Ty}
    (type : ∀ t ∈ default, ∃ before after, TyReread f true before t after)
    (held : Held f (paramCode (.ty attrs name bounds default))) : ParamRead f (.ty attrs name bounds default) := by
  have tokens : Part.written f (paramCode (.ty attrs name bounds default)) = attrs.flatMap Attr.tokens ++
      ([.ident name] ++ (Part.written f (paramCode.boundCode bounds) ++
        defaultTokens (default.map fun t => (t.mapHeads f).tokens))) := by
    cases default <;> simp [paramCode, Part.written_append, written_attrsCode, defaultTokens, Token.op, Token.marks]
  simp only [paramCode, held_append, held_attrsCode, held_code, and_true, held_boundCode] at held
  obtain ⟨⟨legible, held⟩, given⟩ := held
  have type : ∀ us ∈ default.map fun t => (t.mapHeads f).tokens, ∃ before after t, TyTokens true before after t us := by
    cases default with
    | none => exact fun us mem => absurd mem (Option.not_mem_none us)
    | some t =>
      obtain ⟨before, after, type⟩ := type t rfl
      exact fun us same => Option.mem_some.1 same ▸ ⟨before, after, t, type.tokens (held_ty.1 (held_token.1 given)).1⟩
  have printable : Printable (defaultTokens (default.map fun t => (t.mapHeads f).tokens)) := by
    refine printable_default fun us mem => ?_
    obtain ⟨_, _, _, type⟩ := type us mem
    exact type.printable
  rw [ParamRead, tokens]
  refine ⟨(printable_attrs legible).append ((printable_ident spelled).append
    ((printable_boundCode (reread.printable held)).append printable)), fun depth below => ?_⟩
  exact paramTokens_ty legible plain reread held type below

theorem paramRead_const {attrs : List Attr} {name : String} (spelled : Spelled name) (plain : name ∉ keywords)
    {t : Ty} {before after : List Token} (type : TyReread f true before t after) {default : List Part}
    (value : default = [] ∨ ∃ ts, Held f default → ConstTokens ts (Part.written f default))
    (held : Held f (paramCode (.const attrs name t default))) : ParamRead f (.const attrs name t default) := by
  have tokens : Part.written f (paramCode (.const attrs name t default)) = attrs.flatMap Attr.tokens ++
      ([.ident "const", .ident name] ++ (Token.op ":" ++ ((t.mapHeads f).tokens ++
        defaultTokens (if default.isEmpty then none else some (Part.written f default))))) := by
    rw [paramCode]
    split <;> simp [Part.written_append, written_attrsCode, defaultTokens, Token.op, Token.marks]
  have held : (∀ a ∈ attrs, LegibleCode .attribute a.tokens) ∧ t.Legible f ∧ Held f default := by
    rw [paramCode] at held
    split at held
    · rename_i empty
      simp only [held_append, held_attrsCode, held_code, held_ty] at held
      exact ⟨held.1.1.1, held.1.2.1, by rw [List.isEmpty_iff.1 empty]; exact held_nil⟩
    · simp only [held_append, held_attrsCode, held_code, held_ty, held_token] at held
      exact ⟨held.1.1.1, held.1.2.1, held.2⟩
  obtain ⟨legible, given, held⟩ := held
  have value : ∀ vs ∈ if default.isEmpty then none else some (Part.written f default), ∃ ts, ConstTokens ts vs := by
    intro vs mem
    split at mem
    · cases mem
    · rename_i some
      obtain ⟨ts, value⟩ := value.resolve_left fun empty => some (by rw [empty]; rfl)
      exact Option.mem_some.1 mem ▸ ⟨ts, value held⟩
  have printable : Printable (defaultTokens (if default.isEmpty then none else some (Part.written f default))) := by
    refine printable_default fun us mem => ?_
    obtain ⟨_, value⟩ := value us mem
    exact value.printable
  have type := type.tokens given
  have named : Printable [.ident "const", .ident name] :=
    (printable_ident (by decide : Spelled "const")).append (printable_ident spelled)
  rw [ParamRead, tokens]
  refine ⟨(printable_attrs legible).append (named.append
    ((printable_op (by decide)).append (type.printable.append printable))), fun depth below => ?_⟩
  exact paramTokens_const legible plain type value below

/-- What is read again of a parameter can be written and is read from its tokens. -/
theorem ParamReread.tokens {p : Param} (h : ParamReread f p) (held : Held f (paramCode p)) : ParamRead f p := by
  cases h with
  | @lifetime attrs name spelled bounds reread =>
    simp only [paramCode, held_append, held_attrsCode, held_code, and_true, held_boundCode] at held
    obtain ⟨legible, held⟩ := held
    have tokens : Part.written f (paramCode (.lifetime attrs name bounds)) = attrs.flatMap Attr.tokens ++
        (Token.lifetime name ++ Part.written f (paramCode.boundCode bounds)) := by
      rw [paramCode, Part.written_append, Part.written_append, written_attrsCode, Part.written_code, List.append_assoc]
    rw [ParamRead, tokens]
    refine ⟨(printable_attrs legible).append ((printable_lifetime spelled).append
      (printable_boundCode (reread.printable held))), fun depth below => ?_⟩
    exact paramTokens_lifetime legible reread held below
  | ty attrs spelled plain reread type => exact paramRead_ty spelled plain reread type held
  | inferred attrs =>
    have tokens : Part.written f (paramCode (.ty attrs "_" [] none)) = attrs.flatMap Attr.tokens ++ [.ident "_"] := by
      simp [paramCode, Part.written_append, written_attrsCode, paramCode.boundCode]
    simp only [paramCode, held_append, held_attrsCode] at held
    rw [ParamRead, tokens]
    exact ⟨(printable_attrs held.1.1.1).append (printable_ident (by decide)), fun depth below =>
      paramTokens_inferred held.1.1.1 below⟩
  | const attrs spelled plain type value => exact paramRead_const spelled plain type value held

/-! ## Binders -/

/-- The code of the parameters that a bound is made for. -/
def binderCode (params : List Param) (trailing : Bool) : List Part :=
  code [.ident "for"] ++ code [.mark '<' false] ++ joinCode "," (params.map paramCode) trailing ++ code [.mark '>' false]

theorem ensures_binder {g : Grammar} (rereads : Rereads f g) {ts : List Token} : g.binder.Ensures ts fun parts us =>
    (parts = [] ∧ us = ts ∧ Parser.isWord "for" ts = false) ∨ (Parser.isWord "for" ts = true ∧
      ∃ params trailing, parts = binderCode params trailing ∧ ∀ p ∈ params, ParamReread f p) := by
  unfold binder
  refine ensures_peek_bind.2 (ensures_ite (fun here => ?_) fun none => ensures_pure (.inl ⟨rfl, rfl, none⟩))
  refine ensures_bind ensures_word fun start us found => ensures_after fun _ vs => ?_
  refine ensures_bind (ensures_separated fun us _ => ensures_param rereads) fun r ws listing => ?_
  obtain ⟨rfl, -⟩ := found
  exact ensures_after fun _ xs => ensures_pure (.inr ⟨here, r.1, r.2, rfl, listing.forall fun _ _ _ reread => reread⟩)

theorem written_binderCode (params : List Param) (trailing : Bool) : Part.written f (binderCode params trailing) =
    [.ident "for"] ++ (Token.op "<" ++ (listed "," trailing (params.map fun p => Part.written f (paramCode p)) ++
      [.mark '>' false])) := by
  rw [binderCode, Part.written_append, Part.written_append, Part.written_append, Part.written_joinCode, List.map_map]
  simp only [Part.written_code, List.append_assoc]
  rfl

theorem held_binderCode {params : List Param} {trailing : Bool} :
    Held f (binderCode params trailing) ↔ ∀ p ∈ params, Held f (paramCode p) := by
  simp only [binderCode, held_append, held_code, held_joinCode, List.forall_mem_map, true_and, and_true]

/-- Parameters between angle brackets are read again. -/
theorem takes_params {depth : Nat} {tss : List (List Token)} (each : ∀ ts ∈ tss, ParamTokens depth ts) (trailing : Bool)
    (rest : List Token) : (separated closesArgs "," (deep depth).param).Takes
      (listed "," trailing tss ++ .mark '>' false :: rest) (.mark '>' false :: rest) :=
  takes_separated (fun ts => endsArg ts = true) trailing rfl rfl (fun _ => ⟨rfl, rfl⟩)
    (fun ts mem r _ => (each ts mem).opens r) (fun ts mem => (each ts mem).takes) fun ts mem => (each ts mem).some

section

variable {params : List Param} {trailing : Bool} (each : ∀ p ∈ params, ParamReread f p)
  (held : Held f (binderCode params trailing))

include each held

theorem printable_binder : Printable (Part.written f (binderCode params trailing)) := by
  rw [written_binderCode]
  exact (printable_ident (by decide)).append (Token.printable_brackets trailing
    (List.forall_mem_map.2 fun p mem => ((each p mem).tokens (held_binderCode.1 held p mem)).1))

theorem reads_binderCode {depth : Nat} (enough : Enough depth (Part.written f (binderCode params trailing)))
    (rest : List Token) : (deep depth).binder.Reads (Part.written f (binderCode params trailing) ++ rest) rest
      fun parts => parts.isEmpty = false ∧ isTrait parts = true := by
  rw [written_binderCode] at enough ⊢
  have tokens : ∀ ts ∈ params.map fun p => Part.written f (paramCode p), ParamTokens depth ts := by
    refine List.forall_mem_map.2 fun p mem => ((each p mem).tokens (held_binderCode.1 held p mem)).2 depth
      (enough.below ?_)
    have shorter := length_le_listed "," trailing (List.mem_map_of_mem (f := fun p => Part.written f (paramCode p)) mem)
    simp only [List.length_append, List.length_cons]
    omega
  have split : [Token.ident "for"] ++ (Token.op "<" ++ (listed "," trailing
      (params.map fun p => Part.written f (paramCode p)) ++ [.mark '>' false])) ++ rest = .ident "for" ::
        (Token.op "<" ++ (listed "," trailing (params.map fun p => Part.written f (paramCode p)) ++
          .mark '>' false :: rest)) := by simp
  rw [split]
  unfold binder
  refine reads_peek_bind.2 (reads_bind (reads_word "for" _) fun start same => ?_)
  subst same
  refine takes_discard_bind (reads_op "<" _).takes (takes_bind (takes_params tokens trailing rest) fun r => ?_)
  exact takes_discard_bind (reads_op ">" rest).takes (reads_pure ⟨rfl, rfl⟩)

end

end LiveSettings.Grammar
