import LiveSettings.Proofs.Code.ReadItems
import LiveSettings.Proofs.Code.RereadTypes
import LiveSettings.Proofs.Target.Qualifying

/-!
# Heads that are read again

The parameters and conditions of a type are written in front of an implementation and behind its name: the parameters
as they are declared, without defaults, then as arguments, then the conditions. No name in them is replaced.

Results:
* `ensures_generics`, `ensures_clause`: what the rules give is read again.
* `isHead_of_reread`: so is the head of an implementation.
-/

namespace LiveSettings

open LiveSettings.Parser
open LiveSettings.Token (Printable Spelled printable_brackets printable_ident printable_lifetime printable_listed
  printable_nil printable_op)

namespace Grammar

variable {f : Bool → List Segment → Option NamePath}

/-! ## Conditions -/

/-- A condition of a clause is read again. -/
inductive PredicateReread (f : Bool → List Segment → Option NamePath) : List Part → Prop
  | lifetime {name : String} (spelled : Spelled name) {bounds : List Part} (reread : LifetimesReread bounds) :
      PredicateReread f (code (Token.lifetime name) ++ code (Token.op ":") ++ bounds)
  | ty {binder : List Part} {before after : List Token} {t : Ty} (type : TyReread f true before t after)
      (bound : (binder = [] ∧ Parser.isWord "for" before = false) ∨
        ∃ params trailing, binder = binderCode params trailing ∧ ∀ p ∈ params, ParamReread f p)
      {bounds : List Part} (reread : BoundsReread f bounds) :
      PredicateReread f (binder ++ [.ty t] ++ code (Token.op ":") ++ bounds)

theorem ensures_predicate {g : Grammar} (rereads : Rereads f g) {ts : List Token} :
    g.predicate.Ensures ts fun parts _ => PredicateReread f parts := by
  unfold predicate
  refine ensures_peek_bind.2 (ensures_ite (fun _ => ?_) fun _ => ?_)
  · refine ensures_bind ensures_lifetimeCode fun name us found => ensures_bind ensures_op fun colon vs mark =>
      ensures_bind ensures_lifetimes fun bounds ws reread => ensures_pure ?_
    obtain ⟨name, rfl, -, spelled⟩ := found
    rw [mark.2.1]
    exact .lifetime spelled reread
  · refine ensures_bind (ensures_binder rereads) fun binder us bound => ensures_bind (ensures_tyCode rereads)
      fun parts vs found => ensures_bind ensures_op fun colon ws mark => ensures_bind (ensures_bounds rereads)
        fun bounds xs reread => ensures_pure ?_
    obtain ⟨t, rfl, type⟩ := found
    rw [mark.2.1]
    refine .ty type ?_ reread
    rcases bound with ⟨none, rfl, single⟩ | ⟨-, given⟩
    · exact .inl ⟨none, single⟩
    · exact .inr given

/-- The tokens are read as a condition. -/
structure PredicateTokens (ts : List Token) : Prop where
  printable : Printable ts
  some : ts ≠ []
  starts : ∀ rest, clause.stops (ts ++ rest) = false
  takes : ∀ depth, Below depth ts → ∀ rest, endsTy rest = true → predicate.endsPredicate rest = true →
    (deep depth).predicate.Takes (ts ++ rest) rest

theorem predicateTokens_lifetime {name : String} (spelled : Spelled name) {bounds : List Part}
    (reread : LifetimesReread bounds) (held : Held f bounds) :
    PredicateTokens (Token.lifetime name ++ (Token.op ":" ++ Part.written f bounds)) where
  printable := (printable_lifetime spelled).append ((printable_op (by decide)).append (reread.printable held))
  some := List.cons_ne_nil _ _
  starts _ := rfl
  takes depth _ rest ends last := by
    have stops (r : List Token) (lifetime : isLifetime r = true) : (predicate.endsPredicate r || isOp ":" r) = false := by
      obtain ⟨_, _, rfl⟩ := exists_of_isLifetime lifetime
      rfl
    have ended : (predicate.endsPredicate rest || isOp ":" rest) = true := by rw [last, Bool.true_or]
    rw [List.append_assoc, List.append_assoc]
    unfold predicate
    refine reads_peek_bind.2 ?_
    refine takes_bind (takes_bind (reads_lifetime name _).takes fun _ => reads_pure trivial) fun _ => ?_
    refine takes_bind (reads_op ":" _).takes fun _ => ?_
    exact takes_bind (reread.takes held stops ended ((endsTy_spec ends).1.sum rfl)) fun _ => reads_pure trivial

/-- Nothing that is read as a type is a lifetime in front of a colon. -/
theorem StartsTy.not_lifetime_colon {ts : List Token} (h : StartsTy ts) :
    (isLifetime ts && second (isOp ":") ts) = false := by
  refine Bool.eq_false_iff.2 fun here => ?_
  obtain ⟨lifetime, colon⟩ := Bool.and_eq_true_iff.1 here
  obtain ⟨_, us, sum⟩ := exists_mark_of_startsOp '+' [] (h.sum lifetime)
  rw [second, sum] at colon
  cases colon

theorem predicateTokens_ty {binder : List Part} {before after : List Token} {t : Ty} (type : TyReread f true before t after)
    (bound : (binder = [] ∧ Parser.isWord "for" before = false) ∨
      ∃ params trailing, binder = binderCode params trailing ∧ ∀ p ∈ params, ParamReread f p)
    {bounds : List Part} (reread : BoundsReread f bounds) (heldBinder : Held f binder) (legible : t.Legible f)
    (held : Held f bounds) : PredicateTokens (Part.written f binder ++ ((t.mapHeads f).tokens ++
      (Token.op ":" ++ Part.written f bounds))) := by
  have type := type.tokens legible
  have colon (us : List Token) : Follows true after (Token.op ":" ++ us) :=
    ⟨⟨⟨rfl, rfl⟩, rfl, rfl, rfl, fun _ => rfl⟩, nofun, nofun⟩
  have isBinder : IsBinder f binder := by
    obtain ⟨none, -⟩ | ⟨params, trailing, same, each⟩ := bound
    · exact .inl none
    · exact .inr ⟨params, trailing, same, each, heldBinder⟩
  have starts (us : List Token) := type.starts (colon us)
  refine ⟨isBinder.printable.append (type.printable.append ((printable_op (by decide)).append (reread.printable held))),
    fun empty => ?_, fun rest => ?_, fun depth below rest ends last => ?_⟩
  · exact type.some (List.append_eq_nil_iff.1 (List.append_eq_nil_iff.1 empty).2).1
  · simp only [List.append_assoc]
    exact isBinder.first _ (fun _ => rfl) (starts _).condition
  · obtain ⟨ends, -, single, unbound⟩ := endsTy_spec ends
    have first (us : List Token) : (isLifetime (Part.written f binder ++ ((t.mapHeads f).tokens ++ (Token.op ":" ++ us))) &&
        second (isOp ":") (Part.written f binder ++ ((t.mapHeads f).tokens ++ (Token.op ":" ++ us)))) = false :=
      isBinder.first (fun ts => isLifetime ts && second (isOp ":") ts) (fun _ => rfl) (starts us).not_lifetime_colon
    have inBinder : Enough depth (Part.written f binder) := below.left.enough
    have params (us : List Token) : (deep depth).binder.Takes (Part.written f binder ++ ((t.mapHeads f).tokens ++
        (Token.op ":" ++ us))) ((t.mapHeads f).tokens ++ (Token.op ":" ++ us)) := by
      rcases bound with ⟨rfl, single⟩ | ⟨params, trailing, rfl, each⟩
      · exact (reads_binder (type.unbound single _)).takes
      · exact (reads_binderCode each heldBinder inBinder _).takes
    have stops (r : List Token) (bound : startsBound r = true) :
        (predicate.endsPredicate r || isOp ":" r && !isOp "::" r) = false := by
      have starts := startsBound_spec bound
      rw [predicate.endsPredicate, starts.opens, starts.brace, starts.comma, starts.semicolon, starts.equals, starts.colon]
      rfl
    have ended : (predicate.endsPredicate rest || isOp ":" rest && !isOp "::" rest) = true := by rw [last, Bool.true_or]
    simp only [List.append_assoc]
    unfold predicate
    refine reads_peek_bind.2 ?_
    rw [first]
    refine takes_bind (params _) fun _ => ?_
    refine takes_bind (type.takes_tyCode rfl below.right.left (colon _)) fun _ => ?_
    refine takes_bind (reads_op ":" _).takes fun _ => ?_
    exact takes_bind (reread.takes held stops below.right.right.right ended ends unbound) fun _ => reads_pure trivial

/-- What is read again of a condition. -/
theorem PredicateReread.tokens {parts : List Part} (h : PredicateReread f parts) (held : Held f parts) :
    PredicateTokens (Part.written f parts) := by
  cases h with
  | @lifetime name spelled bounds reread =>
    simp only [held_append, held_code, true_and] at held
    simp only [Part.written_append, Part.written_code, List.append_assoc]
    exact predicateTokens_lifetime spelled reread held
  | @ty binder before after t type bound bounds reread =>
    simp only [held_append, held_code, held_ty, held_nil, and_true] at held
    simp only [Part.written_append, Part.written_code, Part.written_ty, Part.written_nil, List.append_nil, List.append_assoc]
    exact predicateTokens_ty type bound reread held.1.1 held.1.2 held.2

/-! ## Clauses -/

/-- A clause is read again; of one without conditions nothing is written. -/
def ClauseReread (f : Bool → List Segment → Option NamePath) (parts : List Part) : Prop :=
  parts = [] ∨ ∃ members trailing, parts = code [.ident "where"] ++ joinCode "," members trailing ∧
    ∀ ps ∈ members, PredicateReread f ps

theorem ensures_clause {g : Grammar} (rereads : Rereads f g) {ts : List Token} :
    g.clause.Ensures ts fun parts _ => ClauseReread f parts := by
  unfold clause
  refine ensures_peek_bind.2 (ensures_ite (fun _ => ?_) fun _ => ensures_pure (.inl rfl))
  refine ensures_bind ensures_word fun start us found => ?_
  refine ensures_bind (ensures_chainedCode fun us _ => ensures_predicate rereads) fun parts vs given => ensures_pure ?_
  obtain ⟨members, trailing, rfl, listing⟩ := given
  split
  · exact .inl rfl
  · exact .inr ⟨members, trailing, by rw [found.1], listing.forall fun _ _ _ reread => reread⟩

/-- The tokens are read as the clause in front of a body. -/
structure ClauseTokens (ts : List Token) : Prop where
  printable : Printable ts
  ends : ∀ rest, isOpening .brace rest = true → EndsTy true (ts ++ rest)
  bare : ∀ rest, isOpening .brace rest = true → Parser.isWord "for" (ts ++ rest) = false
  takes : ∀ depth, Below depth ts → ∀ rest, isOpening .brace rest = true → (deep depth).clause.Takes (ts ++ rest) rest

/-- What is read again of a clause. -/
theorem ClauseReread.tokens {parts : List Part} (h : ClauseReread f parts) (held : Held f parts) :
    ClauseTokens (Part.written f parts) := by
  rcases h with rfl | ⟨members, trailing, rfl, each⟩
  · refine ⟨printable_nil, fun rest brace => ?_, fun rest brace => ?_, fun depth _ rest brace => ?_⟩
    all_goals obtain ⟨us, rfl⟩ := exists_of_isOpening brace
    · exact (endsTy_spec rfl).1
    · rfl
    · exact reads_peek_bind.2 (reads_pure trivial)
  · simp only [held_append, held_code, held_joinCode, true_and] at held
    have member : ∀ ts ∈ members.map (Part.written f), PredicateTokens ts :=
      List.forall_mem_map.2 fun ps mem => (each ps mem).tokens (held ps mem)
    rw [Part.written_append, Part.written_code, Part.written_joinCode]
    refine ⟨(printable_ident (by decide)).append (printable_listed (printable_op (by decide)) trailing fun ts mem =>
      (member ts mem).printable), fun rest _ => endsTy_word true "where" _, fun rest _ => rfl,
      fun depth below rest brace => ?_⟩
    obtain ⟨us, rfl⟩ := exists_of_isOpening brace
    rw [List.append_assoc]
    unfold clause
    refine reads_peek_bind.2 (takes_bind (reads_word "where" _).takes fun _ => ?_)
    refine takes_bind (takes_chainedCode (fun ts => endsTy ts = true ∧ predicate.endsPredicate ts = true) trailing rfl rfl
      ⟨rfl, rfl⟩ (fun _ => ⟨rfl, rfl⟩) (fun ts mem r _ => (member ts mem).starts r) (fun ts mem r ends => ?_)
        fun ts mem => (member ts mem).some) fun _ => reads_pure trivial
    have shorter := length_le_listed "," trailing mem
    exact (member ts mem).takes depth (below.of_le (by simp only [List.length_append]; omega)) r ends.1 ends.2

/-! ## Parameters -/

theorem ensures_generics {g : Grammar} (rereads : Rereads f g) {ts : List Token} :
    g.generics.Ensures ts fun ps _ => ∀ p ∈ ps.params, ParamReread f p := by
  unfold generics
  refine ensures_peek_bind.2 (ensures_ite (fun _ => ?_) fun _ => ensures_pure nofun)
  refine ensures_after fun _ us => ensures_bind (ensures_separated fun us _ => ensures_param rereads) fun r vs listing => ?_
  exact ensures_after fun _ ws => ensures_pure (listing.forall fun _ _ _ reread => reread)

/-- No name is replaced. -/
def unchanged : Bool → List Segment → Option NamePath := fun _ _ => none

theorem written_unchanged (parts : List Part) : Part.written unchanged parts = Part.tokens parts := by
  have same : partsMapHeads unchanged parts = parts := partsMapHeads_of_none (fun _ _ => rfl) parts
  rw [Part.written, same]
  rfl

end Grammar

namespace Param

open LiveSettings.Grammar

/-- A parameter without its default. -/
def bare : Param → Param
  | .ty attrs name bounds _ => .ty attrs name bounds none
  | .const attrs name type _ => .const attrs name type []
  | p => p

theorem declaration_eq (p : Param) : p.declaration = Part.written unchanged (paramCode p.bare) := by
  have bound (bounds : List Part) : boundTokens bounds = Part.written unchanged (paramCode.boundCode bounds) := by
    rw [written_boundCode, written_unchanged]
    rfl
  cases p with
  | lifetime attrs name bounds =>
    simp only [bare, paramCode, Part.written_append, written_attrsCode, Part.written_code, ← bound]
    rfl
  | ty attrs name bounds default =>
    simp only [bare, paramCode, Part.written_append, written_attrsCode, Part.written_code, Part.written_nil, ← bound]
    exact (List.append_nil _).symm
  | const attrs name type default =>
    simp only [bare, paramCode, Part.written_append, written_attrsCode, Part.written_code, List.isEmpty_nil, if_true,
      List.append_nil, written_unchanged, Part.tokens, partTokens, Part.flatten]
    rfl

end Param

/-- Code in the parameters, but for their defaults, and in the conditions is legible if it is none of types. -/
structure Generics.Legible (g : Generics) : Prop where
  params : ∀ p ∈ g.params, Grammar.Held Grammar.unchanged (Grammar.paramCode p.bare)
  clause : Grammar.Held Grammar.unchanged g.clause

namespace Grammar

variable {f : Bool → List Segment → Option NamePath}

theorem ParamReread.bare {p : Param} (h : ParamReread f p) : ParamReread f p.bare := by
  cases h with
  | lifetime attrs spelled reread => exact .lifetime attrs spelled reread
  | ty attrs spelled plain reread _ => exact .ty attrs spelled plain reread nofun
  | inferred attrs => exact .inferred attrs
  | const attrs spelled plain type _ => exact .const attrs spelled plain type (.inl rfl)

/-- Attributes in front of a first parameter tell it from a path. -/
theorem startsGenerics_attr (a : Attr) (ts : List Token) :
    startsGenerics (.mark '<' false :: (a.tokens ++ ts)) = true := rfl

/-- So does the word in front of a constant. -/
theorem startsGenerics_const (ts : List Token) : startsGenerics (.mark '<' false :: .ident "const" :: ts) = true := by
  have word : second (Parser.isWord "const") (.mark '<' false :: .ident "const" :: ts) = true := rfl
  rw [startsGenerics, word, Bool.or_true]
  rfl

/-- What follows the name of a first parameter tells parameters from a path. -/
theorem startsGenerics_cons {ts rest : List Token} (name : isLifetime ts = true ∨ isIdent ts = true)
    (behind : skip ts = rest)
    (ends : endsArg rest = true ∨ isOp ":" rest = true ∧ isOp "::" rest = false) :
    startsGenerics (.mark '<' false :: ts) = true := by
  have first (look : List Token → Bool) : second look (.mark '<' false :: ts) = look ts := rfl
  have next (look : List Token → Bool) : third look (.mark '<' false :: ts) = look rest := congrArg look behind
  have opens : isOp "<" (.mark '<' false :: ts) = true := rfl
  have follows : (isOp ">" rest || isOp "," rest || (isOp ":" rest && !isOp "::" rest) || isOp "=" rest) = true := by
    rcases ends with ends | ⟨colon, single⟩
    · rcases Bool.or_eq_true_iff.1 ends with comma | closing
      · simp [comma]
      · simp [closing]
    · simp [colon, single]
  unfold startsGenerics
  rw [opens, first, first, first, first, first, next, next, next, next, next, follows]
  rcases name with lifetime | identifier
  · simp [lifetime]
  · simp [identifier]

/-- A first parameter that has a name is told from a path. -/
theorem ParamReread.startsGenerics {p : Param} (h : ParamReread f p) (named : p.typeName? ≠ some "_") {rest : List Token}
    (ends : endsArg rest = true) : Grammar.startsGenerics (.mark '<' false :: (p.declaration ++ rest)) = true := by
  -- what stands behind the name: its bounds, or what ends the parameter
  have behind (bounds : List Part) : endsArg (Param.boundTokens bounds ++ rest) = true ∨
      isOp ":" (Param.boundTokens bounds ++ rest) = true ∧ isOp "::" (Param.boundTokens bounds ++ rest) = false := by
    unfold Param.boundTokens
    split
    · exact .inl ends
    · exact .inr ⟨rfl, rfl⟩
  have first {attrs : List Attr} {us : List Token} (bare : Grammar.startsGenerics (.mark '<' false :: us) = true) :
      Grammar.startsGenerics (.mark '<' false :: (Param.attrTokens attrs ++ us)) = true := by
    cases attrs with
    | nil => exact bare
    | cons a attrs =>
      rw [Param.attrTokens, List.flatMap_cons, List.append_assoc]
      exact startsGenerics_attr a _
  cases h with
  | @lifetime attrs name spelled bounds reread =>
    rw [Param.declaration, List.append_assoc, List.append_assoc]
    exact first (startsGenerics_cons (.inl rfl) rfl (behind bounds))
  | @ty attrs name spelled plain bounds reread default type =>
    rw [Param.declaration, List.append_assoc, List.append_assoc]
    exact first (startsGenerics_cons (.inr (by simpa [isIdent] using plain)) rfl (behind bounds))
  | inferred attrs => exact absurd rfl named
  | @const attrs name spelled plain t before after type default value =>
    rw [Param.declaration, List.append_assoc, List.append_assoc]
    exact first (startsGenerics_const _)

/-- A parameter that has a name is an argument. -/
theorem ParamReread.argument {p : Param} (h : ParamReread f p) (named : p.typeName? ≠ some "_") :
    Printable p.argument ∧ ∀ depth, IsArg (depth + 1) p.argument := by
  have name {name : String} (spelled : Spelled name) (plain : name ∉ keywords) :
      Printable [.ident name] ∧ ∀ depth, IsArg (depth + 1) [.ident name] := by
    have path : IsPath ⟨false, [name]⟩ := ⟨List.cons_ne_nil _ _, List.forall_mem_singleton.2 (.inl plain)⟩
    exact ⟨printable_ident spelled, fun depth => isArg_of_isTy (isTy_path true depth path)⟩
  cases h with
  | lifetime _ spelled _ => exact ⟨printable_lifetime spelled, fun depth => isArg_lifetime _ _⟩
  | ty _ spelled plain _ _ => exact name spelled plain
  | inferred _ => exact absurd rfl named
  | const _ spelled plain _ _ => exact name spelled plain

/-! ## Heads -/

/-- The parameters and conditions of a type are read again, and every parameter has a name. -/
structure GenericsReread (g : Generics) : Prop where
  params : ∀ p ∈ g.params, ParamReread unchanged p
  clause : ClauseReread unchanged g.clause
  named : "_" ∉ g.typeNames

namespace GenericsReread

variable {g : Generics} (h : GenericsReread g) (legible : g.Legible)

include h in
theorem typeName_ne {p : Param} (mem : p ∈ g.params) : p.typeName? ≠ some "_" :=
  fun same => h.named (List.mem_filterMap.2 ⟨p, mem, same⟩)

include h legible

theorem clauseTokens : ClauseTokens g.clauseTokens := by
  have tokens := h.clause.tokens legible.clause
  rwa [written_unchanged] at tokens

theorem paramTokens {p : Param} (mem : p ∈ g.params) :
    Printable p.declaration ∧ ∀ depth, Below depth p.declaration → ParamTokens depth p.declaration := by
  have tokens := (h.params p mem).bare.tokens (legible.params p mem)
  rwa [ParamRead, ← p.declaration_eq] at tokens

/-- The parameters and conditions can be written. -/
theorem printable : Printable g.declaration ∧ Printable g.arguments ∧ Printable g.clauseTokens := by
  have brackets {w : Param → List Token} (each : ∀ p ∈ g.params, Printable (w p)) : Printable (g.bracketed w) := by
    by_cases none : g.params = []
    · have empty : g.bracketed w = [] := by rw [Generics.bracketed, none]; rfl
      exact empty ▸ printable_nil
    · obtain ⟨last, tss, tokens, perm⟩ := Generics.exists_bracketed none w
      rw [tokens]
      refine printable_brackets last fun ts mem => ?_
      obtain ⟨p, own, rfl⟩ := List.mem_map.1 (perm.mem_iff.1 mem)
      exact each p own
  exact ⟨brackets fun p mem => (h.paramTokens legible mem).1,
    brackets fun p mem => ((h.params p mem).argument (h.typeName_ne mem)).1, (h.clauseTokens legible).printable⟩

/-- Parameters are read in front of an implementation. -/
theorem takes_declaration (some : g.params ≠ []) {depth : Nat} (below : Below depth g.declaration) (rest : List Token) :
    Grammar.startsGenerics (g.declaration ++ rest) = true ∧ (deep depth).generics.Takes (g.declaration ++ rest) rest := by
  obtain ⟨last, tss, declaration, perm⟩ := Generics.exists_bracketed some Param.declaration
  have declaration : g.declaration = Token.op "<" ++ (listed "," last tss ++ [.mark '>' false]) := declaration
  have member {ts : List Token} (mem : ts ∈ tss) : ∃ p ∈ g.params, ts = p.declaration := by
    obtain ⟨p, own, rfl⟩ := List.mem_map.1 (perm.mem_iff.1 mem)
    exact ⟨p, own, rfl⟩
  have each : ∀ ts ∈ tss, ParamTokens depth ts := by
    intro ts mem
    have shorter := length_le_listed "," last mem
    obtain ⟨p, own, rfl⟩ := member mem
    refine (h.paramTokens legible own).2 depth (below.of_le ?_)
    rw [declaration]
    simp only [List.length_append]
    omega
  rw [declaration, List.append_assoc, List.append_assoc]
  constructor
  · cases tss with
    | nil => exact absurd (List.map_eq_nil_iff.1 (List.nil_perm.1 perm)) some
    | cons ts tss =>
      obtain ⟨us, tokens, ends⟩ : ∃ us, listed "," last (ts :: tss) ++ ([.mark '>' false] ++ rest) = ts ++ us ∧
          endsArg us = true := by
        cases tss with
        | nil => cases last <;> exact ⟨_, List.append_assoc _ _ _, rfl⟩
        | cons us tss => exact ⟨_, by rw [listed, List.append_assoc, List.append_assoc], rfl⟩
      obtain ⟨p, own, rfl⟩ := member List.mem_cons_self
      rw [tokens]
      exact (h.params p own).startsGenerics (h.typeName_ne own) ends
  · unfold generics
    refine reads_peek_bind.2 (takes_discard_bind (reads_op "<" _).takes ?_)
    refine takes_bind (takes_params each last rest) fun r => ?_
    exact takes_discard_bind (reads_op ">" rest).takes (reads_pure trivial)

omit legible in
/-- The type is read behind its name, by rules two below which are some for each argument. -/
theorem reads_arguments {name : String} (plain : name ∉ keywords) (depth : Nat) {rest : List Token}
    (ends : EndsTy true rest) : ((deep (depth + 2)).ty true).Reads (.ident name :: (g.arguments ++ rest)) rest fun t =>
      ∃ args, t = .path false [.mk name args] := by
  by_cases none : g.params = []
  · have empty : g.arguments = [] := by rw [Generics.arguments, Generics.bracketed, none]; rfl
    rw [empty]
    exact reads_namedTy true (depth + 1) plain ((isSegment_name (.inl (.inl plain))).mono fun _ same => by rw [same]; rfl)
      ends
  · obtain ⟨last, tss, arguments, perm⟩ := Generics.exists_bracketed none Param.argument
    have arguments : g.arguments = Token.op "<" ++ (listed "," last tss ++ [.mark '>' false]) := arguments
    have each : ∀ ts ∈ tss, IsArg (depth + 1) ts := by
      intro ts mem
      obtain ⟨p, own, rfl⟩ := List.mem_map.1 (perm.mem_iff.1 mem)
      exact ((h.params p own).argument (h.typeName_ne own)).2 depth
    rw [arguments]
    exact reads_namedTy true (depth + 1) plain ((isSegment_args (.inl plain) (not_mem_selfWords plain) false last false
      each).mono fun _ same => same.1) ends

end GenericsReread

/-- The head of an implementation is read again. -/
theorem isHead_of_reread {name : String} (plain : name ∉ keywords) {g : Generics} (reread : GenericsReread g)
    (legible : g.Legible) {depth : Nat} (below : Below depth (g.declaration ++ g.arguments ++ g.clauseTokens)) :
    IsHead depth name g := by
  have clause := reread.clauseTokens legible
  obtain ⟨d, rfl⟩ : ∃ d, depth = d + 2 := ⟨depth - 2, by unfold Below at below; omega⟩
  have inner : Below (d + 2) g.clauseTokens := below.of_le (by simp only [List.length_append]; omega)
  exact {
    declared := fun some rest => reread.takes_declaration legible some
      (below.of_le (by simp only [List.length_append]; omega)) rest
    type := fun rest ends => reread.reads_arguments plain d ends
    clause := fun rest brace => ⟨clause.ends rest brace, clause.takes _ inner rest brace⟩
    bare := clause.bare }

end Grammar

end LiveSettings
