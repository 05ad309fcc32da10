import LiveSettings.Proofs.Code.Rereading

/-!
# Paths that are read again

The arguments of a name are values, types, lifetimes, and names that are bound to one of these or that have bounds. What
the rules give for a path is read again if that holds of the types and bounds in its arguments.

Results: `ensures_constArgument`, `ensures_segment`, `ensures_path`.
-/

namespace LiveSettings.Grammar

open LiveSettings.Parser
open LiveSettings.Token (Printable Spelled printable_absoluteMark printable_brackets printable_ident printable_lifetime
  printable_listed printable_op)

variable {f : Bool → List Segment → Option NamePath}

/-! ## Values -/

/-- The tokens are a literal. -/
structure IsLiteral (ls : List Token) : Prop where
  looks : ∀ rest, isLiteral (ls ++ rest) = true
  takes : ∀ rest, Parser.literal.Takes (ls ++ rest) rest

theorem ensures_literal {ts : List Token} :
    Parser.literal.Ensures ts fun parts _ => ∃ ls, parts = code ls ∧ IsLiteral ls := by
  unfold Parser.literal
  refine ensures_ahead_bind.2 (ensures_guarded_bind fun here => ensures_bind ensures_next fun t us same => ?_)
  subst same
  cases t with
  | literal text => exact ensures_pure ⟨_, rfl, fun _ => rfl, takes_literal text⟩
  | ident name =>
    refine ensures_pure ⟨_, rfl, fun _ => here, fun rest => ?_⟩
    unfold Parser.literal
    exact reads_ahead_bind.2 (reads_guarded_bind here (reads_next_bind.2 (reads_pure trivial)))
  | mark c joint =>
    cases us with
    | nil =>
      unfold isLiteral at here
      split at here <;> simp_all
    | cons u us =>
      have number : c = '-' ∧ ∃ text, u = .literal text ∧ isNumber text = true := by
        unfold isLiteral at here
        split at here <;> simp_all
      obtain ⟨rfl, text, rfl, number⟩ := number
      refine ensures_bind ensures_next fun t vs same => ?_
      cases same
      refine ensures_pure ⟨_, rfl, fun _ => number, fun rest => ?_⟩
      unfold Parser.literal
      refine reads_ahead_bind.2 (reads_guarded_bind number (reads_next_bind.2 ?_))
      exact takes_bind (takes_next _ _) fun _ => reads_pure trivial
  | opening _ | closing _ => cases here

/-- No value starts like a lifetime, or ends the arguments that it stands among. -/
theorem startsValue_spec {ts : List Token} (h : startsValue ts = true) :
    isLifetime ts = false ∧ isOp ">" ts = false ∧ ts ≠ [] := by
  cases ts with
  | nil => cases h
  | cons t ts =>
    cases t with
    | mark c joint =>
      obtain rfl : c = '-' := by
        unfold startsValue isLiteral at h
        split at h <;> simp_all [isOpening]
      exact ⟨by cases joint <;> rfl, rfl, List.cons_ne_nil _ _⟩
    | ident _ | literal _ | opening _ | closing _ => exact ⟨rfl, rfl, List.cons_ne_nil _ _⟩

/-- The value can be written and is read again. -/
structure ConstTokens (before ts : List Token) : Prop where
  printable : Printable ts
  value : startsValue before = true → ∀ rest, startsValue (ts ++ rest) = true
  reads : ∀ depth, Enough depth ts → ∀ rest, (deep depth).constArgument.Takes (ts ++ rest) rest

theorem ensures_constArgument {g : Grammar} {ts : List Token} : g.constArgument.Ensures ts fun parts _ =>
    Held f parts → ConstTokens ts (Part.written f parts) := by
  unfold constArgument
  refine ensures_ahead_bind.2 (ensures_ite (fun _ => ?_) fun notLiteral => ensures_ite (fun word => ?_) fun _ =>
    ensures_ite (fun _ => ?_) fun _ => ensures_failure)
  · refine ensures_bind ensures_literal fun parts us found => ensures_pure fun held => ?_
    obtain ⟨ls, rfl, number⟩ := found
    have legible := (held_embedded.1 held).1
    rw [Part.written_code] at legible
    rw [Part.written_embedded, Part.written_nil, Part.written_code, List.append_nil]
    refine ⟨legible.printable, fun _ rest => ?_, fun depth _ rest => ?_⟩
    · rw [startsValue, number.looks, Bool.true_or]
    · unfold constArgument
      refine reads_ahead_bind.2 ?_
      rw [if_pos (number.looks rest)]
      exact takes_bind (number.takes rest) fun _ => reads_pure trivial
  · refine ensures_bind ensures_ident fun name us found => ensures_pure fun _ => ?_
    obtain ⟨rfl, spelled, plain⟩ := found
    rw [Part.written_code]
    have looks (rest : List Token) : isLiteral (.ident name :: rest) = false := notLiteral
    refine ⟨printable_ident spelled, fun value => ?_, fun depth _ rest => ?_⟩
    · rw [startsValue, notLiteral] at value
      cases value
    · unfold constArgument
      refine reads_ahead_bind.2 ?_
      rw [if_neg (by rw [List.singleton_append, looks]; decide), if_pos (by simpa [isIdent] using plain)]
      exact reads_bind (reads_ident plain rest) fun _ _ => reads_pure trivial
  · have block {p : Parser (List Part)} : (group .brace p).Ensures ts fun parts _ =>
        ∃ inner, parts = code [.opening .brace] ++ inner ++ code [.closing .brace] :=
      ensures_group fun _ _ => ensures_trivial.mono fun inner _ _ _ _ => ⟨inner, rfl⟩
    refine ensures_bind block fun parts us found => ensures_pure fun held => ?_
    obtain ⟨inner, rfl⟩ := found
    have legible := (held_embedded.1 held).1
    rw [Part.written_embedded, Part.written_nil, List.append_nil]
    exact ⟨legible.printable, fun _ _ => rfl, legible.reads⟩

/-! ## Bounds -/

/-- How a bound starts, or does not. -/
structure StartsBound (ts : List Token) : Prop where
  opens : isEnd ts = false
  brace : isOpening .brace ts = false
  comma : isOp "," ts = false
  closing : isOp ">" ts = false
  semicolon : isOp ";" ts = false
  equals : isOp "=" ts = false
  colon : (isOp ":" ts && !isOp "::" ts) = false
  star : isOp "*" ts = false

theorem startsBound_spec {ts : List Token} (h : startsBound ts = true) : StartsBound ts := by
  cases ts with
  | nil => cases h
  | cons t ts =>
    cases t with
    | ident _ => exact ⟨rfl, rfl, rfl, rfl, rfl, rfl, rfl, rfl⟩
    | opening d =>
      cases d with
      | brace => cases h
      | paren | bracket => exact ⟨rfl, rfl, rfl, rfl, rfl, rfl, rfl, rfl⟩
    | mark c joint =>
      have starts : isOp "::" (.mark c joint :: ts) = true ∨ c ∈ ['?', '\''] := by
        simp only [startsBound, Bool.or_eq_true] at h
        rcases h with (((((word | path) | maybe) | lifetime) | paren) | bracket)
        · cases word
        · exact .inl path
        · obtain ⟨_, _, same⟩ := exists_mark_of_startsOp '?' [] maybe
          cases same
          exact .inr (by decide)
        · obtain ⟨_, _, same⟩ := exists_of_isLifetime lifetime
          cases same
          exact .inr (by decide)
        · cases paren
        · cases bracket
      rcases starts with path | other
      · obtain ⟨_, _, same⟩ := exists_mark_of_startsOp ':' [':'] path
        cases same
        exact ⟨rfl, rfl, rfl, rfl, rfl, rfl, by rw [path]; exact Bool.and_false _, rfl⟩
      · simp only [List.mem_cons, List.not_mem_nil, or_false] at other
        rcases other with rfl | rfl <;> exact ⟨rfl, rfl, rfl, rfl, rfl, rfl, rfl, rfl⟩
    | literal _ | closing _ => cases h

/-- Code with plus signs between members that were found one after the other. -/
def Chained (R : List Token → List Part → List Token → Prop) (parts : List Part) : Prop :=
  ∃ stop before members trailing after, parts = joinCode "+" members trailing ∧
    Listing stop (isOp "+") "+" R before members trailing after

theorem chained_nil {R : List Token → List Part → List Token → Prop} : Chained R [] :=
  ⟨fun _ => true, [], [], true, [], rfl, .stopped rfl⟩

theorem ensures_chain {R : List Token → List Part → List Token → Prop} {stop : List Token → Bool}
    {p : Parser (List Part)} {ts : List Token} (h : ∀ us, p.Ensures us (R us)) :
    (chainedCode stop "+" p).Ensures ts fun parts _ => Chained R parts := by
  refine (ensures_chainedCode fun us _ => h us).mono fun parts us found => ?_
  obtain ⟨members, trailing, same, listing⟩ := found
  exact ⟨stop, ts, members, trailing, us, same, listing⟩

section

variable {R : List Token → List Part → List Token → Prop} {parts : List Part}

theorem printable_chain (chain : Chained R parts) (held : Held f parts)
    (each : ∀ us ps vs, R us ps vs → Held f ps → Printable (Part.written f ps)) : Printable (Part.written f parts) := by
  obtain ⟨stop, before, members, trailing, after, rfl, listing⟩ := chain
  have printable := listing.forall each
  rw [Part.written_joinCode]
  exact printable_listed (printable_op (by decide)) trailing
    (List.forall_mem_map.2 fun ps mem => printable ps mem (held_joinCode.1 held ps mem))

/-- Members with plus signs between them are read again if each of them is, in front of the end or of a plus sign. -/
theorem takes_chain {q : Parser (List Part)} (chain : Chained R parts) (held : Held f parts)
    {stop : List Token → Bool} {rest : List Token} (ended : stop rest = true) (alone : isOp "+" rest = false)
    (each : ∀ ps us vs, R us ps vs → Held f ps → (Part.written f ps).length ≤ (Part.written f parts).length →
      Part.written f ps ≠ [] ∧ (∀ r, stop (Part.written f ps ++ r) = false) ∧
        ∀ r, r = rest ∨ (isOp "+" vs = true ∧ ∃ r', r = Token.op "+" ++ r') → q.Takes (Part.written f ps ++ r) r) :
    (chainedCode stop "+" q).Takes (Part.written f parts ++ rest) rest := by
  obtain ⟨before, first, members, trailing, after, rfl, listing⟩ := chain
  have loop : LoopReads (separatedLoop stop (isOp "+") (op "+") q)
      (listed "+" trailing (members.map (Part.written f)) ++ rest) rest
        fun r => List.Forall₂ (fun _ _ => True) members r.1 := by
    refine listing.reads (fun r => startsOp_marks "+".toList r) (fun _ => ended) (fun _ => alone)
      fun ps mem us vs found => ?_
    have shorter := length_le_listed "+" trailing (List.mem_map_of_mem (f := Part.written f) mem)
    rw [← Part.written_joinCode] at shorter
    obtain ⟨some, looks, reads⟩ := each ps us vs found (held_joinCode.1 held ps mem) shorter
    exact ⟨some, looks, fun r place => reads r (place.imp_left And.right)⟩
  rw [Part.written_joinCode]
  unfold chainedCode chained
  exact takes_bind (reads_ahead_bind.2 (loop _ (Nat.lt_succ_self _)).takes) fun _ => reads_pure trivial

end

/-- A lifetime as code. -/
def IsLifetimeCode (parts : List Part) : Prop := ∃ name, Spelled name ∧ parts = code (Token.lifetime name)

/-- Lifetimes with plus signs between them. -/
def LifetimesReread (parts : List Part) : Prop := Chained (fun _ ps _ => IsLifetimeCode ps) parts

/-- Bounds with plus signs between them. -/
def BoundsReread (f : Bool → List Segment → Option NamePath) (parts : List Part) : Prop :=
  Chained (BoundReread f false) parts

theorem ensures_lifetimes {stop : List Token → Bool} {ts : List Token} :
    (chainedCode stop "+" lifetimeCode).Ensures ts fun parts _ => LifetimesReread parts := by
  refine ensures_chain fun us => ensures_lifetimeCode.mono fun ps vs found => ?_
  obtain ⟨name, same, -, spelled⟩ := found
  exact ⟨name, spelled, same⟩

theorem LifetimesReread.printable {parts : List Part} (lifetimes : LifetimesReread parts) (held : Held f parts) :
    Printable (Part.written f parts) := by
  refine printable_chain lifetimes held fun us ps vs lifetime _ => ?_
  obtain ⟨name, spelled, rfl⟩ := lifetime
  rw [Part.written_code]
  exact printable_lifetime spelled

theorem LifetimesReread.takes {parts : List Part} (lifetimes : LifetimesReread parts) (held : Held f parts)
    {stop : List Token → Bool} (stops : ∀ r, isLifetime r = true → stop r = false) {rest : List Token}
    (ended : stop rest = true) (alone : isOp "+" rest = false) :
    (chainedCode stop "+" lifetimeCode).Takes (Part.written f parts ++ rest) rest := by
  refine takes_chain lifetimes held ended alone fun ps us vs lifetime _ _ => ?_
  obtain ⟨name, -, rfl⟩ := lifetime
  rw [Part.written_code]
  refine ⟨List.cons_ne_nil _ _, fun r => stops _ rfl, fun r _ => ?_⟩
  exact takes_bind (reads_lifetime name r).takes fun _ => reads_pure trivial

theorem ensures_bounds {g : Grammar} (rereads : Rereads f g) {stop : List Token → Bool} {ts : List Token} :
    (chainedCode stop "+" (g.bound false)).Ensures ts fun parts _ => BoundsReread f parts :=
  ensures_chain fun us => rereads.bound false us

theorem BoundsReread.printable {parts : List Part} (bounds : BoundsReread f parts) (held : Held f parts) :
    Printable (Part.written f parts) :=
  printable_chain bounds held fun _ _ _ reread held => (reread.tokens held).printable

/-- Bounds are read again up to what ends them. -/
theorem BoundsReread.takes {parts : List Part} (bounds : BoundsReread f parts) (held : Held f parts)
    {stop : List Token → Bool} (stops : ∀ r, startsBound r = true → stop r = false) {depth : Nat}
    (below : Below depth (Part.written f parts)) {rest : List Token} (ended : stop rest = true)
    (ends : EndsTy true rest) (unbound : startsBound rest = false) :
    (chainedCode stop "+" ((deep depth).bound false)).Takes (Part.written f parts ++ rest) rest := by
  have alone : isOp "+" rest = false := ends.sum rfl
  refine takes_chain bounds held ended alone fun ps us vs reread held shorter => ?_
  have bound := reread.tokens held
  refine ⟨bound.some, fun r => stops _ (bound.starts r), fun r place => (bound.reads_field (below.of_le shorter) ?_).takes⟩
  rcases place with rfl | between
  · exact ⟨ends.of_sum, fun sum => absurd alone (by simp [sum]), fun bound => absurd unbound (by simp [bound])⟩
  · obtain ⟨sum, r', rfl⟩ := between
    exact follows_sum sum rfl

/-! ## Arguments -/

theorem ensures_tyCode {g : Grammar} (rereads : Rereads f g) {ts : List Token} : g.tyCode.Ensures ts fun parts us =>
    ∃ t, parts = [.ty t] ∧ TyReread f true ts t us :=
  ensures_bind (rereads.ty true ts) fun t _ reread => ensures_pure ⟨t, rfl, reread⟩

/-- The argument can be written and is read again. -/
def ArgReread (f : Bool → List Segment → Option NamePath) (a : Arg) : Prop :=
  a.Legible f → Printable ((a.mapHeads f).flatten true).2 ∧
    ∀ depth, Below depth ((a.mapHeads f).flatten true).2 → IsArg depth ((a.mapHeads f).flatten true).2

theorem pathTokens_single (s : Segment) : pathTokens f false [s] = (s.mapHeads f).flatten true := by
  simp [pathTokens, absoluteMark, joinSegments]

/-- A name with something that it is bound to. -/
theorem isArg_named {s : Segment} (path : PathReread f [s]) (rooted : IsRooted false [s])
    (held : s.Legible f) {depth : Nat} {ws : List Token}
    (below : Below depth ((s.mapHeads f).flatten true ++ ws)) (ends : ∀ rest, EndsTy true (ws ++ rest))
    (behind : ∀ rest, endsArg rest = true → ∀ s', (do
      if ← peek (isOp "=") then
        let eq ← op "="
        if ← peek startsValue then return .other ([.segment s'] ++ eq ++ (← (deep depth).constArgument))
        return .other ([.segment s'] ++ eq ++ (← (deep depth).tyCode))
      else if ← peek (isOp ":") then
        let colon ← op ":"
        let bounds ← chainedCode (fun ts => isOp "," ts || isOp ">" ts) "+" ((deep depth).bound false)
        return .other ([.segment s'] ++ colon ++ bounds)
      else return .ty (.path false [s']) : Parser Arg).Takes (ws ++ rest) rest) :
    IsArg depth ((s.mapHeads f).flatten true ++ ws) := by
  have inner : Below depth ((s.mapHeads f).flatten true) := below.left
  obtain ⟨d, rfl, enough⟩ := inner.exists_pred
  rw [← pathTokens_single] at enough ⊢
  have read (rest : List Token) : ((deep d).tyRule true).Reads (pathTokens f false [s] ++ (ws ++ rest)) (ws ++ rest)
      fun t => ∃ ss, t = .path false ss ∧ List.Forall₂ SameHead [s] ss :=
    path.reads_ty (List.forall_mem_singleton.2 held) rooted enough (ends rest)
  have starts (rest : List Token) : StartsTy (pathTokens f false [s] ++ ws ++ rest) := by
    rw [List.append_assoc]
    exact startsTy_of_takes (read rest).takes
  have unmarked (rest : List Token) : isLifetime (pathTokens f false [s] ++ ws ++ rest) = false := by
    rw [pathTokens_single, flatten_segment]
    rfl
  refine ⟨?_, fun rest _ => (starts rest).closing, fun rest ended => ?_⟩
  · rw [pathTokens_single, flatten_segment]
    exact List.cons_ne_nil _ _
  · unfold angleArgs.arg
    refine reads_ahead_bind.2 ?_
    rw [unmarked, (starts rest).value, List.append_assoc]
    refine reads_bind (read rest : ((deep (d + 1)).ty true).Reads _ _ _) fun t same => ?_
    obtain ⟨ss, rfl, same⟩ := same
    obtain ⟨s', ss', -, none, rfl⟩ := List.forall₂_cons_left_iff.1 same
    cases none
    exact behind rest ended s'

theorem argReread_ty {before after : List Token} {t : Ty} (reread : TyReread f true before t after) :
    ArgReread f (.ty t) := by
  intro held
  have type := reread.tokens held
  have follows {rest : List Token} (ended : endsArg rest = true) : Follows true after rest :=
    follows_of_endsTy (endsArg_spec ended).1
  exact ⟨type.printable, fun depth below => ⟨type.some, fun rest ended => (type.starts (follows ended)).closing,
    fun rest ended => takes_arg_of_ty (type.starts (follows ended)) ended (type.reads_field below (follows ended)).takes⟩⟩

/-- The tokens of a name with something that it is bound to. -/
theorem flatten_named (s : Segment) (mark : String) (parts : List Part) :
    ((Arg.other ([.segment s] ++ code (Token.op mark) ++ parts)).mapHeads f).flatten true =
      (false, (s.mapHeads f).flatten true ++ (Token.op mark ++ Part.written f parts)) := by
  have tokens : Part.written f ([.segment s] ++ code (Token.op mark) ++ parts) =
      (s.mapHeads f).flatten true ++ (Token.op mark ++ Part.written f parts) := by
    rw [Part.written_append, Part.written_append, Part.written_code, Part.written_segment, Part.written_nil,
      List.append_nil, List.append_assoc]
  exact congrArg (Prod.mk false) tokens

section

variable {s : Segment} (path : PathReread f [s]) (rooted : IsRooted false [s])

include path rooted

theorem argReread_value {before : List Token} {parts : List Part}  (value : startsValue before = true)
    (reread : Held f parts → ConstTokens before (Part.written f parts)) :
    ArgReread f (.other ([.segment s] ++ code (Token.op "=") ++ parts)) := by
  intro held
  have held : Held f ([.segment s] ++ code (Token.op "=") ++ parts) := held
  simp only [held_append, held_segment, held_nil, held_code, and_true] at held
  obtain ⟨inside, held⟩ := held
  have const := reread held
  rw [flatten_named]
  refine ⟨((path.each s List.mem_cons_self).printable inside).append
    ((printable_op (by decide)).append const.printable), fun depth below => ?_⟩
  refine isArg_named path rooted inside below (fun rest => ⟨⟨rfl, rfl⟩, rfl, rfl, rfl, fun _ => rfl⟩)
    fun rest _ s' => ?_
  rw [List.append_assoc]
  refine reads_peek_bind.2 (takes_bind (reads_op "=" _).takes fun _ => reads_peek_bind.2 ?_)
  rw [const.value value rest]
  exact takes_bind (const.reads depth below.right.right.enough rest) fun _ => reads_pure trivial

theorem argReread_type {before after : List Token} {t : Ty} (reread : TyReread f true before t after) :
    ArgReread f (.other ([.segment s] ++ code (Token.op "=") ++ [.ty t])) := by
  intro held
  have held : Held f ([.segment s] ++ code (Token.op "=") ++ [.ty t]) := held
  simp only [held_append, held_segment, held_ty, held_nil, held_code, and_true] at held
  obtain ⟨inside, held⟩ := held
  have type := reread.tokens held
  rw [flatten_named, Part.written_ty, Part.written_nil, List.append_nil]
  refine ⟨((path.each s List.mem_cons_self).printable inside).append
    ((printable_op (by decide)).append type.printable), fun depth below => ?_⟩
  refine isArg_named path rooted inside below (fun rest => ⟨⟨rfl, rfl⟩, rfl, rfl, rfl, fun _ => rfl⟩)
    fun rest ended s' => ?_
  have follows : Follows true after rest := follows_of_endsTy (endsArg_spec ended).1
  rw [List.append_assoc]
  refine reads_peek_bind.2 (takes_bind (reads_op "=" _).takes fun _ => reads_peek_bind.2 ?_)
  rw [(type.starts follows).value]
  exact takes_bind (type.takes_tyCode rfl below.right.right follows) fun _ => reads_pure trivial

theorem argReread_bounds {parts : List Part} (bounds : BoundsReread f parts) :
    ArgReread f (.other ([.segment s] ++ code (Token.op ":") ++ parts)) := by
  intro held
  have held : Held f ([.segment s] ++ code (Token.op ":") ++ parts) := held
  simp only [held_append, held_segment, held_nil, held_code, and_true] at held
  obtain ⟨inside, held⟩ := held
  rw [flatten_named]
  refine ⟨((path.each s List.mem_cons_self).printable inside).append
    ((printable_op (by decide)).append (bounds.printable held)), fun depth below => ?_⟩
  refine isArg_named path rooted inside below (fun rest => ⟨⟨rfl, rfl⟩, rfl, rfl, rfl, fun _ => rfl⟩)
    fun rest ended s' => ?_
  obtain ⟨ends, -, -, unbound⟩ := endsTy_spec (endsArg_spec ended).1
  have stops (r : List Token) (bound : startsBound r = true) : (isOp "," r || isOp ">" r) = false := by
    have starts := startsBound_spec bound
    rw [starts.comma, starts.closing]
    rfl
  rw [List.append_assoc]
  refine reads_peek_bind.2 (reads_peek_bind.2 (takes_bind (reads_op ":" _).takes fun _ => ?_))
  exact takes_bind (bounds.takes held stops below.right.right ended ends unbound) fun _ => reads_pure trivial

end

theorem ensures_arg {g : Grammar} (rereads : Rereads f g) {ts : List Token} :
    (angleArgs.arg g).Ensures ts fun a _ => ArgReread f a := by
  unfold angleArgs.arg
  refine ensures_ahead_bind.2 (ensures_ite (fun _ => ?_) fun _ => ensures_ite (fun value => ?_) fun _ => ?_)
  · refine ensures_bind ensures_lifetime fun name us found => ensures_pure fun _ => ?_
    exact ⟨printable_lifetime found.2, fun depth _ => isArg_lifetime depth name⟩
  · refine ensures_bind (ensures_constArgument (f := f)) fun parts us reread => ensures_pure fun held => ?_
    have const := reread held
    show Printable (Part.written f parts) ∧ ∀ depth, Below depth (Part.written f parts) →
      IsArg depth (Part.written f parts)
    refine ⟨const.printable, fun depth below => ⟨?_, fun rest _ => ?_, fun rest _ => ?_⟩⟩
    · have some := (startsValue_spec (const.value value [])).2.2
      rwa [List.append_nil] at some
    · exact (startsValue_spec (const.value value rest)).2.1
    · have value := const.value value rest
      unfold angleArgs.arg
      refine reads_ahead_bind.2 ?_
      rw [(startsValue_spec value).1, value]
      exact takes_bind (const.reads depth below.enough rest) fun _ => reads_pure trivial
  · refine ensures_bind (rereads.ty true ts) fun t us reread => ?_
    split
    · rename_i s
      obtain ⟨path, rooted⟩ := reread.path false [s] rfl
      refine ensures_peek_bind.2 (ensures_ite (fun _ => ?_) fun _ => ?_)
      · refine ensures_bind ensures_op fun eq vs found => ?_
        obtain ⟨-, rfl, rfl⟩ := found
        refine ensures_peek_bind.2 (ensures_ite (fun value => ?_) fun _ => ?_)
        · exact ensures_bind (ensures_constArgument (f := f)) fun parts ws const =>
            ensures_pure (argReread_value path rooted value const)
        · refine ensures_bind (ensures_tyCode rereads) fun parts ws found => ensures_pure ?_
          obtain ⟨u, rfl, reread⟩ := found
          exact argReread_type path rooted reread
      · refine ensures_peek_bind.2 (ensures_ite (fun _ => ?_) fun _ => ensures_pure (argReread_ty reread))
        refine ensures_bind ensures_op fun colon vs found => ?_
        obtain ⟨-, rfl, rfl⟩ := found
        exact ensures_bind (ensures_bounds rereads) fun parts ws bounds =>
          ensures_pure (argReread_bounds path rooted bounds)
    · exact ensures_pure (argReread_ty reread)

/-! ## Names with arguments -/

/-- The tokens of the arguments of a name stand in a list between brackets. -/
theorem exists_angleTokens (turbofish : Bool) (args : List Arg) (trailing : Bool) : ∃ last tss,
    (Args.angle turbofish args trailing).flatten true = angleTokens turbofish last false tss ∧
      tss.Perm (args.map fun a => (a.flatten true).2) := by
  obtain ⟨last, tss, arranged, perm⟩ := exists_listed_arrange true trailing (argTokens true args)
  rw [argTokens_eq, List.map_map] at perm
  refine ⟨last, tss, ?_, perm⟩
  rw [Args.flatten, arranged]
  simp [angleTokens, Token.op, Token.marks]

theorem argsReread_angle {turbofish trailing : Bool} {args : List Arg} (each : ∀ a ∈ args, ArgReread f a) :
    ArgsReread f (.angle turbofish args trailing) := by
  intro held
  have held : ∀ a ∈ args, a.Legible f := (argsHold_iff args).1 held
  obtain ⟨last, tss, tokens, perm⟩ := exists_angleTokens turbofish (argsMapHeads f args) trailing
  have member {ts : List Token} (mem : ts ∈ tss) : Printable ts ∧ ∀ depth, Below depth ts → IsArg depth ts := by
    rw [perm.mem_iff, argsMapHeads_eq_map, List.map_map] at mem
    obtain ⟨a, given, rfl⟩ := List.mem_map.1 mem
    exact each a given (held a given)
  rw [Args.mapHeads, tokens]
  refine ⟨(printable_absoluteMark turbofish).append (printable_brackets last fun ts mem => (member mem).1), ?_⟩
  intro name word bare depth enough
  have other : name ∉ selfWords := fun selfWord => nomatch bare selfWord
  have path : InPath name := word.resolve_right fun same => other (same ▸ by decide)
  refine isSegment_args path other turbofish last false fun ts mem => (member mem).2 depth (enough.below ?_)
  have shorter := length_le_listed "," last mem
  simp only [angleTokens, List.length_cons, List.length_append]
  omega

theorem ensures_angleArgs {g : Grammar} (rereads : Rereads f g) {ts : List Token} :
    g.angleArgs.Ensures ts fun args _ => args.isNone = false ∧ ArgsReread f args := by
  unfold angleArgs
  refine ensures_peek_bind.2 (ensures_after fun _ us => ensures_after fun _ us => ?_)
  refine ensures_bind (ensures_separated fun us _ => ensures_arg rereads) fun found us listing => ?_
  exact ensures_after fun _ us => ensures_pure ⟨rfl, argsReread_angle (listing.forall fun _ _ _ reread => reread)⟩

/-- A name in a path is read again; it is the one in front. -/
theorem ensures_segment {g : Grammar} (rereads : Rereads f g) {ts : List Token} : (g.segment false).Ensures ts
    fun s _ => SegmentReread f s ∧ ∃ us, ts = .ident s.name :: us := by
  unfold segment
  refine ensures_peek_bind.2 (ensures_ite (fun selfWord => ?_) fun _ => ensures_peek_bind.2 ?_)
  · refine ensures_bind ensures_anyWord fun name us found => ensures_pure ?_
    obtain ⟨rfl, spelled⟩ := found
    have word : name ∈ selfWords := by simpa [isSelfWord] using selfWord
    have inSegment : ∀ w ∈ selfWords, InSegment w := by decide
    exact ⟨⟨spelled, inSegment name word, fun _ => rfl, argsReread_none⟩, us, rfl⟩
  · have behind (name : String) (us : List Token) (spelled : Spelled name) (word : InPath name)
        (other : name ∉ selfWords) : (do
          let ts ← ahead
          if (!false && isOp "<" ts && !isOp "<=" ts) || (isOp "::" ts && third (isOp "<") ts) then
            return .mk name (← g.angleArgs)
          return .mk name .none : Parser Segment).Ensures us fun s _ => SegmentReread f s ∧ s.name = name := by
      refine ensures_ahead_bind.2 (ensures_ite (fun _ => ?_) fun _ => ensures_pure ?_)
      · refine ensures_bind (ensures_angleArgs rereads) fun args vs found => ensures_pure ?_
        exact ⟨⟨spelled, .inl word, fun selfWord => absurd selfWord other, found.2⟩, rfl⟩
      · exact ⟨⟨spelled, .inl word, fun _ => rfl, argsReread_none⟩, rfl⟩
    refine ensures_ite (fun self => ?_) fun _ => ?_
    · refine ensures_bind ensures_anyWord fun name us found => ?_
      obtain ⟨rfl, spelled⟩ := found
      obtain rfl : name = "Self" := beq_iff_eq.1 self
      exact (behind _ us spelled (by decide) (by decide)).mono fun s vs found => ⟨found.1, us, by rw [found.2]⟩
    · refine ensures_bind ensures_ident fun name us found => ?_
      obtain ⟨rfl, spelled, plain⟩ := found
      exact (behind _ us spelled (.inl plain) (not_mem_selfWords plain)).mono fun s vs found =>
        ⟨found.1, us, by rw [found.2]⟩

theorem ensures_furtherSegments {g : Grammar} (rereads : Rereads f g) {ts : List Token} :
    (g.furtherSegments false).Ensures ts fun ss _ => ∀ s ∈ ss, SegmentReread f s := by
  unfold furtherSegments
  have round (us : List Token) : (do
      discard (op "::")
      g.segment false).Ensures us fun s _ => SegmentReread f s :=
    ensures_after fun _ us => (ensures_segment rereads).mono fun s _ found => found.1
  exact (ensures_many fun us _ => round us).mono fun ss us rounds => rounds.forall fun _ _ _ reread => reread

/-- The path is read again; what it starts with is in front. -/
theorem ensures_path {g : Grammar} (rereads : Rereads f g) {ts : List Token} : (g.path false).Ensures ts fun p _ =>
    PathReread f p.segments ∧ p.absolute = isOp "::" ts ∧
      (p.absolute = false → ∀ s ∈ p.segments.head?, ∃ us, ts = Token.ident s.name :: us) := by
  unfold path
  have names {absolute : Bool} {ts : List Token} : (do
      let first ← g.segment false
      return (⟨absolute, first :: (← g.furtherSegments false)⟩ : Path)).Ensures ts fun p _ =>
        PathReread f p.segments ∧ p.absolute = absolute ∧ ∀ s ∈ p.segments.head?, ∃ us, ts = Token.ident s.name :: us := by
    refine ensures_bind (ensures_segment rereads) fun s us first => ?_
    refine ensures_bind (ensures_furtherSegments rereads) fun ss vs later => ensures_pure ?_
    refine ⟨⟨List.cons_ne_nil _ _, List.forall_mem_cons.2 ⟨first.1, later⟩⟩, rfl, fun s' mem => ?_⟩
    rw [← Option.mem_some.1 mem]
    exact first.2
  refine ensures_peek_bind.2 ?_
  cases marked : isOp "::" ts with
  | true =>
    refine ensures_after fun _ us => names.mono fun p vs found => ?_
    exact ⟨found.1, found.2.1, fun unmarked => absurd found.2.1 (by simp [unmarked])⟩
  | false =>
    have skipped : (optOp "::").Ensures ts fun _ us => us = ts :=
      ensures_optional (fun here => absurd here (by simp [marked])) fun _ => rfl
    refine ensures_discard_bind skipped fun _ us same => ?_
    subst same
    exact names.mono fun p vs found => ⟨found.1, found.2.1, fun _ => found.2.2⟩

end LiveSettings.Grammar
