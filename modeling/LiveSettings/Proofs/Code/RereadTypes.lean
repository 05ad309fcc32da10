import LiveSettings.Proofs.Code.RereadNamed

/-!
# Types that are read again

A type in parentheses is a tuple, a type on its own, or the first bound of a sum. With it every rule for types is
settled, and what the rules give for types and bounds is read again however deep they are.

Results: `ensures_tyRule`, `rereads_deep`.
-/

namespace LiveSettings.Grammar

open LiveSettings.Parser
open LiveSettings.Token (Printable printable_flatMap printable_op)

variable {f : Bool → List Segment → Option NamePath}

/-! ## Further bounds -/

/-- A further bound with the plus sign in front. -/
def IsSummand (f : Bool → List Segment → Option NamePath) (_ : List Token)
    (parts : List Part) (after : List Token) : Prop :=
  ∃ before ps, parts = code (Token.op "+") ++ ps ∧ BoundReread f false before ps after

theorem ensures_summands {g : Grammar} (rereads : Rereads f g) {ts : List Token} :
    (many (isOp "+") (seq [op "+", g.bound false])).Ensures ts (Rounds (isOp "+") (IsSummand f) ts) := by
  refine ensures_many fun us _ => ensures_seq_cons ensures_op fun plus vs mark =>
    ensures_seq_cons (rereads.bound false vs) fun ps ws reread => ensures_seq_nil ?_
  exact ⟨vs, ps, by rw [mark.2.1, List.append_nil], reread⟩

section

variable {before after : List Token} {pss : List (List Part)} (rounds : Rounds (isOp "+") (IsSummand f) before pss after)
  (held : ∀ ps ∈ pss, Held f ps)

include rounds held

theorem printable_summands : Printable (pss.flatMap (Part.written f)) := by
  have each := rounds.forall (S := fun ps => Held f ps → Printable (Part.written f ps)) fun _ ps after found held => by
    obtain ⟨before, qs, rfl, reread⟩ := found
    rw [held_append] at held
    rw [Part.written_append, Part.written_code]
    exact (printable_op (by decide)).append (reread.tokens held.2).printable
  exact printable_flatMap fun ps mem => each ps mem (held ps mem)

theorem reads_summands {depth : Nat} (below : ∀ ps ∈ pss, Below depth (Part.written f ps)) {rest : List Token}
    (follows : Follows false after rest) :
    (many (isOp "+") (seq [op "+", (deep depth).bound false])).Reads (pss.flatMap (Part.written f) ++ rest) rest
      fun r => r.isEmpty = pss.isEmpty := by
  have stops : isOp "+" rest = false :=
    Bool.eq_false_iff.2 fun sum => absurd (follows.sums sum) (by simp [rounds.stops])
  refine (rounds.reads (S := fun _ _ => True) stops fun ps mem ts us found => ?_).mono fun r same => ?_
  · obtain ⟨before', qs, rfl, reread⟩ := found
    have heldBound := (held_append.1 (held _ mem)).2
    have enough := below _ mem
    rw [Part.written_append, Part.written_code] at enough ⊢
    refine ⟨nofun, fun _ => rfl, fun r place => ?_⟩
    have followed : Follows false us r := by
      rcases place with ⟨rfl, rfl⟩ | ⟨sum, again⟩
      · exact follows
      · exact follows_sum sum again
    have bound := (reread.tokens heldBound).reads_field enough.right followed
    rw [List.append_assoc]
    exact takes_seq_cons (reads_op "+" _).takes (takes_seq_cons bound.takes takes_seq_nil)
  · cases same <;> rfl

end

theorem written_flatten (pss : List (List Part)) : Part.written f pss.flatten = pss.flatMap (Part.written f) := by
  induction pss with
  | nil => rfl
  | cons ps pss ih => rw [List.flatten_cons, List.flatMap_cons, Part.written_append, ih]

theorem held_flatten {pss : List (List Part)} : Held f pss.flatten ↔ ∀ ps ∈ pss, Held f ps := by
  induction pss with
  | nil => simp
  | cons ps pss ih => rw [List.flatten_cons, held_append, List.forall_mem_cons, ih]

theorem length_le_flatMap {α : Type} {g : α → List Token} {xs : List α} {x : α} (mem : x ∈ xs) :
    (g x).length ≤ (xs.flatMap g).length := by
  obtain ⟨front, back, rfl⟩ := List.append_of_mem mem
  simp only [List.flatMap_append, List.flatMap_cons, List.length_append]
  omega

/-! ## Parentheses -/

section

variable {plus : Bool} {before after : List Token}

theorem reads_tyRule_paren {g : Grammar} {us rest : List Token} {Q : Ty → Prop}
    (paren : (g.parenTy plus).Reads (.opening .paren :: us) rest Q) :
    (g.tyRule plus).Reads (.opening .paren :: us) rest Q := by
  unfold tyRule
  refine reads_bind (reads_binder rfl) fun binder none => reads_ahead_bind.2 ?_
  subst none
  exact paren

theorem tyReread_unit :
    TyReread f plus before (.shaped .tuple (code [.opening .paren] ++ [] ++ code [.closing .paren])) after := by
  have printable : Printable (Token.group .paren []) := Token.printable_nil.group .paren
  refine tyReread_shaped fun _ => tyTokens_of_takes rfl printable (fun _ _ => rfl) (fun _ _ => rfl)
    fun depth _ rest _ => ?_
  refine reads_tyRule_paren ?_
  unfold parenTy
  refine reads_peek_bind.2 ?_
  exact takes_bind (takes_group (reads_pure trivial)) fun _ => reads_pure trivial

/-- A sum in parentheses that starts with a lifetime. -/
theorem tyReread_parenLifetime {before' after' : List Token} {parts : List Part} (lifetime : isLifetime before' = true)
    (sum : SumReread f false true before' parts after') :
    TyReread f plus before (.paren (.shaped .traitObject parts)) after := by
  have inner : TyReread f true before' (.shaped .traitObject parts) after' := tyReread_lifetime lifetime sum
  refine ⟨fun held => ?_, nofun, fun _ held => inner.peeled rfl held⟩
  have held : Held f parts := held
  show TyTokens plus before after _ (Token.group .paren (Part.written f parts))
  refine ⟨(sum.printable held).group .paren, fun _ _ => rfl, fun _ _ => rfl, fun depth enough rest _ => ?_⟩
  have ends : Follows false after' (.closing .paren :: rest) := follows_of_endsTy rfl
  have bounds := sum.takes held enough.inside ends
  obtain ⟨name, us, same⟩ := exists_of_isLifetime ((sum.marked lifetime held).1 (.closing .paren :: rest))
  rw [group_append]
  rw [same] at bounds ⊢
  refine reads_tyRule_paren ?_
  unfold parenTy
  exact reads_peek_bind.2 (reads_peek_bind.2 (takes_bind (reads_inside bounds) fun _ => reads_pure nofun))

/-- A bound in parentheses that is relaxed by a question mark, with what is joined to it. -/
theorem tyReread_relaxed {after' : List Token} {inner : List Part}
    (trait : Held f inner → TraitTokens after' (Part.written f inner))
    (question : ∀ rest, isOp "?" (Part.written f inner ++ rest) = true) {before' : List Token} {pss : List (List Part)}
    (rounds : Rounds (isOp "+") (IsSummand f) before' pss after) :
    TyReread f plus before (.shaped (if pss.isEmpty then .bound else .traitObject)
      (code [.opening .paren] ++ inner ++ code [.closing .paren] ++ pss.flatten)) after := by
  refine tyReread_shaped fun held => ?_
  simp only [held_append, held_code, held_flatten, true_and, and_true] at held
  have trait := trait held.1
  have tokens : Part.written f (code [.opening .paren] ++ inner ++ code [.closing .paren] ++ pss.flatten) =
      Token.group .paren (Part.written f inner) ++ pss.flatMap (Part.written f) := by
    simp only [Part.written_append, Part.written_code, written_flatten]
    rfl
  rw [tokens]
  refine ⟨(trait.printable.group .paren).append (printable_summands rounds held.2), fun _ _ => rfl, fun _ _ => rfl,
    fun depth enough rest follows => ?_⟩
  have first := takes_traitGroup trait enough.left.inside.enough (pss.flatMap (Part.written f) ++ rest)
  have later := reads_summands rounds held.2 (fun ps mem => enough.below (by
    have shorter := length_le_flatMap (g := Part.written f) mem
    simp only [Token.group, List.length_append, List.length_cons]
    omega)) follows.alone
  obtain ⟨joint, us, same⟩ := exists_mark_of_startsOp '?' []
    (question (.closing .paren :: (pss.flatMap (Part.written f) ++ rest)))
  rw [List.append_assoc]
  rw [group_append, same] at first ⊢
  refine reads_tyRule_paren ?_
  unfold parenTy
  refine reads_peek_bind.2 (reads_peek_bind.2 (reads_peek_bind.2 (takes_bind first.takes fun parts => ?_)))
  refine reads_bind later fun r empty => reads_pure fun bound => ?_
  rw [empty]
  cases pss <;> exact bound

/-- Types with a comma behind the first. -/
theorem tyReread_tuple {before' after' : List Token} {first : Ty} (reread : TyReread f true before' first after')
    (unmarked : isLifetime before' = false) {others : List Part} (types : TypesReread f others) :
    TyReread f plus before (.shaped .tuple (code [.opening .paren] ++ .ty first :: (code (Token.op ",") ++ others) ++
      code [.closing .paren])) after := by
  refine tyReread_shaped fun held => ?_
  simp only [held_append, held_code, held_ty, true_and, and_true] at held
  have type := reread.tokens held.1
  have tokens : Part.written f (code [.opening .paren] ++ .ty first :: (code (Token.op ",") ++ others) ++
      code [.closing .paren]) =
        Token.group .paren ((first.mapHeads f).tokens ++ (Token.op "," ++ Part.written f others)) := by
    simp [Part.written_append, Token.group]
  have comma : Printable (Token.op ",") := printable_op (by decide)
  rw [tokens]
  refine tyTokens_of_takes rfl ((type.printable.append (comma.append (types.printable held.2))).group .paren)
    (fun _ _ => rfl) (fun _ _ => rfl) fun depth enough rest _ => ?_
  have below : Below depth (first.mapHeads f).tokens := enough.inside.left
  have inner : Below depth (Part.written f others) := enough.inside.right.right
  have further := types.takes held.2 inner rest
  have ends : endsTy (Token.op "," ++ (Part.written f others ++ .closing .paren :: rest)) = true := rfl
  have starts := type.starts (follows_of_endsTy ends)
  have inner : (do
      let first ← (deep depth).fullTy
      if ← peek (isOp ",") then
        let comma ← op ","
        return (first, some (comma ++ (← members (deep depth).tyCode)))
      return (first, none)).Reads ((first.mapHeads f).tokens ++ (Token.op "," ++ (Part.written f others ++
        Token.closing .paren :: rest))) (Token.closing .paren :: rest) fun r => r.2.isSome = true := by
    refine takes_bind (type.reads_field below (follows_of_endsTy ends)).takes fun t => reads_peek_bind.2 ?_
    exact takes_bind (reads_op "," _).takes fun comma => takes_bind further fun _ => reads_pure rfl
  rw [group_append]
  simp only [List.append_assoc]
  refine reads_tyRule_paren ?_
  unfold parenTy
  refine reads_peek_bind.2 ?_
  rw [if_neg (by simp [starts.opens])]
  refine reads_peek_bind.2 ?_
  rw [if_neg (by simp [type.unmarked unmarked])]
  refine reads_peek_bind.2 ?_
  rw [if_neg (by simp [starts.maybe])]
  refine reads_bind (reads_inside inner) fun r some => ?_
  obtain ⟨t, _ | _⟩ := r
  · cases some
  · exact reads_pure trivial

/-- The tokens are read as a type in parentheses. -/
structure InnerTokens (ts : List Token) (S : Ty → Prop) : Prop where
  printable : Printable ts
  unmarked : ∀ rest, isLifetime (ts ++ rest) = false
  reads : ∀ depth, Enough depth ts → ∀ rest, endsTy rest = true → ((deep depth).tyRule true).Reads (ts ++ rest) rest S

/-- A type in parentheses and what follows it. -/
theorem InnerTokens.reads_parenTy {ts : List Token} {S : Ty → Prop} (h : InnerTokens ts S) {depth : Nat}
    (below : Below depth ts) {mid rest : List Token} {Q : Ty → Prop} (behind : ∀ t, S t → (do
      let alone ← peek fun ts => plus && isOp "+" ts
      match parenTy.summand? t with
      | some bound =>
        if alone then
          let rest ← many (isOp "+") (seq [op "+", (deep depth).bound false])
          return .shaped .traitObject
            (code [.opening .paren] ++ bound ++ code [.closing .paren] ++ rest.flatten)
        return .paren t
      | none => return .paren t : Parser Ty).Reads mid rest Q) :
    ((deep depth).tyRule plus).Reads (Token.group .paren ts ++ mid) rest Q := by
  have ends : endsTy (.closing .paren :: mid) = true := rfl
  obtain ⟨d, rfl, enough⟩ := below.exists_pred
  have type : ((deep (d + 1)).ty true).Reads (ts ++ .closing .paren :: mid) (.closing .paren :: mid) S :=
    h.reads d enough _ ends
  have starts : StartsTy (ts ++ .closing .paren :: mid) := startsTy_of_takes (h.reads d enough _ ends).takes
  have inner : (do
      let first ← (deep (d + 1)).fullTy
      if ← peek (isOp ",") then
        let comma ← op ","
        return (first, some (comma ++ (← members (deep (d + 1)).tyCode)))
      return (first, none)).Reads (ts ++ Token.closing .paren :: mid) (Token.closing .paren :: mid)
        fun r => S r.1 ∧ r.2 = none := by
    refine reads_bind type fun t ht => reads_peek_bind.2 ?_
    exact reads_pure ⟨ht, rfl⟩
  rw [group_append]
  refine reads_tyRule_paren ?_
  unfold parenTy
  refine reads_peek_bind.2 ?_
  rw [if_neg (by simp [starts.opens])]
  refine reads_peek_bind.2 ?_
  rw [if_neg (by simp [h.unmarked])]
  refine reads_peek_bind.2 ?_
  rw [if_neg (by simp [starts.maybe])]
  refine reads_bind (reads_inside inner) fun r found => ?_
  obtain ⟨t, others⟩ := r
  obtain ⟨ht, rfl⟩ := found
  exact behind t ht

/-- A type in parentheses. -/
theorem tyReread_paren {before' after' : List Token} {inner : Ty} (reread : TyReread f true before' inner after')
    (unmarked : isLifetime before' = false) : TyReread f plus before (.paren inner) after := by
  refine ⟨fun held => ?_, nofun, fun _ held => reread.peeled rfl held⟩
  have type := reread.tokens held
  have tokens : InnerTokens (inner.mapHeads f).tokens fun _ => True :=
    ⟨type.printable, type.unmarked unmarked, fun depth enough rest ends =>
      (type.reads depth enough rest (follows_of_endsTy ends)).takes⟩
  show TyTokens plus before after _ (Token.group .paren (inner.mapHeads f).tokens)
  refine ⟨type.printable.group .paren, fun _ _ => rfl, fun _ _ => rfl, fun depth enough rest follows => ?_⟩
  refine tokens.reads_parenTy enough.inside fun t _ => reads_peek_bind.2 ?_
  have alone : (plus && isOp "+" rest) = false := by
    cases plus with
    | true => exact follows.sum rfl
    | false => rfl
  rw [alone]
  split <;> exact reads_pure nofun

/-- A type that is a single bound is read again as one. -/
theorem innerTokens_summand {before' after' : List Token} {first : Ty} (reread : TyReread f true before' first after')
    (unmarked : isLifetime before' = false) {bound : List Part} (single : parenTy.summand? first = some bound)
    (held : Held f bound) : InnerTokens (Part.written f bound) fun t => (parenTy.summand? t).isSome = true := by
  unfold parenTy.summand? at single
  split at single
  · rename_i absolute ss
    cases single
    obtain ⟨path, rooted⟩ := reread.path absolute ss rfl
    rw [held_pathCode] at held
    rw [written_pathCode]
    refine ⟨path.printable held absolute, fun rest => (path.startsTrait rest).lifetime, fun depth enough rest ends => ?_⟩
    refine (path.reads_ty held rooted enough (endsTy_spec ends).1).mono fun t found => ?_
    obtain ⟨ss', rfl, -⟩ := found
    rfl
  · rename_i parts
    cases single
    have type := reread.tokens held
    refine ⟨type.printable, type.unmarked unmarked, fun depth enough rest ends => ?_⟩
    refine (type.reads depth enough rest (follows_of_endsTy ends)).mono fun t bound => ?_
    have bound := bound rfl
    unfold Ty.isBound at bound
    split at bound
    · rfl
    · cases bound
  · cases single

/-- A single bound in parentheses, with what is joined to it. -/
theorem tyReread_parenSum {before' after' : List Token} {first : Ty} (reread : TyReread f true before' first after')
    (unmarked : isLifetime before' = false) {bound : List Part} (single : parenTy.summand? first = some bound)
    {behind : List Token} (sum : isOp "+" behind = true) {pss : List (List Part)}
    (rounds : Rounds (isOp "+") (IsSummand f) behind pss after) :
    TyReread f true before (.shaped .traitObject
      (code [.opening .paren] ++ bound ++ code [.closing .paren] ++ pss.flatten)) after := by
  refine tyReread_shaped fun held => ?_
  simp only [held_append, held_code, held_flatten, true_and, and_true] at held
  have inner := innerTokens_summand reread unmarked single held.1
  have tokens : Part.written f (code [.opening .paren] ++ bound ++ code [.closing .paren] ++ pss.flatten) =
      Token.group .paren (Part.written f bound) ++ pss.flatMap (Part.written f) := by
    simp only [Part.written_append, Part.written_code, written_flatten]
    rfl
  rw [tokens]
  refine tyTokens_of_takes rfl ((inner.printable.group .paren).append (printable_summands rounds held.2))
    (fun _ _ => rfl) (fun _ _ => rfl) fun depth enough rest follows => ?_
  have later := reads_summands rounds held.2 (fun ps mem => enough.below (by
    have shorter := length_le_flatMap (g := Part.written f) mem
    simp only [Token.group, List.length_append, List.length_cons]
    omega)) follows.alone
  have again : isOp "+" (pss.flatMap (Part.written f) ++ rest) = true := by
    cases rounds with
    | done stops =>
      rw [stops] at sum
      cases sum
    | round _ here _ =>
      obtain ⟨_, ps, rfl, -⟩ := here
      rw [List.flatMap_cons, Part.written_append, Part.written_code]
      rfl
  rw [List.append_assoc]
  refine inner.reads_parenTy enough.left.inside fun t some => reads_peek_bind.2 ?_
  rw [again]
  split
  · exact takes_bind later.takes fun r => reads_pure trivial
  · rename_i none
    rw [none] at some
    cases some

/-- What is read as a type in parentheses is read again as one. -/
theorem ensures_parenTy {g : Grammar} (rereads : Rereads f g) {ts : List Token} :
    (g.parenTy plus).Ensures ts (TyReread f plus before) := by
  unfold parenTy
  refine ensures_peek_bind.2 (ensures_ite (fun _ => ?unit) fun _ =>
    ensures_peek_bind.2 (ensures_ite (fun lifetime => ?lifetime) fun unmarked =>
      ensures_peek_bind.2 (ensures_ite (fun question => ?relaxed) fun _ => ?type)))
  case unit =>
    have empty : (group .paren (pure [])).Ensures ts fun parts _ =>
        parts = code [.opening .paren] ++ [] ++ code [.closing .paren] :=
      ensures_group fun us _ => ensures_pure fun _ _ => rfl
    exact ensures_bind empty fun parts us same => ensures_pure (same ▸ tyReread_unit)
  case lifetime =>
    have sum : (inside .paren (g.traitSum true false)).Ensures ts fun parts _ => ∃ before' after',
        isLifetime before' = true ∧ SumReread f false true before' parts after' := by
      refine ensures_inside fun us same => (ensures_traitSum rereads true false).mono fun parts vs sum _ _ => ?_
      rw [same] at lifetime
      exact ⟨us, vs, lifetime, sum⟩
    refine ensures_bind sum fun parts us found => ensures_pure ?_
    obtain ⟨before', after', lifetime, sum⟩ := found
    exact tyReread_parenLifetime lifetime sum
  case relaxed =>
    have trait : (group .paren g.traitBound).Ensures ts fun parts _ => ∃ inner after',
        parts = code [.opening .paren] ++ inner ++ code [.closing .paren] ∧
          (Held f inner → TraitTokens after' (Part.written f inner)) ∧
            ∀ rest, isOp "?" (Part.written f inner ++ rest) = true := by
      refine ensures_group fun us same => (ensures_traitBound rereads).mono fun inner vs found _ _ => ?_
      rw [same] at question
      exact ⟨inner, vs, rfl, found.1, found.2 question⟩
    refine ensures_bind trait fun parts us found => ensures_bind (ensures_summands rereads) fun pss vs rounds =>
      ensures_pure ?_
    obtain ⟨inner, after', rfl, trait, question⟩ := found
    exact tyReread_relaxed trait question rounds
  case type =>
    have inner : (inside .paren do
        let first ← g.fullTy
        if ← peek (isOp ",") then
          let comma ← op ","
          return (first, some (comma ++ (← members g.tyCode)))
        return (first, none)).Ensures ts fun r _ => ∃ before' after', isLifetime before' = false ∧
          TyReread f true before' r.1 after' ∧
            (r.2 = none ∨ ∃ others, r.2 = some (code (Token.op ",") ++ others) ∧ TypesReread f others) := by
      refine ensures_inside fun us same => ensures_bind (rereads.ty true us) fun t vs reread => ?_
      rw [same] at unmarked
      refine ensures_peek_bind.2 (ensures_ite (fun _ => ?_) fun _ => ensures_pure fun _ _ =>
        ⟨us, vs, unmarked, reread, .inl rfl⟩)
      refine ensures_bind ensures_op fun comma ws mark => ensures_bind (ensures_types rereads) fun others xs types =>
        ensures_pure fun _ _ => ⟨us, vs, unmarked, reread, .inr ⟨others, by rw [mark.2.1], types⟩⟩
    refine ensures_bind inner fun r us found => ?_
    obtain ⟨first, others⟩ := r
    obtain ⟨before', after', unmarked, reread, rfl | ⟨others, rfl, types⟩⟩ := found
    · refine ensures_peek_bind.2 ?_
      split
      · rename_i bound single
        refine ensures_ite (fun alone => ?_) fun _ => ensures_pure (tyReread_paren reread unmarked)
        obtain ⟨rfl, sum⟩ := Bool.and_eq_true_iff.1 alone
        exact ensures_bind (ensures_summands rereads) fun pss vs rounds =>
          ensures_pure (tyReread_parenSum reread unmarked single sum rounds)
      · exact ensures_pure (tyReread_paren reread unmarked)
    · exact ensures_pure (tyReread_tuple reread unmarked types)

/-! ## Types -/

/-- A sum of bounds behind `dyn`, or with a mark in between what is kept as it stands. -/
theorem ensures_dynTy {g : Grammar} (rereads : Rereads f g) {ts us : List Token} : (do
    let start ← word "dyn"
    let star ← optOp "*"
    let bounds ← g.traitSum plus false
    if star.isEmpty then return Ty.shaped .traitObject (start ++ bounds)
    let after ← ahead
    return Ty.shaped .verbatim [.embedded (.verbatim plus) (code (us.take (us.length - after.length)))]).Ensures us
      (TyReread f plus ts) := by
  refine ensures_bind ensures_word fun start vs found => ?_
  obtain ⟨rfl, rfl⟩ := found
  refine ensures_bind (ensures_suffix (p := optOp "*")) fun star ws within => ensures_bind
    ((ensures_traitSum rereads plus false).and ensures_suffix) fun parts xs found =>
      ensures_ite (fun _ => ensures_pure (tyReread_dyn found.1)) fun _ => ?_
  refine ensures_ahead_bind.2 (ensures_pure (tyReread_verbatim ?_))
  have shorter := (found.2.trans within).length_le
  have length : (Token.ident "dyn" :: vs).length - xs.length = vs.length - xs.length + 1 := by
    simp only [List.length_cons]
    omega
  exact ⟨vs.take (vs.length - xs.length), by rw [length]; rfl⟩

/-- The type of elements in brackets, with the length of an array. -/
theorem ensures_elements {g : Grammar} (rereads : Rereads f g) {us : List Token} : (inside .bracket do
    let elem ← g.tyCode
    if ← peek (isOp ";") then
      let semi ← op ";"
      return (true, elem ++ semi ++ (← embed .expression g.fullExpr))
    return (false, elem)).Ensures us fun r _ => ∃ before after t, TyReread f true before t after ∧
      ((∃ length, r = (true, [.ty t] ++ code (Token.op ";") ++ [.embedded .expression length])) ∨
        r = (false, [.ty t])) := by
  refine ensures_inside fun vs _ => ensures_bind (ensures_tyCode rereads) fun elem ws found => ?_
  obtain ⟨t, rfl, reread⟩ := found
  refine ensures_peek_bind.2 (ensures_ite (fun _ => ?_) fun _ => ensures_pure fun _ _ => ⟨vs, ws, t, reread, .inr rfl⟩)
  refine ensures_bind ensures_op fun semi xs mark => ?_
  have length : (embed .expression g.fullExpr).Ensures xs
      fun parts _ => ∃ length, parts = [.embedded .expression length] :=
    ensures_after fun length ys => ensures_pure ⟨length, rfl⟩
  refine ensures_bind length fun parts ys found => ensures_pure fun _ _ => ?_
  obtain ⟨length, rfl⟩ := found
  exact ⟨vs, ws, t, reread, .inl ⟨length, by rw [mark.2.1]⟩⟩

/-- The mark of a reference. If nothing follows the ampersand in it, no lifetime does. -/
theorem ensures_referenceMark {us : List Token} : (seq [op "&", optLifetime, optWord "mut"]).Ensures us fun parts vs =>
    ∃ lifetime exclusive, parts = code (Token.op "&" ++ referenceMark lifetime exclusive) ∧
      (∀ name ∈ lifetime, Token.Spelled name) ∧
        (lifetime = none → exclusive = false → isLifetime vs = false) := by
  have named (vs : List Token) : optLifetime.Ensures vs fun parts ws => ∃ lifetime : Option String,
      parts = code ((lifetime.map Token.lifetime).getD []) ∧ (∀ name ∈ lifetime, Token.Spelled name) ∧
        (lifetime = none → ws = vs ∧ isLifetime vs = false) := by
    refine ensures_optional (fun _ => ensures_lifetimeCode.mono fun parts ws found => ?_) fun unmarked =>
      ⟨none, rfl, nofun, fun _ => ⟨rfl, unmarked⟩⟩
    obtain ⟨name, rfl, -, spelled⟩ := found
    exact ⟨some name, rfl, fun n mem => Option.mem_some.1 mem ▸ spelled, nofun⟩
  have exclusive (vs : List Token) : (optWord "mut").Ensures vs fun parts ws => ∃ exclusive : Bool,
      parts = code (if exclusive then [.ident "mut"] else []) ∧ (exclusive = false → ws = vs) :=
    ensures_optional (fun _ => ensures_word.mono fun parts ws found => ⟨true, found.1, nofun⟩) fun _ =>
      ⟨false, rfl, fun _ => rfl⟩
  refine ensures_seq_cons ensures_op fun amp vs mark => ensures_seq_cons (named vs) fun parts ws found =>
    ensures_seq_cons (exclusive ws) fun parts' xs found' => ensures_seq_nil ?_
  obtain ⟨lifetime, rfl, spelled, unmarked⟩ := found
  obtain ⟨exclusive, rfl, shared⟩ := found'
  refine ⟨lifetime, exclusive, ?_, spelled, fun none alone => ?_⟩
  · rw [mark.2.1, referenceMark, List.append_nil]
    simp [code]
  · obtain ⟨same, unmarked⟩ := unmarked none
    rw [shared alone, same]
    exact unmarked

/-- What is read as a type is read again as one. -/
theorem ensures_tyRule {g : Grammar} (rereads : Rereads f g) (heads : Heads f) (plus : Bool) (ts : List Token) :
    (g.tyRule plus).Ensures ts (TyReread f plus ts) := by
  unfold tyRule
  refine ensures_bind (ensures_binder rereads) fun binder us found => ensures_ahead_bind.2 ?_
  have bound : BinderReread f ts binder := found.imp (fun none => ⟨none.1, none.2.2⟩) id
  refine ensures_when_guarded_bind fun guard => ?_
  -- nothing but a path or a function stands behind parameters
  have alone (other : startsPathTy us = false) (function : startsFunctionTy us = false) : us = ts := by
    rcases found with ⟨-, same, -⟩ | ⟨-, params, trailing, rfl, -⟩
    · exact same
    · have starts := guard rfl
      rw [other, function] at starts
      cases starts
  refine ensures_ite (fun _ => ensures_parenTy rereads) fun _ => ensures_ite (fun _ => ?function) fun function =>
    ensures_ite (fun starts => ?path) fun other => ensures_ite (fun dyn => ?dyn) fun _ => ensures_ite (fun _ => ?bracket)
      fun _ => ensures_ite (fun _ => ?pointer) fun _ => ensures_ite (fun _ => ?reference) fun _ => ensures_ite
        (fun _ => ?never) fun _ => ensures_ite (fun _ => ?some) fun _ => ensures_ite (fun word => ?inferred) fun _ =>
          ensures_ite (fun lifetime => ?lifetime) fun _ => ensures_failure
  case function =>
    exact ensures_bind (ensures_functionTy rereads) fun parts vs tokens => ensures_pure (tyReread_function bound tokens)
  case path =>
    refine ensures_namedTy rereads heads bound starts fun some => ?_
    have fits := guard (by simpa using some)
    simpa [function, starts] using fits
  case dyn => exact ensures_dynTy rereads
  case bracket =>
    refine ensures_bind (ensures_elements rereads) fun r vs found => ?_
    obtain ⟨before, after, t, reread, ⟨length, rfl⟩ | rfl⟩ := found
    · exact ensures_pure (tyReread_array reread length)
    · exact ensures_pure (tyReread_slice reread)
  case pointer =>
    refine ensures_bind ensures_op fun star vs mark => ensures_peek_bind.2 ?_
    have target {kind : String} (known : kind = "const" ∨ kind = "mut") : (do
        let kind ← word kind
        return Ty.shaped .pointer (star ++ kind ++ [Part.ty (← g.ty false)])).Ensures vs (TyReread f plus ts) := by
      refine ensures_bind ensures_word fun parts ws found => ensures_bind (rereads.ty false ws) fun t xs reread =>
        ensures_pure ?_
      rw [mark.2.1, found.1]
      exact tyReread_pointer known reread
    exact ensures_ite (fun _ => target (.inl rfl)) fun _ => target (.inr rfl)
  case reference =>
    refine ensures_bind ensures_referenceMark fun parts vs found => ensures_bind (rereads.ty false vs)
      fun t ws reread => ensures_pure ?_
    obtain ⟨lifetime, exclusive, rfl, spelled, unmarked⟩ := found
    exact tyReread_reference spelled reread unmarked
  case never => exact ensures_bind ensures_op fun bang vs mark => ensures_pure (mark.2.1 ▸ tyReread_never)
  case some =>
    refine ensures_bind ensures_word fun start vs found =>
      ensures_bind (ensures_traitSum rereads plus true) fun parts ws sum => ensures_pure ?_
    rw [found.1]
    exact tyReread_some sum
  case inferred =>
    have inferred : anyWordCode.Ensures us fun parts _ => parts = code [.ident "_"] := by
      refine ensures_bind ensures_anyWord fun name vs found => ensures_pure ?_
      rw [found.1] at word
      rw [beq_iff_eq.1 (word : (name == "_") = true)]
    exact ensures_bind inferred fun parts vs same => ensures_pure (same ▸ tyReread_inferred)
  case lifetime =>
    obtain rfl := alone other function
    exact ensures_bind (ensures_traitSum rereads true false) fun parts vs sum =>
      ensures_pure (tyReread_lifetime lifetime sum)

/-- What the rules give is read again, however often they refer to each other. -/
theorem rereads_deep (heads : Heads f) (depth : Nat) : Rereads f (deep depth) := by
  induction depth with
  | zero => exact ⟨fun _ _ => ensures_failure, fun _ _ => ensures_failure⟩
  | succ depth ih =>
    exact ⟨fun plus ts => ensures_tyRule ih heads plus ts, fun captures ts => ensures_boundRule ih captures ts⟩

end

end LiveSettings.Grammar
