import LiveSettings.Proofs.Code.Reading
import LiveSettings.Proofs.Token.Identifiers

/-!
# What parsers ensure

`Ensures p ts Q` says that `Q` holds of whatever a parser gives on tokens and of what it leaves, if it succeeds. It is
the converse of `Reads`: a parser that has succeeded has found what it looks for. One law for each way of building
parsers; of a loop the rounds are kept.

Results: `ensures_bind`, `ensures_many`, `ensures_separatedLoop`; `Rounds.reads`, `Listing.reads` (a loop goes through
its rounds again on other tokens).
-/

namespace LiveSettings.Parser

variable {α β : Type}

/-- The words among the tokens can be written. -/
def Worded (ts : List Token) : Prop := ∀ name, .ident name ∈ ts → Token.Spelled name

/-- If the parser succeeds on the tokens, which hold words that can be written, its result and what it leaves are as
said. -/
def Ensures (p : Parser α) (ts : List Token) (Q : α → List Token → Prop) : Prop :=
  Worded ts → ∀ found a s', p.run ⟨ts, found⟩ = some (a, s') → Q a s'.rest

section

variable {p : Parser α} {f : α → Parser β} {ts us : List Token} {Q : β → List Token → Prop} {R : α → List Token → Prop}

theorem ensures_trivial : p.Ensures ts fun _ _ => True := fun _ _ _ _ _ => trivial

theorem ensures_suffix : p.Ensures ts fun _ us => us <:+ ts := fun _ _ _ _ run => suffix_of_run run

theorem Ensures.mono (h : p.Ensures ts R) {S : α → List Token → Prop} (imp : ∀ a us, R a us → S a us) :
    p.Ensures ts S :=
  fun words found a s' run => imp a _ (h words found a s' run)

theorem Ensures.and {S : α → List Token → Prop} (h : p.Ensures ts R) (h' : p.Ensures ts S) :
    p.Ensures ts fun a us => R a us ∧ S a us :=
  fun words found a s' run => ⟨h words found a s' run, h' words found a s' run⟩

theorem ensures_pure {a : α} (h : R a ts) : (pure a : Parser α).Ensures ts R := by
  intro _ found b s' run
  cases run
  exact h

theorem ensures_failure : (failure : Parser α).Ensures ts R := by
  intro _ found b s' run
  cases run

theorem ensures_bind (first : p.Ensures ts R) (second : ∀ a us, R a us → (f a).Ensures us Q) :
    (p >>= f).Ensures ts Q := by
  intro words found b s'' run
  rw [run_bind] at run
  obtain ⟨⟨a, s'⟩, here, later⟩ := Option.bind_eq_some_iff.1 run
  have within : s'.rest <:+ ts := suffix_of_run here
  exact second a s'.rest (first words found a s' here) (fun name mem => words name (within.subset mem)) _ b s'' later

/-- What the parser in front gives does not matter. -/
theorem ensures_after (second : ∀ a us, (f a).Ensures us Q) : (p >>= f).Ensures ts Q :=
  ensures_bind ensures_trivial fun a us _ => second a us

theorem ensures_discard {S : List Token → Prop} (h : p.Ensures ts fun _ us => S us) :
    (discard p : Parser Unit).Ensures ts fun _ us => S us := by
  intro words found b s' run
  rw [run_discard] at run
  obtain ⟨⟨a, s''⟩, here, same⟩ := Option.map_eq_some_iff.1 run
  cases same
  exact h words found a s'' here

theorem ensures_discard_bind {f : Unit → Parser β} (first : p.Ensures ts R)
    (second : ∀ a us, R a us → (f ()).Ensures us Q) : ((discard p : Parser Unit) >>= f).Ensures ts Q :=
  ensures_bind (R := fun _ us => ∃ a, R a us) (ensures_discard (first.mono fun a _ ha => ⟨a, ha⟩))
    fun _ us given => given.elim fun a ha => second a us ha

@[simp]
theorem ensures_ahead_bind {f : List Token → Parser β} : (ahead >>= f).Ensures ts Q ↔ (f ts).Ensures ts Q := by
  simp only [Ensures, run_bind, run_ahead, Option.bind_some]

@[simp]
theorem ensures_peek_bind {look : List Token → Bool} {f : Bool → Parser β} :
    (peek look >>= f).Ensures ts Q ↔ (f (look ts)).Ensures ts Q := by
  simp only [Ensures, run_bind, run_peek, Option.bind_some]

theorem ensures_pure_bind {a : α} (h : (f a).Ensures ts Q) : ((pure a : Parser α) >>= f).Ensures ts Q :=
  ensures_bind (ensures_pure (R := fun b us => b = a ∧ us = ts) ⟨rfl, rfl⟩) fun b us same => by
    rw [same.1, same.2]
    exact h

theorem ensures_ite {b : Bool} {p q : Parser α} (first : b = true → p.Ensures ts R) (second : b = false → q.Ensures ts R) :
    (if b = true then p else q).Ensures ts R := by
  cases b with
  | true => exact first rfl
  | false => exact second rfl

theorem ensures_guarded_bind {b : Bool} {f : Unit → Parser β} (later : b = true → (f ()).Ensures ts Q) :
    (guarded b >>= f).Ensures ts Q := by
  cases b with
  | true => exact ensures_bind (R := fun _ us => us = ts) (ensures_pure rfl) fun _ us same => same ▸ later rfl
  | false => exact ensures_bind (R := fun _ _ => False) ensures_failure fun _ _ no => no.elim

/-- A condition that is checked only where something stands in front. -/
theorem ensures_when_guarded_bind {b c : Bool} {f : Unit → Parser β}
    (later : (b = true → c = true) → (f ()).Ensures ts Q) : (if b = true then guarded c >>= f else f ()).Ensures ts Q := by
  cases b with
  | true => exact ensures_guarded_bind fun here => later fun _ => here
  | false => exact later nofun

theorem ensures_next : next.Ensures ts fun t us => ts = t :: us := by
  intro _ found t s' run
  cases ts with
  | nil => cases run
  | cons u us =>
    cases run
    rfl

/-! ## Marks and words -/

theorem ensures_op {w : String} :
    (op w).Ensures ts fun a us => isOp w ts = true ∧ a = code (Token.op w) ∧ us = ts.drop w.length := by
  unfold op
  refine ensures_ahead_bind.2 (ensures_guarded_bind fun here _ found a s' run => ?_)
  cases run
  exact ⟨here, rfl, rfl⟩

theorem ensures_word {w : String} : (word w).Ensures ts fun a us => a = code [.ident w] ∧ ts = .ident w :: us := by
  unfold word
  refine ensures_ahead_bind.2 (ensures_guarded_bind fun here => ?_)
  refine ensures_bind ensures_next fun t us same => ensures_pure ?_
  subst same
  cases t with
  | ident name =>
    rw [beq_iff_eq.1 (here : (name == w) = true)]
    exact ⟨rfl, rfl⟩
  | mark _ _ | literal _ | opening _ | closing _ => cases here

theorem ensures_anyWord : anyWord.Ensures ts fun name us => ts = .ident name :: us ∧ Token.Spelled name := by
  intro words found name s' run
  cases ts with
  | nil => cases run
  | cons t ts =>
    cases t with
    | ident n =>
      cases run
      exact ⟨rfl, words _ List.mem_cons_self⟩
    | mark _ _ | literal _ | opening _ | closing _ => cases run

theorem ensures_ident :
    ident.Ensures ts fun name us => ts = .ident name :: us ∧ Token.Spelled name ∧ name ∉ keywords := by
  unfold ident
  refine ensures_ahead_bind.2 (ensures_guarded_bind fun here words found name s' run => ?_)
  cases ts with
  | nil => cases run
  | cons t ts =>
    cases t with
    | ident n =>
      cases run
      exact ⟨rfl, words _ List.mem_cons_self, by simpa [isIdent] using here⟩
    | mark _ _ | literal _ | opening _ | closing _ => cases here

theorem exists_of_isLifetime (h : isLifetime ts = true) : ∃ name us, ts = Token.lifetime name ++ us := by
  unfold isLifetime at h
  split at h
  · exact ⟨_, _, rfl⟩
  · cases h

theorem ensures_lifetime :
    lifetime.Ensures ts fun name us => ts = Token.lifetime name ++ us ∧ Token.Spelled name := by
  unfold lifetime
  refine ensures_ahead_bind.2 (ensures_guarded_bind fun here words found name s' run => ?_)
  obtain ⟨n, us, rfl⟩ := exists_of_isLifetime here
  cases run
  exact ⟨rfl, words _ (by simp [Token.lifetime])⟩

theorem ensures_lifetimeCode : lifetimeCode.Ensures ts fun parts us =>
    ∃ name, parts = code (Token.lifetime name) ∧ ts = Token.lifetime name ++ us ∧ Token.Spelled name :=
  ensures_bind ensures_lifetime fun name _ given => ensures_pure ⟨name, rfl, given⟩

/-! ## Combinations -/

theorem ensures_seq_cons {p : Parser (List Part)} {ps : List (Parser (List Part))} {R Q : List Part → List Token → Prop}
    (first : p.Ensures ts R) (later : ∀ a us, R a us → (seq ps).Ensures us fun b vs => Q (a ++ b) vs) :
    (seq (p :: ps)).Ensures ts Q := by
  unfold seq
  exact ensures_bind first fun a us ha => ensures_bind (later a us ha) fun b vs hb => ensures_pure hb

theorem ensures_seq_nil {Q : List Part → List Token → Prop} (h : Q [] ts) : (seq []).Ensures ts Q := ensures_pure h

theorem ensures_optional {look : List Token → Bool} {p : Parser (List Part)} {Q : List Part → List Token → Prop}
    (first : look ts = true → p.Ensures ts Q) (second : look ts = false → Q [] ts) :
    (optional look p).Ensures ts Q := by
  unfold optional
  exact ensures_peek_bind.2 (ensures_ite first fun none => ensures_pure (second none))

theorem ensures_inside {d : Delimiter} {S : α → List Token → Prop}
    (h : ∀ us, ts = .opening d :: us → p.Ensures us fun a vs => ∀ rest, vs = .closing d :: rest → S a rest) :
    (inside d p).Ensures ts S := by
  unfold inside
  refine ensures_ahead_bind.2 (ensures_guarded_bind fun here => ?_)
  obtain ⟨us, rfl⟩ := exists_of_isOpening here
  refine ensures_discard_bind ensures_next fun t vs same => ?_
  cases same
  refine ensures_bind (h us rfl) fun a ws ha => ensures_bind ensures_next fun t rest same => ?_
  cases t with
  | closing e =>
    dsimp only
    split
    · rename_i fits
      exact ensures_pure (ha rest (fits ▸ same))
    · exact ensures_failure
  | ident _ | mark _ _ | literal _ | opening _ => exact ensures_failure

theorem ensures_group {d : Delimiter} {p : Parser (List Part)} {S : List Part → List Token → Prop}
    (h : ∀ us, ts = .opening d :: us → p.Ensures us fun a vs => ∀ rest, vs = .closing d :: rest →
      S (code [.opening d] ++ a ++ code [.closing d]) rest) : (group d p).Ensures ts S :=
  ensures_bind (ensures_inside h) fun _ _ given => ensures_pure given

end

/-! ## Loops -/

/-- The rounds of a loop, with what each of them found and left. -/
inductive Rounds (look : List Token → Bool) (R : List Token → α → List Token → Prop) :
    List Token → List α → List Token → Prop
  | done {ts : List Token} (stops : look ts = false) : Rounds look R ts [] ts
  | round {ts us vs : List Token} {a : α} {as : List α} (goes : look ts = true) (here : R ts a us)
    (later : Rounds look R us as vs) : Rounds look R ts (a :: as) vs

/-- The rounds of a loop with separators between them. -/
inductive Listing (stop more : List Token → Bool) (sep : String) (R : List Token → α → List Token → Prop) :
    List Token → List α → Bool → List Token → Prop
  | stopped {ts : List Token} (stops : stop ts = true) : Listing stop more sep R ts [] true ts
  | last {ts us : List Token} {a : α} (here : R ts a us) (alone : more us = false) :
    Listing stop more sep R ts [a] false us
  | round {ts us vs : List Token} {a : α} {as : List α} {trailing : Bool} (here : R ts a us) (between : isOp sep us = true)
    (later : Listing stop more sep R (us.drop sep.length) as trailing vs) : Listing stop more sep R ts (a :: as) trailing vs

section

variable {p : Parser α} {ts : List Token} {R : List Token → α → List Token → Prop}

theorem ensures_many {look : List Token → Bool} (h : ∀ us, look us = true → p.Ensures us (R us)) :
    (many look p).Ensures ts (Rounds look R ts) := by
  have loop (fuel : Nat) (ts : List Token) : (manyLoop look p fuel).Ensures ts (Rounds look R ts) := by
    induction fuel generalizing ts with
    | zero => exact ensures_failure
    | succ fuel ih =>
      unfold manyLoop
      refine ensures_peek_bind.2 (ensures_ite (fun goes => ?_) fun stops => ensures_pure (.done stops))
      exact ensures_bind (h ts goes) fun a us here => ensures_bind (ih us) fun as vs later =>
        ensures_pure (.round goes here later)
  unfold many
  exact ensures_ahead_bind.2 (loop _ ts)

theorem ensures_separatedLoop {stop more : List Token → Bool} {sep : String}
    (h : ∀ us, stop us = false → p.Ensures us (R us)) (fuel : Nat) :
    (separatedLoop stop more (op sep) p fuel).Ensures ts fun r us => Listing stop more sep R ts r.1 r.2 us := by
  induction fuel generalizing ts with
  | zero => exact ensures_failure
  | succ fuel ih =>
    unfold separatedLoop
    refine ensures_peek_bind.2 (ensures_ite (fun stops => ensures_pure (.stopped stops)) fun goes => ?_)
    refine ensures_bind (h ts goes) fun a us here => ensures_peek_bind.2 (ensures_ite (fun _ => ?_) fun alone => ?_)
    · refine ensures_discard_bind ensures_op fun b vs found => ?_
      obtain ⟨between, -, rfl⟩ := found
      exact ensures_bind ih fun r ws later => ensures_pure (.round here between later)
    · exact ensures_pure (.last here alone)

theorem ensures_separated {stop : List Token → Bool} {sep : String} (h : ∀ us, stop us = false → p.Ensures us (R us)) :
    (separated stop sep p).Ensures ts fun r us => Listing stop (fun ts => !stop ts) sep R ts r.1 r.2 us :=
  ensures_ahead_bind.2 (ensures_separatedLoop h _)

theorem ensures_chained {stop : List Token → Bool} {sep : String} (h : ∀ us, stop us = false → p.Ensures us (R us)) :
    (chained stop sep p).Ensures ts fun r us => Listing stop (isOp sep) sep R ts r.1 r.2 us :=
  ensures_ahead_bind.2 (ensures_separatedLoop h _)

theorem ensures_chainedCode {stop : List Token → Bool} {sep : String} {p : Parser (List Part)}
    {R : List Token → List Part → List Token → Prop} (h : ∀ us, stop us = false → p.Ensures us (R us)) :
    (chainedCode stop sep p).Ensures ts fun parts us =>
      ∃ members trailing, parts = joinCode sep members trailing ∧
        Listing stop (isOp sep) sep R ts members trailing us :=
  ensures_bind (ensures_chained h) fun _ _ given => ensures_pure ⟨_, _, rfl, given⟩

theorem Rounds.forall {look : List Token → Bool} {as : List α} {us : List Token} (h : Rounds look R ts as us)
    {S : α → Prop} (each : ∀ ts a us, R ts a us → S a) : ∀ a ∈ as, S a := by
  induction h with
  | done _ => exact fun a mem => nomatch mem
  | round _ here _ ih => exact List.forall_mem_cons.2 ⟨each _ _ _ here, ih⟩

theorem Rounds.stops {look : List Token → Bool} {as : List α} {us : List Token} (h : Rounds look R ts as us) :
    look us = false := by
  induction h with
  | done stops => exact stops
  | round _ _ _ ih => exact ih

/-- Behind a last separator the loop has stopped. -/
theorem Listing.stops {stop more : List Token → Bool} {sep : String} {as : List α} {us : List Token}
    (h : Listing stop more sep R ts as true us) : stop us = true := by
  generalize same : true = trailing at h
  induction h with
  | stopped stops => exact stops
  | last _ _ => cases same
  | round _ _ _ ih => exact ih same

/-- Behind a last member without separator the loop does not go on. -/
theorem Listing.alone {stop more : List Token → Bool} {sep : String} {as : List α} {us : List Token}
    (h : Listing stop more sep R ts as false us) : more us = false := by
  generalize same : false = trailing at h
  induction h with
  | stopped _ => cases same
  | last _ alone => exact alone
  | round _ _ _ ih => exact ih same

theorem Listing.forall {stop more : List Token → Bool} {sep : String} {as : List α} {trailing : Bool} {us : List Token}
    (h : Listing stop more sep R ts as trailing us) {S : α → Prop} (each : ∀ ts a us, R ts a us → S a) :
    ∀ a ∈ as, S a := by
  induction h with
  | stopped _ => exact fun a mem => nomatch mem
  | last here _ => exact List.forall_mem_singleton.2 (each _ _ _ here)
  | round here _ _ ih => exact List.forall_mem_cons.2 ⟨each _ _ _ here, ih⟩

/-! ## The same rounds again -/

variable {q : Parser β} {as : List α} {us vs rest : List Token} {tokens : α → List Token} {S : α → β → Prop}

/-- A loop goes through its rounds again on what is written of them, if the end is as it was. -/
theorem Rounds.reads {look : List Token → Bool} (h : Rounds look R us as vs) (stops : look rest = false)
    (each : ∀ a ∈ as, ∀ ts us, R ts a us → tokens a ≠ [] ∧ (∀ r, look (tokens a ++ r) = true) ∧
      ∀ r, (us = vs ∧ r = rest) ∨ (look us = true ∧ look r = true) → q.Reads (tokens a ++ r) r (S a)) :
    (many look q).Reads (as.flatMap tokens ++ rest) rest (List.Forall₂ S as) := by
  have loop : LoopReads (manyLoop look q) (as.flatMap tokens ++ rest) rest (List.Forall₂ S as) := by
    induction h with
    | done _ =>
      refine loopReads_of_last fun fuel => ?_
      unfold manyLoop
      rw [List.flatMap_nil, List.nil_append, reads_peek_bind, stops]
      exact reads_pure .nil
    | @round ts us vs a as goes here later ih =>
      obtain ⟨some, looks, reads⟩ := each a List.mem_cons_self _ _ here
      have tail := ih fun b mem => each b (List.mem_cons_of_mem _ mem)
      have follows : (us = vs ∧ as.flatMap tokens ++ rest = rest) ∨
          (look us = true ∧ look (as.flatMap tokens ++ rest) = true) := by
        cases later with
        | done _ => exact .inl ⟨rfl, rfl⟩
        | @round _ _ _ b bs goes' there _ =>
          obtain ⟨-, looks', -⟩ := each b (List.mem_cons_of_mem _ List.mem_cons_self) _ _ there
          rw [List.flatMap_cons, List.append_assoc]
          exact .inr ⟨goes', looks' _⟩
      have length := List.length_pos_iff.2 some
      rw [List.flatMap_cons, List.append_assoc]
      refine loopReads_of_round (by simp only [List.length_append]; omega) tail fun fuel tail => ?_
      unfold manyLoop
      rw [reads_peek_bind, looks]
      exact reads_bind (reads _ follows) fun b hb => reads_bind tail fun bs hbs => reads_pure (.cons hb hbs)
  unfold many
  exact reads_ahead_bind.2 (loop _ (Nat.lt_succ_self _))

/-- Behind a separator stand the later members, or a last separator. -/
theorem Listing.listed_cons {stop more : List Token → Bool} {sep : String} {trailing : Bool}
    (h : Listing stop more sep R us as trailing vs) (ts : List Token) :
    listed sep trailing (ts :: as.map tokens) = ts ++ (Token.op sep ++ listed sep trailing (as.map tokens)) := by
  cases h with
  | stopped _ => exact congrArg (ts ++ ·) (List.append_nil _).symm
  | last _ _ | round _ _ _ => rw [List.map_cons, listed, List.append_assoc]

/-- A loop with separators goes through its rounds again on what is written of them, if the end is as it was. -/
theorem Listing.reads {stop₀ more₀ stop more : List Token → Bool} {sep : String} {trailing : Bool}
    (h : Listing stop₀ more₀ sep R us as trailing vs) (further : ∀ r, more (Token.op sep ++ r) = true)
    (ended : trailing = true → stop rest = true) (alone : trailing = false → more rest = false)
    (each : ∀ a ∈ as, ∀ ts us, R ts a us → tokens a ≠ [] ∧ (∀ r, stop (tokens a ++ r) = false) ∧
      ∀ r, (us = vs ∧ r = rest) ∨ (isOp sep us = true ∧ ∃ r', r = Token.op sep ++ r') →
        q.Reads (tokens a ++ r) r (S a)) :
    LoopReads (separatedLoop stop more (op sep) q) (listed sep trailing (as.map tokens) ++ rest) rest
      fun r => List.Forall₂ S as r.1 := by
  induction h with
  | stopped _ =>
    refine loopReads_of_last fun fuel => ?_
    unfold separatedLoop
    refine reads_peek_bind.2 ?_
    rw [List.map_nil, listed, List.nil_append, ended rfl]
    exact reads_pure .nil
  | last here _ =>
    obtain ⟨-, looks, reads⟩ := each _ List.mem_cons_self _ _ here
    refine loopReads_of_last fun fuel => ?_
    show (separatedLoop stop more (op sep) q (fuel + 1)).Reads (_ ++ [] ++ rest) rest _
    rw [List.append_nil]
    unfold separatedLoop
    refine reads_peek_bind.2 ?_
    rw [looks]
    refine reads_bind (reads _ (.inl ⟨rfl, rfl⟩)) fun b hb => reads_peek_bind.2 ?_
    rw [alone rfl]
    exact reads_pure (.cons hb .nil)
  | @round ts us vs a as trailing here between later ih =>
    obtain ⟨some, looks, reads⟩ := each a List.mem_cons_self _ _ here
    have tail := ih ended alone fun b mem => each b (List.mem_cons_of_mem _ mem)
    have length := List.length_pos_iff.2 some
    rw [List.map_cons, later.listed_cons, List.append_assoc, List.append_assoc]
    refine loopReads_of_round (by simp only [List.length_append]; omega) tail fun fuel tail => ?_
    unfold separatedLoop
    refine reads_peek_bind.2 ?_
    rw [looks]
    refine reads_bind (reads _ (.inr ⟨between, _, rfl⟩)) fun b hb => reads_peek_bind.2 ?_
    rw [further]
    exact takes_discard_bind (reads_op sep _).takes (reads_bind tail fun r hr => reads_pure (.cons hb hr))

end

end LiveSettings.Parser
