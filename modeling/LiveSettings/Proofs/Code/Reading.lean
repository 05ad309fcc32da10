import Mathlib.Data.List.Forall2
import LiveSettings.Code.Grammar.Items

/-!
# What parsers read

`Reads p ts rest Q` says that a parser succeeds on given tokens: what it leaves and what holds of its result.
One law for each way of building parsers; a loop reads on, round by round, as long as each round takes a token.

Results: `reads_bind` (one parser reads on from what the other leaves), `reads_many` (code pieces one after the
other), `reads_separated`, `takes_chainedCode` (code pieces with separators between them).
-/

namespace LiveSettings.Parser

variable {α β : Type}

/-- From the tokens `ts` the parser gives a result as said and leaves `rest`, whatever items are noted. -/
def Reads (p : Parser α) (ts rest : List Token) (Q : α → Prop) : Prop :=
  ∀ found, ∃ a found', p.run ⟨ts, found⟩ = some (a, ⟨rest, found'⟩) ∧ Q a

/-- The parser reads, whatever it gives. -/
abbrev Takes (p : Parser α) (ts rest : List Token) : Prop := p.Reads ts rest fun _ => True

/-- The parser fails on the tokens. -/
def Fails (p : Parser α) (ts : List Token) : Prop := ∀ found, p.run ⟨ts, found⟩ = none

section

variable {p : Parser α} {f : α → Parser β} {ts mid rest : List Token} {Q : β → Prop} {R : α → Prop}

theorem reads_pure {a : α} (h : R a) : (pure a : Parser α).Reads ts ts R := fun found => ⟨a, found, rfl, h⟩

theorem reads_bind (first : p.Reads ts mid R) (second : ∀ a, R a → (f a).Reads mid rest Q) :
    (p >>= f).Reads ts rest Q := by
  intro found
  obtain ⟨a, found', here, ha⟩ := first found
  obtain ⟨b, found'', there, hb⟩ := second a ha found'
  refine ⟨b, found'', ?_, hb⟩
  rw [run_bind, here]
  exact there

theorem reads_pure_bind {a : α} (h : (f a).Reads ts rest Q) : ((pure a : Parser α) >>= f).Reads ts rest Q :=
  reads_bind (reads_pure (R := (· = a)) rfl) fun b same => by
    rw [same]
    exact h

theorem Reads.mono (h : p.Reads ts rest R) {S : α → Prop} (imp : ∀ a, R a → S a) : p.Reads ts rest S :=
  fun found => let ⟨a, found', run, ha⟩ := h found; ⟨a, found', run, imp a ha⟩

theorem Reads.takes (h : p.Reads ts rest R) : p.Takes ts rest := h.mono fun _ _ => trivial

theorem takes_bind (first : p.Takes ts mid) (second : ∀ a, (f a).Reads mid rest Q) : (p >>= f).Reads ts rest Q :=
  reads_bind first fun a _ => second a

theorem takes_discard (h : p.Takes ts rest) : (discard p : Parser Unit).Takes ts rest := by
  intro found
  obtain ⟨a, found', here, -⟩ := h found
  exact ⟨(), found', by rw [run_discard, here]; rfl, trivial⟩

theorem takes_discard_bind {f : Unit → Parser β} (first : p.Takes ts mid) (second : (f ()).Reads mid rest Q) :
    ((discard p : Parser Unit) >>= f).Reads ts rest Q :=
  reads_bind (takes_discard first) fun _ _ => second

theorem fails_bind (h : p.Fails ts) : (p >>= f).Fails ts := fun found => by rw [run_bind, h found]; rfl

theorem fails_bind_of_reads (first : p.Reads ts mid R) (second : ∀ a, R a → (f a).Fails mid) :
    (p >>= f).Fails ts := by
  intro found
  obtain ⟨a, found', here, ha⟩ := first found
  rw [run_bind, here]
  exact second a ha found'

/-! ## Single steps -/

theorem run_ahead (s : Input) : ahead.run s = some (s.rest, s) := rfl

theorem run_peek (look : List Token → Bool) (s : Input) : (peek look).run s = some (look s.rest, s) := rfl

theorem run_next (t : Token) (ts : List Token) (found : List Item) :
    next.run ⟨t :: ts, found⟩ = some (t, ⟨ts, found⟩) := rfl

theorem run_behind (p : Parser α) (s : Input) : (behind p).run s = some ((p.run s).map (·.2.rest), s) := rfl

theorem run_exchange (items : List Item) (s : Input) :
    (exchange items).run s = some (s.found, { s with found := items }) := rfl

@[simp]
theorem reads_ahead_bind {f : List Token → Parser β} :
    (ahead >>= f).Reads ts rest Q ↔ (f ts).Reads ts rest Q := by
  simp only [Reads, run_bind, run_ahead, Option.bind_some]

@[simp]
theorem reads_peek_bind {look : List Token → Bool} {f : Bool → Parser β} :
    (peek look >>= f).Reads ts rest Q ↔ (f (look ts)).Reads ts rest Q := by
  simp only [Reads, run_bind, run_peek, Option.bind_some]

@[simp]
theorem fails_ahead_bind {f : List Token → Parser β} : (ahead >>= f).Fails ts ↔ (f ts).Fails ts := by
  simp only [Fails, run_bind, run_ahead, Option.bind_some]

@[simp]
theorem fails_peek_bind {look : List Token → Bool} {f : Bool → Parser β} :
    (peek look >>= f).Fails ts ↔ (f (look ts)).Fails ts := by
  simp only [Fails, run_bind, run_peek, Option.bind_some]

@[simp]
theorem reads_next_bind {t : Token} {f : Token → Parser β} :
    (next >>= f).Reads (t :: ts) rest Q ↔ (f t).Reads ts rest Q := by
  simp only [Reads, run_bind, run_next, Option.bind_some]

theorem takes_next (t : Token) (ts : List Token) : next.Takes (t :: ts) ts := fun found => ⟨t, found, rfl, trivial⟩

theorem reads_guarded {b : Bool} (h : b = true) : (guarded b).Takes ts ts := by
  subst h
  exact reads_pure trivial

theorem reads_guarded_bind {b : Bool} (h : b = true) {f : Unit → Parser β} (later : (f ()).Reads ts rest Q) :
    (guarded b >>= f).Reads ts rest Q :=
  reads_bind (reads_guarded h) fun _ _ => later

theorem fails_guarded_bind {b : Bool} (h : b = false) {f : Unit → Parser β} : (guarded b >>= f).Fails ts := by
  subst h
  exact fun _ => rfl

/-- A parser that runs only where something stands in front. -/
theorem reads_when_bind {b : Bool} {p : Parser Unit} {f : Unit → Parser β}
    (first : b = true → p.Takes ts mid) (skipped : b = false → ts = mid) (later : (f ()).Reads mid rest Q) :
    (if b = true then p >>= f else f ()).Reads ts rest Q := by
  cases b with
  | true => exact takes_bind (first rfl) fun _ => later
  | false => rwa [skipped rfl]

/-- Whether a parser would succeed. -/
theorem reads_succeeds (h : p.Takes ts rest) : (succeeds p).Reads ts ts (· = true) := by
  intro found
  obtain ⟨a, found', here, -⟩ := h found
  refine ⟨true, found, ?_, rfl⟩
  rw [succeeds, run_bind, run_behind, here]
  rfl

theorem reads_not_succeeds (h : p.Fails ts) : (succeeds p).Reads ts ts (· = false) := by
  intro found
  refine ⟨false, found, ?_, rfl⟩
  rw [succeeds, run_bind, run_behind, h found]
  rfl

theorem reads_behind (h : p.Takes ts rest) : (behind p).Reads ts ts (· = some rest) := by
  intro found
  obtain ⟨a, found', here, -⟩ := h found
  exact ⟨some rest, found, by rw [run_behind, here]; rfl, rfl⟩

theorem reads_not_behind (h : p.Fails ts) : (behind p).Reads ts ts (· = none) :=
  fun found => ⟨none, found, by rw [run_behind, h found]; rfl, rfl⟩

/-- The items that the parser notes do not matter to what it reads. -/
theorem reads_collecting (h : p.Reads ts rest R) : (collecting p).Reads ts rest fun r => R r.1 := by
  intro found
  obtain ⟨a, found', here, ha⟩ := h []
  refine ⟨(a, found'), found, ?_, ha⟩
  rw [collecting, run_bind, run_exchange]
  simp only [Option.bind_some, run_bind, here, run_exchange, run_pure]

theorem takes_note (items : List Item) : (note items).Takes ts ts :=
  fun found => ⟨(), found ++ items, rfl, trivial⟩

/-! ## Marks and words -/

theorem startsOp_marks (cs : List Char) (rest : List Token) : startsOp cs (Token.marks cs ++ rest) = true := by
  induction cs with
  | nil => rfl
  | cons c cs ih =>
    cases cs with
    | nil => simp [Token.marks, startsOp]
    | cons d cs =>
      rw [Token.marks, List.cons_append, startsOp, beq_self_eq_true, Bool.true_and]
      · exact ih
      · exact nofun
      · exact nofun

theorem length_marks (cs : List Char) : (Token.marks cs).length = cs.length := by
  induction cs with
  | nil => rfl
  | cons c cs ih =>
    cases cs with
    | nil => rfl
    | cons d cs => simpa [Token.marks] using ih

/-- An operator, of which the last mark may be joined to what follows. -/
theorem reads_op_of_isOp {spelling : String} (here : isOp spelling ts = true) :
    (op spelling).Reads ts (ts.drop spelling.length) (· = code (Token.op spelling)) := by
  unfold op
  rw [reads_ahead_bind]
  exact reads_guarded_bind here fun found => ⟨_, found, rfl, rfl⟩

theorem reads_op (spelling : String) (rest : List Token) :
    (op spelling).Reads (Token.op spelling ++ rest) rest (· = code (Token.op spelling)) := by
  have length : spelling.length = (Token.op spelling).length := by
    rw [Token.op, length_marks, String.length_toList]
  have left : (Token.op spelling ++ rest).drop spelling.length = rest := List.drop_left' length.symm
  have here : isOp spelling (Token.op spelling ++ rest) = true := startsOp_marks spelling.toList rest
  have reads := reads_op_of_isOp here
  rwa [left] at reads

theorem reads_word (w : String) (rest : List Token) :
    (word w).Reads (.ident w :: rest) rest (· = code [.ident w]) := by
  unfold word
  rw [reads_ahead_bind]
  refine reads_guarded_bind (by simp [isWord]) ?_
  rw [reads_next_bind]
  exact reads_pure rfl

theorem fails_word {w : String} (h : isWord w ts = false) : (word w).Fails ts := by
  unfold word
  rw [fails_ahead_bind]
  exact fails_guarded_bind h

theorem reads_ident {name : String} (plain : name ∉ keywords) (rest : List Token) :
    ident.Reads (.ident name :: rest) rest (· = name) := by
  unfold ident
  rw [reads_ahead_bind]
  refine reads_guarded_bind (by simp [isIdent, plain]) ?_
  rw [reads_next_bind]
  exact reads_pure rfl

theorem fails_ident (h : isIdent ts = false) : ident.Fails ts := by
  unfold ident
  rw [fails_ahead_bind]
  exact fails_guarded_bind h

theorem reads_anyWord (name : String) (rest : List Token) :
    anyWord.Reads (.ident name :: rest) rest (· = name) := by
  unfold anyWord
  rw [reads_next_bind]
  exact reads_pure rfl

theorem reads_lifetime (name : String) (rest : List Token) :
    lifetime.Reads (Token.lifetime name ++ rest) rest (· = name) := by
  unfold lifetime
  rw [reads_ahead_bind]
  refine reads_guarded_bind rfl (takes_discard_bind (takes_next _ _) (reads_anyWord name rest))

theorem takes_literal (text : String) (rest : List Token) : literal.Takes (.literal text :: rest) rest := by
  unfold literal
  refine reads_ahead_bind.2 (reads_guarded_bind rfl (reads_next_bind.2 ?_))
  exact reads_pure trivial

theorem takes_truth (b : Bool) (rest : List Token) :
    literal.Takes (.ident (if b then "true" else "false") :: rest) rest := by
  unfold literal
  refine reads_ahead_bind.2 (reads_guarded_bind (by cases b <;> rfl) (reads_next_bind.2 ?_))
  exact reads_pure trivial

/-! ## Combinations -/

theorem takes_seq_nil : (seq []).Takes ts ts := reads_pure trivial

theorem takes_seq_cons {p : Parser (List Part)} {ps : List (Parser (List Part))} (first : p.Takes ts mid)
    (later : (seq ps).Takes mid rest) : (seq (p :: ps)).Takes ts rest := by
  unfold seq
  exact takes_bind first fun _ => takes_bind later fun _ => reads_pure trivial

theorem reads_optional {look : List Token → Bool} {p : Parser (List Part)} {S : List Part → Prop}
    (here : look ts = true) (h : p.Reads ts rest S) : (optional look p).Reads ts rest S := by
  unfold optional
  rw [reads_peek_bind, here]
  exact h

theorem reads_no_optional {look : List Token → Bool} {p : Parser (List Part)} (here : look ts = false) :
    (optional look p).Reads ts ts (· = []) := by
  unfold optional
  rw [reads_peek_bind, here]
  exact reads_pure rfl

theorem reads_inside {d : Delimiter} (h : p.Reads ts (.closing d :: rest) R) :
    (inside d p).Reads (.opening d :: ts) rest R := by
  unfold inside
  rw [reads_ahead_bind]
  refine reads_guarded_bind (by simp [isOpening]) (takes_discard_bind (takes_next _ _) (reads_bind h fun a ha => ?_))
  rw [reads_next_bind]
  simp only [if_true]
  exact reads_pure ha

theorem takes_group {d : Delimiter} {p : Parser (List Part)} (h : p.Takes ts (.closing d :: rest)) :
    (group d p).Takes (.opening d :: ts) rest := by
  unfold group
  exact takes_bind (reads_inside h) fun _ => reads_pure trivial

/-! ## Loops -/

/-- The loop reads with any fuel that is more than there are tokens. -/
def LoopReads (loop : Nat → Parser β) (ts rest : List Token) (Q : β → Prop) : Prop :=
  ∀ fuel, ts.length < fuel → (loop fuel).Reads ts rest Q

/-- A round reads some tokens, the later rounds the rest. -/
theorem loopReads_of_round {loop : Nat → Parser β} (shorter : mid.length < ts.length) {S : β → Prop}
    (later : LoopReads loop mid rest S)
    (round : ∀ fuel, (loop fuel).Reads mid rest S → (loop (fuel + 1)).Reads ts rest Q) :
    LoopReads loop ts rest Q := by
  intro fuel enough
  obtain ⟨fuel, rfl⟩ := Nat.exists_eq_succ_of_ne_zero (Nat.ne_zero_of_lt enough)
  exact round fuel (later fuel (by omega))

theorem loopReads_of_last {loop : Nat → Parser β} (round : ∀ fuel, (loop (fuel + 1)).Reads ts rest Q) :
    LoopReads loop ts rest Q := by
  intro fuel enough
  obtain ⟨fuel, rfl⟩ := Nat.exists_eq_succ_of_ne_zero (Nat.ne_zero_of_lt enough)
  exact round fuel

/-- The rounds of a list of code pieces. `Next` is what has to follow each of them. -/
theorem reads_many {γ : Type} {look : List Token → Bool} {tokens : γ → List Token} {S : γ → α → Prop}
    (Next : List Token → Prop) {xs : List γ} (stop : look rest = false) (end_ : Next rest)
    (looks : ∀ x ∈ xs, ∀ r, look (tokens x ++ r) = true) (next : ∀ x ∈ xs, ∀ r, Next (tokens x ++ r))
    (round : ∀ x ∈ xs, ∀ r, Next r → p.Reads (tokens x ++ r) r (S x)) (some : ∀ x ∈ xs, tokens x ≠ []) :
    (many look p).Reads (xs.flatMap tokens ++ rest) rest (List.Forall₂ S xs) := by
  have loop : LoopReads (manyLoop look p) (xs.flatMap tokens ++ rest) rest (List.Forall₂ S xs) := by
    induction xs with
    | nil =>
      refine loopReads_of_last fun fuel => ?_
      unfold manyLoop
      rw [List.flatMap_nil, List.nil_append, reads_peek_bind, stop]
      exact reads_pure .nil
    | cons x xs ih =>
      have follows : Next (xs.flatMap tokens ++ rest) := by
        cases xs with
        | nil => exact end_
        | cons y ys =>
          rw [List.flatMap_cons, List.append_assoc]
          exact next y (List.mem_cons_of_mem _ List.mem_cons_self) _
      have later := ih (fun y mem => looks y (List.mem_cons_of_mem _ mem))
        (fun y mem => next y (List.mem_cons_of_mem _ mem)) (fun y mem => round y (List.mem_cons_of_mem _ mem))
        (fun y mem => some y (List.mem_cons_of_mem _ mem))
      have length := List.length_pos_iff.2 (some x List.mem_cons_self)
      rw [List.flatMap_cons, List.append_assoc]
      refine loopReads_of_round (by simp only [List.length_append]; omega) later fun fuel tail => ?_
      unfold manyLoop
      rw [reads_peek_bind, looks x List.mem_cons_self]
      refine reads_bind (round x List.mem_cons_self _ follows) fun a ha => reads_bind tail fun as has => ?_
      exact reads_pure (.cons ha has)
  unfold many
  exact reads_ahead_bind.2 (loop _ (Nat.lt_succ_self _))

/-- Members with separators between them; one may follow the last. -/
def listed (sep : String) (trailing : Bool) : List (List Token) → List Token
  | [] => []
  | [ts] => ts ++ if trailing then Token.op sep else []
  | ts :: us :: more => ts ++ Token.op sep ++ listed sep trailing (us :: more)

theorem listed_eq (sep : String) (tss : List (List Token)) :
    listed sep false tss = (Token.op sep).intercalate tss := by
  induction tss with
  | nil => rfl
  | cons ts tss ih =>
    cases tss with
    | nil => simp [listed]
    | cons us tss => rw [listed, ih, List.intercalate_cons_cons]

theorem listed_cons (sep : String) (trailing : Bool) (ts : List Token) {tss : List (List Token)} (some : tss ≠ []) :
    listed sep trailing (ts :: tss) = ts ++ Token.op sep ++ listed sep trailing tss := by
  cases tss with
  | nil => exact absurd rfl some
  | cons us tss => rfl

theorem length_le_listed (sep : String) (trailing : Bool) {tss : List (List Token)} {ts : List Token} (mem : ts ∈ tss) :
    ts.length ≤ (listed sep trailing tss).length := by
  induction tss with
  | nil => cases mem
  | cons us tss ih =>
    rcases List.mem_cons.1 mem with rfl | later
    · cases tss with
      | nil => simp [listed]
      | cons vs tss =>
        simp only [listed, List.length_append]
        omega
    · have shorter := ih later
      rw [listed_cons sep trailing us (List.ne_nil_of_mem later), List.length_append]
      omega

/-- The rounds of a list of code pieces with separators between them. `Next` is what has to follow each of them. -/
theorem loopReads_separatedLoop {γ : Type} {stop more : List Token → Bool} {sep : String} {tokens : γ → List Token}
    {S : γ → α → Prop} (Next : List Token → Prop) {xs : List γ} (trailing : Bool) (ended : stop rest = true)
    (alone : more rest = false) (end_ : Next rest) (further : ∀ r, more (Token.op sep ++ r) = true)
    (between : ∀ r, Next (Token.op sep ++ r)) (looks : ∀ x ∈ xs, ∀ r, Next r → stop (tokens x ++ r) = false)
    (round : ∀ x ∈ xs, ∀ r, Next r → p.Reads (tokens x ++ r) r (S x)) (some : ∀ x ∈ xs, tokens x ≠ []) :
    LoopReads (separatedLoop stop more (op sep) p) (listed sep trailing (xs.map tokens) ++ rest) rest
      fun r => List.Forall₂ S xs r.1 := by
  have last (fuel : Nat) : (separatedLoop stop more (op sep) p (fuel + 1)).Reads rest rest
      fun r => List.Forall₂ S [] r.1 := by
    unfold separatedLoop
    refine reads_peek_bind.2 ?_
    rw [ended]
    exact reads_pure .nil
  induction xs with
  | nil => exact loopReads_of_last last
  | cons x xs ih =>
    have here := looks x List.mem_cons_self
    have reads := round x List.mem_cons_self
    have length := List.length_pos_iff.2 (some x List.mem_cons_self)
    -- what stands behind a member: a separator with more, or the end
    have goesOn {us : List Token} {ys : List γ} (later : LoopReads (separatedLoop stop more (op sep) p) us rest
        fun r => List.Forall₂ S ys r.1) : LoopReads (separatedLoop stop more (op sep) p)
        (tokens x ++ (Token.op sep ++ us)) rest fun r => List.Forall₂ S (x :: ys) r.1 := by
      refine loopReads_of_round (by simp only [List.length_append]; omega) later fun fuel tail => ?_
      unfold separatedLoop
      refine reads_peek_bind.2 ?_
      rw [here _ (between us)]
      refine reads_bind (reads _ (between us)) fun a ha => reads_peek_bind.2 ?_
      rw [further]
      exact takes_discard_bind (reads_op sep us).takes (reads_bind tail fun r hr => reads_pure (.cons ha hr))
    cases xs with
    | nil =>
      cases trailing with
      | true =>
        show LoopReads _ (tokens x ++ Token.op sep ++ rest) rest _
        rw [List.append_assoc]
        exact goesOn (loopReads_of_last last)
      | false =>
        show LoopReads _ (tokens x ++ [] ++ rest) rest _
        rw [List.append_nil]
        refine loopReads_of_last fun fuel => ?_
        unfold separatedLoop
        refine reads_peek_bind.2 ?_
        rw [here _ end_]
        refine reads_bind (reads _ end_) fun a ha => reads_peek_bind.2 ?_
        rw [alone]
        exact reads_pure (.cons ha .nil)
    | cons y ys =>
      rw [List.map_cons, List.map_cons, listed, List.append_assoc, List.append_assoc]
      exact goesOn (ih (fun y mem => looks y (List.mem_cons_of_mem _ mem))
        (fun y mem => round y (List.mem_cons_of_mem _ mem)) fun y mem => some y (List.mem_cons_of_mem _ mem))

/-- The members of a list of code pieces with separators between them. -/
theorem reads_separated {γ : Type} {stop : List Token → Bool} {sep : String} {tokens : γ → List Token}
    {S : γ → α → Prop}
    (Next : List Token → Prop) {xs : List γ} (trailing : Bool) (ended : stop rest = true) (end_ : Next rest)
    (between : ∀ r, stop (Token.op sep ++ r) = false ∧ Next (Token.op sep ++ r))
    (looks : ∀ x ∈ xs, ∀ r, Next r → stop (tokens x ++ r) = false)
    (round : ∀ x ∈ xs, ∀ r, Next r → p.Reads (tokens x ++ r) r (S x)) (some : ∀ x ∈ xs, tokens x ≠ []) :
    (separated stop sep p).Reads (listed sep trailing (xs.map tokens) ++ rest) rest fun r => List.Forall₂ S xs r.1 := by
  have alone : (!stop rest) = false := by rw [ended]; rfl
  have loop : LoopReads (separatedLoop stop (fun ts => !stop ts) (op sep) p)
      (listed sep trailing (xs.map tokens) ++ rest) rest fun r => List.Forall₂ S xs r.1 :=
    loopReads_separatedLoop Next trailing ended alone end_ (fun r => by rw [(between r).1]; rfl)
      (fun r => (between r).2) looks round some
  unfold separated
  exact reads_ahead_bind.2 (loop _ (Nat.lt_succ_self _))

theorem takes_separated {stop : List Token → Bool} {sep : String} (Next : List Token → Prop)
    {tss : List (List Token)} (trailing : Bool) (ended : stop rest = true) (end_ : Next rest)
    (between : ∀ r, stop (Token.op sep ++ r) = false ∧ Next (Token.op sep ++ r))
    (looks : ∀ ts ∈ tss, ∀ r, Next r → stop (ts ++ r) = false) (round : ∀ ts ∈ tss, ∀ r, Next r → p.Takes (ts ++ r) r)
    (some : ∀ ts ∈ tss, ts ≠ []) :
    (separated stop sep p).Takes (listed sep trailing tss ++ rest) rest := by
  have read := reads_separated Next trailing ended end_ between looks round some
  rw [List.map_id'] at read
  exact read.takes

/-- Members as code, as long as separators follow them. -/
theorem takes_chainedCode {stop : List Token → Bool} {sep : String} {p : Parser (List Part)} (Next : List Token → Prop)
    {tss : List (List Token)} (trailing : Bool) (ended : stop rest = true) (alone : isOp sep rest = false)
    (end_ : Next rest) (between : ∀ r, Next (Token.op sep ++ r))
    (looks : ∀ ts ∈ tss, ∀ r, Next r → stop (ts ++ r) = false)
    (round : ∀ ts ∈ tss, ∀ r, Next r → p.Takes (ts ++ r) r) (some : ∀ ts ∈ tss, ts ≠ []) :
    (chainedCode stop sep p).Takes (listed sep trailing tss ++ rest) rest := by
  have loop := loopReads_separatedLoop Next trailing ended alone end_ (fun r => startsOp_marks sep.toList r) between
    looks round some
  rw [List.map_id'] at loop
  have members : (chained stop sep p).Takes (listed sep trailing tss ++ rest) rest := by
    unfold chained
    exact reads_ahead_bind.2 (loop _ (Nat.lt_succ_self _)).takes
  unfold chainedCode
  exact takes_bind members fun _ => reads_pure trivial

/-- A group that opens with its first token. -/
theorem exists_of_isOpening {d : Delimiter} (h : isOpening d ts = true) : ∃ us, ts = .opening d :: us := by
  unfold isOpening at h
  split at h
  · exact ⟨_, by rw [beq_iff_eq.1 h]⟩
  · cases h

end

end LiveSettings.Parser
