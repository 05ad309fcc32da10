import LiveSettings.Proofs.Code.Reading

/-!
# Reading paths and types

A path of names is read wherever neither `::` nor an argument list follows it, a type wherever a comma, a
closing bracket or the brace of a body does.

Results:
* `reads_path`: a path of names.
* `IsTy`, `isTy_path`, `isTy_reference`, `isTy_slice`: types that are read, put together from such types.
* `isSegment_args`: a name with arguments.
-/

namespace LiveSettings.Grammar

open LiveSettings.Parser

/-! ## Names -/

/-- The words other than identifiers that may stand in a path. -/
def pathWords : List String := ["super", "self", "Self", "crate"]

/-- The word may stand in a path. -/
def InPath (name : String) : Prop := name ∉ keywords ∨ name ∈ pathWords

instance (name : String) : Decidable (InPath name) := inferInstanceAs (Decidable (_ ∨ _))

/-- The word may stand in a path; `try` may not come first. -/
def InSegment (name : String) : Prop := InPath name ∨ name = "try"

instance (name : String) : Decidable (InSegment name) := inferInstanceAs (Decidable (_ ∨ _))

theorem InPath.ne {name w : String} (h : InPath name) (keyword : w ∈ keywords) (other : w ∉ pathWords) :
    name ≠ w := by
  rintro rfl
  rcases h with plain | path
  · exact plain keyword
  · exact other path

/-- No other keyword stands where a word of a path does. -/
theorem isWord_inPath {name w : String} (h : InPath name) (keyword : w ∈ keywords) (other : w ∉ pathWords)
    (ts : List Token) : Parser.isWord w (.ident name :: ts) = false := by
  simpa [Parser.isWord] using h.ne keyword other

theorem not_mem_selfWords {name : String} (plain : name ∉ keywords) : name ∉ selfWords :=
  fun path => plain ((by decide : selfWords ⊆ keywords) path)

/-- A path of names that may stand in code. -/
structure IsPath (p : NamePath) : Prop where
  some : p.names ≠ []
  words : ∀ name ∈ p.names, InPath name

/-- A further segment of a path. -/
def further (segment : List Token) : List Token := Token.op "::" ++ segment

theorem joinSegments_cons (segment : List Token) (segments : List (List Token)) :
    joinSegments (segment :: segments) = segment ++ segments.flatMap further := by
  induction segments generalizing segment with
  | nil => simp [joinSegments]
  | cons s ss ih =>
    rw [joinSegments, List.intercalate_cons_cons, List.flatMap_cons, ← joinSegments, ih, further]
    simp only [List.append_assoc]

/-- A path of names starts with its mark and its first name. -/
theorem IsPath.exists_tokens {p : NamePath} (h : IsPath p) : ∃ name names, p.names = name :: names ∧
    p.tokens = absoluteMark p.absolute ++ .ident name :: names.flatMap fun n => further [.ident n] := by
  cases same : p.names with
  | nil => exact absurd same h.some
  | cons name names =>
    refine ⟨name, names, rfl, ?_⟩
    rw [NamePath.tokens, same, List.map_cons, joinSegments_cons, List.flatMap_map]
    rfl

theorem eq_map_of_forall₂ {α β : Type} {f : α → β} {xs : List α} {ys : List β}
    (h : List.Forall₂ (fun x y => y = f x) xs ys) : ys = xs.map f := by
  induction h with
  | nil => rfl
  | cons first _ ih => rw [List.map_cons, first, ih]

/-! ## Segments and paths -/

section

variable {g : Grammar} {rest : List Token}

/-- No arguments of a segment start here; in an expression they need `::` in front. -/
def NoArgs (inExpr : Bool) (ts : List Token) : Prop :=
  ((!inExpr && isOp "<" ts && !isOp "<=" ts) || (isOp "::" ts && third (isOp "<") ts)) = false

theorem reads_segment {inExpr : Bool} {name : String} (h : InSegment name) (plain : NoArgs inExpr rest) :
    (g.segment inExpr).Reads (.ident name :: rest) rest (· = .mk name .none) := by
  unfold segment
  refine reads_peek_bind.2 ?_
  split
  · exact reads_bind (reads_anyWord name rest) fun a ha => reads_pure (by rw [ha])
  · rename_i other
    refine reads_peek_bind.2 ?_
    split
    · refine reads_bind (reads_anyWord name rest) fun a ha => reads_ahead_bind.2 ?_
      rw [if_neg (by rw [plain]; decide)]
      exact reads_pure (by rw [ha])
    · rename_i notSelf
      have identifier : name ∉ keywords := by
        rcases h with (identifier | path) | rfl
        · exact identifier
        · simp only [pathWords, List.mem_cons, List.not_mem_nil, or_false] at path
          rcases path with rfl | rfl | rfl | rfl
          · exact absurd rfl other
          · exact absurd rfl other
          · exact absurd rfl notSelf
          · exact absurd rfl other
        · exact absurd rfl other
      refine reads_bind (reads_ident identifier rest) fun a ha => reads_ahead_bind.2 ?_
      rw [if_neg (by rw [plain]; decide)]
      exact reads_pure (by rw [ha])

/-- The tokens of a segment, in front of what is no part of it. -/
structure IsSegment (g : Grammar) (inExpr : Bool) (ts : List Token) (S : Segment → Prop) : Prop where
  named : ∃ name us, ts = .ident name :: us
  reads : ∀ rest, NoArgs inExpr rest → (g.segment inExpr).Reads (ts ++ rest) rest S

theorem IsSegment.mono {inExpr : Bool} {ts : List Token} {S R : Segment → Prop} (h : IsSegment g inExpr ts S)
    (imp : ∀ s, S s → R s) : IsSegment g inExpr ts R :=
  ⟨h.named, fun rest plain => (h.reads rest plain).mono imp⟩

theorem isSegment_name {inExpr : Bool} {name : String} (h : InSegment name) :
    IsSegment g inExpr [.ident name] (· = .mk name .none) :=
  ⟨⟨name, [], rfl⟩, fun _ plain => reads_segment h plain⟩

theorem noArgs_further {inExpr : Bool} {ts : List Token} {S : Segment → Prop} (h : IsSegment g inExpr ts S)
    (rest : List Token) : NoArgs inExpr (further ts ++ rest) := by
  obtain ⟨name, us, rfl⟩ := h.named
  cases inExpr <;> rfl

/-- A path of segments, in front of what is no part of it. -/
theorem reads_segments {inExpr absolute : Bool} {γ : Type} {segments : List γ} {tokens : γ → List Token}
    {S : γ → Segment → Prop} (some : segments ≠ []) (each : ∀ x ∈ segments, IsSegment g inExpr (tokens x) (S x))
    (plain : NoArgs inExpr rest) (ends : isOp "::" rest = false) :
    (g.path inExpr).Reads (absoluteMark absolute ++ joinSegments (segments.map tokens) ++ rest) rest fun p =>
      p.absolute = absolute ∧ List.Forall₂ S segments p.segments := by
  cases segments with
  | nil => exact absurd rfl some
  | cons x xs =>
    have here := each x List.mem_cons_self
    have each : ∀ y ∈ xs, IsSegment g inExpr (tokens y) (S y) := fun y mem => each y (List.mem_cons_of_mem _ mem)
    have next : NoArgs inExpr (xs.flatMap (fun y => further (tokens y)) ++ rest) := by
      cases xs with
      | nil => exact plain
      | cons y ys =>
        rw [List.flatMap_cons, List.append_assoc]
        exact noArgs_further (each y List.mem_cons_self) _
    have later : (g.furtherSegments inExpr).Reads (xs.flatMap (fun y => further (tokens y)) ++ rest) rest
        (List.Forall₂ S xs) := by
      unfold furtherSegments
      refine reads_many (NoArgs inExpr) (by simp [ends]) plain (fun y mem r => ?_)
        (fun y mem r => noArgs_further (each y mem) r) (fun y mem r follows => ?_) fun _ _ => nofun
      · obtain ⟨name, us, same⟩ := (each y mem).named
        rw [same]
        rfl
      · rw [further, List.append_assoc]
        exact takes_discard_bind (reads_op "::" (tokens y ++ r)).takes ((each y mem).reads r follows)
    have start : (absoluteMark absolute ++ (tokens x ++ (xs.flatMap (fun y => further (tokens y)) ++ rest))) =
        absoluteMark absolute ++ joinSegments ((x :: xs).map tokens) ++ rest := by
      rw [List.map_cons, joinSegments_cons, List.flatMap_map]
      simp only [List.append_assoc]
    have body : (g.path inExpr).Reads (absoluteMark absolute ++ (tokens x ++
        (xs.flatMap (fun y => further (tokens y)) ++ rest))) rest fun p =>
          p.absolute = absolute ∧ List.Forall₂ S (x :: xs) p.segments := by
      unfold path
      have segments : (do
          let first ← g.segment inExpr
          return (⟨absolute, first :: (← g.furtherSegments inExpr)⟩ : Path)).Reads (tokens x ++
            (xs.flatMap (fun y => further (tokens y)) ++ rest)) rest fun p =>
              p.absolute = absolute ∧ List.Forall₂ S (x :: xs) p.segments :=
        reads_bind (here.reads _ next) fun s hs => reads_bind later fun ss hss => reads_pure ⟨rfl, .cons hs hss⟩
      refine reads_peek_bind.2 ?_
      cases absolute with
      | true =>
        refine takes_discard_bind (reads_optional rfl (reads_op "::" _)).takes ?_
        exact segments
      | false =>
        obtain ⟨name, us, same⟩ := here.named
        have unmarked : isOp "::" (tokens x ++ (xs.flatMap (fun y => further (tokens y)) ++ rest)) = false := by
          rw [same]
          rfl
        refine takes_discard_bind (reads_no_optional unmarked).takes ?_
        rw [show absoluteMark false = [] from rfl, List.nil_append, unmarked]
        exact segments
    rwa [start] at body

/-- A path of names in front of what is no part of it. -/
theorem reads_path {inExpr : Bool} {p : NamePath} (h : IsPath p) (plain : NoArgs inExpr rest)
    (ends : isOp "::" rest = false) : (g.path inExpr).Reads (p.tokens ++ rest) rest (· = Path.ofNames p) := by
  have reads : (g.path inExpr).Reads (p.tokens ++ rest) rest fun q => q.absolute = p.absolute ∧
      List.Forall₂ (fun n s => s = Segment.mk n .none) p.names q.segments :=
    reads_segments h.some (fun n mem => isSegment_name (.inl (h.words n mem))) plain ends
  refine reads.mono fun q ⟨absolute, segments⟩ => ?_
  obtain ⟨a, ss⟩ := q
  obtain rfl : a = p.absolute := absolute
  rw [show ss = _ from eq_map_of_forall₂ segments]
  rfl

end

/-! ## Types -/

/-- No path goes on over the tokens. -/
structure EndsPath (ts : List Token) : Prop where
  args : NoArgs false ts
  path : isOp "::" ts = false

/-- No type goes on over the tokens. One in which a sum of bounds may stand would go on over a plus sign. -/
structure EndsTy (plus : Bool) (ts : List Token) : Prop extends EndsPath ts where
  bang : isOp "!" ts = false
  call : isOpening .paren ts = false
  arrow : isOp "->" ts = false
  sum : plus = true → isOp "+" ts = false

theorem EndsTy.of_sum {plus : Bool} {ts : List Token} (h : EndsTy true ts) : EndsTy plus ts where
  toEndsPath := h.toEndsPath
  bang := h.bang
  call := h.call
  arrow := h.arrow
  sum _ := h.sum rfl

/-- What may follow any type: the brace of a body, a closing bracket, or a mark that ends it. -/
def endsTy : List Token → Bool
  | .opening .brace :: _ => true
  | .closing _ :: _ => true
  | .mark c _ :: _ => c == ',' || c == '>' || c == ';'
  | _ => false

theorem endsTy_spec {ts : List Token} (h : endsTy ts = true) :
    EndsTy true ts ∧ isOp "=" ts = false ∧ isOp ":" ts = false ∧ startsBound ts = false := by
  cases ts with
  | nil => cases h
  | cons t ts =>
    cases t with
    | opening d =>
      cases d with
      | brace => exact ⟨⟨⟨rfl, rfl⟩, rfl, rfl, rfl, fun _ => rfl⟩, rfl, rfl, rfl⟩
      | paren | bracket => cases h
    | closing d => exact ⟨⟨⟨rfl, rfl⟩, rfl, rfl, rfl, fun _ => rfl⟩, rfl, rfl, rfl⟩
    | mark c joint =>
      simp only [endsTy, Bool.or_eq_true, beq_iff_eq] at h
      have ends (single : c ∈ [',', '>', ';']) : EndsTy true (.mark c joint :: ts) ∧
          isOp "=" (.mark c joint :: ts) = false ∧ isOp ":" (.mark c joint :: ts) = false ∧
          startsBound (.mark c joint :: ts) = false := by
        simp only [List.mem_cons, List.not_mem_nil, or_false] at single
        rcases single with rfl | rfl | rfl <;> cases joint <;>
          exact ⟨⟨⟨rfl, rfl⟩, rfl, rfl, rfl, fun _ => rfl⟩, rfl, rfl, rfl⟩
      rcases h with (rfl | rfl) | rfl <;> exact ends (by decide)
    | ident _ | literal _ => cases h

/-- A word that goes on in the head of an implementation ends the path in front of it. -/
theorem endsTy_word (plus : Bool) (w : String) (ts : List Token) : EndsTy plus (.ident w :: ts) :=
  ⟨⟨rfl, rfl⟩, rfl, rfl, rfl, fun _ => rfl⟩

/-- The tokens are read as a type, in front of what may follow one, by rules of the depth. -/
def IsTy (plus : Bool) (depth : Nat) (ts : List Token) : Prop :=
  ∀ rest, endsTy rest = true → ((deep depth).ty plus).Takes (ts ++ rest) rest

/-- What a path starts with. -/
structure StartsPath (ts : List Token) : Prop where
  binder : Parser.isWord "for" ts = false
  group : isOpening .paren ts = false
  function : startsFunctionTy ts = false
  path : startsPathTy ts = true
  projection : isOp "<" ts = false

theorem startsPath_tokens {absolute : Bool} {name : String} (h : InPath name) (ts : List Token) :
    StartsPath (absoluteMark absolute ++ .ident name :: ts) := by
  cases absolute with
  | true => exact ⟨rfl, rfl, rfl, rfl, rfl⟩
  | false =>
    have other {w : String} (keyword : w ∈ keywords) (outside : w ∉ pathWords) :=
      isWord_inPath h keyword outside ts
    refine ⟨other (by decide) (by decide), rfl, ?_, ?_, rfl⟩
    · simp [startsFunctionTy, absoluteMark, other (w := "fn") (by decide) (by decide),
        other (w := "unsafe") (by decide) (by decide), other (w := "extern") (by decide) (by decide)]
    · rcases h with plain | path
      · simp [startsPathTy, absoluteMark, isIdent, plain]
      · simp only [pathWords, List.mem_cons, List.not_mem_nil, or_false] at path
        rcases path with rfl | rfl | rfl | rfl <;> rfl

theorem reads_binder {g : Grammar} {ts : List Token} (h : Parser.isWord "for" ts = false) :
    g.binder.Reads ts ts (· = []) := by
  unfold binder
  refine reads_peek_bind.2 ?_
  rw [h]
  exact reads_pure rfl

/-- What starts like a path is read on from that path. -/
theorem reads_namedTy_of_path {g : Grammar} {plus : Bool} {binder : List Part} {ts mid rest : List Token} {S : Path → Prop}
    {Q : Ty → Prop} (projection : isOp "<" ts = false) (path : (g.path false).Reads ts mid S)
    (behind : ∀ p, S p → (g.pathTy plus binder p).Reads mid rest Q) : (g.namedTy plus binder).Reads ts rest Q := by
  have read : (g.tyPath false).Reads ts mid fun t => ∃ p, S p ∧ t = p.toTy := by
    unfold tyPath
    refine reads_peek_bind.2 ?_
    rw [projection]
    exact reads_bind path fun p hp => reads_pure ⟨p, hp, rfl⟩
  unfold namedTy
  refine reads_bind read fun t found => ?_
  obtain ⟨p, hp, rfl⟩ := found
  exact behind p hp

/-- A path with nothing in front of it or behind it. -/
theorem reads_pathTy_of_ends {g : Grammar} {plus : Bool} {rest : List Token} (ends : EndsTy plus rest) (p : Path) :
    (g.pathTy plus [] p).Reads rest rest (· = p.toTy) := by
  have sum : (plus && isOp "+" rest) = false := by
    cases plus with
    | true => exact ends.sum rfl
    | false => rfl
  unfold pathTy
  refine reads_ahead_bind.2 ?_
  simp only [ends.bang, sum, List.isEmpty_nil, Bool.not_true, Bool.false_and, Bool.or_false, Bool.false_eq_true, if_false]
  exact reads_pure rfl

/-- A path as a type. -/
theorem reads_pathTy {g : Grammar} {plus : Bool} {ts rest : List Token} {S : Path → Prop}
    (starts : StartsPath (ts ++ rest)) (ends : EndsTy plus rest) (path : (g.path false).Reads (ts ++ rest) rest S) :
    (g.tyRule plus).Reads (ts ++ rest) rest fun t => ∃ p, S p ∧ t = p.toTy := by
  unfold tyRule
  refine reads_bind (reads_binder starts.binder) fun binder none => reads_ahead_bind.2 ?_
  subst none
  simp only [List.isEmpty_nil, Bool.not_true, Bool.false_eq_true, if_false, starts.group, starts.function,
    starts.path, if_true]
  refine reads_namedTy_of_path starts.projection path fun p hp => ?_
  exact (reads_pathTy_of_ends ends p).mono fun t same => ⟨p, hp, same⟩

/-- A path of names is a type. -/
theorem reads_namePathTy (plus : Bool) (depth : Nat) {p : NamePath} (h : IsPath p) {rest : List Token}
    (ends : EndsTy plus rest) :
    ((deep (depth + 1)).ty plus).Reads (p.tokens ++ rest) rest (· = (Path.ofNames p).toTy) := by
  obtain ⟨name, names, named, tokens⟩ := h.exists_tokens
  have starts : StartsPath (p.tokens ++ rest) := by
    rw [tokens, List.append_assoc, List.cons_append]
    exact startsPath_tokens (h.words name (named ▸ List.mem_cons_self)) _
  refine (reads_pathTy starts ends (reads_path h ends.args ends.path)).mono fun t read => ?_
  obtain ⟨q, rfl, same⟩ := read
  exact same

theorem isTy_path (plus : Bool) (depth : Nat) {p : NamePath} (h : IsPath p) : IsTy plus (depth + 1) p.tokens :=
  fun _ ends => (reads_namePathTy plus depth h (endsTy_spec ends).1.of_sum).takes

/-! ## Arguments -/

/-- No type starts here. -/
structure StartsNoTy (ts : List Token) : Prop where
  binder : Parser.isWord "for" ts = false
  group : isOpening .paren ts = false
  function : startsFunctionTy ts = false
  path : startsPathTy ts = false
  dyn : Parser.isWord "dyn" ts = false
  bracket : isOpening .bracket ts = false
  pointer : isOp "*" ts = false
  reference : isOp "&" ts = false
  never : isOp "!" ts = false
  implementor : Parser.isWord "impl" ts = false
  inferred : Parser.isWord "_" ts = false
  lifetime : isLifetime ts = false

theorem fails_ty {g : Grammar} {plus : Bool} {ts : List Token} (h : StartsNoTy ts) : (g.tyRule plus).Fails ts := by
  unfold tyRule
  refine fails_bind_of_reads (reads_binder h.binder) fun parts none => fails_ahead_bind.2 ?_
  subst none
  simp only [List.isEmpty_nil, Bool.not_true, Bool.false_eq_true, if_false, h.group, h.function, h.path, h.dyn,
    h.bracket, h.pointer, h.reference, h.never, h.implementor, h.inferred, h.lifetime, Bool.false_and]
  exact fun _ => rfl

theorem startsNoTy_mark {c : Char} (other : c ∈ ['>', '.', '-', '?', '#', ',', ';', '=']) (joint : Bool)
    (ts : List Token) : StartsNoTy (.mark c joint :: ts) := by
  simp only [List.mem_cons, List.not_mem_nil, or_false] at other
  rcases other with rfl | rfl | rfl | rfl | rfl | rfl | rfl | rfl <;> cases joint <;> cases ts <;>
    exact ⟨rfl, rfl, rfl, rfl, rfl, rfl, rfl, rfl, rfl, rfl, rfl, rfl⟩

/-- No type starts like a value. -/
theorem startsNoTy_of_startsValue {ts : List Token} (h : startsValue ts = true) : StartsNoTy ts := by
  cases ts with
  | nil => cases h
  | cons t ts =>
    cases t with
    | literal text => exact ⟨rfl, rfl, rfl, rfl, rfl, rfl, rfl, rfl, rfl, rfl, rfl, rfl⟩
    | ident name =>
      have truth : name = "true" ∨ name = "false" := by
        simpa [startsValue, isLiteral, isOpening] using h
      rcases truth with rfl | rfl <;> exact ⟨rfl, rfl, rfl, rfl, rfl, rfl, rfl, rfl, rfl, rfl, rfl, rfl⟩
    | mark c joint =>
      obtain rfl : c = '-' := by
        unfold startsValue isLiteral at h
        split at h <;> simp_all [isOpening]
      exact startsNoTy_mark (by decide) joint ts
    | opening d =>
      obtain rfl : d = .brace := by cases d <;> first | rfl | cases h
      exact ⟨rfl, rfl, rfl, rfl, rfl, rfl, rfl, rfl, rfl, rfl, rfl, rfl⟩
    | closing d => cases h

/-- A lifetime that no sum follows is no type. -/
theorem fails_ty_of_lifetime (depth : Nat) (plus : Bool) {ts : List Token} (h : isLifetime ts = true)
    (alone : second (isOp "+") ts = false) : ((deep depth).tyRule plus).Fails ts := by
  obtain ⟨name, us, rfl⟩ : ∃ name us, ts = Token.lifetime name ++ us := by
    unfold isLifetime at h
    split at h
    · exact ⟨_, _, rfl⟩
    · cases h
  have alone : isOp "+" us = false := alone
  unfold tyRule
  refine fails_bind_of_reads (reads_binder rfl) fun parts none => fails_ahead_bind.2 ?_
  subst none
  simp only [List.isEmpty_nil, Bool.not_true, Bool.false_eq_true, if_false]
  show (do return Ty.shaped .traitObject (← (deep depth).traitSum true false)).Fails (Token.lifetime name ++ us)
  refine fails_bind ?_
  cases depth with
  | zero => exact fun _ => rfl
  | succ depth =>
    have bound : ((deep (depth + 1)).bound false).Reads (Token.lifetime name ++ us) us
        (· = code (Token.lifetime name)) := by
      show ((deep depth).boundRule false).Reads _ _ _
      unfold boundRule
      refine reads_ahead_bind.2 ?_
      rw [if_pos h]
      exact reads_bind (reads_lifetime name us) fun n hn => reads_pure (by rw [hn])
    have step : (boundSum.step (deep (depth + 1)) false).Reads (Token.lifetime name ++ us) us
        (· = (code (Token.lifetime name), false)) := by
      unfold boundSum.step
      refine reads_bind bound fun b hb => reads_peek_bind.2 ?_
      rw [alone]
      exact takes_discard_bind (reads_no_optional alone).takes (reads_pure (by rw [hb]))
    have sum : ((deep (depth + 1)).boundSum true false).Reads (Token.lifetime name ++ us) us
        (· = ([code (Token.lifetime name)], false)) := by
      unfold boundSum
      rw [if_pos rfl]
      refine reads_bind step fun r hr => ?_
      subst hr
      exact reads_pure rfl
    unfold traitSum
    refine fails_bind_of_reads sum fun r hr => ?_
    subst hr
    exact fails_guarded_bind rfl

theorem exists_mark_of_startsOp (c : Char) (cs : List Char) {ts : List Token} (h : startsOp (c :: cs) ts = true) :
    ∃ joint us, ts = .mark c joint :: us := by
  cases ts with
  | nil => cases cs <;> cases h
  | cons t ts =>
    cases t with
    | mark d joint =>
      refine ⟨joint, ts, ?_⟩
      cases cs with
      | nil => simp_all [startsOp]
      | cons e cs => cases joint <;> simp_all [startsOp]
    | ident _ | literal _ | opening _ | closing _ => cases cs <;> cases h

/-- How a type starts. -/
structure StartsTy (ts : List Token) : Prop where
  value : startsValue ts = false
  opens : isEnd ts = false
  closing : isOp ">" ts = false
  dots : isOp "..." ts = false
  maybe : isOp "?" ts = false
  bare : isOp "#" ts = false
  exclusive : Parser.isWord "mut" ts = false
  condition : clause.stops ts = false
  sum : isLifetime ts = true → second (isOp "+") ts = true

/-- What is read as a type starts neither like a value, nor with a lifetime alone, nor with a mark that ends one. -/
theorem startsTy_of_takes {plus : Bool} {depth : Nat} {ts rest : List Token}
    (h : ((deep depth).tyRule plus).Takes ts rest) : StartsTy ts := by
  have reads : ¬((deep depth).tyRule plus).Fails ts := by
    intro fails
    obtain ⟨t, found, run, -⟩ := h []
    rw [fails []] at run
    cases run
  have starts : ¬StartsNoTy ts := fun none => reads (fails_ty none)
  have mark (c : Char) (other : c ∈ ['>', '.', '-', '?', '#', ',', ';', '=']) (cs : List Char) :
      startsOp (c :: cs) ts = false := by
    refine Bool.eq_false_iff.2 fun here => ?_
    obtain ⟨joint, us, rfl⟩ := exists_mark_of_startsOp c cs here
    exact starts (startsNoTy_mark other joint us)
  have brace : isOpening .brace ts = false := by
    refine Bool.eq_false_iff.2 fun here => ?_
    obtain ⟨us, rfl⟩ := exists_of_isOpening here
    exact starts ⟨rfl, rfl, rfl, rfl, rfl, rfl, rfl, rfl, rfl, rfl, rfl, rfl⟩
  have opens : isEnd ts = false := by
    refine Bool.eq_false_iff.2 fun ended => starts ?_
    cases ts with
    | nil => exact ⟨rfl, rfl, rfl, rfl, rfl, rfl, rfl, rfl, rfl, rfl, rfl, rfl⟩
    | cons t ts =>
      cases t with
      | closing d => exact ⟨rfl, rfl, rfl, rfl, rfl, rfl, rfl, rfl, rfl, rfl, rfl, rfl⟩
      | ident _ | mark _ _ | literal _ | opening _ => cases ended
  have colon : (isOp ":" ts && !isOp "::" ts) = false := by
    refine Bool.eq_false_iff.2 fun here => starts ?_
    obtain ⟨colon, single⟩ := Bool.and_eq_true_iff.1 here
    obtain ⟨joint, us, rfl⟩ := exists_mark_of_startsOp ':' [] colon
    have path : startsPathTy (.mark ':' joint :: us) = false := by
      rw [startsPathTy, (by simpa using single : isOp "::" (.mark ':' joint :: us) = false)]
      cases joint <;> rfl
    cases joint <;> cases us <;> exact ⟨rfl, rfl, rfl, path, rfl, rfl, rfl, rfl, rfl, rfl, rfl, rfl⟩
  constructor
  · exact Bool.eq_false_iff.2 fun value => starts (startsNoTy_of_startsValue value)
  · exact opens
  · exact mark '>' (by decide) []
  · exact mark '.' (by decide) ['.', '.']
  · exact mark '?' (by decide) []
  · exact mark '#' (by decide) []
  · refine Bool.eq_false_iff.2 fun here => starts ?_
    cases ts with
    | nil => cases here
    | cons t ts =>
      cases t with
      | ident name =>
        obtain rfl : name = "mut" := beq_iff_eq.1 here
        exact ⟨rfl, rfl, rfl, rfl, rfl, rfl, rfl, rfl, rfl, rfl, rfl, rfl⟩
      | mark _ _ | literal _ | opening _ | closing _ => cases here
  · have comma : isOp "," ts = false := mark ',' (by decide) []
    have semicolon : isOp ";" ts = false := mark ';' (by decide) []
    have equals : isOp "=" ts = false := mark '=' (by decide) []
    rw [clause.stops, opens, brace, comma, semicolon, colon, equals]
    rfl
  · intro lifetime
    by_contra alone
    exact reads (fails_ty_of_lifetime depth plus lifetime (Bool.eq_false_iff.2 alone))

theorem IsTy.startsTy {plus : Bool} {depth : Nat} {ts : List Token} (h : IsTy plus depth ts) {rest : List Token}
    (ends : endsTy rest = true) : StartsTy (ts ++ rest) := by
  cases depth with
  | zero =>
    obtain ⟨t, found, run, -⟩ := h rest ends []
    cases run
  | succ depth => exact startsTy_of_takes (h rest ends : ((deep depth).tyRule plus).Takes _ _)

/-- What may follow an argument. -/
def endsArg (ts : List Token) : Bool := isOp "," ts || isOp ">" ts

theorem endsArg_spec {ts : List Token} (h : endsArg ts = true) :
    endsTy ts = true ∧ isOp "+" ts = false := by
  rcases Bool.or_eq_true_iff.1 h with comma | closing
  · obtain ⟨joint, us, rfl⟩ := exists_mark_of_startsOp ',' [] comma
    exact ⟨rfl, rfl⟩
  · obtain ⟨joint, us, rfl⟩ := exists_mark_of_startsOp '>' [] closing
    exact ⟨rfl, rfl⟩

/-- The tokens are read as an argument between angle brackets. -/
structure IsArg (depth : Nat) (ts : List Token) : Prop where
  some : ts ≠ []
  starts : ∀ rest, endsArg rest = true → isOp ">" (ts ++ rest) = false
  takes : ∀ rest, endsArg rest = true → (angleArgs.arg (deep depth)).Takes (ts ++ rest) rest

/-- A type that is read where a sum may stand is an argument. -/
theorem takes_arg_of_ty {g : Grammar} {ts rest : List Token} (starts : StartsTy ts) (ends : endsArg rest = true)
    (type : (g.ty true).Takes ts rest) : (angleArgs.arg g).Takes ts rest := by
  obtain ⟨ends, -⟩ := endsArg_spec ends
  obtain ⟨-, equals, colon, -⟩ := endsTy_spec ends
  have sum : (isLifetime ts && !second (isOp "+") ts) = false := by
    cases lifetime : isLifetime ts with
    | true => rw [starts.sum lifetime]; rfl
    | false => rfl
  unfold angleArgs.arg
  refine reads_ahead_bind.2 ?_
  rw [sum, starts.value]
  refine takes_bind type fun t => ?_
  split
  · refine reads_peek_bind.2 ?_
    rw [equals]
    refine reads_peek_bind.2 ?_
    rw [colon]
    exact reads_pure trivial
  · exact reads_pure trivial

theorem isArg_of_isTy {depth : Nat} {ts : List Token} (h : IsTy true depth ts) : IsArg depth ts where
  some := by
    rintro rfl
    have closing : endsTy [.mark '>' false] = true := rfl
    exact absurd (h.startsTy closing).closing (by decide)
  starts rest ends := (h.startsTy (endsArg_spec ends).1).closing
  takes rest ends := takes_arg_of_ty (h.startsTy (endsArg_spec ends).1) ends (h rest (endsArg_spec ends).1)

theorem isArg_lifetime (depth : Nat) (name : String) : IsArg depth (Token.lifetime name) where
  some := nofun
  starts rest _ := rfl
  takes rest ends := by
    obtain ⟨-, sum⟩ := endsArg_spec ends
    have alone : (isLifetime (Token.lifetime name ++ rest) &&
        !second (isOp "+") (Token.lifetime name ++ rest)) = true := by
      show (!isOp "+" rest) = true
      rw [sum]
      rfl
    unfold angleArgs.arg
    refine reads_ahead_bind.2 ?_
    rw [if_pos alone]
    exact reads_bind (reads_lifetime name rest) fun _ _ => reads_pure trivial

/-- Arguments between angle brackets; the last bracket may be joined to another. -/
theorem reads_angleArgs {depth : Nat} (turbofish trailing joint : Bool) {args : List (List Token)}
    (each : ∀ a ∈ args, IsArg depth a) (rest : List Token) :
    (deep depth).angleArgs.Reads (absoluteMark turbofish ++ (Token.op "<" ++ (listed "," trailing args ++
      .mark '>' joint :: rest))) rest fun a => a.isNone = false := by
  have closing : endsArg (Token.mark '>' joint :: rest) = true := rfl
  have between : ∀ r, closesArgs (Token.op "," ++ r) = false ∧ endsArg (Token.op "," ++ r) = true :=
    fun _ => ⟨rfl, rfl⟩
  have body : (do
      discard (op "<")
      let found ← separated closesArgs "," (angleArgs.arg (deep depth))
      discard (op ">")
      return Args.angle turbofish found.1 found.2).Reads
        (Token.op "<" ++ (listed "," trailing args ++ Token.mark '>' joint :: rest)) rest fun a => a.isNone = false := by
    have members : (separated closesArgs "," (angleArgs.arg (deep depth))).Takes
        (listed "," trailing args ++ Token.mark '>' joint :: rest) (Token.mark '>' joint :: rest) :=
      takes_separated (fun ts => endsArg ts = true) trailing rfl closing between
        (fun ts mem => (each ts mem).starts) (fun ts mem => (each ts mem).takes) fun ts mem => (each ts mem).some
    refine takes_discard_bind (reads_op "<" _).takes (takes_bind members fun r => ?_)
    exact takes_discard_bind (reads_op_of_isOp rfl).takes (reads_pure rfl)
  unfold angleArgs
  refine reads_peek_bind.2 ?_
  cases turbofish with
  | true => exact takes_discard_bind (reads_optional rfl (reads_op "::" _)).takes body
  | false => exact takes_discard_bind (reads_no_optional rfl).takes body

/-! ## More types -/

/-- A path of segments is a type, with arguments behind any of them. -/
theorem reads_segmentsTy (plus : Bool) (depth : Nat) (absolute : Bool) {name : String} {args : List Token}
    {segments : List (List Token)} {S : List Token → Segment → Prop} (head : InPath name)
    (each : ∀ s ∈ (.ident name :: args) :: segments, IsSegment (deep depth) false s (S s)) {rest : List Token}
    (ends : EndsTy plus rest) :
    ((deep (depth + 1)).ty plus).Reads
      (absoluteMark absolute ++ joinSegments ((.ident name :: args) :: segments) ++ rest) rest fun t =>
        ∃ ss, t = .path absolute ss ∧ List.Forall₂ S ((.ident name :: args) :: segments) ss := by
  have starts : StartsPath (absoluteMark absolute ++ joinSegments ((.ident name :: args) :: segments) ++ rest) := by
    rw [joinSegments_cons, List.append_assoc, List.append_assoc]
    exact startsPath_tokens head _
  have reads : ((deep depth).path false).Reads
      (absoluteMark absolute ++ joinSegments (((.ident name :: args) :: segments).map id) ++ rest) rest fun p =>
        p.absolute = absolute ∧ List.Forall₂ S ((.ident name :: args) :: segments) p.segments :=
    reads_segments (List.cons_ne_nil _ _) each ends.args ends.path
  rw [List.map_id] at reads
  refine (reads_pathTy starts ends reads : ((deep depth).tyRule plus).Reads _ _ _).mono fun t read => ?_
  obtain ⟨⟨_, ss⟩, ⟨rfl, same⟩, rfl⟩ := read
  exact ⟨ss, rfl, same⟩

/-- Arguments between angle brackets. -/
def angleTokens (turbofish trailing joint : Bool) (args : List (List Token)) : List Token :=
  absoluteMark turbofish ++ (Token.op "<" ++ (listed "," trailing args ++ [.mark '>' joint]))

/-- A name with arguments between angle brackets. -/
theorem isSegment_args {depth : Nat} {name : String} (word : InPath name) (other : name ∉ selfWords)
    (turbofish trailing joint : Bool) {args : List (List Token)} (each : ∀ a ∈ args, IsArg depth a) :
    IsSegment (deep depth) false (.ident name :: angleTokens turbofish trailing joint args) fun s =>
      s.name = name ∧ s.args.isNone = false where
  named := ⟨name, _, rfl⟩
  reads rest _ := by
    have list := reads_angleArgs turbofish trailing joint each rest
    have tokens : angleTokens turbofish trailing joint args ++ rest = absoluteMark turbofish ++ (Token.op "<" ++
        (listed "," trailing args ++ .mark '>' joint :: rest)) := by
      simp [angleTokens]
    have opens : ((!false && isOp "<" (angleTokens turbofish trailing joint args ++ rest) &&
        !isOp "<=" (angleTokens turbofish trailing joint args ++ rest)) ||
        (isOp "::" (angleTokens turbofish trailing joint args ++ rest) &&
          third (isOp "<") (angleTokens turbofish trailing joint args ++ rest))) = true := by
      rw [tokens]
      cases turbofish <;> rfl
    rw [← tokens] at list
    have behind : (do
        let ts ← ahead
        if (!false && isOp "<" ts && !isOp "<=" ts) || (isOp "::" ts && third (isOp "<") ts) then
          return .mk name (← (deep depth).angleArgs)
        return .mk name .none : Parser Segment).Reads (angleTokens turbofish trailing joint args ++ rest) rest fun s =>
          s.name = name ∧ s.args.isNone = false := by
      refine reads_ahead_bind.2 ?_
      rw [if_pos opens]
      exact reads_bind list fun a some => reads_pure ⟨rfl, some⟩
    rw [List.cons_append]
    unfold segment
    refine reads_peek_bind.2 ?_
    rw [if_neg (by simpa [isSelfWord] using other)]
    refine reads_peek_bind.2 ?_
    split
    · exact reads_bind (reads_anyWord name _) fun n same => same ▸ behind
    · rename_i notSelf
      have identifier : name ∉ keywords := by
        refine word.resolve_right fun path => ?_
        have selfWord : name = "Self" := by
          simp only [pathWords, selfWords, List.mem_cons, List.not_mem_nil, or_false, not_or] at path other
          tauto
        exact notSelf (beq_iff_eq.2 selfWord)
      exact reads_bind (reads_ident identifier _) fun n same => same ▸ behind

/-- The type of a name with its arguments. -/
theorem reads_namedTy (plus : Bool) (depth : Nat) {name : String} {args : List Token} (plain : name ∉ keywords)
    (segment : IsSegment (deep depth) false (.ident name :: args) (·.name = name)) {rest : List Token}
    (ends : EndsTy plus rest) :
    ((deep (depth + 1)).ty plus).Reads (.ident name :: (args ++ rest)) rest fun t =>
      ∃ a, t = .path false [.mk name a] := by
  have each : ∀ s ∈ [.ident name :: args], IsSegment (deep depth) false s (·.name = name) := fun s mem =>
    List.mem_singleton.1 mem ▸ segment
  have tokens : .ident name :: (args ++ rest) = absoluteMark false ++ joinSegments [.ident name :: args] ++ rest := by
    simp [absoluteMark, joinSegments]
  rw [tokens]
  refine (reads_segmentsTy plus depth false (.inl plain) each ends).mono fun t read => ?_
  obtain ⟨ss, rfl, same⟩ := read
  obtain ⟨⟨n, a⟩, rest, rfl, none, rfl⟩ := List.forall₂_cons_left_iff.1 same
  cases none
  exact ⟨a, rfl⟩

theorem tokens_push {p : NamePath} (some : p.names ≠ []) (name : String) :
    (p.push name).tokens = p.tokens ++ further [.ident name] := by
  cases same : p.names with
  | nil => exact absurd same some
  | cons first names =>
    simp [NamePath.push, NamePath.tokens, same, joinSegments_cons]

theorem IsPath.push {p : NamePath} (h : IsPath p) {name : String} (plain : name ∉ keywords) : IsPath (p.push name) where
  some := by simp [NamePath.push]
  words n mem := by
    rcases List.mem_append.1 mem with old | new
    · exact h.words n old
    · rw [List.mem_singleton.1 new]
      exact .inl plain

/-- A path with an argument behind its last name. -/
theorem isTy_generic (plus : Bool) {depth : Nat} {p : NamePath} (h : IsPath p) (name : String)
    (plain : name ∉ keywords) (joint : Bool) {arg : List Token} (argument : IsArg depth arg) :
    IsTy plus (depth + 1) ((p.push name).tokens ++ angleTokens false false joint [arg]) := by
  intro rest ends
  obtain ⟨first, names, named, start⟩ := h.exists_tokens
  have each : ∀ s ∈ [.ident first] :: (names.map (fun n => [.ident n]) ++
      [.ident name :: angleTokens false false joint [arg]]), IsSegment (deep depth) false s fun _ => True := by
    intro s mem
    rw [← List.cons_append, List.mem_append, ← List.map_cons (f := fun n => [Token.ident n]), ← named] at mem
    rcases mem with old | last
    · obtain ⟨n, mem, rfl⟩ := List.mem_map.1 old
      exact (isSegment_name (.inl (h.words n mem))).mono fun _ _ => trivial
    · rw [List.mem_singleton.1 last]
      have only : ∀ a ∈ [arg], IsArg depth a := fun a mem => List.mem_singleton.1 mem ▸ argument
      exact (isSegment_args (.inl plain) (not_mem_selfWords plain) false false joint only).mono fun _ _ => trivial
  have tokens : (p.push name).tokens ++ angleTokens false false joint [arg] = absoluteMark p.absolute ++
      joinSegments ([.ident first] :: (names.map (fun n => [.ident n]) ++
        [.ident name :: angleTokens false false joint [arg]])) := by
    rw [tokens_push h.some, start, joinSegments_cons, List.flatMap_append, List.flatMap_map, List.flatMap_singleton]
    simp [further]
  rw [tokens]
  exact (reads_segmentsTy plus depth p.absolute (h.words first (named ▸ List.mem_cons_self)) each
    (endsTy_spec ends).1.of_sum).takes

/-- A reference to a type, for a lifetime if one is given, in front of whatever may follow that type. -/
theorem takes_referenceTy {plus : Bool} {depth : Nat} {ts rest : List Token} (lifetime : Option String)
    (h : ((deep depth).ty false).Takes (ts ++ rest) rest) (unmarked : isLifetime (ts ++ rest) = false)
    (shared : Parser.isWord "mut" (ts ++ rest) = false) :
    ((deep (depth + 1)).ty plus).Takes (Token.op "&" ++ ((lifetime.map Token.lifetime).getD [] ++ ts) ++ rest)
      rest := by
  have named : optLifetime.Takes ((lifetime.map Token.lifetime).getD [] ++ (ts ++ rest)) (ts ++ rest) := by
    cases lifetime with
    | none => exact (reads_no_optional unmarked).takes
    | some name =>
      exact reads_optional rfl (reads_bind (reads_lifetime name _) fun _ _ => reads_pure trivial)
  rw [List.append_assoc, List.append_assoc]
  show ((deep depth).tyRule plus).Takes _ _
  unfold tyRule
  refine reads_bind (reads_binder rfl) fun binder none => reads_ahead_bind.2 ?_
  subst none
  show (do
    let start ← seq [op "&", optLifetime, optWord "mut"]
    return Ty.shaped .reference (start ++ [Part.ty (← (deep depth).ty false)])).Takes _ _
  refine takes_bind (takes_seq_cons (reads_op "&" _).takes (takes_seq_cons named
    (takes_seq_cons (reads_no_optional shared).takes takes_seq_nil))) fun _ => ?_
  exact takes_bind h fun _ => reads_pure trivial

/-- A slice of a type, whatever follows it. -/
theorem takes_sliceTy {plus : Bool} {depth : Nat} {ts : List Token} (h : IsTy true depth ts) (rest : List Token) :
    ((deep (depth + 1)).ty plus).Takes (Token.group .bracket ts ++ rest) rest := by
  have element : (do
      let elem ← (deep depth).tyCode
      if ← peek (isOp ";") then
        let semi ← op ";"
        return (true, elem ++ semi ++ (← embed .expression (deep depth).fullExpr))
      return (false, elem)).Takes (ts ++ Token.closing .bracket :: rest) (Token.closing .bracket :: rest) := by
    refine takes_bind (takes_bind (h _ rfl) fun _ => reads_pure trivial) fun elem => reads_peek_bind.2 ?_
    exact reads_pure trivial
  have tokens : Token.group .bracket ts ++ rest = .opening .bracket :: (ts ++ .closing .bracket :: rest) := by
    simp [Token.group]
  rw [tokens]
  show ((deep depth).tyRule plus).Takes _ _
  unfold tyRule
  refine reads_bind (reads_binder rfl) fun binder none => reads_ahead_bind.2 ?_
  subst none
  exact takes_bind (reads_inside element) fun _ => reads_pure trivial

theorem isTy_reference {plus : Bool} {depth : Nat} {ts : List Token} (lifetime : Option String)
    (h : IsTy false depth ts)
    (plain : ∀ rest, isLifetime (ts ++ rest) = false ∧ Parser.isWord "mut" (ts ++ rest) = false) :
    IsTy plus (depth + 1) (Token.op "&" ++ ((lifetime.map Token.lifetime).getD [] ++ ts)) :=
  fun rest ends => takes_referenceTy lifetime (h rest ends) (plain rest).1 (plain rest).2

theorem isTy_slice {plus : Bool} {depth : Nat} {ts : List Token} (h : IsTy true depth ts) :
    IsTy plus (depth + 1) (Token.group .bracket ts) :=
  fun rest _ => takes_sliceTy h rest

end LiveSettings.Grammar
