import LiveSettings.Proofs.Code.RereadParams

/-!
# Bounds that are read again

A bound is a lifetime, a list of captured names, or the path of a trait with what may stand in front of it; the last name
of that path may be given the arguments of a call. Bounds are joined by plus signs, of which one behind the last is kept.

Results: `ensures_boundRule`, `ensures_traitSum`.
-/

namespace LiveSettings.Grammar

open LiveSettings.Parser
open LiveSettings.Token (Printable Spelled printable_ident printable_lifetime printable_listed printable_nil
  printable_op)

variable {f : Bool → List Segment → Option NamePath}

/-! ## Paths as code -/

theorem written_pathCode (absolute : Bool) (ss : List Segment) :
    Part.written f (pathCode (.path absolute ss)) = pathTokens f absolute ss := by
  rw [pathCode, Part.written_append, Part.written_code, Part.written_joinCode, listed_eq, List.map_map, pathTokens,
    joinSegments]
  refine congrArg (_ ++ ·) (congrArg _ (List.map_congr_left fun s _ => ?_))
  exact List.append_nil _

theorem held_pathCode {absolute : Bool} {ss : List Segment} :
    Held f (pathCode (.path absolute ss)) ↔ ∀ s ∈ ss, s.Legible f := by
  simp only [pathCode, held_append, held_code, held_joinCode, List.forall_mem_map, held_segment, held_nil, and_true,
    true_and]

theorem isTrait_append {ps qs : List Part} (first : isTrait ps = true) (second : isTrait qs = true) :
    isTrait (ps ++ qs) = true := by
  cases ps with
  | nil => exact second
  | cons p ps =>
    unfold isTrait at first ⊢
    split at first
    · cases first
    · split
      · simp_all
      · rfl

theorem isTrait_pathCode (absolute : Bool) (ss : List Segment) : isTrait (pathCode (.path absolute ss)) = true := by
  refine isTrait_append (by cases absolute <;> rfl) ?_
  cases ss with
  | nil => rfl
  | cons s ss => cases ss <;> rfl

/-! ## Results -/

/-- The tokens are read as the result of a function. -/
structure ResultTokens (plus : Bool) (after ts : List Token) : Prop where
  printable : Printable ts
  takes : ∀ depth, Below depth ts → ∀ rest, Follows plus after rest → ((deep depth).result plus).Takes (ts ++ rest) rest

theorem ensures_result {g : Grammar} (rereads : Rereads f g) {plus : Bool} {ts : List Token} :
    (g.result plus).Ensures ts fun parts us => Held f parts → ResultTokens plus us (Part.written f parts) := by
  unfold result
  refine ensures_peek_bind.2 (ensures_ite (fun _ => ?_) fun _ => ensures_pure fun _ => ?_)
  · refine ensures_bind ensures_op fun arrow us found => ensures_bind (rereads.ty plus us) fun t vs reread =>
      ensures_pure fun held => ?_
    obtain ⟨-, rfl, -⟩ := found
    rw [held_append, held_ty] at held
    have type := reread.tokens held.2.1
    rw [Part.written_append, Part.written_code, Part.written_ty, Part.written_nil, List.append_nil]
    refine ⟨(printable_op (by decide)).append type.printable, fun depth below rest follows => ?_⟩
    rw [List.append_assoc]
    unfold result
    refine reads_peek_bind.2 (takes_bind (reads_op "->" _).takes fun _ => ?_)
    exact takes_bind (type.reads_field below.right follows).takes fun _ => reads_pure trivial
  · refine ⟨printable_nil, fun depth _ rest follows => ?_⟩
    rw [Part.written_nil, List.nil_append]
    unfold result
    refine reads_peek_bind.2 ?_
    rw [follows.arrow]
    exact reads_pure trivial

/-! ## Types in a group -/

/-- Types with commas between them. -/
def TypesReread (f : Bool → List Segment → Option NamePath) (parts : List Part) : Prop :=
  ∃ (types : List Ty) (trailing : Bool), parts = joinCode "," (types.map fun t => [.ty t]) trailing ∧
    ∀ t ∈ types, ∃ before after, TyReread f true before t after

theorem ensures_types {g : Grammar} (rereads : Rereads f g) {ts : List Token} :
    (members g.tyCode).Ensures ts fun parts _ => TypesReread f parts := by
  unfold members separatedCode
  refine ensures_bind (ensures_separated fun us _ => ensures_tyCode rereads) fun r us listing => ensures_pure ?_
  have each : ∀ ps ∈ r.1, ∃ t before after, ps = [Part.ty t] ∧ TyReread f true before t after := by
    refine listing.forall fun before ps after found => ?_
    obtain ⟨t, same, reread⟩ := found
    exact ⟨t, before, after, same, reread⟩
  obtain ⟨types, same, reread⟩ : ∃ types : List Ty, r.1 = types.map (fun t => [Part.ty t]) ∧
      ∀ t ∈ types, ∃ before after, TyReread f true before t after := by
    generalize r.1 = members at each
    induction members with
    | nil => exact ⟨[], rfl, nofun⟩
    | cons ps pss ih =>
      obtain ⟨⟨t, before, after, rfl, reread⟩, later⟩ := List.forall_mem_cons.1 each
      obtain ⟨types, rfl, all⟩ := ih later
      exact ⟨t :: types, rfl, List.forall_mem_cons.2 ⟨⟨before, after, reread⟩, all⟩⟩
  exact ⟨types, r.2, by rw [same], reread⟩

section

variable {parts : List Part} (types : TypesReread f parts) (held : Held f parts)

include types held

theorem TypesReread.printable : Printable (Part.written f parts) := by
  obtain ⟨types, trailing, rfl, each⟩ := types
  rw [held_joinCode, List.forall_mem_map] at held
  rw [Part.written_joinCode, List.map_map]
  refine printable_listed (printable_op (by decide)) trailing (List.forall_mem_map.2 fun t mem => ?_)
  obtain ⟨before, after, reread⟩ := each t mem
  rw [Function.comp_apply, Part.written_ty, Part.written_nil, List.append_nil]
  exact (reread.tokens (held t mem).1).printable

theorem TypesReread.takes {depth : Nat} (below : Below depth (Part.written f parts)) (rest : List Token) :
    (members (deep depth).tyCode).Takes (Part.written f parts ++ .closing .paren :: rest) (.closing .paren :: rest) := by
  obtain ⟨types, trailing, rfl, each⟩ := types
  rw [held_joinCode, List.forall_mem_map] at held
  rw [Part.written_joinCode, List.map_map] at below ⊢
  have type : ∀ ts ∈ types.map (Part.written f ∘ fun t => [Part.ty t]), ∃ before after t,
      TyTokens true before after t ts := by
    refine List.forall_mem_map.2 fun t mem => ?_
    obtain ⟨before, after, reread⟩ := each t mem
    rw [Function.comp_apply, Part.written_ty, Part.written_nil, List.append_nil]
    exact ⟨before, after, t, reread.tokens (held t mem).1⟩
  unfold members separatedCode
  refine takes_bind (takes_separated (fun ts => endsTy ts = true) trailing rfl rfl (fun _ => ⟨rfl, rfl⟩)
    (fun ts mem r ends => ?_) (fun ts mem r ends => ?_) fun ts mem => ?_) fun _ => reads_pure trivial
  · obtain ⟨before, after, t, tokens⟩ := type ts mem
    exact (tokens.starts (follows_of_endsTy ends)).opens
  · obtain ⟨before, after, t, tokens⟩ := type ts mem
    exact tokens.takes_tyCode rfl (below.of_le (length_le_listed "," trailing mem)) (follows_of_endsTy ends)
  · obtain ⟨before, after, t, tokens⟩ := type ts mem
    exact tokens.some

end

/-! ## Paths of traits -/

/-- How the path of a trait starts. -/
structure StartsTrait (ts : List Token) : Prop where
  bound : startsBound ts = true
  lifetime : isLifetime ts = false
  captures : Parser.isWord "use" ts = false
  group : isOpening .paren ts = false
  binder : Parser.isWord "for" ts = false
  bracket : isOpening .bracket ts = false
  constness : Parser.isWord "const" ts = false
  maybe : isOp "?" ts = false

theorem InSegment.isWord {name w : String} (h : InSegment name) (other : ¬InSegment w) (ts : List Token) :
    Parser.isWord w (.ident name :: ts) = false := by
  refine Bool.eq_false_iff.2 fun same => other ?_
  rwa [← beq_iff_eq.1 (same : (name == w) = true)]

theorem PathReread.startsTrait {absolute : Bool} {ss : List Segment} (h : PathReread f ss) (rest : List Token) :
    StartsTrait (pathTokens f absolute ss ++ rest) := by
  cases ss with
  | nil => exact absurd rfl h.some
  | cons s ss =>
    rw [pathTokens, List.map_cons, joinSegments_cons, flatten_segment, List.cons_append, List.append_assoc]
    cases absolute with
    | true => exact ⟨rfl, rfl, rfl, rfl, rfl, rfl, rfl, rfl⟩
    | false =>
      have word := (h.each s List.mem_cons_self).word
      exact ⟨rfl, rfl, word.isWord (by decide) _, rfl, word.isWord (by decide) _, rfl,
        word.isWord (by decide) _, rfl⟩

/-- The tokens are read as the path of a trait. -/
structure TraitPathTokens (after ts : List Token) : Prop where
  printable : Printable ts
  starts : ∀ rest, StartsTrait (ts ++ rest)
  takes : ∀ depth, Enough depth ts → ∀ rest, Follows false after rest → (deep depth).boundPath.Takes (ts ++ rest) rest

theorem joinSegments_concat (xs : List (List Token)) (a b : List Token) :
    joinSegments (xs ++ [a ++ b]) = joinSegments (xs ++ [a]) ++ b := by
  cases xs with
  | nil => simp [joinSegments]
  | cons x xs => simp [joinSegments_cons, further]

theorem exists_concat_of_forall₂ {α β : Type} {R : α → β → Prop} {xs : List α} {x : α} {ys : List β}
    (h : List.Forall₂ R (xs ++ [x]) ys) : ∃ front y, ys = front ++ [y] ∧ R x y := by
  induction xs generalizing ys with
  | nil =>
    obtain ⟨y, ys', here, none, rfl⟩ := List.forall₂_cons_left_iff.1 h
    cases none
    exact ⟨[], y, rfl, here⟩
  | cons z xs ih =>
    obtain ⟨y, ys', -, later, rfl⟩ := List.forall₂_cons_left_iff.1 h
    obtain ⟨front, last, rfl, here⟩ := ih later
    exact ⟨y :: front, last, rfl, here⟩

/-- A path whose last name is given the arguments of a call. -/
theorem traitPathTokens_called {absolute : Bool} {front : List Segment} {s : Segment} {after : List Token}
    (path : PathReread f (front ++ [s])) {inputs output : List Part} (types : TypesReread f inputs)
    (result : Held f output → ResultTokens false after (Part.written f output)) {parts : List Part}
    (same : parts = code [.opening .paren] ++ inputs ++ code [.closing .paren] ++ output)
    (held : ∀ s' ∈ front ++ [.mk s.name (.call parts)], s'.Legible f) :
    TraitPathTokens after (pathTokens f absolute (front ++ [.mk s.name (.call parts)])) := by
  have bare : PathReread f (front ++ [.mk s.name .none]) := by
    refine ⟨by simp, List.forall_mem_append.2 ⟨fun s' mem => path.each s' (List.mem_append_left _ mem), ?_⟩⟩
    have last := path.each s (List.mem_append_right _ (List.mem_singleton_self s))
    exact List.forall_mem_singleton.2 ⟨last.spelled, last.word, fun _ => rfl, argsReread_none⟩
  have heldFront : ∀ s' ∈ front ++ [.mk s.name .none], s'.Legible f :=
    List.forall_mem_append.2 ⟨fun s' mem => held s' (List.mem_append_left _ mem), List.forall_mem_singleton.2 trivial⟩
  have heldParts : Held f parts := held _ (List.mem_append_right _ (List.mem_singleton_self _))
  have tokens : pathTokens f absolute (front ++ [.mk s.name (.call parts)]) =
      pathTokens f absolute (front ++ [.mk s.name .none]) ++ Part.written f parts := by
    rw [pathTokens, pathTokens, List.map_append, List.map_append, List.append_assoc, List.map_singleton,
      List.map_singleton]
    exact congrArg _ (joinSegments_concat _ [.ident s.name] (Part.written f parts))
  have call : Part.written f parts = .opening .paren :: (Part.written f inputs ++ .closing .paren ::
      Part.written f output) := by
    rw [same]
    simp [Part.written_append]
  rw [same] at heldParts
  simp only [held_append, held_code, true_and, and_true] at heldParts
  have result := result heldParts.2
  rw [tokens, call]
  refine ⟨?_, fun rest => ?_, fun depth enough rest follows => ?_⟩
  · have group : Printable (Token.group .paren (Part.written f inputs) ++ Part.written f output) :=
      ((types.printable heldParts.1).group .paren).append result.printable
    simp only [Token.group, List.cons_append, List.append_assoc] at group
    exact (bare.printable heldFront absolute).append group
  · rw [List.append_assoc]
    exact bare.startsTrait _
  · have inner : Enough depth (pathTokens f absolute (front ++ [.mk s.name .none])) := enough.left
    have ends : EndsPath (.opening .paren :: (Part.written f inputs ++ .closing .paren ::
      (Part.written f output ++ rest))) := ⟨rfl, rfl⟩
    have path := bare.reads heldFront inner ends
    simp only [List.append_assoc, List.cons_append]
    unfold boundPath
    refine reads_bind path fun p found => reads_ahead_bind.2 ?_
    obtain ⟨ss, y, names, last⟩ := exists_concat_of_forall₂ found.2
    have empty : (p.segments.getLast?.any (·.args.isEmpty)) = true := by
      rw [names, List.getLast?_concat, Option.any_some]
      have none : y.args.isNone = true := last.2
      cases same : y.args with
      | none => rfl
      | angle _ _ _ | call _ => rw [same] at none; cases none
    rw [empty]
    refine takes_discard_bind (reads_no_optional rfl).takes ?_
    refine takes_bind (takes_seq_cons (takes_group (types.takes heldParts.1 (enough.below ?_) _)) (takes_seq_cons
      (result.takes depth (enough.below ?_) rest follows) takes_seq_nil)) fun _ => reads_pure trivial
    · simp; omega
    · simp; omega

theorem ensures_boundPath {g : Grammar} (rereads : Rereads f g) {ts : List Token} :
    g.boundPath.Ensures ts fun p us => (∀ s ∈ p.segments, s.Legible f) →
      TraitPathTokens us (pathTokens f p.absolute p.segments) := by
  unfold boundPath
  refine ensures_bind (ensures_path rereads) fun p us found => ensures_ahead_bind.2 (ensures_ite (fun _ => ?_) fun _ => ?_)
  · have inputs (vs : List Token) : (group .paren (members g.tyCode)).Ensures vs fun parts _ =>
        ∃ inputs, parts = code [.opening .paren] ++ inputs ++ code [.closing .paren] ∧ TypesReread f inputs :=
      ensures_group fun _ _ => (ensures_types rereads).mono fun inputs _ types _ _ => ⟨inputs, rfl, types⟩
    have call (vs : List Token) : (seq [group .paren (members g.tyCode), g.result false]).Ensures vs fun parts ws =>
        ∃ inputs output, parts = code [.opening .paren] ++ inputs ++ code [.closing .paren] ++ output ∧
          TypesReread f inputs ∧ (Held f output → ResultTokens false ws (Part.written f output)) := by
      refine ensures_seq_cons (inputs vs) fun parts ws types => ensures_seq_cons (ensures_result rereads) fun output xs
        result => ensures_seq_nil ?_
      obtain ⟨inputs, rfl, types⟩ := types
      exact ⟨inputs, output, by rw [List.append_nil], types, result⟩
    refine ensures_after fun _ vs => ensures_bind (call vs) fun parts ws made => ensures_pure fun held => ?_
    obtain ⟨inputs, output, same, types, result⟩ := made
    obtain ⟨absolute, segments⟩ := p
    obtain none | ⟨front, s, last⟩ := segments.eq_nil_or_concat
    · exact absurd none found.1.some
    · rw [List.concat_eq_append] at last
      subst last
      have called : Path.called ⟨absolute, front ++ [s]⟩ parts = ⟨absolute, front ++ [.mk s.name (.call parts)]⟩ := by
        simp [Path.called]
      rw [called] at held ⊢
      exact traitPathTokens_called found.1 types result same held
  · refine ensures_pure fun held => ⟨found.1.printable held p.absolute, fun rest => found.1.startsTrait rest, ?_⟩
    intro depth enough rest follows
    unfold boundPath
    refine takes_bind (found.1.reads held enough follows.toEndsPath).takes fun q => reads_ahead_bind.2 ?_
    rw [follows.call, follows.path, Bool.false_and, Bool.or_false, Bool.and_false]
    exact reads_pure trivial

/-! ## Bounds by a trait -/

/-- The tokens are read as a trait with what may stand in front of it, which left `after`. -/
structure TraitTokens (after ts : List Token) : Prop where
  printable : Printable ts
  bound : ∀ rest, startsBound (ts ++ rest) = true
  lifetime : ∀ rest, isLifetime (ts ++ rest) = false
  captures : ∀ rest, Parser.isWord "use" (ts ++ rest) = false
  group : ∀ rest, isOpening .paren (ts ++ rest) = false
  reads : ∀ depth, Enough depth ts → ∀ rest, Follows false after rest →
    (deep depth).traitBound.Reads (ts ++ rest) rest fun parts => isTrait parts = true

/-- What may stand in front of a trait that is `const`. -/
def constCodes : List (List Part) :=
  [[], code [.ident "const"], code [.opening .bracket, .ident "const", .closing .bracket]]

section

variable {before constness maybe : List Part} {after ts : List Token}

/-- Parameters that a trait is bound for, if there are any. -/
def IsBinder (f : Bool → List Segment → Option NamePath) (parts : List Part) : Prop :=
  parts = [] ∨ ∃ params trailing, parts = binderCode params trailing ∧ (∀ p ∈ params, ParamReread f p) ∧ Held f parts

theorem IsBinder.reads (h : IsBinder f before) {depth : Nat} (enough : Enough depth (Part.written f before))
    {rest : List Token} (single : Parser.isWord "for" rest = false) :
    (deep depth).binder.Reads (Part.written f before ++ rest) rest fun parts =>
      parts.isEmpty = before.isEmpty ∧ isTrait parts = true := by
  rcases h with rfl | ⟨params, trailing, rfl, each, held⟩
  · exact (reads_binder single).mono fun parts none => by rw [none]; exact ⟨rfl, rfl⟩
  · exact reads_binderCode each held enough rest

theorem IsBinder.printable (h : IsBinder f before) : Printable (Part.written f before) := by
  rcases h with rfl | ⟨params, trailing, rfl, each, held⟩
  · exact printable_nil
  · exact printable_binder each held

/-- A property of what stands first, whether that is a binder or something behind it. -/
theorem IsBinder.first (h : IsBinder f before) (look : List Token → Bool) {b : Bool} {ts : List Token}
    (word : ∀ us, look (.ident "for" :: us) = b) (behind : look ts = b) : look (Part.written f before ++ ts) = b := by
  rcases h with rfl | ⟨params, trailing, rfl, -⟩
  · exact behind
  · rw [written_binderCode]
    exact word _

theorem printable_constness (known : constness ∈ constCodes) : Printable (Part.written f constness) := by
  have word : Printable [.ident "const"] := printable_ident (by decide)
  simp only [constCodes, List.mem_cons, List.not_mem_nil, or_false] at known
  rcases known with rfl | rfl | rfl
  · exact printable_nil
  · exact word
  · exact word.group .bracket

/-- A property of what stands first, if no bound is made for parameters. -/
theorem constness_first (known : constness ∈ constCodes) {look : List Token → Bool} {b : Bool} {ts : List Token}
    (word : ∀ us, look (.ident "const" :: us) = b) (bracket : ∀ us, look (.opening .bracket :: us) = b)
    (behind : look ts = b) : look (Part.written f constness ++ ts) = b := by
  simp only [constCodes, List.mem_cons, List.not_mem_nil, or_false] at known
  rcases known with rfl | rfl | rfl
  · exact behind
  · exact word _
  · exact bracket _

theorem reads_constness (known : constness ∈ constCodes) {rest : List Token} (bracket : isOpening .bracket rest = false)
    (other : Parser.isWord "const" rest = false) :
    Grammar.constness.Reads (Part.written f constness ++ rest) rest fun parts => isTrait parts = true := by
  unfold Grammar.constness
  refine reads_peek_bind.2 ?_
  simp only [constCodes, List.mem_cons, List.not_mem_nil, or_false] at known
  rcases known with rfl | rfl | rfl
  · rw [Part.written_nil, List.nil_append, bracket]
    exact (reads_no_optional other).mono fun parts none => by rw [none]; rfl
  · exact reads_optional rfl ((reads_word "const" rest).mono fun parts same => by rw [same]; rfl)
  · rw [Part.written_code]
    show Parser.Reads (do return code [.opening .bracket] ++ (← inside .bracket (word "const")) ++ code [.closing .bracket])
      _ _ _
    exact takes_bind (reads_inside (reads_word "const" _)).takes fun _ => reads_pure rfl

/-- The path of a trait with what may stand in front of it. -/
theorem traitTokens_modified (binder : IsBinder f before) (known : constness ∈ constCodes)
    (optional : maybe = [] ∨ (maybe = code (Token.op "?") ∧ before = [])) (path : TraitPathTokens after ts) :
    TraitTokens after (Part.written f before ++ (Part.written f constness ++ (Part.written f maybe ++ ts))) := by
  -- what stands first is a binder, `const`, a question mark or the path
  have first {look : List Token → Bool} {b : Bool} (rest : List Token) (forWord : ∀ us, look (.ident "for" :: us) = b)
      (constWord : ∀ us, look (.ident "const" :: us) = b) (bracket : ∀ us, look (.opening .bracket :: us) = b)
      (question : ∀ us, look (.mark '?' false :: us) = b) (behind : look (ts ++ rest) = b) :
      look (Part.written f before ++ (Part.written f constness ++ (Part.written f maybe ++ ts)) ++ rest) = b := by
    simp only [List.append_assoc]
    refine binder.first _ forWord (constness_first known constWord bracket ?_)
    rcases optional with rfl | ⟨rfl, -⟩
    · exact behind
    · exact question _
  have maybePrintable : Printable (Part.written f maybe) := by
    rcases optional with rfl | ⟨rfl, -⟩
    · exact printable_nil
    · exact (printable_op (by decide) : Printable (Token.op "?"))
  refine ⟨binder.printable.append ((printable_constness known).append (maybePrintable.append path.printable)),
    fun rest => first rest (fun _ => rfl) (fun _ => rfl) (fun _ => rfl) (fun _ => rfl) (path.starts rest).bound,
    fun rest => first rest (fun _ => rfl) (fun _ => rfl) (fun _ => rfl) (fun _ => rfl) (path.starts rest).lifetime,
    fun rest => first rest (fun _ => rfl) (fun _ => rfl) (fun _ => rfl) (fun _ => rfl) (path.starts rest).captures,
    fun rest => first rest (fun _ => rfl) (fun _ => rfl) (fun _ => rfl) (fun _ => rfl) (path.starts rest).group, ?_⟩
  intro depth enough rest follows
  have starts := path.starts rest
  have question {look : List Token → Bool} (mark : ∀ us, look (.mark '?' false :: us) = false)
      (behind : look (ts ++ rest) = false) : look (Part.written f maybe ++ (ts ++ rest)) = false := by
    rcases optional with rfl | ⟨rfl, -⟩
    · exact behind
    · exact mark _
  have maybeReads : (optOp "?").Reads (Part.written f maybe ++ (ts ++ rest)) (ts ++ rest) fun parts =>
      parts.isEmpty = maybe.isEmpty ∧ isTrait parts = true := by
    rcases optional with rfl | ⟨rfl, -⟩
    · exact (reads_no_optional starts.maybe).mono fun parts none => by rw [none]; exact ⟨rfl, rfl⟩
    · exact reads_optional rfl ((reads_op "?" _).mono fun parts same => by rw [same]; exact ⟨rfl, rfl⟩)
  have single : Parser.isWord "for" (Part.written f constness ++ (Part.written f maybe ++ (ts ++ rest))) = false :=
    constness_first known (fun _ => rfl) (fun _ => rfl) (question (fun _ => rfl) starts.binder)
  simp only [List.append_assoc]
  unfold traitBound
  refine reads_bind (binder.reads enough.left single) fun b hb => ?_
  refine reads_bind (reads_constness known (question (fun _ => rfl) starts.bracket)
    (question (fun _ => rfl) starts.constness)) fun c hc => reads_bind maybeReads fun m hm => ?_
  have late : (if b.isEmpty && !m.isEmpty then (deep depth).binder else pure [] : Parser (List Part)).Reads (ts ++ rest)
      (ts ++ rest) (· = []) := by
    split
    · exact reads_binder starts.binder
    · exact reads_pure rfl
  refine reads_bind late fun l none => ?_
  subst none
  refine reads_guarded_bind ?_ (takes_bind (path.takes depth enough.right.right.right rest follows) fun p => ?_)
  · rcases optional with rfl | ⟨rfl, rfl⟩
    · rw [hm.1]; rfl
    · rw [hb.1]; exact Bool.or_true _
  · exact reads_pure (isTrait_append (isTrait_append (isTrait_append (isTrait_append hb.2 hc) hm.2) rfl)
      (isTrait_pathCode _ _))

end

theorem ensures_traitBound {g : Grammar} (rereads : Rereads f g) {ts : List Token} : g.traitBound.Ensures ts
    fun parts us => (Held f parts → TraitTokens us (Part.written f parts)) ∧
      (isOp "?" ts = true → ∀ rest, isOp "?" (Part.written f parts ++ rest) = true) := by
  have const (us : List Token) : constness.Ensures us fun parts vs =>
      parts ∈ constCodes ∧ (isOp "?" us = true → parts = [] ∧ vs = us) := by
    refine ensures_peek_bind.2 (ensures_ite (fun bracket => ?_) fun _ => ensures_optional (fun here => ?_) fun _ => ?_)
    · obtain ⟨vs, rfl⟩ := exists_of_isOpening bracket
      exact ensures_group fun ws _ => ensures_word.mono fun parts xs found rest _ =>
        ⟨by rw [found.1]; decide, nofun⟩
    · refine ensures_word.mono fun parts vs found => ?_
      rw [found.1, found.2]
      exact ⟨by decide, nofun⟩
    · exact ⟨by decide, fun _ => ⟨rfl, rfl⟩⟩
  have optional (us : List Token) : (optOp "?").Ensures us fun parts _ =>
      (parts = [] ∧ isOp "?" us = false) ∨ parts = code (Token.op "?") :=
    ensures_optional (fun _ => ensures_op.mono fun parts ws found => .inr found.2.1) fun none => .inl ⟨rfl, none⟩
  unfold traitBound
  refine ensures_bind (ensures_binder rereads) fun before us binder => ?_
  refine ensures_bind (const us) fun constness vs known => ensures_bind (optional vs) fun maybe ws optional => ?_
  have late : (if before.isEmpty && !maybe.isEmpty then g.binder else pure [] : Parser (List Part)).Ensures ws
      fun behind _ => (before.isEmpty && !maybe.isEmpty) = false → behind = [] :=
    ensures_ite (fun here => ensures_trivial.mono fun _ _ _ other => absurd here (by simp [other])) fun _ =>
      ensures_pure fun _ => rfl
  refine ensures_bind late fun behind xs late => ensures_guarded_bind fun fits => ?_
  refine ensures_bind (ensures_boundPath rereads) fun p ys path => ensures_pure ?_
  have stands : maybe = [] ∨ (maybe = code (Token.op "?") ∧ before = []) := by
    rcases optional with ⟨rfl, -⟩ | rfl
    · exact .inl rfl
    · exact .inr ⟨rfl, List.isEmpty_iff.1 (Bool.and_eq_true_iff.1 fits).1⟩
  obtain rfl : behind = [] := by
    rcases stands with rfl | ⟨rfl, rfl⟩
    · exact late (Bool.and_false _)
    · exact List.isEmpty_iff.1 fits
  constructor
  · intro held
    simp only [held_append, Path.toTy, held_pathCode, held_nil, and_true] at held
    obtain ⟨⟨⟨heldBefore, -⟩, -⟩, inside⟩ := held
    have tokens : Part.written f (before ++ constness ++ maybe ++ [] ++ pathCode p.toTy) = Part.written f before ++
        (Part.written f constness ++ (Part.written f maybe ++ pathTokens f p.absolute p.segments)) := by
      rw [Path.toTy, List.append_nil]
      simp only [Part.written_append, written_pathCode, List.append_assoc]
    rw [tokens]
    refine traitTokens_modified (binder.imp And.left fun given => ?_) known.1 stands (path inside)
    obtain ⟨-, params, trailing, same, each⟩ := given
    exact ⟨params, trailing, same, each, heldBefore⟩
  · intro here rest
    have none : before = [] ∧ us = ts := by
      rcases binder with ⟨none, same, -⟩ | ⟨word, -⟩
      · exact ⟨none, same⟩
      · obtain ⟨_, _, rfl⟩ := exists_mark_of_startsOp '?' [] here
        cases word
    obtain ⟨rfl, rfl⟩ := none
    obtain ⟨rfl, rfl⟩ := known.2 here
    rcases optional with ⟨-, other⟩ | rfl
    · rw [here] at other
      cases other
    · rfl

/-! ## Bounds -/

/-- The code of a name that is captured. -/
inductive IsCaptured : List Part → Prop
  | lifetime {name : String} (spelled : Spelled name) : IsCaptured (code (Token.lifetime name))
  | self : IsCaptured (code [.ident "Self"])
  | ident {name : String} (spelled : Spelled name) (plain : name ∉ keywords) : IsCaptured (code [.ident name])

theorem ensures_captured {ts : List Token} : boundRule.captured.Ensures ts fun parts _ => IsCaptured parts := by
  unfold boundRule.captured
  refine ensures_peek_bind.2 (ensures_ite (fun _ => ?_) fun _ => ?_)
  · refine ensures_lifetimeCode.mono fun parts us found => ?_
    obtain ⟨name, rfl, -, spelled⟩ := found
    exact .lifetime spelled
  refine ensures_peek_bind.2 (ensures_ite (fun self => ?_) fun _ => ?_)
  · refine ensures_bind ensures_anyWord fun name us found => ensures_pure ?_
    obtain ⟨rfl, -⟩ := found
    obtain rfl : name = "Self" := beq_iff_eq.1 self
    exact .self
  · exact ensures_bind ensures_ident fun name us found => ensures_pure (.ident found.2.1 found.2.2)

theorem IsCaptured.tokens {parts : List Part} (h : IsCaptured parts) : Printable (Part.written f parts) ∧
    Part.written f parts ≠ [] ∧ ∀ rest, isOp ">" (Part.written f parts ++ rest) = false ∧
      boundRule.captured.Takes (Part.written f parts ++ rest) rest := by
  unfold boundRule.captured
  cases h with
  | @lifetime name spelled =>
    rw [Part.written_code]
    refine ⟨printable_lifetime spelled, nofun, fun rest => ⟨rfl, reads_peek_bind.2 ?_⟩⟩
    exact takes_bind (reads_lifetime name rest).takes fun _ => reads_pure trivial
  | self =>
    refine ⟨printable_ident (by decide), nofun, fun rest => ⟨rfl, reads_peek_bind.2 (reads_peek_bind.2 ?_)⟩⟩
    exact takes_bind (reads_anyWord "Self" rest).takes fun _ => reads_pure trivial
  | @ident name spelled plain =>
    rw [Part.written_code]
    refine ⟨printable_ident spelled, nofun, fun rest => ⟨rfl, reads_peek_bind.2 (reads_peek_bind.2 ?_)⟩⟩
    have other : Parser.isWord "Self" ([.ident name] ++ rest) = false :=
      Bool.eq_false_iff.2 fun same => plain (beq_iff_eq.1 (same : (name == "Self") = true) ▸ by decide)
    rw [other]
    exact takes_bind (reads_ident plain rest).takes fun _ => reads_pure trivial

/-- The code of a list of captured names. -/
def capturesCode (members : List (List Part)) (trailing : Bool) : List Part :=
  code [.ident "use"] ++ (code (Token.op "<") ++ (joinCode "," members trailing ++ code (Token.op ">")))

theorem ensures_captures {ts : List Token} :
    (seq [word "use", op "<", separatedCode closesArgs "," boundRule.captured, op ">"]).Ensures ts fun parts _ =>
      ∃ members trailing, parts = capturesCode members trailing ∧ ∀ ps ∈ members, IsCaptured ps := by
  have list (us : List Token) : (separatedCode closesArgs "," boundRule.captured).Ensures us fun parts _ =>
      ∃ members trailing, parts = joinCode "," members trailing ∧ ∀ ps ∈ members, IsCaptured ps :=
    ensures_bind (ensures_separated fun us _ => ensures_captured) fun r us listing =>
      ensures_pure ⟨r.1, r.2, rfl, listing.forall fun _ _ _ captured => captured⟩
  refine ensures_seq_cons ensures_word fun start us first => ensures_seq_cons ensures_op fun opening vs second =>
    ensures_seq_cons (list vs) fun names ws third => ensures_seq_cons ensures_op fun closing xs last => ensures_seq_nil ?_
  obtain ⟨members, trailing, rfl, captured⟩ := third
  exact ⟨members, trailing, by rw [first.1, second.2.1, last.2.1, List.append_nil]; rfl, captured⟩

theorem boundTokens_captures {members : List (List Part)} (trailing : Bool) (captured : ∀ ps ∈ members, IsCaptured ps)
    {after : List Token} :
    BoundTokens true after (capturesCode members trailing) (Part.written f (capturesCode members trailing)) := by
  have tokens : Part.written f (capturesCode members trailing) =
      [.ident "use"] ++ (Token.op "<" ++ (listed "," trailing (members.map (Part.written f)) ++ Token.op ">")) := by
    simp only [capturesCode, Part.written_append, Part.written_code, Part.written_joinCode]
  have each : ∀ ts ∈ members.map (Part.written f), Printable ts ∧ ts ≠ [] ∧ ∀ rest, isOp ">" (ts ++ rest) = false ∧
      boundRule.captured.Takes (ts ++ rest) rest :=
    List.forall_mem_map.2 fun ps mem => (captured ps mem).tokens
  rw [tokens]
  refine ⟨(printable_ident (by decide)).append (Token.printable_brackets trailing fun ts mem => (each ts mem).1), nofun,
    fun _ => rfl, fun depth _ rest _ => ?_⟩
  have names : (separatedCode closesArgs "," boundRule.captured).Takes
      (listed "," trailing (members.map (Part.written f)) ++ (Token.op ">" ++ rest)) (Token.op ">" ++ rest) :=
    takes_bind (takes_separated (fun _ => True) trailing rfl trivial (fun _ => ⟨rfl, trivial⟩)
      (fun ts mem r _ => ((each ts mem).2.2 r).1) (fun ts mem r _ => ((each ts mem).2.2 r).2)
      fun ts mem => (each ts mem).2.1) fun _ => reads_pure trivial
  simp only [List.append_assoc]
  unfold boundRule
  refine reads_ahead_bind.2 (reads_guarded_bind rfl ?_)
  refine reads_bind (reads_word "use" _) fun start same => ?_
  subst same
  exact takes_bind (takes_seq_cons (reads_op "<" _).takes (takes_seq_cons names (takes_seq_cons (reads_op ">" rest).takes
    takes_seq_nil))) fun _ => reads_pure fun _ => rfl

theorem group_append (d : Delimiter) (ts rest : List Token) :
    Token.group d ts ++ rest = .opening d :: (ts ++ .closing d :: rest) := by
  simp [Token.group]

theorem takes_traitGroup {after ts : List Token} (trait : TraitTokens after ts) {depth : Nat} (enough : Enough depth ts)
    (rest : List Token) : (group .paren (deep depth).traitBound).Reads (Token.group .paren ts ++ rest) rest
      fun parts => isTrait parts = true := by
  rw [group_append]
  have inner := (trait.reads depth enough (.closing .paren :: rest) (follows_of_endsTy rfl)).takes
  exact takes_bind (reads_inside inner).takes fun _ => reads_pure rfl

theorem boundTokens_group {captures : Bool} {after after' : List Token} {inner : List Part}
    (trait : TraitTokens after' (Part.written f inner)) :
    BoundTokens captures after (code [.opening .paren] ++ inner ++ code [.closing .paren])
      (Part.written f (code [.opening .paren] ++ inner ++ code [.closing .paren])) := by
  have tokens : Part.written f (code [.opening .paren] ++ inner ++ code [.closing .paren]) =
      Token.group .paren (Part.written f inner) := by
    simp only [Part.written_append, Part.written_code]
    rfl
  rw [tokens]
  refine ⟨trait.printable.group .paren, List.cons_ne_nil _ _, fun _ => rfl, fun depth enough rest _ => ?_⟩
  unfold boundRule
  refine reads_ahead_bind.2 ?_
  exact (takes_traitGroup trait (enough.inside.enough) rest).mono fun parts trait _ => trait

theorem boundTokens_trait {captures : Bool} {after : List Token} {parts : List Part}
    (trait : TraitTokens after (Part.written f parts)) : BoundTokens captures after parts (Part.written f parts) where
  printable := trait.printable
  some empty := by
    have bound := trait.bound []
    rw [empty] at bound
    cases bound
  starts := trait.bound
  reads depth enough rest follows := by
    unfold boundRule
    refine reads_ahead_bind.2 ?_
    rw [trait.lifetime, trait.captures, trait.group]
    exact (trait.reads depth enough rest follows).mono fun parts trait _ => trait

/-- What is read as a bound is read again as one. -/
theorem ensures_boundRule {g : Grammar} (rereads : Rereads f g) (captures : Bool) (ts : List Token) :
    (g.boundRule captures).Ensures ts (BoundReread f captures ts) := by
  unfold boundRule
  refine ensures_ahead_bind.2 (ensures_ite (fun here => ?lifetime) fun unmarked => ensures_ite (fun _ => ?captures) fun _ =>
    ensures_ite (fun _ => ?group) fun _ => ?trait)
  case lifetime =>
    refine ensures_lifetimeCode.mono fun parts us found => ?_
    obtain ⟨name, rfl, -, spelled⟩ := found
    refine ⟨fun _ => ?_, fun _ => ⟨name, spelled, rfl⟩⟩
    rw [Part.written_code]
    refine ⟨printable_lifetime spelled, nofun, fun _ => rfl, fun depth _ rest _ => ?_⟩
    unfold boundRule
    exact reads_ahead_bind.2 (takes_bind (reads_lifetime name rest).takes fun _ => reads_pure nofun)
  case captures =>
    refine ensures_guarded_bind fun allowed => ensures_captures.mono fun parts us found => ?_
    obtain ⟨members, trailing, rfl, captured⟩ := found
    subst allowed
    exact ⟨fun _ => boundTokens_captures trailing captured, fun lifetime => absurd lifetime (by simp [unmarked])⟩
  case group =>
    have inner (us : List Token) : (group .paren g.traitBound).Ensures us fun parts vs => ∃ inner after,
        parts = code [.opening .paren] ++ inner ++ code [.closing .paren] ∧
          (Held f inner → TraitTokens after (Part.written f inner)) :=
      ensures_group fun _ _ => (ensures_traitBound rereads).mono fun inner after found _ _ => ⟨inner, after, rfl, found.1⟩
    refine (inner ts).mono fun parts us found => ?_
    obtain ⟨inner, after, rfl, trait⟩ := found
    refine ⟨fun held => ?_, fun lifetime => absurd lifetime (by simp [unmarked])⟩
    simp only [held_append, held_code, true_and, and_true] at held
    exact boundTokens_group (trait held)
  case trait =>
    refine (ensures_traitBound rereads).mono fun parts us found => ?_
    refine ⟨fun held => ?_, fun lifetime => absurd lifetime (by simp [unmarked])⟩
    exact boundTokens_trait (found.1 held)

/-! ## Sums -/

theorem Follows.alone {plus : Bool} {after rest : List Token} (h : Follows plus after rest) : Follows false after rest :=
  ⟨⟨h.toEndsPath, h.bang, h.call, h.arrow, nofun⟩, h.sums, h.bounds⟩

/-- The bounds of a sum, which were read one after the other. Where no sum may stand there is one. -/
inductive SumRun (f : Bool → List Segment → Option NamePath) (captures : Bool) :
    Bool → List Token → List (List Part) → Bool → List Token → Prop
  | single {before after : List Token} {ps : List Part} (reread : BoundReread f captures before ps after) :
      SumRun f captures false before [ps] false after
  | sum {before after : List Token} {members : List (List Part)} {trailing : Bool} (some : members ≠ [])
      (listing : Listing (fun ts => !startsBound ts) (isOp "+") "+" (BoundReread f captures) before members trailing
        after) :
      SumRun f captures true before members trailing after

theorem ensures_boundSum {g : Grammar} (rereads : Rereads f g) (plus captures : Bool) {ts : List Token} :
    (g.boundSum plus captures).Ensures ts fun r us => SumRun f captures plus ts r.1 r.2 us := by
  unfold boundSum
  refine ensures_ite (fun sum => ?_) fun single => ?_
  · subst sum
    have step : (boundSum.step g captures).Ensures ts fun r us => ∃ vs, BoundReread f captures ts r.1 vs ∧
        r.2 = isOp "+" vs ∧ us = if isOp "+" vs = true then vs.drop "+".length else vs := by
      unfold boundSum.step
      refine ensures_bind (rereads.bound captures ts) fun ps us reread => ensures_peek_bind.2 ?_
      have taken : (optOp "+").Ensures us fun _ vs => vs = if isOp "+" us = true then us.drop "+".length else us :=
        ensures_optional (fun here => ensures_op.mono fun _ vs found => by rw [if_pos here, found.2.2]) fun none => by
          rw [if_neg (by simp [none])]
      exact ensures_discard_bind taken fun _ vs same => ensures_pure ⟨us, reread, rfl, same⟩
    refine ensures_bind step fun r us found => ?_
    obtain ⟨vs, reread, more, same⟩ := found
    subst same
    refine ensures_ite (fun between => ?_) fun alone => ?_
    · rw [more] at between
      rw [if_pos between]
      refine ensures_bind (ensures_chained fun us _ => rereads.bound captures us) fun r' ws listing => ?_
      exact ensures_pure (.sum (List.cons_ne_nil _ _) (.round reread between listing))
    · rw [more] at alone
      rw [if_neg (by simp [alone])]
      exact ensures_pure (.sum (List.cons_ne_nil _ _) (.last reread alone))
  · subst single
    exact ensures_bind (rereads.bound captures ts) fun ps us reread => ensures_pure (.single reread)

section

variable {captures plus : Bool} {before after : List Token} {members : List (List Part)} {trailing : Bool}

theorem SumRun.forall (h : SumRun f captures plus before members trailing after) {S : List Part → Prop}
    (each : ∀ before ps after, BoundReread f captures before ps after → S ps) : ∀ ps ∈ members, S ps := by
  cases h with
  | single reread => exact List.forall_mem_singleton.2 (each _ _ _ reread)
  | sum some listing => exact listing.forall each

theorem SumRun.printable (h : SumRun f captures plus before members trailing after)
    (held : ∀ ps ∈ members, Held f ps) : Printable (Part.written f (joinCode "+" members trailing)) := by
  have printable := h.forall (S := fun ps => Held f ps → Printable (Part.written f ps))
    fun _ _ _ reread held => (reread.tokens held).printable
  rw [Part.written_joinCode]
  exact printable_listed (printable_op (by decide)) trailing
    (List.forall_mem_map.2 fun ps mem => printable ps mem (held ps mem))

/-- A sum that starts with a lifetime does so again. -/
theorem SumRun.marked (h : SumRun f captures plus before members trailing after) (lifetime : isLifetime before = true) :
    ∃ name us, Part.written f (joinCode "+" members trailing) = Token.lifetime name ++ us ∧
      ∃ later, members = code (Token.lifetime name) :: later := by
  have starts {ps : List Part} {later : List (List Part)} {us : List Token}
      (reread : BoundReread f captures before ps us) : ∃ name us,
        Part.written f (joinCode "+" (ps :: later) trailing) = Token.lifetime name ++ us ∧
          ∃ later', ps :: later = code (Token.lifetime name) :: later' := by
    obtain ⟨name, -, rfl⟩ := reread.marked lifetime
    rw [Part.written_joinCode, List.map_cons, Part.written_code]
    cases later with
    | nil => exact ⟨name, _, rfl, [], rfl⟩
    | cons qs later =>
      exact ⟨name, _, by rw [List.map_cons, listed, List.append_assoc], qs :: later, rfl⟩
  cases h with
  | single reread => exact starts reread
  | sum some listing =>
    cases listing with
    | stopped _ => exact absurd rfl some
    | last here _ => exact starts here
    | round here _ _ => exact starts here

/-- Further bounds of a sum are read again, in front of whatever does not go on where the source did not. -/
theorem reads_furtherBounds
    (later : Listing (fun ts => !startsBound ts) (isOp "+") "+" (BoundReread f captures) before members trailing after)
    (held : ∀ ps ∈ members, Held f ps) {depth : Nat} (below : ∀ ps ∈ members, Below depth (Part.written f ps))
    {rest : List Token} (follows : Follows false after rest) :
    (chained (fun ts => !startsBound ts) "+" ((deep depth).bound captures)).Reads
      (listed "+" trailing (members.map (Part.written f)) ++ rest) rest fun r =>
        List.Forall₂ (fun ps qs => isTrait ps = true → isTrait qs = true) members r.1 := by
  have loop : LoopReads (separatedLoop (fun ts => !startsBound ts) (isOp "+") (op "+") ((deep depth).bound captures))
      (listed "+" trailing (members.map (Part.written f)) ++ rest) rest fun r =>
        List.Forall₂ (fun ps qs => isTrait ps = true → isTrait qs = true) members r.1 := by
    refine later.reads (fun r => startsOp_marks "+".toList r) (fun last => ?_) (fun last => ?_)
      fun ps mem ts us reread => ?_
    · subst last
      have stops := later.stops
      rw [Bool.not_eq_true'] at stops ⊢
      exact Bool.eq_false_iff.2 fun starts => absurd (follows.bounds starts) (by simp [stops])
    · subst last
      exact Bool.eq_false_iff.2 fun sum => absurd (follows.sums sum) (by simp [later.alone])
    · have tokens := reread.tokens (held ps mem)
      refine ⟨tokens.some, fun r => by rw [tokens.starts]; rfl, fun r place => tokens.reads_field (below ps mem) ?_⟩
      rcases place with ⟨rfl, rfl⟩ | ⟨sum, r', rfl⟩
      · exact follows
      · exact follows_sum sum rfl
  unfold chained
  exact reads_ahead_bind.2 (loop _ (Nat.lt_succ_self _))

/-- A sum is read again, in front of whatever does not go on where the source did not. -/
theorem SumRun.reads (h : SumRun f captures plus before members trailing after) (held : ∀ ps ∈ members, Held f ps)
    {depth : Nat} (below : ∀ ps ∈ members, Below depth (Part.written f ps)) {rest : List Token}
    (follows : Follows false after rest) :
    ((deep depth).boundSum plus captures).Reads (Part.written f (joinCode "+" members trailing) ++ rest) rest fun r =>
      List.Forall₂ (fun ps qs => isTrait ps = true → isTrait qs = true) members r.1 := by
  rw [Part.written_joinCode]
  have bound {ps : List Part} {ts us : List Token} (mem : ps ∈ members) (reread : BoundReread f captures ts ps us) :=
    reread.tokens (held ps mem)
  unfold boundSum
  cases h with
  | @single _ _ ps reread =>
    rw [List.map_singleton]
    show Parser.Reads (do return ([← (deep depth).bound captures], false)) (Part.written f ps ++ [] ++ rest) rest _
    rw [List.append_nil]
    have mem : ps ∈ [ps] := List.mem_singleton_self ps
    exact reads_bind ((bound mem reread).reads_field (below ps mem) follows) fun qs same =>
      reads_pure (.cons same .nil)
  | @sum before after members trailing some listing =>
    rw [if_pos rfl]
    have step {ps : List Part} {ts us : List Token} (mem : ps ∈ members) (reread : BoundReread f captures ts ps us)
        {r r' : List Token} {more : Bool} (behind : Follows false us r) (sum : isOp "+" r = more)
        (left : (optOp "+").Takes r r') : (boundSum.step (deep depth) captures).Reads (Part.written f ps ++ r) r'
          fun s => s.2 = more ∧ (isTrait ps = true → isTrait s.1 = true) := by
      unfold boundSum.step
      refine reads_bind ((bound mem reread).reads_field (below ps mem) behind) fun qs same => reads_peek_bind.2 ?_
      exact takes_discard_bind left (reads_pure ⟨sum, same⟩)
    cases listing with
    | stopped _ => exact absurd rfl some
    | @last _ _ ps here alone =>
      have ended : isOp "+" rest = false := Bool.eq_false_iff.2 fun sum => by simp [follows.sums sum] at alone
      show Parser.Reads _ (Part.written f ps ++ [] ++ rest) rest _
      rw [List.append_nil]
      refine reads_bind (step List.mem_cons_self here follows ended (reads_no_optional ended).takes) fun r found => ?_
      obtain ⟨qs, _⟩ := r
      obtain ⟨rfl, same⟩ := found
      exact reads_pure (.cons same .nil)
    | @round _ us _ ps pss _ here between later =>
      rw [List.map_cons, later.listed_cons, List.append_assoc, List.append_assoc]
      have first := step List.mem_cons_self here (follows_sum between rfl) rfl
        (reads_optional rfl (reads_op "+" (listed "+" trailing (pss.map (Part.written f)) ++ rest))).takes
      have others := reads_furtherBounds later (fun qs mem => held qs (List.mem_cons_of_mem _ mem))
        (fun qs mem => below qs (List.mem_cons_of_mem _ mem)) follows
      refine reads_bind first fun r found => ?_
      obtain ⟨qs, _⟩ := r
      obtain ⟨rfl, first⟩ := found
      exact reads_bind others fun r same => reads_pure (.cons first same)

end

/-- The code of a sum of bounds that are read again, one of which is no lifetime. -/
def SumReread (f : Bool → List Segment → Option NamePath) (captures plus : Bool)
    (before : List Token) (parts : List Part) (after : List Token) : Prop :=
  ∃ members trailing, parts = joinCode "+" members trailing ∧
    SumRun f captures plus before members trailing after ∧ members.any isTrait = true

theorem ensures_traitSum {g : Grammar} (rereads : Rereads f g) (plus captures : Bool) {ts : List Token} :
    (g.traitSum plus captures).Ensures ts (SumReread f captures plus ts) := by
  unfold traitSum
  refine ensures_bind (ensures_boundSum rereads plus captures) fun r us run => ensures_guarded_bind fun trait => ?_
  exact ensures_pure ⟨r.1, r.2, rfl, run, trait⟩

theorem any_of_forall₂ {α β : Type} {p : α → Bool} {q : β → Bool} {xs : List α} {ys : List β}
    (h : List.Forall₂ (fun x y => p x = true → q y = true) xs ys) (some : xs.any p = true) : ys.any q = true := by
  induction h with
  | nil => cases some
  | cons first _ ih =>
    rw [List.any_cons, Bool.or_eq_true] at some ⊢
    exact some.imp first ih

theorem length_lt_listed {sep : String} (some : Token.op sep ≠ []) (trailing : Bool) {ts us : List Token}
    {tss : List (List Token)} (other : tss ≠ []) (mem : us ∈ ts :: tss) :
    us.length < (listed sep trailing (ts :: tss)).length := by
  have length := List.length_pos_iff.2 some
  rw [listed_cons sep trailing ts other, List.length_append, List.length_append]
  rcases List.mem_cons.1 mem with rfl | later
  · omega
  · have shorter := length_le_listed sep trailing later
    omega

section

variable {captures plus : Bool} {before after : List Token} {parts : List Part}

theorem SumRun.takes_traitSum {members : List (List Part)} {trailing : Bool}
    (run : SumRun f captures plus before members trailing after) (trait : members.any isTrait = true)
    (held : ∀ ps ∈ members, Held f ps) {depth : Nat} (below : ∀ ps ∈ members, Below depth (Part.written f ps))
    {rest : List Token} (follows : Follows false after rest) : ((deep depth).traitSum plus captures).Takes
      (Part.written f (joinCode "+" members trailing) ++ rest) rest := by
  unfold traitSum
  refine reads_bind (run.reads held below follows) fun r same => reads_guarded_bind ?_ (reads_pure trivial)
  exact any_of_forall₂ same trait

theorem SumReread.startsBound (sum : SumReread f captures plus before parts after) (held : Held f parts)
    (rest : List Token) : Grammar.startsBound (Part.written f parts ++ rest) = true := by
  obtain ⟨members, trailing, rfl, run, trait⟩ := sum
  have starts := run.forall (S := fun ps => Held f ps → ∀ rest, Grammar.startsBound (Part.written f ps ++ rest) = true)
    fun _ _ _ reread held => (reread.tokens held).starts
  rw [held_joinCode] at held
  rw [Part.written_joinCode]
  cases members with
  | nil => cases trait
  | cons ps pss =>
    have first := starts ps List.mem_cons_self (held ps List.mem_cons_self)
    cases pss with
    | nil =>
      rw [List.map_singleton, listed, List.append_assoc]
      exact first _
    | cons qs pss =>
      rw [List.map_cons, List.map_cons, listed, List.append_assoc, List.append_assoc]
      exact first _

theorem SumReread.printable (sum : SumReread f captures plus before parts after) (held : Held f parts) :
    Printable (Part.written f parts) := by
  obtain ⟨members, trailing, rfl, run, -⟩ := sum
  exact run.printable (held_joinCode.1 held)

theorem SumReread.takes (sum : SumReread f captures plus before parts after) (held : Held f parts) {depth : Nat}
    (below : Below depth (Part.written f parts)) {rest : List Token} (follows : Follows false after rest) :
    ((deep depth).traitSum plus captures).Takes (Part.written f parts ++ rest) rest := by
  obtain ⟨members, trailing, rfl, run, trait⟩ := sum
  refine run.takes_traitSum trait (held_joinCode.1 held) (fun ps mem => below.of_le ?_) follows
  rw [Part.written_joinCode]
  exact length_le_listed "+" trailing (List.mem_map_of_mem mem)

/-- A sum that starts with a lifetime has another bound. -/
theorem SumReread.marked (sum : SumReread f captures plus before parts after) (lifetime : isLifetime before = true)
    (held : Held f parts) : (∀ rest, isLifetime (Part.written f parts ++ rest) = true) ∧
      ∀ depth, Enough depth (Part.written f parts) → ∀ rest, Follows false after rest →
        ((deep depth).traitSum plus captures).Takes (Part.written f parts ++ rest) rest := by
  obtain ⟨members, trailing, rfl, run, trait⟩ := sum
  obtain ⟨name, us, tokens, later, rfl⟩ := run.marked lifetime
  refine ⟨fun rest => by rw [tokens]; rfl, fun depth enough rest follows => ?_⟩
  have other : later ≠ [] := by
    rintro rfl
    cases trait
  refine run.takes_traitSum trait (held_joinCode.1 held) (fun ps mem => enough.below ?_) follows
  rw [Part.written_joinCode]
  exact length_lt_listed (by decide) trailing (by simpa using other) (List.mem_map_of_mem mem)

end

end LiveSettings.Grammar
