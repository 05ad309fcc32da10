import LiveSettings.Proofs.Code.RereadShapes

/-!
# Types that start with a path and are read again

A path may be a type, a macro that gives one, or the first bound of a sum; a path into a type starts with that type.

Results: `ensures_namedTy`.
-/

namespace LiveSettings.Grammar

open LiveSettings.Parser
open LiveSettings.Token (Printable printable_absoluteMark printable_flatMap printable_ident printable_listed printable_op)

variable {f : Bool → List Segment → Option NamePath}

/-! ## Groups of tokens -/

/-- The tokens close as many groups as they open, and so many more. -/
inductive Levelled : Nat → List Token → Prop
  | done : Levelled 0 []
  | opening {n : Nat} {ts : List Token} (d : Delimiter) (later : Levelled (n + 1) ts) : Levelled n (.opening d :: ts)
  | closing {n : Nat} {ts : List Token} (d : Delimiter) (later : Levelled n ts) : Levelled (n + 1) (.closing d :: ts)
  | other {n : Nat} {t : Token} {ts : List Token} (plain : ∀ d, t ≠ .opening d ∧ t ≠ .closing d) (later : Levelled n ts) :
    Levelled n (t :: ts)

theorem ensures_rawLoop (fuel n : Nat) {ts : List Token} : (rawLoop fuel n).Ensures ts fun us _ => Levelled n us := by
  induction fuel generalizing n ts with
  | zero => exact ensures_failure
  | succ fuel ih =>
    unfold rawLoop
    refine ensures_ahead_bind.2 ?_
    cases ts with
    | nil =>
      dsimp only
      split
      · rename_i level
        exact ensures_pure (level ▸ .done)
      · exact ensures_failure
    | cons t ts =>
      have later {m : Nat} (level : ∀ us, Levelled m us → Levelled n (t :: us)) : (do
          discard next
          return t :: (← rawLoop fuel m)).Ensures (t :: ts) fun us _ => Levelled n us :=
        ensures_after fun _ vs => ensures_bind (ih m) fun us ws found => ensures_pure (level us found)
      cases t with
      | closing d =>
        dsimp only
        cases n with
        | zero => exact ensures_pure .done
        | succ n => exact later fun us found => .closing d found
      | opening d => exact later fun us found => .opening d found
      | ident _ | mark _ _ | literal _ => exact later fun us found => .other (fun d => ⟨nofun, nofun⟩) found

/-- A group is read again up to the token that closes it. -/
theorem Levelled.takes {n : Nat} {ts : List Token} (h : Levelled n ts) (d : Delimiter) (rest : List Token) {fuel : Nat}
    (enough : ts.length < fuel) : (rawLoop fuel n).Takes (ts ++ .closing d :: rest) (.closing d :: rest) := by
  induction h generalizing fuel with
  | done =>
    obtain ⟨fuel, rfl⟩ := Nat.exists_eq_succ_of_ne_zero (Nat.ne_zero_of_lt enough)
    unfold rawLoop
    exact reads_ahead_bind.2 (reads_pure trivial)
  | opening e later ih =>
    obtain ⟨fuel, rfl⟩ := Nat.exists_eq_succ_of_ne_zero (Nat.ne_zero_of_lt enough)
    unfold rawLoop
    refine reads_ahead_bind.2 (takes_discard_bind (takes_next _ _) ?_)
    exact takes_bind (ih (Nat.lt_of_succ_lt_succ enough)) fun _ => reads_pure trivial
  | closing e later ih =>
    obtain ⟨fuel, rfl⟩ := Nat.exists_eq_succ_of_ne_zero (Nat.ne_zero_of_lt enough)
    unfold rawLoop
    refine reads_ahead_bind.2 (takes_discard_bind (takes_next _ _) ?_)
    exact takes_bind (ih (Nat.lt_of_succ_lt_succ enough)) fun _ => reads_pure trivial
  | @other n t ts plain later ih =>
    obtain ⟨fuel, rfl⟩ := Nat.exists_eq_succ_of_ne_zero (Nat.ne_zero_of_lt enough)
    have tail := ih (Nat.lt_of_succ_lt_succ enough)
    unfold rawLoop
    refine reads_ahead_bind.2 ?_
    cases t with
    | opening e => exact absurd rfl (plain e).1
    | closing e => exact absurd rfl (plain e).2
    | ident _ | mark _ _ | literal _ =>
      exact takes_discard_bind (takes_next _ _) (takes_bind tail fun _ => reads_pure trivial)

theorem ensures_rawGroupCode {ts : List Token} : rawGroupCode.Ensures ts fun parts _ =>
    ∃ d us, parts = code (Token.group d us) ∧ Levelled 0 us := by
  have content (d : Delimiter) : (inside d raw).Ensures ts fun us _ => Levelled 0 us :=
    ensures_inside fun us _ => ensures_ahead_bind.2 ((ensures_rawLoop _ 0).mono fun vs ws found _ _ => found)
  unfold rawGroupCode rawGroup
  refine ensures_bind (R := fun r _ => Levelled 0 r.2) (ensures_ahead_bind.2 ?_) fun r us found =>
    ensures_pure ⟨r.1, r.2, rfl, found⟩
  split
  · exact ensures_bind (content _) fun us vs found => ensures_pure found
  · exact ensures_failure

theorem takes_rawGroupCode {us : List Token} (level : Levelled 0 us) (d : Delimiter) (rest : List Token) :
    rawGroupCode.Takes (Token.group d us ++ rest) rest := by
  have content : raw.Takes (us ++ .closing d :: rest) (.closing d :: rest) := by
    unfold raw
    exact reads_ahead_bind.2 (level.takes d rest (by simp only [List.length_append]; omega))
  rw [group_append]
  unfold rawGroupCode rawGroup
  refine takes_bind (reads_ahead_bind.2 ?_) fun _ => reads_pure trivial
  exact takes_bind (reads_inside content) fun _ => reads_pure trivial

/-! ## Paths into types -/

/-- What is read as a path into a type is read again. -/
structure ProjectionReread (f : Bool → List Segment → Option NamePath) (owner : Ty)
    (depth : Nat) (absolute : Bool) (segments : List Segment) : Prop where
  type : ∃ before after, TyReread f true before owner after ∧ (depth ≠ 0 → Parser.isWord "as" after = true)
  each : ∀ s ∈ segments, SegmentReread f s
  further : depth < segments.length
  marked : depth = 0 → absolute = true

/-- The names behind the type that a path goes into. -/
theorem ensures_projected {g : Grammar} (rereads : Rereads f g) (self : Ty) (trait : Option Path) {ts : List Token} : (do
    discard (op ">")
    discard (op "::")
    let first ← g.segment false
    let rest ← many (isOp "::") do
      discard (op "::")
      g.segment false
    match trait with
    | some p => return .projection self p.segments.length p.absolute (p.segments ++ first :: rest)
    | none => return .projection self 0 true (first :: rest) : Parser Ty).Ensures ts fun t _ =>
      ∃ first rest, (∀ s ∈ first :: rest, SegmentReread f s) ∧ t = match trait with
        | some p => .projection self p.segments.length p.absolute (p.segments ++ first :: rest)
        | none => .projection self 0 true (first :: rest) := by
  have round (us : List Token) : (do
      discard (op "::")
      g.segment false).Ensures us fun s _ => SegmentReread f s :=
    ensures_after fun _ us => (ensures_segment rereads).mono fun s _ found => found.1
  refine ensures_after fun _ us => ensures_after fun _ vs => ?_
  refine ensures_bind (ensures_segment rereads) fun s us first => ?_
  refine ensures_bind (ensures_many fun us _ => round us) fun ss vs rounds => ?_
  have each : ∀ s' ∈ s :: ss, SegmentReread f s' :=
    List.forall_mem_cons.2 ⟨first.1, rounds.forall fun _ _ _ reread => reread⟩
  cases trait with
  | some p => exact ensures_pure ⟨s, ss, each, rfl⟩
  | none => exact ensures_pure ⟨s, ss, each, rfl⟩

theorem ensures_tyPath {g : Grammar} (rereads : Rereads f g) {ts : List Token} (starts : startsPathTy ts = true) :
    (g.tyPath false).Ensures ts fun t _ =>
      (∃ p : Path, t = p.toTy ∧ PathReread f p.segments ∧ IsRooted p.absolute p.segments ∧ p.absolute = isOp "::" ts) ∨
      (isOp "<" ts = true ∧ ∃ self depth absolute segments, t = .projection self depth absolute segments ∧
        ProjectionReread f self depth absolute segments) := by
  unfold tyPath
  refine ensures_peek_bind.2 (ensures_ite (fun here => ?_) fun _ => ?_)
  · refine ensures_after fun _ us => ensures_bind (rereads.ty true us) fun self vs reread => ensures_peek_bind.2 ?_
    refine ensures_ite (fun word => ?_) fun _ => ?_
    · refine ensures_after fun _ ws => ensures_bind (ensures_path rereads) fun p xs found => ?_
      refine ensures_pure_bind ((ensures_projected rereads self (some p)).mono fun t ys made => .inr ⟨here, ?_⟩)
      obtain ⟨first, rest, each, rfl⟩ := made
      refine ⟨self, _, _, _, rfl, ⟨us, vs, reread, fun _ => word⟩, List.forall_mem_append.2 ⟨found.1.each, each⟩, ?_, ?_⟩
      · simp
      · exact fun none => absurd (List.length_eq_zero_iff.1 none) found.1.some
    · refine ensures_pure_bind ((ensures_projected rereads self none).mono fun t ys made => .inr ⟨here, ?_⟩)
      obtain ⟨first, rest, each, rfl⟩ := made
      exact ⟨self, 0, true, _, rfl, ⟨us, vs, reread, fun some => absurd rfl some⟩, each, Nat.succ_pos _, fun _ => rfl⟩
  · refine ensures_bind (ensures_path rereads) fun p us found => ensures_pure (.inl ⟨p, rfl, found.1, ?_, found.2.1⟩)
    refine ⟨found.1.some, fun s mem => (found.1.each s mem).bare, fun relative s mem => ?_⟩
    obtain ⟨vs, rfl⟩ := found.2.2 relative s mem
    intro word
    rw [word] at starts
    cases starts

/-- The names behind the type that a path goes into are read again. -/
theorem reads_projected {g : Grammar} (self : Ty) (trait : Option Path) {first : List Token} {more : List (List Token)}
    (each : ∀ ts ∈ first :: more, IsSegment g false ts fun _ => True) {rest : List Token} (ends : EndsPath rest) : (do
      discard (op ">")
      discard (op "::")
      let first ← g.segment false
      let rest ← many (isOp "::") do
        discard (op "::")
        g.segment false
      match trait with
      | some p => return .projection self p.segments.length p.absolute (p.segments ++ first :: rest)
      | none => return .projection self 0 true (first :: rest) : Parser Ty).Reads
        (.mark '>' false :: (Token.op "::" ++ (first ++ (more.flatMap further ++ rest)))) rest fun t =>
          ∃ self depth absolute segments, t = .projection self depth absolute segments := by
  have next : NoArgs false (more.flatMap further ++ rest) := by
    cases more with
    | nil => exact ends.args
    | cons ts more =>
      rw [List.flatMap_cons, List.append_assoc]
      exact noArgs_further (each ts (List.mem_cons_of_mem _ List.mem_cons_self)) _
  have later : (many (isOp "::") do
      discard (op "::")
      g.segment false).Takes (more.flatMap further ++ rest) rest := by
    refine (reads_many (S := fun _ _ => True) (NoArgs false) ends.path ends.args (fun _ _ _ => rfl)
      (fun ts mem r => noArgs_further (each ts (List.mem_cons_of_mem _ mem)) r) (fun ts mem r follows => ?_)
      fun _ _ => nofun).takes
    rw [further, List.append_assoc]
    exact takes_discard_bind (reads_op "::" _).takes ((each ts (List.mem_cons_of_mem _ mem)).reads r follows)
  refine takes_discard_bind (reads_op ">" _).takes (takes_discard_bind (reads_op "::" _).takes ?_)
  refine takes_bind ((each first List.mem_cons_self).reads _ next) fun s => takes_bind later fun ss => ?_
  cases trait with
  | some p => exact reads_pure ⟨_, _, _, _, rfl⟩
  | none => exact reads_pure ⟨_, _, _, _, rfl⟩

section

variable {g : Grammar} {self first : List Token} {more : List (List Token)} {rest : List Token}

theorem reads_tyPath_bare (type : g.fullTy.Takes (self ++ .mark '>' false ::
      (Token.op "::" ++ (first ++ (more.flatMap further ++ rest))))
      (.mark '>' false :: (Token.op "::" ++ (first ++ (more.flatMap further ++ rest)))))
    (each : ∀ ts ∈ first :: more, IsSegment g false ts fun _ => True) (ends : EndsPath rest) :
    (g.tyPath false).Reads (.mark '<' false :: (self ++ .mark '>' false ::
      (Token.op "::" ++ (first ++ (more.flatMap further ++ rest))))) rest
        fun t => ∃ self depth absolute segments, t = .projection self depth absolute segments := by
  unfold tyPath
  refine reads_peek_bind.2 (takes_discard_bind (reads_op "<" _).takes (takes_bind type fun inner => ?_))
  exact reads_peek_bind.2 (reads_pure_bind (reads_projected inner none each ends))

theorem reads_tyPath_trait {trait : List Token} (type : g.fullTy.Takes (self ++ .ident "as" :: (trait ++ .mark '>' false ::
      (Token.op "::" ++ (first ++ (more.flatMap further ++ rest)))))
      (.ident "as" :: (trait ++ .mark '>' false :: (Token.op "::" ++ (first ++ (more.flatMap further ++ rest))))))
    (path : (g.path false).Takes (trait ++ .mark '>' false :: (Token.op "::" ++ (first ++ (more.flatMap further ++ rest))))
      (.mark '>' false :: (Token.op "::" ++ (first ++ (more.flatMap further ++ rest)))))
    (each : ∀ ts ∈ first :: more, IsSegment g false ts fun _ => True) (ends : EndsPath rest) :
    (g.tyPath false).Reads (.mark '<' false :: (self ++ .ident "as" :: (trait ++ .mark '>' false ::
      (Token.op "::" ++ (first ++ (more.flatMap further ++ rest)))))) rest
        fun t => ∃ self depth absolute segments, t = .projection self depth absolute segments := by
  unfold tyPath
  refine reads_peek_bind.2 (takes_discard_bind (reads_op "<" _).takes (takes_bind type fun inner => ?_))
  refine reads_peek_bind.2 (takes_discard_bind (reads_anyWord "as" _).takes (takes_bind path fun p => ?_))
  exact reads_pure_bind (reads_projected inner (some p) each ends)

end

theorem isAnyWord_of_isWord {w : String} {ts : List Token} (h : Parser.isWord w ts = true) : isAnyWord ts = true := by
  cases ts with
  | nil => cases h
  | cons t ts =>
    cases t with
    | ident name => rfl
    | mark _ _ | literal _ | opening _ | closing _ => cases h

/-- The trait that the path is of, behind the type that it goes into. -/
def traitMark (f : Bool → List Segment → Option NamePath) (depth : Nat) (absolute : Bool) (segments : List Segment) :
    List Token :=
  if depth = 0 then [] else .ident "as" :: pathTokens f absolute (segments.take depth)

section

variable {owner : Ty} {depth : Nat} {absolute : Bool} {segments : List Segment}
  (h : ProjectionReread f owner depth absolute segments)

include h

/-- The code of a path into a type. -/
theorem exists_projectionTokens : ∃ first more, (∀ ts ∈ first :: more, ∃ s ∈ segments, ts = (s.mapHeads f).flatten true) ∧
    ((Ty.projection owner depth absolute segments).mapHeads f).tokens =
      .mark '<' false :: ((owner.mapHeads f).tokens ++ (traitMark f depth absolute segments ++
        .mark '>' false :: (Token.op "::" ++ (first ++ more.flatMap further)))) := by
  have written : ((Ty.projection owner depth absolute segments).mapHeads f).tokens =
      projectionTokens (owner.mapHeads f).tokens depth absolute (segments.map fun s => (s.mapHeads f).flatten true) := by
    rw [Ty.mapHeads, Ty.tokens, Ty.flatten, segmentTokens_eq, segmentsMapHeads_eq_map, List.map_map]
    rfl
  have long : depth < (segments.map fun s => (s.mapHeads f).flatten true).length := by
    rw [List.length_map]
    exact h.further
  rw [written]
  cases same : (segments.map fun s => (s.mapHeads f).flatten true).drop depth with
  | nil => exact absurd (List.drop_eq_nil_iff.1 same) (by omega)
  | cons first more =>
    refine ⟨first, more, fun ts mem => ?_, ?_⟩
    · obtain ⟨s, given, rfl⟩ := List.mem_map.1 (List.mem_of_mem_drop (same ▸ mem))
      exact ⟨s, given, rfl⟩
    · cases depth with
      | zero =>
        rw [List.drop_zero] at same
        rw [same, h.marked rfl]
        simp [projectionTokens, traitMark, absoluteMark, joinSegments_cons]
      | succ depth =>
        rw [projectionTokens, traitMark, if_neg (Nat.succ_ne_zero depth), if_neg (Nat.succ_ne_zero depth), same,
          List.flatMap_cons, pathTokens, List.map_take]
        simp only [List.cons_append, List.nil_append, List.append_assoc]
        rfl

/-- The names of the trait are a path. -/
theorem pathReread_trait (some : depth ≠ 0) : PathReread f (segments.take depth) := by
  refine ⟨fun none => ?_, fun s mem => h.each s (List.mem_of_mem_take mem)⟩
  have further := h.further
  rcases List.take_eq_nil_iff.1 none with none | none
  · exact some none
  · rw [none] at further
    cases further

variable (held : ∀ s ∈ segments, s.Legible f) {first : List Token} {more : List (List Token)}
  (names : ∀ ts ∈ first :: more, ∃ s ∈ segments, ts = (s.mapHeads f).flatten true)

include held names

theorem printable_projection {self : List Token} (type : Printable self) :
    Printable (.mark '<' false :: (self ++ (traitMark f depth absolute segments ++
      .mark '>' false :: (Token.op "::" ++ (first ++ more.flatMap further))))) := by
  have mark : Printable [.mark '<' false] := (printable_op (by decide) : Printable (Token.op "<"))
  have closing : Printable [.mark '>' false] := (printable_op (by decide) : Printable (Token.op ">"))
  have path : Printable (Token.op "::") := printable_op (by decide)
  have each : ∀ ts ∈ first :: more, Printable ts := by
    intro ts mem
    obtain ⟨s, given, rfl⟩ := names ts mem
    exact (h.each s given).printable (held s given)
  have further : Printable (more.flatMap further) :=
    printable_flatMap fun ts mem => path.append (each ts (List.mem_cons_of_mem _ mem))
  have trait : Printable (traitMark f depth absolute segments) := by
    unfold traitMark
    split
    · exact Token.printable_nil
    · rename_i some
      have segments := (pathReread_trait h some).printable (fun s mem => held s (List.mem_of_mem_take mem)) absolute
      exact (printable_ident (by decide)).append segments
  exact mark.append (type.append (trait.append (closing.append (path.append
    ((each first List.mem_cons_self).append further)))))

/-- A path into a type is read as one, whether the names behind the type are of a trait or not. -/
theorem reads_tyPath_projection {plus : Bool} {before after : List Token} (type : TyTokens true before after owner
      (owner.mapHeads f).tokens) (word : depth ≠ 0 → Parser.isWord "as" after = true) {n : Nat}
    (enough : Enough n (.mark '<' false :: ((owner.mapHeads f).tokens ++ (traitMark f depth absolute segments ++
      .mark '>' false :: (Token.op "::" ++ (first ++ more.flatMap further))))))
    {rest : List Token} (ends : EndsTy plus rest) :
    ((deep n).tyPath false).Reads (.mark '<' false :: ((owner.mapHeads f).tokens ++
      (traitMark f depth absolute segments ++ .mark '>' false :: (Token.op "::" ++
        (first ++ (more.flatMap further ++ rest)))))) rest
        fun t => ∃ self depth absolute segments, t = .projection self depth absolute segments := by
  have each : ∀ ts ∈ first :: more, IsSegment (deep n) false ts fun _ => True := by
    intro ts mem
    have shorter : ts.length ≤ (first ++ more.flatMap further).length := by
      rcases List.mem_cons.1 mem with rfl | mem
      · simp
      · obtain ⟨front, back, rfl⟩ := List.append_of_mem mem
        simp [further]
        omega
    obtain ⟨s, given, rfl⟩ := names ts mem
    refine ((h.each s given).isSegment (held s given) (enough.of_le ?_)).mono fun _ _ => trivial
    simp only [List.length_cons, List.length_append] at shorter ⊢
    omega
  have below : Below n (owner.mapHeads f).tokens := enough.tail.left
  have enough := enough.tail.right.left
  unfold traitMark at enough ⊢
  split
  · exact reads_tyPath_bare (type.reads_field below (follows_of_endsTy rfl)).takes each ends.toEndsPath
  · rename_i some
    rw [if_neg some] at enough
    have follows : Follows true after (.ident "as" :: (pathTokens f absolute (segments.take depth) ++
        .mark '>' false :: (Token.op "::" ++ (first ++ (more.flatMap further ++ rest))))) := by
      refine ⟨endsTy_word true "as" _, fun sum => absurd sum Bool.false_ne_true, fun _ => ?_⟩
      obtain ⟨_, _, rfl⟩ := exists_of_isAnyWord (isAnyWord_of_isWord (word some))
      rfl
    have closes : EndsPath (.mark '>' false :: (Token.op "::" ++ (first ++ (more.flatMap further ++ rest)))) :=
      ⟨rfl, rfl⟩
    have held : ∀ s ∈ segments.take depth, s.Legible f := fun s mem => held s (List.mem_of_mem_take mem)
    have path := (pathReread_trait h some).reads held enough.enough.tail.enough closes
    exact reads_tyPath_trait (type.reads_field below follows).takes path.takes each ends.toEndsPath

end

section

variable {plus : Bool} {before after : List Token}

theorem tyTokens_projection {owner : Ty} {depth : Nat} {absolute : Bool} {segments : List Segment}
    (reread : ProjectionReread f owner depth absolute segments)
    (held : (Ty.projection owner depth absolute segments).Legible f) :
    TyTokens plus before after (.projection owner depth absolute segments)
      ((Ty.projection owner depth absolute segments).mapHeads f).tokens := by
  obtain ⟨before', after', type, word⟩ := reread.type
  have type := type.tokens held.1
  have held : ∀ s ∈ segments, s.Legible f := (segmentsHold_iff segments).1 held.2
  obtain ⟨first, more, names, tokens⟩ := exists_projectionTokens reread
  rw [tokens]
  refine ⟨printable_projection reread held names type.printable, fun _ _ => rfl, fun _ _ => rfl,
    fun n enough rest follows => ?_⟩
  have path := reads_tyPath_projection reread held names type word enough follows.toEndsTy
  simp only [List.cons_append, List.append_assoc]
  unfold tyRule
  refine reads_bind (reads_binder rfl) fun binder none => reads_ahead_bind.2 ?_
  subst none
  show ((deep n).namedTy plus []).Reads _ _ _
  unfold namedTy
  refine reads_bind path fun t found => ?_
  obtain ⟨inner, depth, absolute, segments, rfl⟩ := found
  exact reads_pure fun bound => absurd bound Bool.false_ne_true

/-! ## Paths -/

/-- A path, with parameters in front that it is made for, and what follows it. -/
theorem reads_tyRule_path {binder : List Part} (isBinder : IsBinder f binder) {absolute : Bool} {ss : List Segment}
    (path : PathReread f ss) (rooted : IsRooted absolute ss) (relative : binder ≠ [] → absolute = false)
    (held : ∀ s ∈ ss, s.Legible f) {depth : Nat}
    (enough : Enough depth (Part.written f binder ++ pathTokens f absolute ss)) {mid rest : List Token}
    (ends : EndsPath mid) {Q : Ty → Prop} (behind : ∀ binder' (p : Path), binder'.isEmpty = binder.isEmpty →
      p.absolute = absolute ∧ List.Forall₂ SameHead ss p.segments → ((deep depth).pathTy plus binder' p).Reads mid rest Q) :
    ((deep depth).tyRule plus).Reads (Part.written f binder ++ (pathTokens f absolute ss ++ mid)) rest Q := by
  have starts := path.startsPath rooted mid
  have enoughPath : Enough depth (pathTokens f absolute ss) := enough.right
  unfold tyRule
  refine reads_bind (isBinder.reads enough.left starts.binder) fun parts same => reads_ahead_bind.2 ?_
  refine reads_when_bind (fun some => reads_guarded ?_) (fun _ => rfl) ?_
  · have some : binder ≠ [] := by
      rintro rfl
      rw [same.1] at some
      cases some
    have bare : isOp "::" (pathTokens f absolute ss ++ mid) = false := by
      rw [relative some]
      cases ss with
      | nil => exact absurd rfl path.some
      | cons s ss =>
        rw [pathTokens, List.map_cons, joinSegments_cons, flatten_segment]
        rfl
    rw [starts.path, bare, starts.projection]
    rfl
  · simp only [starts.group, starts.function, starts.path, Bool.false_eq_true, if_false, if_true]
    exact reads_namedTy_of_path starts.projection (path.reads held enoughPath ends) fun p found =>
      behind parts p same.1 found

theorem bareSegments_of_sameHead {ss ss' : List Segment} (h : List.Forall₂ SameHead ss ss')
    (bare : bareSegments ss = true) : bareSegments ss' = true := by
  induction h with
  | nil => rfl
  | cons first _ ih =>
    simp only [bareSegments, List.all_cons, Bool.and_eq_true] at bare ⊢
    exact ⟨first.2.trans bare.1, ih bare.2⟩

section

variable {p : Path} (path : PathReread f p.segments) (rooted : IsRooted p.absolute p.segments)

include path rooted

theorem tyReread_path (heads : Heads f) : TyReread f plus before p.toTy after := by
  have tokens (plus : Bool) (held : p.toTy.Legible f) :
      TyTokens plus before after p.toTy (p.toTy.mapHeads f).tokens ∧ (p.toTy.mapHeads f).peel = p.toTy.mapHeads f := by
    obtain ⟨absolute, ss, same, path, rooted, held⟩ := path.headed heads rooted held
    rw [Path.toTy, same, tokens_path]
    exact ⟨⟨path.printable held absolute, fun _ rest => (path.startsTrait rest).lifetime, fun _ rest =>
      (path.startsTrait rest).binder, fun depth enough rest follows =>
        (path.reads_ty held rooted enough follows.toEndsTy).mono fun _ _ bound => absurd bound Bool.false_ne_true⟩, rfl⟩
  refine ⟨fun held => (tokens plus held).1, fun absolute ss same => ?_, fun _ held => ⟨before, after, p.toTy, ?_⟩⟩
  · cases same
    exact ⟨path, rooted⟩
  · rw [(tokens true held).2]
    exact (tokens true held).1

theorem tyReread_macro (bare : bareSegments p.segments = true) (d : Delimiter) {us : List Token} (level : Levelled 0 us) :
    TyReread f plus before (.shaped .macroCall
      (pathCode p.toTy ++ code (Token.op "!") ++ [.embedded .macroInput (code (Token.group d us))])) after := by
  refine tyReread_shaped fun held => ?_
  simp only [Path.toTy, held_append, held_pathCode, held_code, held_embedded, held_nil, and_true, Part.written_code] at held
  have tokens : Part.written f (pathCode p.toTy ++ code (Token.op "!") ++
      [.embedded .macroInput (code (Token.group d us))]) =
        pathTokens f p.absolute p.segments ++ (Token.op "!" ++ Token.group d us) := by
    simp [Part.written_append, Path.toTy, written_pathCode]
  have bang : Printable (Token.op "!") := printable_op (by decide)
  rw [tokens]
  refine tyTokens_of_takes rfl ((path.printable held.1 _).append (bang.append held.2.printable))
    (fun _ rest => ?_) (fun _ rest => ?_) fun depth enough rest _ => ?_
  · rw [List.append_assoc]
    exact (path.startsTrait _).lifetime
  · rw [List.append_assoc]
    exact (path.startsTrait _).binder
  · have ends : EndsPath (Token.op "!" ++ (Token.group d us ++ rest)) := ⟨rfl, rfl⟩
    have enough : Enough depth (Part.written f ([] : List Part) ++ pathTokens f p.absolute p.segments) := enough.left
    simp only [List.append_assoc]
    refine reads_tyRule_path (.inl rfl) path rooted (fun some => absurd rfl some) held.1 enough ends
      fun binder' p' none found => ?_
    have bare : bareSegments p'.segments = true := bareSegments_of_sameHead found.2 bare
    unfold pathTy
    refine reads_ahead_bind.2 ?_
    rw [bare]
    refine takes_bind (reads_op "!" _).takes fun _ => takes_bind ?_ fun _ => reads_pure trivial
    exact takes_bind (takes_rawGroupCode level d rest) fun _ => reads_pure trivial

variable {binder : List Part} (bound : BinderReread f before binder) (relative : binder ≠ [] → p.absolute = false)

include bound relative

/-- A path with parameters in front that it is made for. -/
theorem tyReread_bound (some : binder ≠ []) :
    TyReread f plus before (.shaped .bound (binder ++ pathCode p.toTy)) after := by
  refine tyReread_shaped fun held => ?_
  rw [held_append, Path.toTy, held_pathCode] at held
  have isBinder := bound.isBinder held.1
  rw [Part.written_append, Path.toTy, written_pathCode]
  refine ⟨isBinder.printable.append (path.printable held.2 _), fun _ rest => ?_, fun single rest => ?_,
    fun depth enough rest follows => ?_⟩
  · rw [List.append_assoc]
    exact isBinder.first _ (fun _ => rfl) (path.startsTrait rest).lifetime
  · rw [List.append_assoc]
    exact bound.unbound single (path.startsTrait rest).binder
  · have alone : (plus && isOp "+" rest) = false := by
      cases plus with
      | true => exact follows.sum rfl
      | false => rfl
    rw [List.append_assoc]
    refine reads_tyRule_path isBinder path rooted relative held.2 enough follows.toEndsPath fun binder' p' same _ => ?_
    have some : binder'.isEmpty = false := by
      rw [same]
      simpa using some
    unfold pathTy
    refine reads_ahead_bind.2 ?_
    rw [follows.bang, some, alone]
    exact reads_pure fun _ => rfl

/-- A sum of bounds that starts with a path. -/
theorem tyReread_sum {before' : List Token} {members : List (List Part)} {trailing : Bool} (later : Listing
      (fun ts => !startsBound ts) (isOp "+") "+" (BoundReread f false) before' members trailing after) :
    TyReread f true before (.shaped .traitObject (joinCode "+" ((binder ++ pathCode p.toTy) :: members) trailing))
      after := by
  refine tyReread_shaped fun held => ?_
  rw [held_joinCode, List.forall_mem_cons, held_append, Path.toTy, held_pathCode] at held
  obtain ⟨⟨heldBinder, heldPath⟩, held⟩ := held
  have isBinder := bound.isBinder heldBinder
  have printable : Printable (Part.written f (joinCode "+" ((binder ++ pathCode p.toTy) :: members) trailing)) := by
    have each := later.forall (S := fun ps => Held f ps → Printable (Part.written f ps))
      fun _ _ _ reread held => (reread.tokens held).printable
    rw [Part.written_joinCode, List.map_cons]
    refine printable_listed (printable_op (by decide)) trailing (List.forall_mem_cons.2 ⟨?_, List.forall_mem_map.2
      fun ps mem => each ps mem (held ps mem)⟩)
    rw [Part.written_append, Path.toTy, written_pathCode]
    exact isBinder.printable.append (path.printable heldPath _)
  have tokens : Part.written f (joinCode "+" ((binder ++ pathCode p.toTy) :: members) trailing) =
      Part.written f binder ++ (pathTokens f p.absolute p.segments ++ (Token.op "+" ++
        listed "+" trailing (members.map (Part.written f)))) := by
    rw [Part.written_joinCode, List.map_cons, later.listed_cons, Part.written_append, Path.toTy, written_pathCode,
      List.append_assoc]
  rw [tokens] at printable ⊢
  refine tyTokens_of_takes rfl printable (fun _ rest => ?_) (fun single rest => ?_) fun depth enough rest follows => ?_
  · simp only [List.append_assoc]
    exact isBinder.first _ (fun _ => rfl) (path.startsTrait _).lifetime
  · simp only [List.append_assoc]
    exact bound.unbound single (path.startsTrait _).binder
  · have below : ∀ ps ∈ members, Below depth (Part.written f ps) := by
      intro ps mem
      have shorter := length_le_listed "+" trailing (List.mem_map_of_mem (f := Part.written f) mem)
      have mark : (Token.op "+").length = 1 := rfl
      refine enough.below ?_
      simp only [List.length_append, mark]
      omega
    have others := reads_furtherBounds later held below follows.alone
    have ends : EndsPath (Token.op "+" ++ (listed "+" trailing (members.map (Part.written f)) ++ rest)) := ⟨rfl, rfl⟩
    have enough : Enough depth (Part.written f binder ++ pathTokens f p.absolute p.segments) := enough.of_le (by simp)
    simp only [List.append_assoc]
    refine reads_tyRule_path isBinder path rooted relative heldPath enough ends fun binder' p' _ _ => ?_
    unfold pathTy
    refine reads_ahead_bind.2 ?_
    have sum : isOp "+" (Token.op "+" ++ (listed "+" trailing (members.map (Part.written f)) ++ rest)) = true := rfl
    have bang : isOp "!" (Token.op "+" ++ (listed "+" trailing (members.map (Part.written f)) ++ rest)) = false := rfl
    rw [bang, sum, Bool.true_and, Bool.or_true]
    exact takes_discard_bind (reads_op "+" _).takes (takes_bind others.takes fun r => reads_pure trivial)

end

theorem tyReread_projection {owner : Ty} {depth : Nat} {absolute : Bool} {segments : List Segment}
    (reread : ProjectionReread f owner depth absolute segments) :
    TyReread f plus before (.projection owner depth absolute segments) after where
  tokens := tyTokens_projection reread
  path := nofun
  peeled _ held := ⟨before, after, _, tyTokens_projection reread held⟩

/-- What is read as a type that starts with a path is read again as one. -/
theorem ensures_namedTy {g : Grammar} (rereads : Rereads f g) (heads : Heads f) {binder : List Part}
    (bound : BinderReread f before binder) {ts : List Token} (starts : startsPathTy ts = true)
    (bare : binder ≠ [] → isOp "::" ts = false ∧ isOp "<" ts = false) :
    (g.namedTy plus binder).Ensures ts (TyReread f plus before) := by
  unfold namedTy
  refine ensures_bind (ensures_tyPath rereads starts) fun t us found => ?_
  rcases found with ⟨p, rfl, path, rooted, absolute⟩ | ⟨projection, owner, depth, absolute, segments, rfl, reread⟩
  · have relative (some : binder ≠ []) : p.absolute = false := absolute.trans (bare some).1
    unfold Path.toTy pathTy
    refine ensures_ahead_bind.2 (ensures_ite (fun macroCall => ?_) fun _ => ensures_ite (fun _ => ?_) fun _ => ?_)
    · simp only [Bool.and_eq_true] at macroCall
      refine ensures_bind ensures_op fun bang vs mark => ?_
      have input : (embed .macroInput rawGroupCode).Ensures vs fun parts _ => ∃ d us,
          parts = [.embedded .macroInput (code (Token.group d us))] ∧ Levelled 0 us := by
        refine ensures_bind ensures_rawGroupCode fun parts ws found => ensures_pure ?_
        obtain ⟨d, us, rfl, level⟩ := found
        exact ⟨d, us, rfl, level⟩
      refine ensures_bind input fun parts ws found => ensures_pure ?_
      obtain ⟨d, us, rfl, level⟩ := found
      rw [mark.2.1]
      exact tyReread_macro path rooted macroCall.2 d level
    · refine ensures_ite (fun sum => ?_) fun alone => ensures_pure (tyReread_bound path rooted bound relative ?_)
      · obtain ⟨rfl, sum⟩ := Bool.and_eq_true_iff.1 sum
        refine ensures_discard_bind ensures_op fun mark vs found => ?_
        refine ensures_bind (ensures_chained fun us _ => rereads.bound false us) fun r ws later => ensures_pure ?_
        exact tyReread_sum path rooted bound relative later
      · rintro rfl
        simp_all
    · exact ensures_pure (tyReread_path path rooted heads)
  · exact ensures_pure (tyReread_projection reread)

end

end LiveSettings.Grammar
