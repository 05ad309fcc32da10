import LiveSettings.Proofs.Code.CodeTokens
import LiveSettings.Proofs.Code.Ensuring
import LiveSettings.Proofs.Code.ReadTypes

/-!
# Code that is read again

What the rules give for a type, a name with its arguments or a bound is written as tokens, after the first names of
paths are replaced, and these tokens are read as such a thing again: by rules that are deep enough, in front of whatever
does not go on where the source did not. Code of other kinds than types is taken to be read again.

Results:
* `PathReread.reads_ty`: a path of names that are read again.
* `PathReread.headed`: it stays one when its first name is replaced by a path that is one itself.
-/

namespace LiveSettings

open LiveSettings.Parser LiveSettings.Grammar LiveSettings.Token

/-! ## What follows, and how deep the rules are -/

/-- The path of a type: it has names, those that stand for a module have no arguments, and `try` does not come first. -/
structure IsRooted (absolute : Bool) (segments : List Segment) : Prop where
  some : segments ≠ []
  bare : ∀ s ∈ segments, s.name ∈ selfWords → s.args.isNone = true
  first : absolute = false → ∀ s ∈ segments.head?, s.name ≠ "try"

/-- A single bound on its own. -/
def Ty.isBound : Ty → Bool
  | .shaped .bound _ => true
  | _ => false

namespace Grammar

/-- The rules are deep enough for the tokens. -/
def Enough (depth : Nat) (ts : List Token) : Prop := 8 * ts.length + 7 ≤ depth

/-- The rules below these are deep enough for the tokens. -/
def Below (depth : Nat) (ts : List Token) : Prop := 8 * ts.length + 8 ≤ depth

theorem Enough.of_le {depth : Nat} {ts us : List Token} (h : Enough depth ts) (shorter : us.length ≤ ts.length) :
    Enough depth us := by
  unfold Enough at *
  omega

theorem Enough.below {depth : Nat} {ts us : List Token} (h : Enough depth ts) (shorter : us.length < ts.length) :
    Below depth us := by
  unfold Enough Below at *
  omega

theorem Below.of_le {depth : Nat} {ts us : List Token} (h : Below depth ts) (shorter : us.length ≤ ts.length) :
    Below depth us := by
  unfold Below at *
  omega

theorem Below.enough {depth : Nat} {ts : List Token} (h : Below depth ts) : Enough depth ts := by
  unfold Enough Below at *
  omega

section

variable {depth : Nat} {ts us : List Token}

theorem Enough.left (h : Enough depth (ts ++ us)) : Enough depth ts := h.of_le (by simp)

theorem Enough.right (h : Enough depth (ts ++ us)) : Enough depth us := h.of_le (by simp)

theorem Enough.tail {t : Token} (h : Enough depth (t :: ts)) : Below depth ts := h.below (by simp)

theorem Below.tail {t : Token} (h : Below depth (t :: ts)) : Below depth ts := h.of_le (by simp)

theorem Below.left (h : Below depth (ts ++ us)) : Below depth ts := h.of_le (by simp)

theorem Below.right (h : Below depth (ts ++ us)) : Below depth us := h.of_le (by simp)

theorem Enough.behind (h : Enough depth (ts ++ us)) (some : ts ≠ []) : Below depth us := by
  obtain ⟨t, ts, rfl⟩ := List.exists_cons_of_ne_nil some
  exact Below.right h.tail

theorem Enough.inside {d : Delimiter} (h : Enough depth (Token.group d ts)) : Below depth ts :=
  Below.left h.tail

end

theorem Below.exists_pred {depth : Nat} {ts : List Token} (h : Below depth ts) : ∃ d, depth = d + 1 ∧ Enough d ts := by
  unfold Below at h
  exact ⟨depth - 1, by omega, by unfold Enough; omega⟩

/-- Nothing goes on over the tokens that did not go on over those of the source. -/
structure Follows (plus : Bool) (after rest : List Token) : Prop extends EndsTy plus rest where
  sums : isOp "+" rest = true → isOp "+" after = true
  bounds : startsBound rest = true → startsBound after = true

theorem follows_of_endsTy {plus : Bool} {after rest : List Token} (h : endsTy rest = true) :
    Follows plus after rest := by
  obtain ⟨ends, -, -, bound⟩ := endsTy_spec h
  exact ⟨ends.of_sum, fun sum => absurd (ends.sum rfl) (by simp [sum]), fun starts => absurd bound (by simp [starts])⟩

/-- A bound in front of a plus sign is followed by one again. -/
theorem follows_sum {after rest : List Token} (sum : isOp "+" after = true) (again : isOp "+" rest = true) :
    Follows false after rest := by
  obtain ⟨joint, us, rfl⟩ := exists_mark_of_startsOp '+' [] again
  cases joint <;> cases us <;> exact ⟨⟨⟨rfl, rfl⟩, rfl, rfl, rfl, nofun⟩, fun _ => sum, nofun⟩

/-! ## Code of other kinds -/

/-- Code of the kind is read from the tokens. -/
def IsEmbedded : Embedded → List Token → Prop
  | .literal, _ | .macroInput, _ => True
  | .expression, ts => ∀ depth, Enough depth ts → ∀ d rest,
    (deep depth).fullExpr.Takes (ts ++ .closing d :: rest) (.closing d :: rest)
  | .block, ts => ∀ depth, Enough depth ts → ∀ rest, (deep depth).constArgument.Takes (ts ++ rest) rest
  | .attribute, ts => ∀ depth, Enough depth ts → ∀ rest, (deep depth).outerAttr.Takes (ts ++ rest) rest
  | .receiver, ts => ∀ depth, Enough depth ts → ∀ rest, endsTy rest = true →
    (functionArg.self (deep depth)).Takes (ts ++ rest) rest
  | .verbatim plus, ts => ∀ depth, Enough depth ts → ∀ rest, EndsTy plus rest →
    ((deep depth).tyRule plus).Takes (ts ++ rest) rest

/-- Code of the kind can be written and is read from the tokens. -/
structure LegibleCode (kind : Embedded) (ts : List Token) : Prop where
  printable : Printable ts
  reads : IsEmbedded kind ts

/-! ## Replaced names -/

/-- The paths that replace names are of words that may stand in a path. -/
def Heads (f : Bool → List Segment → Option NamePath) : Prop :=
  ∀ {absolute ss head}, f absolute ss = some head → ∀ n ∈ head.names, Spelled n ∧ InSegment n

section

variable (f : Bool → List Segment → Option NamePath)

/-- If the first name of the path of a type is replaced, that is the path of a type again. -/
def Leads (absolute : Bool) (ss : List Segment) : Prop :=
  IsRooted absolute ss → ∀ head, f absolute ss = some head → IsRooted head.absolute (Imports.splice head ss)

end

end Grammar

section

variable (f : Bool → List Segment → Option NamePath)

/-- Paths stay paths of types when their first names are replaced, and code of other kinds is legible then. -/
def Ty.Legible (t : Ty) : Prop := t.Holds f (Leads f) LegibleCode

@[inherit_doc Ty.Legible]
def Segment.Legible (s : Segment) : Prop := s.Holds f (Leads f) LegibleCode

@[inherit_doc Ty.Legible]
def Args.Legible (args : Args) : Prop := args.Holds f (Leads f) LegibleCode

@[inherit_doc Ty.Legible]
def Arg.Legible (a : Arg) : Prop := a.Holds f (Leads f) LegibleCode

end

namespace Grammar

section

variable (f : Bool → List Segment → Option NamePath)

@[inherit_doc Ty.Legible]
def Held (parts : List Part) : Prop := partsHold f (Leads f) LegibleCode parts

/-- The arguments can be written, and are read again behind a name that may have them. -/
def ArgsReread (args : Args) : Prop :=
  args.Legible f → Printable ((args.mapHeads f).flatten true) ∧
    ∀ name, InSegment name → (name ∈ selfWords → args.isNone = true) →
      ∀ depth, Enough depth (.ident name :: (args.mapHeads f).flatten true) →
        IsSegment (deep depth) false (.ident name :: (args.mapHeads f).flatten true) fun s =>
          s.name = name ∧ s.args.isNone = args.isNone

/-- A name with its arguments is read again. -/
structure SegmentReread (s : Segment) : Prop where
  spelled : Spelled s.name
  word : InSegment s.name
  bare : s.name ∈ selfWords → s.args.isNone = true
  args : ArgsReread f s.args

/-- The names of a path are read again. -/
structure PathReread (segments : List Segment) : Prop where
  some : segments ≠ []
  each : ∀ s ∈ segments, SegmentReread f s

/-- What is written of a path. -/
def pathTokens (absolute : Bool) (segments : List Segment) : List Token :=
  absoluteMark absolute ++ joinSegments (segments.map fun s => (s.mapHeads f).flatten true)

/-- The tokens are read as a type like this one, which was read from `before` and left `after`. -/
structure TyTokens (plus : Bool) (before after : List Token) (t : Ty) (ts : List Token) : Prop where
  printable : Printable ts
  unmarked : isLifetime before = false → ∀ rest, isLifetime (ts ++ rest) = false
  unbound : Parser.isWord "for" before = false → ∀ rest, Parser.isWord "for" (ts ++ rest) = false
  reads : ∀ depth, Enough depth ts → ∀ rest, Follows plus after rest →
    ((deep depth).tyRule plus).Reads (ts ++ rest) rest fun u => t.isBound = true → u.isBound = true

/-- The type, which was read from `before` and left `after`, is read again. -/
structure TyReread (plus : Bool) (before : List Token) (t : Ty) (after : List Token) : Prop where
  tokens : t.Legible f → TyTokens plus before after t (t.mapHeads f).tokens
  path : ∀ absolute ss, t = .path absolute ss → PathReread f ss ∧ IsRooted absolute ss
  peeled : plus = true → t.Legible f →
    ∃ before after u, TyTokens true before after u (t.mapHeads f).peel.tokens

/-- The code of a bound that is no lifetime. -/
def isTrait : List Part → Bool
  | .token (.mark '\'' _) :: _ => false
  | _ => true

/-- The tokens are read as a bound like this one, which left `after`. -/
structure BoundTokens (captures : Bool) (after : List Token) (parts : List Part) (ts : List Token) : Prop where
  printable : Printable ts
  some : ts ≠ []
  starts : ∀ rest, startsBound (ts ++ rest) = true
  reads : ∀ depth, Enough depth ts → ∀ rest, Follows false after rest →
    ((deep depth).boundRule captures).Reads (ts ++ rest) rest fun ps => isTrait parts = true → isTrait ps = true

/-- The bound, which was read from `before` and left `after`, is read again. -/
structure BoundReread (captures : Bool) (before : List Token) (parts : List Part) (after : List Token) : Prop where
  tokens : Held f parts → BoundTokens captures after parts (Part.written f parts)
  marked : isLifetime before = true → ∃ name, Spelled name ∧ parts = code (Token.lifetime name)

/-- What the rules of a grammar give is read again. -/
structure Rereads (g : Grammar) : Prop where
  ty : ∀ plus ts, (g.ty plus).Ensures ts (TyReread f plus ts)
  bound : ∀ captures ts, (g.bound captures).Ensures ts (BoundReread f captures ts)

end

section

variable {f : Bool → List Segment → Option NamePath}

@[simp]
theorem held_nil : Held f [] := trivial

@[simp]
theorem held_append {ps qs : List Part} : Held f (ps ++ qs) ↔ Held f ps ∧ Held f qs := partsHold_append

@[simp]
theorem held_code (ts : List Token) : Held f (code ts) := partsHold_code ts

@[simp]
theorem held_token {t : Token} {ps : List Part} : Held f (.token t :: ps) ↔ Held f ps := ⟨And.right, And.intro trivial⟩

@[simp]
theorem held_ty {t : Ty} {ps : List Part} :
    Held f (.ty t :: ps) ↔ t.Legible f ∧ Held f ps := Iff.rfl

@[simp]
theorem held_segment {s : Segment} {ps : List Part} :
    Held f (.segment s :: ps) ↔ s.Legible f ∧ Held f ps := Iff.rfl

@[simp]
theorem held_embedded {kind : Embedded} {inner ps : List Part} :
    Held f (.embedded kind inner :: ps) ↔ LegibleCode kind (Part.written f inner) ∧ Held f ps := Iff.rfl

theorem held_joinCode {sep : String} {members : List (List Part)} {trailing : Bool} :
    Held f (joinCode sep members trailing) ↔ ∀ ps ∈ members, Held f ps := partsHold_joinCode

/-! ## Paths -/

theorem tokens_path (absolute : Bool) (ss : List Segment) :
    (Ty.path absolute (ss.map (·.mapHeads f))).tokens = pathTokens f absolute ss := by
  rw [Ty.tokens, Ty.flatten, segmentTokens_eq, List.map_map]
  rfl

theorem legible_segment {s : Segment} : s.Legible f ↔ s.args.Legible f := by
  obtain ⟨name, args⟩ := s
  rfl

theorem flatten_segment (s : Segment) :
    (s.mapHeads f).flatten true = .ident s.name :: (s.args.mapHeads f).flatten true := by
  obtain ⟨name, args⟩ := s
  rfl

theorem argsReread_none : ArgsReread f .none :=
  fun _ => ⟨printable_nil, fun _ word _ _ _ => (isSegment_name word).mono fun _ same => by rw [same]; exact ⟨rfl, rfl⟩⟩

/-- Names and whether they have arguments, which are what matters to a path around them. -/
def SameHead (s s' : Segment) : Prop := s'.name = s.name ∧ s'.args.isNone = s.args.isNone

theorem SegmentReread.printable {s : Segment} (h : SegmentReread f s) (held : s.Legible f) :
    Printable ((s.mapHeads f).flatten true) := by
  rw [flatten_segment]
  exact (printable_ident h.spelled).append (h.args (legible_segment.1 held)).1

theorem SegmentReread.isSegment {s : Segment} (h : SegmentReread f s) (held : s.Legible f)
    {depth : Nat} (enough : Enough depth ((s.mapHeads f).flatten true)) :
    IsSegment (deep depth) false ((s.mapHeads f).flatten true) (SameHead s) := by
  rw [flatten_segment] at *
  exact (h.args (legible_segment.1 held)).2 s.name h.word h.bare depth enough

namespace PathReread

variable {segments : List Segment} (h : PathReread f segments)
  (held : ∀ s ∈ segments, s.Legible f)

include h held

theorem printable (absolute : Bool) : Printable (pathTokens f absolute segments) :=
  (printable_absoluteMark absolute).append (printable_intercalate (printable_op (by decide))
    (List.forall_mem_map.2 fun s mem => (h.each s mem).printable (held s mem)))

/-- A path is read again, up to the arguments of its names. -/
theorem reads {absolute : Bool} {depth : Nat} (enough : Enough depth (pathTokens f absolute segments))
    {rest : List Token} (ends : EndsPath rest) :
    ((deep depth).path false).Reads (pathTokens f absolute segments ++ rest) rest fun p =>
      p.absolute = absolute ∧ List.Forall₂ SameHead segments p.segments := by
  refine reads_segments h.some (fun s mem => (h.each s mem).isSegment (held s mem) (enough.of_le ?_)) ends.args ends.path
  have piece : (s.mapHeads f).flatten true ∈ segments.map fun s => (s.mapHeads f).flatten true := List.mem_map_of_mem mem
  have shorter := length_le_listed "::" false piece
  rw [listed_eq] at shorter
  rw [pathTokens, List.length_append]
  exact shorter.trans (Nat.le_add_left _ _)

omit held in
/-- What is written of a path starts like a path. -/
theorem startsPath {absolute : Bool} (rooted : IsRooted absolute segments) (rest : List Token) :
    StartsPath (pathTokens f absolute segments ++ rest) := by
  cases segments with
  | nil => exact absurd rfl h.some
  | cons s ss =>
    rw [pathTokens, List.map_cons, joinSegments_cons, flatten_segment, List.cons_append, List.append_assoc]
    cases absolute with
    | true => exact ⟨rfl, rfl, rfl, rfl, rfl⟩
    | false =>
      exact startsPath_tokens ((h.each s List.mem_cons_self).word.resolve_right (rooted.first rfl s rfl)) _

/-- The path of a type is read as a type again. -/
theorem reads_ty {absolute plus : Bool} (rooted : IsRooted absolute segments) {depth : Nat}
    (enough : Enough depth (pathTokens f absolute segments)) {rest : List Token} (ends : EndsTy plus rest) :
    ((deep depth).tyRule plus).Reads (pathTokens f absolute segments ++ rest) rest fun t =>
      ∃ ss, t = .path absolute ss ∧ List.Forall₂ SameHead segments ss := by
  refine (reads_pathTy (h.startsPath rooted rest) ends (h.reads held enough ends.toEndsPath)).mono fun t read => ?_
  obtain ⟨⟨_, ss⟩, ⟨rfl, same⟩, rfl⟩ := read
  exact ⟨ss, rfl, same⟩

end PathReread

/-! ## Types -/

namespace TyTokens

variable {plus : Bool} {before after ts : List Token} {t : Ty} (h : TyTokens plus before after t ts)

include h

theorem starts {rest : List Token} (follows : Follows plus after rest) : StartsTy (ts ++ rest) :=
  startsTy_of_takes (h.reads (8 * ts.length + 7) (Nat.le_refl _) rest follows).takes

theorem some : ts ≠ [] := by
  rintro rfl
  have ends : Follows plus after [.closing .paren] := follows_of_endsTy rfl
  exact absurd (h.starts ends).opens (by decide)

/-- The type is read again by the rules below those that are deep enough for it. -/
theorem reads_field {depth : Nat} (below : Below depth ts) {rest : List Token} (follows : Follows plus after rest) :
    ((deep depth).ty plus).Reads (ts ++ rest) rest fun u => t.isBound = true → u.isBound = true := by
  obtain ⟨d, rfl, enough⟩ := below.exists_pred
  exact h.reads d enough rest follows

theorem takes_tyCode (full : plus = true) {depth : Nat} (below : Below depth ts) {rest : List Token}
    (follows : Follows plus after rest) : (deep depth).tyCode.Takes (ts ++ rest) rest := by
  subst full
  exact takes_bind (h.reads_field below follows).takes fun _ => reads_pure trivial

end TyTokens

/-- A bound is read again by the rules below those that are deep enough for it. -/
theorem BoundTokens.reads_field {captures : Bool} {after ts : List Token} {parts : List Part}
    (h : BoundTokens captures after parts ts) {depth : Nat} (below : Below depth ts) {rest : List Token}
    (follows : Follows false after rest) :
    ((deep depth).bound captures).Reads (ts ++ rest) rest fun ps => isTrait parts = true → isTrait ps = true := by
  obtain ⟨d, rfl, enough⟩ := below.exists_pred
  exact h.reads d enough rest follows

/-! ## Replaced names -/

theorem mem_headSegments {args : Args} {names : List String} {s : Segment} (mem : s ∈ Imports.headSegments args names) :
    s.name ∈ names ∧ (s.args = .none ∨ s.args = args) := by
  induction names with
  | nil => cases mem
  | cons n names ih =>
    cases names with
    | nil =>
      rw [List.mem_singleton.1 mem]
      exact ⟨List.mem_cons_self, .inr rfl⟩
    | cons m names =>
      rcases List.mem_cons.1 mem with rfl | mem
      · exact ⟨List.mem_cons_self, .inl rfl⟩
      · exact ⟨List.mem_cons_of_mem _ (ih mem).1, (ih mem).2⟩

/-- The names of a path are read again when the first of them is replaced, if that gives the path of a type. -/
theorem PathReread.splice {head : NamePath} (words : ∀ n ∈ head.names, Spelled n ∧ InSegment n) {ss : List Segment}
    (h : PathReread f ss) (rooted : IsRooted head.absolute (Imports.splice head ss)) :
    PathReread f (Imports.splice head ss) where
  some := rooted.some
  each s mem := by
    cases ss with
    | nil => exact absurd rfl h.some
    | cons s₀ ss =>
      rcases List.mem_append.1 mem with first | later
      · obtain ⟨name, args⟩ := mem_headSegments first
        have reread : ArgsReread f s.args := by
          rcases args with none | same
          · exact none ▸ argsReread_none
          · exact same ▸ (h.each s₀ List.mem_cons_self).args
        exact ⟨(words _ name).1, (words _ name).2, rooted.bare s mem, reread⟩
      · exact h.each s (List.mem_cons_of_mem _ later)

theorem forall_mem_splice {head : NamePath} {ss : List Segment} (each : ∀ s ∈ ss, s.Legible f) :
    ∀ s ∈ Imports.splice head ss, s.Legible f := by
  have heads {args : Args} (inside : args.Legible f) : ∀ s ∈ Imports.headSegments args head.names, s.Legible f := by
    intro s mem
    rcases (mem_headSegments mem).2 with none | same
    · rw [legible_segment, none]
      trivial
    · rwa [legible_segment, same]
  cases ss with
  | nil => exact heads (show Args.none.Legible f from trivial)
  | cons s ss =>
    refine List.forall_mem_append.2 ⟨heads (legible_segment.1 (each s List.mem_cons_self)), fun t mem => ?_⟩
    exact each t (List.mem_cons_of_mem _ mem)

/-- A path in full is the path of a type whose names are read again. -/
theorem PathReread.headed (heads : Heads f) {absolute : Bool} {ss : List Segment} (h : PathReread f ss)
    (rooted : IsRooted absolute ss) (held : (Ty.path absolute ss).Legible f) :
    ∃ absolute' ss', (Ty.path absolute ss).mapHeads f = .path absolute' (ss'.map (·.mapHeads f)) ∧
      PathReread f ss' ∧ IsRooted absolute' ss' ∧ ∀ s ∈ ss', s.Legible f := by
  have each := (segmentsHold_iff ss).1 held.2
  rw [Ty.mapHeads, segmentsMapHeads_eq_map]
  cases found : f absolute ss with
  | none => exact ⟨absolute, ss, rfl, h, rooted, each⟩
  | some head =>
    have rooted := held.1 rooted head found
    exact ⟨head.absolute, Imports.splice head ss, congrArg _ (Imports.splice_map head ss), h.splice (heads found) rooted,
      rooted, forall_mem_splice each⟩

end

end Grammar

end LiveSettings
