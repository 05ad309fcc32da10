import LiveSettings.Proofs.Code.Reading
import LiveSettings.Proofs.Target.Spellings
import LiveSettings.Proofs.Token.Rendering

/-!
# The tokens of code

Code is written piece by piece: what is written of two pieces stands one behind the other, and so does what is written
of them once the first names of the paths in them are replaced. Lifetimes stand in front of an argument list, in which
the members keep their separators.

Results:
* `exists_listed_arrange`: an arranged list holds its members, in some order.
* `written_append`, `written_joinCode`: what is written of code.
* `Ty.Holds`: what holds of every path and of all other code in a type.
-/

namespace LiveSettings

open LiveSettings.Parser

/-! ## Printing -/

namespace Token

/-- The marks that code is put together with. -/
def codeMarks : List String :=
  ["::", ":", ",", "=", ".", "&", "->", ";", "#", "<", ">", ">>", "+", "*", "!", "?", "..."]

theorem printable_op {spelling : String} (h : spelling ∈ codeMarks) : Printable (op spelling) := by
  simp only [codeMarks, List.mem_cons, List.not_mem_nil, or_false] at h
  rcases h with rfl | rfl | rfl | rfl | rfl | rfl | rfl | rfl | rfl | rfl | rfl | rfl | rfl | rfl | rfl | rfl | rfl <;>
    refine ⟨?_, rfl⟩ <;> simp [op, marks, Written, Fits] <;> decide

theorem printable_ident {name : String} (h : Spelled name) : Printable [.ident name] := ⟨⟨h, trivial⟩, rfl⟩

theorem printable_lifetime {name : String} (h : Spelled name) : Printable (lifetime name) := ⟨⟨rfl, h, trivial⟩, rfl⟩

theorem printable_absoluteMark (absolute : Bool) : Printable (absoluteMark absolute) := by
  cases absolute with
  | true => exact printable_op (by decide)
  | false => exact printable_nil

theorem printable_listed {sep : String} (between : Printable (op sep)) (trailing : Bool) {tss : List (List Token)}
    (each : ∀ ts ∈ tss, Printable ts) : Printable (listed sep trailing tss) := by
  induction tss with
  | nil => exact printable_nil
  | cons ts tss ih =>
    have here := each ts List.mem_cons_self
    cases tss with
    | nil =>
      refine here.append ?_
      split
      · exact between
      · exact printable_nil
    | cons us tss => exact (here.append between).append (ih fun vs mem => each vs (List.mem_cons_of_mem _ mem))

theorem printable_intercalate {sep : String} (between : Printable (op sep)) {tss : List (List Token)}
    (each : ∀ ts ∈ tss, Printable ts) : Printable ((op sep).intercalate tss) :=
  listed_eq sep tss ▸ printable_listed between false each

theorem printable_flatMap {α : Type} {f : α → List Token} {xs : List α} (each : ∀ x ∈ xs, Printable (f x)) :
    Printable (xs.flatMap f) := by
  induction xs with
  | nil => exact printable_nil
  | cons x xs ih =>
    rw [List.flatMap_cons]
    exact (each x List.mem_cons_self).append (ih fun y mem => each y (List.mem_cons_of_mem _ mem))

theorem printable_brackets (trailing : Bool) {tss : List (List Token)} (each : ∀ ts ∈ tss, Printable ts) :
    Printable (op "<" ++ (listed "," trailing tss ++ [.mark '>' false])) := by
  have closing : ">" ∈ codeMarks := by decide
  have members : Printable (listed "," trailing tss) := printable_listed (printable_op (by decide)) trailing each
  exact (printable_op (by decide)).append (members.append (printable_op closing))

end Token

/-! ## Lists with lifetimes in front -/

/-- Members that are written one after the other stand in a list. -/
theorem exists_listed_write (clear : Bool) (xs : List (List Token × Bool)) : ∃ trailing,
    arrange.write clear xs =
      (if clear || xs.isEmpty then [] else Token.op ",") ++ listed "," trailing (xs.map (·.1)) := by
  induction xs generalizing clear with
  | nil => exact ⟨false, by cases clear <;> rfl⟩
  | cons x xs ih =>
    obtain ⟨ts, comma⟩ := x
    obtain ⟨trailing, later⟩ := ih comma
    rw [arrange.write, later]
    cases xs with
    | nil =>
      refine ⟨comma, ?_⟩
      cases clear <;> cases comma <;> simp [listed, Token.op, Token.marks]
    | cons y ys =>
      refine ⟨trailing, ?_⟩
      simp only [List.map_cons, listed]
      cases clear <;> cases comma <;> simp [Token.op, Token.marks]

theorem map_mark (trailing : Bool) (members : List (Bool × List Token)) :
    (arrange.mark trailing members).map (fun m => (m.1, m.2.1)) = members := by
  induction members with
  | nil => rfl
  | cons m ms ih =>
    cases ms with
    | nil => rfl
    | cons n ms => rw [arrange.mark, List.map_cons, ih]; simp

/-- The members of an arranged list stand in it, in some order. -/
theorem exists_listed_arrange (lifetimesFirst trailing : Bool) (members : List (Bool × List Token)) :
    ∃ last tss, arrange lifetimesFirst trailing members = listed "," last tss ∧ tss.Perm (members.map (·.2)) := by
  have ordered : ∃ ordered : List (Bool × List Token × Bool), arrange lifetimesFirst trailing members =
      arrange.write true (ordered.map (·.2)) ∧ ordered.Perm (arrange.mark trailing members) := by
    cases lifetimesFirst with
    | true => exact ⟨_, rfl, List.filter_append_perm _ _⟩
    | false => exact ⟨_, rfl, .refl _⟩
  obtain ⟨ordered, written, perm⟩ := ordered
  obtain ⟨last, same⟩ := exists_listed_write true (ordered.map (·.2))
  refine ⟨last, ordered.map fun m => m.2.1, ?_, ?_⟩
  · rw [written, same, List.map_map]
    rfl
  · have members := congrArg (List.map (·.2)) (map_mark trailing members)
    rw [List.map_map] at members
    rw [← members]
    exact perm.map _

/-! ## Tokens of segments and parameters -/

/-- The arguments between the brackets. -/
def Args.list : Args → List Arg
  | .none | .call _ => []
  | .angle _ args _ => args

theorem segmentTokens_eq (lifetimesFirst : Bool) (segments : List Segment) :
    segmentTokens lifetimesFirst segments = segments.map (·.flatten lifetimesFirst) := by
  induction segments with
  | nil => rfl
  | cons s ss ih => rw [segmentTokens, ih, List.map_cons]

theorem argTokens_eq (lifetimesFirst : Bool) (args : List Arg) :
    argTokens lifetimesFirst args = args.map (·.flatten lifetimesFirst) := by
  induction args with
  | nil => rfl
  | cons a as ih => rw [argTokens, ih, List.map_cons]

theorem partTokens_append (lifetimesFirst : Bool) (ps qs : List Part) :
    partTokens lifetimesFirst (ps ++ qs) = partTokens lifetimesFirst ps ++ partTokens lifetimesFirst qs := by
  induction ps with
  | nil => rfl
  | cons p ps ih => rw [List.cons_append, partTokens, partTokens, ih, List.append_assoc]

theorem partTokens_code (lifetimesFirst : Bool) (ts : List Token) : partTokens lifetimesFirst (code ts) = ts := by
  induction ts with
  | nil => rfl
  | cons t ts ih => exact congrArg (t :: ·) ih

/-- Members with separators between them. -/
theorem partTokens_joinCode (lifetimesFirst : Bool) (sep : String) (members : List (List Part)) (trailing : Bool) :
    partTokens lifetimesFirst (joinCode sep members trailing) =
      listed sep trailing (members.map (partTokens lifetimesFirst)) := by
  unfold joinCode
  induction members with
  | nil => cases trailing <;> rfl
  | cons ps pss ih =>
    cases pss with
    | nil => cases trailing <;> simp [listed, partTokens_append, partTokens_code]
    | cons qs pss =>
      simp only [List.map_cons, List.intercalate_cons_cons, List.append_assoc, partTokens_append, partTokens_code,
        List.isEmpty_cons, listed] at ih ⊢
      rw [ih]

/-- Parameters between brackets. -/
theorem Generics.exists_bracketed {g : Generics} (some : g.params ≠ []) (f : Param → List Token) : ∃ last tss,
    g.bracketed f = Token.op "<" ++ (listed "," last tss ++ [.mark '>' false]) ∧ tss.Perm (g.params.map f) := by
  obtain ⟨last, tss, arranged, perm⟩ :=
    exists_listed_arrange true g.trailing (g.params.map fun p => (p.isLifetime, f p))
  rw [List.map_map] at perm
  refine ⟨last, tss, ?_, perm⟩
  rw [Generics.bracketed, if_neg (by simpa using some), arranged, List.append_assoc]
  rfl

/-! ## Replaced heads -/

section

variable (f : Bool → List Segment → Option NamePath)

/-- What is written of code once the first names of the paths in it are replaced. -/
def Part.written (parts : List Part) : List Token := partTokens true (partsMapHeads f parts)

variable {f}

theorem partsMapHeads_append (ps qs : List Part) :
    partsMapHeads f (ps ++ qs) = partsMapHeads f ps ++ partsMapHeads f qs := by
  induction ps with
  | nil => rfl
  | cons p ps ih => rw [List.cons_append, partsMapHeads, partsMapHeads, ih, List.cons_append]

theorem partsMapHeads_code (ts : List Token) : partsMapHeads f (code ts) = code ts := by
  induction ts with
  | nil => rfl
  | cons t ts ih => exact congrArg (Part.token t :: ·) ih

theorem partsMapHeads_joinCode (sep : String) (members : List (List Part)) (trailing : Bool) :
    partsMapHeads f (joinCode sep members trailing) = joinCode sep (members.map (partsMapHeads f)) trailing := by
  have inner : partsMapHeads f ((code (Token.op sep)).intercalate members) =
      (code (Token.op sep)).intercalate (members.map (partsMapHeads f)) := by
    induction members with
    | nil => rfl
    | cons ps pss ih =>
      cases pss with
      | nil => simp
      | cons qs pss =>
        rw [List.intercalate_cons_cons, partsMapHeads_append, partsMapHeads_append, ih, partsMapHeads_code]
        simp only [List.map_cons, List.intercalate_cons_cons]
  unfold joinCode
  rw [partsMapHeads_append, inner, List.isEmpty_map]
  split
  · rw [partsMapHeads_code]
  · rfl

theorem argsMapHeads_eq_map (as : List Arg) : argsMapHeads f as = as.map (·.mapHeads f) := by
  induction as with
  | nil => rfl
  | cons a as ih => rw [argsMapHeads, ih, List.map_cons]

namespace Part

@[simp]
theorem written_nil : written f [] = [] := rfl

theorem written_append (ps qs : List Part) : written f (ps ++ qs) = written f ps ++ written f qs := by
  rw [written, partsMapHeads_append, partTokens_append]
  rfl

@[simp]
theorem written_code (ts : List Token) : written f (code ts) = ts := by
  rw [written, partsMapHeads_code, partTokens_code]

@[simp]
theorem written_token (t : Token) (ps : List Part) : written f (.token t :: ps) = t :: written f ps := rfl

@[simp]
theorem written_ty (t : Ty) (ps : List Part) : written f (.ty t :: ps) = (t.mapHeads f).tokens ++ written f ps := rfl

@[simp]
theorem written_segment (s : Segment) (ps : List Part) :
    written f (.segment s :: ps) = (s.mapHeads f).flatten true ++ written f ps := rfl

@[simp]
theorem written_embedded (kind : Embedded) (inner ps : List Part) :
    written f (.embedded kind inner :: ps) = written f inner ++ written f ps := rfl

theorem written_joinCode (sep : String) (members : List (List Part)) (trailing : Bool) :
    written f (joinCode sep members trailing) = listed sep trailing (members.map (written f)) := by
  rw [written, partsMapHeads_joinCode, partTokens_joinCode, List.map_map]
  rfl

end Part

end

/-! ## What holds of the code in a type -/

section

variable (f : Bool → List Segment → Option NamePath) (P : Bool → List Segment → Prop) (C : Embedded → List Token → Prop)

mutual

/-- What holds of every path in a type, and of all code in it that is none, as it is written once names are replaced. -/
def Ty.Holds : Ty → Prop
  | .path absolute segments => P absolute segments ∧ segmentsHold segments
  | .projection self _ _ segments => self.Holds ∧ segmentsHold segments
  | .paren inner => inner.Holds
  | .shaped _ parts => partsHold parts

def segmentsHold : List Segment → Prop
  | [] => True
  | s :: ss => s.Holds ∧ segmentsHold ss

def Segment.Holds : Segment → Prop
  | .mk _ args => args.Holds

def Args.Holds : Args → Prop
  | .none => True
  | .angle _ args _ => argsHold args
  | .call parts => partsHold parts

def argsHold : List Arg → Prop
  | [] => True
  | a :: as => a.Holds ∧ argsHold as

def Arg.Holds : Arg → Prop
  | .lifetime _ => True
  | .ty t => t.Holds
  | .other parts => partsHold parts

def partsHold : List Part → Prop
  | [] => True
  | p :: ps => p.Holds ∧ partsHold ps

def Part.Holds : Part → Prop
  | .token _ => True
  | .ty t => t.Holds
  | .segment s => s.Holds
  | .embedded kind parts => C kind (Part.written f parts)

end

end

section

variable {f : Bool → List Segment → Option NamePath} {P Q : Bool → List Segment → Prop} {C : Embedded → List Token → Prop}

theorem segmentsHold_iff (ss : List Segment) : segmentsHold f P C ss ↔ ∀ s ∈ ss, s.Holds f P C := by
  induction ss with
  | nil => simp [segmentsHold]
  | cons s ss ih => simp [segmentsHold, ih]

theorem argsHold_iff (as : List Arg) : argsHold f P C as ↔ ∀ a ∈ as, a.Holds f P C := by
  induction as with
  | nil => simp [argsHold]
  | cons a as ih => simp [argsHold, ih]

theorem partsHold_iff (ps : List Part) : partsHold f P C ps ↔ ∀ p ∈ ps, p.Holds f P C := by
  induction ps with
  | nil => simp [partsHold]
  | cons p ps ih => simp [partsHold, ih]

mutual

/-- It is enough that what holds of the paths says what should hold of them. -/
theorem Ty.holds_mono (paths : ∀ absolute ss, P absolute ss → Q absolute ss) : (t : Ty) → t.Holds f P C → t.Holds f Q C
  | .path _ ss, h => ⟨paths _ _ h.1, segmentsHold_mono paths ss h.2⟩
  | .projection self _ _ ss, h => ⟨self.holds_mono paths h.1, segmentsHold_mono paths ss h.2⟩
  | .paren inner, h => inner.holds_mono paths h
  | .shaped _ parts, h => partsHold_mono paths parts h

theorem segmentsHold_mono (paths : ∀ absolute ss, P absolute ss → Q absolute ss) :
    (ss : List Segment) → segmentsHold f P C ss → segmentsHold f Q C ss
  | [], _ => trivial
  | s :: ss, h => ⟨s.holds_mono paths h.1, segmentsHold_mono paths ss h.2⟩

theorem Segment.holds_mono (paths : ∀ absolute ss, P absolute ss → Q absolute ss) :
    (s : Segment) → s.Holds f P C → s.Holds f Q C
  | .mk _ .none, _ => trivial
  | .mk _ (.angle _ as _), h => argsHold_mono paths as h
  | .mk _ (.call parts), h => partsHold_mono paths parts h

theorem argsHold_mono (paths : ∀ absolute ss, P absolute ss → Q absolute ss) :
    (as : List Arg) → argsHold f P C as → argsHold f Q C as
  | [], _ => trivial
  | a :: as, h => ⟨a.holds_mono paths h.1, argsHold_mono paths as h.2⟩

theorem Arg.holds_mono (paths : ∀ absolute ss, P absolute ss → Q absolute ss) :
    (a : Arg) → a.Holds f P C → a.Holds f Q C
  | .lifetime _, _ => trivial
  | .ty t, h => t.holds_mono paths h
  | .other parts, h => partsHold_mono paths parts h

theorem partsHold_mono (paths : ∀ absolute ss, P absolute ss → Q absolute ss) :
    (ps : List Part) → partsHold f P C ps → partsHold f Q C ps
  | [], _ => trivial
  | p :: ps, h => ⟨p.holds_mono paths h.1, partsHold_mono paths ps h.2⟩

theorem Part.holds_mono (paths : ∀ absolute ss, P absolute ss → Q absolute ss) :
    (p : Part) → p.Holds f P C → p.Holds f Q C
  | .token _, _ => trivial
  | .ty t, h => t.holds_mono paths h
  | .segment s, h => s.holds_mono paths h
  | .embedded _ _, h => h

end

theorem partsHold_append {ps qs : List Part} :
    partsHold f P C (ps ++ qs) ↔ partsHold f P C ps ∧ partsHold f P C qs := by
  simp only [partsHold_iff, List.forall_mem_append]

theorem partsHold_code (ts : List Token) : partsHold f P C (code ts) :=
  (partsHold_iff _).2 (List.forall_mem_map.2 fun _ _ => trivial)

/-- It holds of members with separators between them if it holds of each. -/
theorem partsHold_joinCode {sep : String} {members : List (List Part)} {trailing : Bool} :
    partsHold f P C (joinCode sep members trailing) ↔ ∀ ps ∈ members, partsHold f P C ps := by
  have inner : partsHold f P C ((code (Token.op sep)).intercalate members) ↔ ∀ ps ∈ members, partsHold f P C ps := by
    induction members with
    | nil => simp [partsHold]
    | cons ps pss ih =>
      cases pss with
      | nil => simp
      | cons qs pss =>
        rw [List.intercalate_cons_cons, partsHold_append, partsHold_append, ih]
        simp [partsHold_code]
  unfold joinCode
  rw [partsHold_append, inner, and_iff_left]
  split
  · exact partsHold_code _
  · trivial

end

end LiveSettings
