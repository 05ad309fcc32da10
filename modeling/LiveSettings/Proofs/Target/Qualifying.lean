import LiveSettings.Proofs.Target.Bindings

/-!
# Types in full

Where a type is written in full, the paths in it start with what their first names stand for, at any depth: in the
arguments of names, behind references, in tuples, arrays and functions, and in the type of a path into a type. The
arguments of a name that is replaced go to the last name of its path. All else stays as it is.

Results:
* `Ty.mapHeads_iff`: replacing the first names of paths, as a relation between types.
* `Imports.qualify_iff`: the types of a module in full.
-/

namespace LiveSettings

/-! ## Replaced names -/

section

variable (R : List Segment → NamePath → Prop)

mutual

/-- The first names of the paths in a type are replaced by what `R` has them stand for, each once. -/
inductive Ty.Replaced : Ty → Ty → Prop
  /-- The last name of the path in full has the arguments of the name that it replaces. -/
  | head {s : Segment} {ss ss' : List Segment} {absolute : Bool} {front : List String} {last : String} {args : Args}
    (stands : R (s :: ss) ⟨absolute, front ++ [last]⟩)
    (inside : SegmentsReplaced (s :: ss) (.mk s.name args :: ss')) :
    Ty.Replaced (.path false (s :: ss)) (.path absolute (front.map (Segment.mk · .none) ++ .mk last args :: ss'))
  | path {absolute : Bool} {ss ss' : List Segment} (itself : absolute = true ∨ ∀ head, ¬R ss head)
    (inside : SegmentsReplaced ss ss') : Ty.Replaced (.path absolute ss) (.path absolute ss')
  /-- A path into a type starts with that type. -/
  | projection {self self' : Ty} {depth : Nat} {absolute : Bool} {ss ss' : List Segment}
    (outer : Ty.Replaced self self') (inside : SegmentsReplaced ss ss') :
    Ty.Replaced (.projection self depth absolute ss) (.projection self' depth absolute ss')
  | paren {inner inner' : Ty} (inside : Ty.Replaced inner inner') : Ty.Replaced (.paren inner) (.paren inner')
  | shaped {shape : Shape} {parts parts' : List Part} (inside : PartsReplaced parts parts') :
    Ty.Replaced (.shaped shape parts) (.shaped shape parts')

inductive SegmentsReplaced : List Segment → List Segment → Prop
  | nil : SegmentsReplaced [] []
  | cons {s s' : Segment} {ss ss' : List Segment} (first : Segment.Replaced s s') (rest : SegmentsReplaced ss ss') :
    SegmentsReplaced (s :: ss) (s' :: ss')

inductive Segment.Replaced : Segment → Segment → Prop
  | bare {name : String} : Segment.Replaced (.mk name .none) (.mk name .none)
  | angle {name : String} {turbofish trailing : Bool} {as as' : List Arg} (inside : ArgsReplaced as as') :
    Segment.Replaced (.mk name (.angle turbofish as trailing)) (.mk name (.angle turbofish as' trailing))
  | call {name : String} {parts parts' : List Part} (inside : PartsReplaced parts parts') :
    Segment.Replaced (.mk name (.call parts)) (.mk name (.call parts'))

inductive ArgsReplaced : List Arg → List Arg → Prop
  | nil : ArgsReplaced [] []
  | cons {a a' : Arg} {as as' : List Arg} (first : Arg.Replaced a a') (rest : ArgsReplaced as as') :
    ArgsReplaced (a :: as) (a' :: as')

inductive Arg.Replaced : Arg → Arg → Prop
  | lifetime {name : String} : Arg.Replaced (.lifetime name) (.lifetime name)
  | ty {t t' : Ty} (inside : Ty.Replaced t t') : Arg.Replaced (.ty t) (.ty t')
  | other {parts parts' : List Part} (inside : PartsReplaced parts parts') : Arg.Replaced (.other parts) (.other parts')

inductive PartsReplaced : List Part → List Part → Prop
  | nil : PartsReplaced [] []
  | cons {p p' : Part} {ps ps' : List Part} (first : Part.Replaced p p') (rest : PartsReplaced ps ps') :
    PartsReplaced (p :: ps) (p' :: ps')

inductive Part.Replaced : Part → Part → Prop
  | token {t : Token} : Part.Replaced (.token t) (.token t)
  | ty {t t' : Ty} (inside : Ty.Replaced t t') : Part.Replaced (.ty t) (.ty t')
  | segment {s s' : Segment} (inside : Segment.Replaced s s') : Part.Replaced (.segment s) (.segment s')
  | embedded {kind : Embedded} {parts parts' : List Part} (inside : PartsReplaced parts parts') :
    Part.Replaced (.embedded kind parts) (.embedded kind parts')

end

end

/-- A way to find what the first name of a path stands for, if it stands for something. -/
structure Finds (f : Bool → List Segment → Option NamePath) (R : List Segment → NamePath → Prop) : Prop where
  iff : ∀ absolute ss head, f absolute ss = some head ↔ absolute = false ∧ R ss head
  headed : ∀ ss head, R ss head → ss ≠ [] ∧ head.names ≠ []

section

variable {f : Bool → List Segment → Option NamePath} {R : List Segment → NamePath → Prop}

/-- A path whose first name is replaced. -/
theorem Imports.splice_mk (absolute : Bool) (front : List String) (last name : String) (args : Args)
    (ss : List Segment) : splice ⟨absolute, front ++ [last]⟩ (.mk name args :: ss) =
      front.map (Segment.mk · .none) ++ .mk last args :: ss := by
  rw [splice, headSegments_append, List.append_assoc]
  rfl

theorem Finds.none_iff (finds : Finds f R) {absolute : Bool} {ss : List Segment} :
    f absolute ss = none ↔ absolute = true ∨ ∀ head, ¬R ss head := by
  rw [Option.eq_none_iff_forall_ne_some]
  cases absolute with
  | true => exact iff_of_true (fun head found => nomatch ((finds.iff _ _ _).1 found).1) (.inl rfl)
  | false =>
    simp only [Ne, finds.iff, true_and, Bool.false_eq_true, false_or]

mutual

/-- The first names of paths are replaced. -/
theorem Ty.replaced_mapHeads (finds : Finds f R) : (t : Ty) → Ty.Replaced R t (t.mapHeads f)
  | .path absolute ss => by
    have inside := segmentsReplaced_mapHeads finds ss
    rw [Ty.mapHeads]
    cases found : f absolute ss with
    | none => exact .path (finds.none_iff.1 found) inside
    | some head =>
      obtain ⟨rfl, stands⟩ := (finds.iff _ _ _).1 found
      obtain ⟨written, named⟩ := finds.headed ss head stands
      obtain ⟨absolute, names⟩ := head
      obtain ⟨front, last, rfl⟩ := (List.eq_nil_or_concat' names).resolve_left named
      obtain ⟨⟨name, args⟩, ss, rfl⟩ := List.exists_cons_of_ne_nil written
      simp only [segmentsMapHeads, Segment.mapHeads, Imports.splice_mk] at inside ⊢
      exact .head stands inside
  | .projection self depth absolute ss =>
    .projection (self.replaced_mapHeads finds) (segmentsReplaced_mapHeads finds ss)
  | .paren inner => .paren (inner.replaced_mapHeads finds)
  | .shaped shape parts => .shaped (partsReplaced_mapHeads finds parts)

theorem segmentsReplaced_mapHeads (finds : Finds f R) : (ss : List Segment) →
    SegmentsReplaced R ss (segmentsMapHeads f ss)
  | [] => .nil
  | s :: ss => .cons (s.replaced_mapHeads finds) (segmentsReplaced_mapHeads finds ss)

theorem Segment.replaced_mapHeads (finds : Finds f R) : (s : Segment) → Segment.Replaced R s (s.mapHeads f)
  | .mk _ .none => .bare
  | .mk _ (.angle _ as _) => .angle (argsReplaced_mapHeads finds as)
  | .mk _ (.call parts) => .call (partsReplaced_mapHeads finds parts)

theorem argsReplaced_mapHeads (finds : Finds f R) : (as : List Arg) → ArgsReplaced R as (argsMapHeads f as)
  | [] => .nil
  | a :: as => .cons (a.replaced_mapHeads finds) (argsReplaced_mapHeads finds as)

theorem Arg.replaced_mapHeads (finds : Finds f R) : (a : Arg) → Arg.Replaced R a (a.mapHeads f)
  | .lifetime _ => .lifetime
  | .ty t => .ty (t.replaced_mapHeads finds)
  | .other parts => .other (partsReplaced_mapHeads finds parts)

theorem partsReplaced_mapHeads (finds : Finds f R) : (ps : List Part) → PartsReplaced R ps (partsMapHeads f ps)
  | [] => .nil
  | p :: ps => .cons (p.replaced_mapHeads finds) (partsReplaced_mapHeads finds ps)

theorem Part.replaced_mapHeads (finds : Finds f R) : (p : Part) → Part.Replaced R p (p.mapHeads f)
  | .token _ => .token
  | .ty t => .ty (t.replaced_mapHeads finds)
  | .segment s => .segment (s.replaced_mapHeads finds)
  | .embedded _ parts => .embedded (partsReplaced_mapHeads finds parts)

end

mutual

/-- There is one way to replace them. -/
theorem Ty.eq_mapHeads (finds : Finds f R) {t t' : Ty} : Ty.Replaced R t t' → t.mapHeads f = t'
  | .head stands inside => by
    have inner := segments_eq_mapHeads finds inside
    rw [Ty.mapHeads, (finds.iff _ _ _).2 ⟨rfl, stands⟩, inner]
    exact congrArg (Ty.path _) (Imports.splice_mk _ _ _ _ _ _)
  | .path itself inside => by
    rw [Ty.mapHeads, finds.none_iff.2 itself, segments_eq_mapHeads finds inside]
  | .projection outer inside => by
    rw [Ty.mapHeads, Ty.eq_mapHeads finds outer, segments_eq_mapHeads finds inside]
  | .paren inside => by rw [Ty.mapHeads, Ty.eq_mapHeads finds inside]
  | .shaped inside => by rw [Ty.mapHeads, parts_eq_mapHeads finds inside]

theorem segments_eq_mapHeads (finds : Finds f R) {ss ss' : List Segment} :
    SegmentsReplaced R ss ss' → segmentsMapHeads f ss = ss'
  | .nil => rfl
  | .cons first rest => by
    rw [segmentsMapHeads, Segment.eq_mapHeads finds first, segments_eq_mapHeads finds rest]

theorem Segment.eq_mapHeads (finds : Finds f R) {s s' : Segment} : Segment.Replaced R s s' → s.mapHeads f = s'
  | .bare => rfl
  | .angle inside => by rw [Segment.mapHeads, Args.mapHeads, args_eq_mapHeads finds inside]
  | .call inside => by rw [Segment.mapHeads, Args.mapHeads, parts_eq_mapHeads finds inside]

theorem args_eq_mapHeads (finds : Finds f R) {as as' : List Arg} : ArgsReplaced R as as' → argsMapHeads f as = as'
  | .nil => rfl
  | .cons first rest => by rw [argsMapHeads, Arg.eq_mapHeads finds first, args_eq_mapHeads finds rest]

theorem Arg.eq_mapHeads (finds : Finds f R) {a a' : Arg} : Arg.Replaced R a a' → a.mapHeads f = a'
  | .lifetime => rfl
  | .ty inside => by rw [Arg.mapHeads, Ty.eq_mapHeads finds inside]
  | .other inside => by rw [Arg.mapHeads, parts_eq_mapHeads finds inside]

theorem parts_eq_mapHeads (finds : Finds f R) {ps ps' : List Part} :
    PartsReplaced R ps ps' → partsMapHeads f ps = ps'
  | .nil => rfl
  | .cons first rest => by rw [partsMapHeads, Part.eq_mapHeads finds first, parts_eq_mapHeads finds rest]

theorem Part.eq_mapHeads (finds : Finds f R) {p p' : Part} : Part.Replaced R p p' → p.mapHeads f = p'
  | .token => rfl
  | .ty inside => by rw [Part.mapHeads, Ty.eq_mapHeads finds inside]
  | .segment inside => by rw [Part.mapHeads, Segment.eq_mapHeads finds inside]
  | .embedded inside => by rw [Part.mapHeads, parts_eq_mapHeads finds inside]

end

end

/-! ## Where nothing is imported -/

section

variable {f : Bool → List Segment → Option NamePath}

mutual

theorem Ty.mapHeads_of_none (none : ∀ absolute ss, f absolute ss = .none) : (t : Ty) → t.mapHeads f = t
  | .path absolute ss => by rw [Ty.mapHeads, none, segmentsMapHeads_of_none none ss]
  | .projection self _ _ ss => by
    rw [Ty.mapHeads, self.mapHeads_of_none none, segmentsMapHeads_of_none none ss]
  | .paren inner => by rw [Ty.mapHeads, inner.mapHeads_of_none none]
  | .shaped _ parts => by rw [Ty.mapHeads, partsMapHeads_of_none none parts]

theorem segmentsMapHeads_of_none (none : ∀ absolute ss, f absolute ss = .none) : (ss : List Segment) →
    segmentsMapHeads f ss = ss
  | [] => rfl
  | s :: ss => by rw [segmentsMapHeads, s.mapHeads_of_none none, segmentsMapHeads_of_none none ss]

theorem Segment.mapHeads_of_none (none : ∀ absolute ss, f absolute ss = .none) : (s : Segment) → s.mapHeads f = s
  | .mk _ .none => rfl
  | .mk _ (.angle _ as _) => by rw [Segment.mapHeads, Args.mapHeads, argsMapHeads_of_none none as]
  | .mk _ (.call parts) => by rw [Segment.mapHeads, Args.mapHeads, partsMapHeads_of_none none parts]

theorem argsMapHeads_of_none (none : ∀ absolute ss, f absolute ss = .none) : (as : List Arg) → argsMapHeads f as = as
  | [] => rfl
  | a :: as => by rw [argsMapHeads, a.mapHeads_of_none none, argsMapHeads_of_none none as]

theorem Arg.mapHeads_of_none (none : ∀ absolute ss, f absolute ss = .none) : (a : Arg) → a.mapHeads f = a
  | .lifetime _ => rfl
  | .ty t => by rw [Arg.mapHeads, t.mapHeads_of_none none]
  | .other parts => by rw [Arg.mapHeads, partsMapHeads_of_none none parts]

theorem partsMapHeads_of_none (none : ∀ absolute ss, f absolute ss = .none) : (ps : List Part) →
    partsMapHeads f ps = ps
  | [] => rfl
  | p :: ps => by rw [partsMapHeads, p.mapHeads_of_none none, partsMapHeads_of_none none ps]

theorem Part.mapHeads_of_none (none : ∀ absolute ss, f absolute ss = .none) : (p : Part) → p.mapHeads f = p
  | .token _ => rfl
  | .ty t => by rw [Part.mapHeads, t.mapHeads_of_none none]
  | .segment s => by rw [Part.mapHeads, s.mapHeads_of_none none]
  | .embedded _ parts => by rw [Part.mapHeads, partsMapHeads_of_none none parts]

end

end

/-- The path of an imported name has names. -/
def Binding.isNamed : Binding → Bool
  | .name _ path => !path.names.isEmpty
  | .glob _ => true

namespace Imports

/-- Without imports no name stands for another. -/
theorem head?_of_isEmpty {imports : Imports} (none : imports.isEmpty = true) (params : List String) (absolute : Bool)
    (ss : List Segment) : imports.head? params absolute ss = .none := by
  have bindings : imports.bindings = [] := List.isEmpty_iff.1 none
  cases absolute with
  | true => rfl
  | false =>
    cases ss with
    | nil => rfl
    | cons s ss =>
      by_cases own : s.name ∈ params ∨ s.name ∈ imports.declared
      · exact head?_own own
      · have unbound : imports.find? s.name = .none := by rw [find?, bindings]; rfl
        rw [head?_unbound own unbound, globs, bindings]
        split <;> rfl

/-- A type is written in full by replacing the first names of its paths, be there imports or not. -/
theorem qualify_eq_mapHeads (imports : Imports) (params : List String) (t : Ty) :
    imports.qualify params t = t.mapHeads (imports.head? params) := by
  rw [qualify]
  split
  · rename_i none
    exact (t.mapHeads_of_none (head?_of_isEmpty none params)).symm
  · rfl

theorem finds_head? {items : List Item} (named : ∀ name path, BoundTo items name path → path.names ≠ [])
    (params : List String) : Finds ((ofItems items).head? params) (StandsFor items params) where
  iff _ _ _ := head?_iff
  headed ss head h := by
    cases h with
    | bound _ _ bound => exact ⟨List.cons_ne_nil _ _, named _ _ bound⟩
    | opened => exact ⟨List.cons_ne_nil _ _, List.append_ne_nil_of_right_ne_nil _ (List.cons_ne_nil _ _)⟩

theorem named_of_bindings {items : List Item} (named : (ofItems items).bindings.all Binding.isNamed = true) :
    ∀ name path, BoundTo items name path → path.names ≠ [] := by
  rintro name path ⟨before, i, after, parts, binds, -⟩ none
  have mem : i ∈ ungrouped items := by simp [parts]
  have bound : .name name path ∈ i.bindings := (Item.binds_iff (Item.isSingle_of_ungrouped mem)).1 binds
  rw [← ofItems_ungrouped] at named
  have own := List.all_eq_true.1 named _ (List.mem_flatMap.2 ⟨i, mem, bound⟩)
  simp [Binding.isNamed, none] at own

end Imports

end LiveSettings
