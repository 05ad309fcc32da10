import LiveSettings.Property.Descriptor
import LiveSettings.Target.Imports
import Mathlib.Data.List.Basic

/-!
# How accepted types are written

A path is written like a pattern if its names are the last names of the pattern, or all of them, and only its last
name has arguments, each written like a pattern in turn. So the names of a path, the places of its arguments and the
arguments of its last name decide. Writing a type in full changes the names of its paths at their fronts alone.

Results:
* `PathPattern.matches_path_iff`: which paths are written like a pattern.
* `NativeKind.isSome_lookup?_iff`: which types are native.
* `PathPattern.matches_mapHeads`: the inside of a path in full counts as far as the patterns have arguments.
* `Ty.optionInner?_mapHeads`: the inside of an `Option` in full.
-/

namespace LiveSettings

namespace PathPattern

/-- The arguments behind a last name are written like the patterns. -/
def matchLast (patterns : List PathPattern) : Args → Bool
  | .none => patterns.isEmpty
  | .angle _ written _ => matchArgs patterns written
  | .call _ => false

theorem matchNames_iff {ss : List Segment} {names : List String} : matchNames ss names = true ↔
    ss.map Segment.name = names ∧ ∀ s ∈ ss.dropLast, s.args.isNone = true := by
  induction ss generalizing names with
  | nil => cases names <;> simp [matchNames]
  | cons s ss ih =>
    cases ss with
    | nil =>
      match names with
      | [] => simp [matchNames]
      | [n] => simp [matchNames]
      | _ :: _ :: _ => simp [matchNames]
    | cons s' ss =>
      match names with
      | [] => simp [matchNames]
      | n :: names =>
        rw [matchNames, Bool.and_eq_true, Bool.and_eq_true, ih, beq_iff_eq]
        · simp only [List.map_cons, List.cons.injEq, List.dropLast_cons_cons, List.forall_mem_cons]
          exact ⟨fun ⟨⟨name, bare⟩, rest, others⟩ => ⟨⟨name, rest⟩, bare, others⟩,
            fun ⟨⟨name, rest⟩, bare, others⟩ => ⟨⟨name, bare⟩, rest, others⟩⟩
        · exact fun empty => nomatch empty

/-- Which paths are written like a pattern. -/
theorem matches_path_iff {p : PathPattern} {absolute : Bool} {ss : List Segment} :
    p.Matches (.path absolute ss) = true ↔ ss ≠ [] ∧ ss.map Segment.name <:+ p.names ∧
      (p.exact = true → ss.map Segment.name = p.names) ∧ (∀ s ∈ ss.dropLast, s.args.isNone = true) ∧
      matchLast p.args (lastArgs ss) = true := by
  obtain ⟨names, args, exact⟩ := p
  have unfolded : (PathPattern.mk names args exact).Matches (.path absolute ss) =
      (ss.length != 0 && decide (ss.length ≤ names.length) && (!exact || ss.length == names.length) &&
        matchNames ss (names.drop (names.length - ss.length)) && matchLast args (lastArgs ss)) := by
    rw [Matches]
    cases lastArgs ss <;> rfl
  rw [unfolded]
  simp only [Bool.and_eq_true, matchNames_iff, bne_iff_ne, ne_eq, List.length_eq_zero_iff, decide_eq_true_iff,
    Bool.or_eq_true, Bool.not_eq_true', beq_iff_eq, PathPattern.names, PathPattern.exact, PathPattern.args]
  constructor
  · rintro ⟨⟨⟨⟨some, fits⟩, full⟩, names, bare⟩, last⟩
    refine ⟨some, names ▸ List.drop_suffix _ _, fun own => ?_, bare, last⟩
    rw [names, full.resolve_left (by simp [own]), Nat.sub_self, List.drop_zero]
  · rintro ⟨some, suffix, full, bare, last⟩
    have fits := suffix.length_le
    have names := List.suffix_iff_eq_drop.1 suffix
    rw [List.length_map] at fits names
    refine ⟨⟨⟨⟨some, fits⟩, ?_⟩, names, bare⟩, last⟩
    cases exact with
    | false => exact .inl rfl
    | true => exact .inr (by rw [← List.length_map (f := Segment.name), full rfl])

/-- Only a path is written like a pattern. -/
theorem exists_path_of_matches {p : PathPattern} {t : Ty} (h : p.Matches t = true) :
    ∃ absolute ss, t = .path absolute ss := by
  cases t with
  | path absolute ss => exact ⟨absolute, ss, rfl⟩
  | projection _ _ _ _ | paren _ | shaped _ _ => obtain ⟨_, _, _⟩ := p; simp [Matches] at h

/-- The names of a path, the places of its arguments and those of its last name decide. -/
theorem matches_congr {p : PathPattern} {absolute absolute' : Bool} {ss ss' : List Segment}
    (names : ss.map Segment.name = ss'.map Segment.name)
    (bare : ss.map (·.args.isNone) = ss'.map (·.args.isNone))
    (last : matchLast p.args (lastArgs ss) = matchLast p.args (lastArgs ss')) :
    p.Matches (.path absolute ss) = p.Matches (.path absolute' ss') := by
  have places (ss : List Segment) : (∀ s ∈ ss.dropLast, s.args.isNone = true) ↔
      ∀ b ∈ (ss.map (·.args.isNone)).dropLast, b = true := by
    rw [← List.map_dropLast, List.forall_mem_map]
  have empty : ss ≠ [] ↔ ss' ≠ [] := by
    have same := congrArg List.isEmpty names
    rw [List.isEmpty_map, List.isEmpty_map] at same
    rw [Ne, Ne, ← List.isEmpty_iff, ← List.isEmpty_iff, same]
  rw [Bool.eq_iff_iff, matches_path_iff, matches_path_iff, places, places, names, bare, last, empty]

end PathPattern

namespace NativeKind

/-- The accepted paths of all kinds. -/
def allPatterns : List PathPattern := all.flatMap patterns

theorem isSome_lookup?_iff {t : Ty} : (lookup? t).isSome = true ↔ ∃ p ∈ allPatterns, p.Matches t = true := by
  rw [lookup?, List.find?_isSome, allPatterns]
  simp only [Matches, List.any_eq_true, List.mem_flatMap]
  constructor
  · rintro ⟨k, known, p, own, matched⟩
    exact ⟨p, ⟨k, known, own⟩, matched⟩
  · rintro ⟨p, ⟨k, known, own⟩, matched⟩
    exact ⟨k, known, p, own, matched⟩

end NativeKind

/-! ## Types in full -/

section

variable {f : Bool → List Segment → Option NamePath}

theorem segmentsMapHeads_eq_map (ss : List Segment) : segmentsMapHeads f ss = ss.map (·.mapHeads f) := by
  induction ss with
  | nil => rfl
  | cons s ss ih => rw [segmentsMapHeads, ih, List.map_cons]

@[simp]
theorem Segment.name_mapHeads (s : Segment) : (s.mapHeads f).name = s.name := by
  obtain ⟨name, args⟩ := s
  rfl

@[simp]
theorem Segment.args_mapHeads (s : Segment) : (s.mapHeads f).args = s.args.mapHeads f := by
  obtain ⟨name, args⟩ := s
  rfl

@[simp]
theorem Args.isNone_mapHeads (args : Args) : (args.mapHeads f).isNone = args.isNone := by cases args <;> rfl

theorem PathPattern.lastArgs_map (ss : List Segment) :
    lastArgs (ss.map (·.mapHeads f)) = (lastArgs ss).mapHeads f := by
  induction ss with
  | nil => rfl
  | cons s ss ih =>
    cases ss with
    | nil => exact s.args_mapHeads
    | cons s' ss => exact ih

/-- What the patterns without arguments ask of the arguments of a name does not change inside them. -/
theorem PathPattern.matchLast_nil_mapHeads (args : Args) : matchLast [] (args.mapHeads f) = matchLast [] args := by
  cases args with
  | none | call => rfl
  | angle turbofish as trailing => cases as <;> rfl

/-- The inside of a path in full counts as far as the pattern has arguments. -/
theorem PathPattern.matches_mapHeads {p : PathPattern} (simple : p.args = []) (absolute : Bool) (ss : List Segment) :
    p.Matches (.path absolute (ss.map (·.mapHeads f))) = p.Matches (.path absolute ss) := by
  refine matches_congr ?_ ?_ ?_
  · simp only [List.map_map, Function.comp_def, Segment.name_mapHeads]
  · simp only [List.map_map, Function.comp_def, Segment.args_mapHeads, Args.isNone_mapHeads]
  · rw [simple, lastArgs_map, matchLast_nil_mapHeads]

namespace Imports

theorem map_headSegments (args : Args) (names : List String) :
    (headSegments args names).map (·.mapHeads f) = headSegments (args.mapHeads f) names := by
  induction names with
  | nil => rfl
  | cons n names ih =>
    cases names with
    | nil => rfl
    | cons m names => exact congrArg (List.cons _) ih

@[simp]
theorem map_name_headSegments (args : Args) (names : List String) :
    (headSegments args names).map Segment.name = names := by
  induction names with
  | nil => rfl
  | cons n names ih =>
    cases names with
    | nil => rfl
    | cons m names => exact congrArg (List.cons n) ih

theorem map_name_splice (head : NamePath) (s : Segment) (ss : List Segment) :
    (splice head (s :: ss)).map Segment.name = head.names ++ ss.map Segment.name := by
  rw [splice, List.map_append, map_name_headSegments]

theorem lastArgs_headSegments (args : Args) (names : List String) :
    PathPattern.lastArgs (headSegments args names) = if names = [] then .none else args := by
  induction names with
  | nil => rfl
  | cons n names ih =>
    cases names with
    | nil => rfl
    | cons m names =>
      rw [if_neg (List.cons_ne_nil _ _)] at ih ⊢
      cases names <;> exact ih

/-- The last arguments of a path are those of the path that it is taken in, if it has any. -/
theorem lastArgs_splice (head : NamePath) (ss : List Segment) :
    PathPattern.lastArgs (splice head ss) = PathPattern.lastArgs ss ∨
      PathPattern.lastArgs (splice head ss) = .none := by
  have behind (front : List Segment) (s : Segment) (ss : List Segment) :
      PathPattern.lastArgs (front ++ s :: ss) = PathPattern.lastArgs (s :: ss) := by
    induction front with
    | nil => rfl
    | cons t front ih => cases front <;> exact ih
  match ss with
  | [] =>
    rw [splice, lastArgs_headSegments]
    exact .inr (ite_self _)
  | [s] =>
    rw [splice, List.append_nil, lastArgs_headSegments]
    split
    · exact .inr rfl
    · exact .inl rfl
  | s :: s' :: ss => exact .inl (behind _ s' ss)

/-- A path is taken in before its inside is written in full, or after. -/
theorem splice_map (head : NamePath) (ss : List Segment) :
    splice head (ss.map (·.mapHeads f)) = (splice head ss).map (·.mapHeads f) := by
  cases ss with
  | nil => exact (map_headSegments .none head.names).symm
  | cons s ss => rw [List.map_cons, splice, splice, List.map_append, map_headSegments, Segment.args_mapHeads]

end Imports

namespace Ty

/-- The type with the first name of its own path replaced, and its inside as written. -/
def headed (f : Bool → List Segment → Option NamePath) : Ty → Ty
  | .path absolute ss =>
    match f absolute ss with
    | some head => .path head.absolute (Imports.splice head ss)
    | none => .path absolute ss
  | t => t

/-- A path in full: its first name is replaced, and then what is inside. -/
theorem exists_headed (f : Bool → List Segment → Option NamePath) (absolute : Bool) (ss : List Segment) :
    ∃ absolute' ss', (Ty.path absolute ss).headed f = .path absolute' ss' ∧
      (Ty.path absolute ss).mapHeads f = .path absolute' (ss'.map (·.mapHeads f)) := by
  rw [headed, mapHeads, segmentsMapHeads_eq_map]
  cases f absolute ss with
  | none => exact ⟨absolute, ss, rfl, rfl⟩
  | some head => exact ⟨head.absolute, Imports.splice head ss, rfl, congrArg (Ty.path _) (Imports.splice_map head ss)⟩

theorem peel_mapHeads : (t : Ty) → (t.mapHeads f).peel = t.peel.mapHeads f
  | .paren inner => by rw [mapHeads, peel_paren, peel_paren, inner.peel_mapHeads]
  | .path absolute ss => by
    obtain ⟨absolute', ss', -, full⟩ := exists_headed f absolute ss
    rw [full, peel_path, peel_path, full]
  | .projection _ _ _ _ | .shaped _ _ => rfl

@[simp]
theorem isDescribable_mapHeads (t : Ty) : (t.mapHeads f).isDescribable = t.isDescribable := by
  cases t with
  | path absolute ss =>
    obtain ⟨absolute', ss', -, full⟩ := exists_headed f absolute ss
    rw [full]
    rfl
  | projection _ _ _ _ | paren _ => rfl
  | shaped shape parts => cases shape <;> rfl

theorem bareLast_map (ss : List Segment) : bareLast (ss.map (·.mapHeads f)) = (bareLast ss).map (·.mapHeads f) := by
  induction ss with
  | nil => rfl
  | cons s ss ih =>
    cases ss with
    | nil => rw [List.map_singleton, bareLast, bareLast, Segment.name_mapHeads]; rfl
    | cons s' ss => exact congrArg (List.cons _) ih

/-- The inside of an `Option` in full is the inside in full. -/
theorem optionInner?_mapHeads (absolute : Bool) (ss : List Segment) :
    (Ty.path absolute (ss.map (·.mapHeads f))).optionInner? =
      (Ty.path absolute ss).optionInner?.map (·.mapHeads f) := by
  have patterns : (optionPatterns.any fun p => p.Matches (.path absolute (bareLast (ss.map (·.mapHeads f))))) =
      optionPatterns.any fun p => p.Matches (.path absolute (bareLast ss)) := by
    simp only [optionPatterns, List.any_cons, List.any_nil, bareLast_map]
    rw [PathPattern.matches_mapHeads rfl, PathPattern.matches_mapHeads rfl]
  rw [optionInner?, optionInner?, PathPattern.lastArgs_map, patterns]
  match PathPattern.lastArgs ss with
  | .none | .call _ => rfl
  | .angle turbofish [] trailing => rfl
  | .angle turbofish (.ty inner :: []) trailing =>
    simp only [Args.mapHeads, argsMapHeads, Arg.mapHeads]
    split <;> rfl
  | .angle turbofish (.lifetime _ :: []) trailing | .angle turbofish (.other _ :: []) trailing => rfl
  | .angle turbofish (a :: _ :: _) trailing => cases a <;> rfl

/-- Whether a type in full is an `Option`, and of what, shows where its own first name is replaced. -/
theorem optionInner?_full (t : Ty) :
    (t.mapHeads f).optionInner? = (t.headed f).optionInner?.map (·.mapHeads f) := by
  cases t with
  | path absolute ss =>
    obtain ⟨absolute', ss', headed, full⟩ := exists_headed f absolute ss
    rw [headed, full, optionInner?_mapHeads]
  | projection _ _ _ _ | paren _ | shaped _ _ => rfl

theorem peel_peel : (t : Ty) → t.peel.peel = t.peel
  | .paren inner => inner.peel_peel
  | .path _ _ | .projection _ _ _ _ | .shaped _ _ => rfl

/-- The type whose values are kept for a field, as written: the type of the field, or what an `Option` has inside. -/
def kept (f : Bool → List Segment → Option NamePath) (t : Ty) : Ty :=
  ((t.peel.headed f).optionInner?.getD t.peel).peel

end Ty

/-- The last arguments of a path whose first name is replaced are those of the path. -/
theorem Ty.lastArgs_of_headed {absolute absolute' : Bool} {ss ss' : List Segment}
    (h : (Ty.path absolute ss).headed f = .path absolute' ss') :
    PathPattern.lastArgs ss' = PathPattern.lastArgs ss ∨ PathPattern.lastArgs ss' = .none := by
  rw [headed] at h
  cases found : f absolute ss with
  | none =>
    rw [found] at h
    cases h
    exact .inl rfl
  | some head =>
    rw [found] at h
    cases h
    exact Imports.lastArgs_splice head ss

/-- What an `Option` has inside is an argument of the path, as it is written. -/
theorem Ty.exists_of_optionInner? {t inner : Ty} (h : (t.headed f).optionInner? = some inner) :
    ∃ absolute ss turbofish trailing, t = .path absolute ss ∧
      PathPattern.lastArgs ss = .angle turbofish [.ty inner] trailing := by
  cases t with
  | projection _ _ _ _ | paren _ | shaped _ _ => cases h
  | path absolute ss =>
    obtain ⟨absolute', ss', headed, -⟩ := exists_headed f absolute ss
    rw [headed] at h
    have last := lastArgs_of_headed headed
    rw [optionInner?] at h
    split at h
    · rename_i turbofish inner' trailing found
      split at h
      · cases h
        rw [found] at last
        exact ⟨absolute, ss, turbofish, trailing, rfl, (last.resolve_right nofun).symm⟩
      · cases h
    · cases h

/-- The strategy for a type in full is that of the type whose values are kept. -/
theorem Descriptor.strategy_mapHeads (t : Ty) : (ofTy? (t.mapHeads f)).map strategy =
    if t.peel.isDescribable = true ∧ (t.kept f).isDescribable = true then
      some (if (NativeKind.lookup? ((t.kept f).mapHeads f)).isSome then .native else .json)
    else none := by
  rw [ofTy?, Ty.peel_mapHeads, Ty.isDescribable_mapHeads, Ty.optionInner?_full, Ty.kept]
  cases described : t.peel.isDescribable with
  | false => simp
  | true =>
    cases (t.peel.headed f).optionInner? with
    | none =>
      simp only [if_true, Option.map_none, Option.getD_none, Ty.peel_peel, described, and_self, Option.map_some]
      rfl
    | some inner =>
      simp only [if_true, Option.map_some, Option.getD_some, true_and, Ty.peel_mapHeads, Ty.isDescribable_mapHeads]
      split <;> rfl

end

end LiveSettings
