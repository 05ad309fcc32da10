import LiveSettings.Proofs.Target.Spellings
import Mathlib.Data.List.Nodup

/-!
# The table of native types

What an entry of the table looks at in a type is how it is spelled: the names of a path, and the types that its
last name is given. A path into another type has no spelling, nor has one with arguments before its last name, with
those of a call, as `Fn(u8)` has them, or with a lifetime, a constant or a binding among its arguments. The last name
of a path tells the one entry that it may belong to, since no two entries have patterns that end alike.

Results:
* `PathPattern.exists_spells_of_matches`: a type without a spelling is written like no pattern.
* `PathPattern.matches_iff_of_spells`: of a spelling, the names are the last ones of the pattern, or all of them,
  and the types are written like those of the pattern, one by one.
* `NativeKind.eq_of_matches`: a type belongs to one entry at most.
* `NativeKind.table_unambiguous`: all of this, and that the order of the table does not count.
-/

namespace LiveSettings

/-! ## How a path is spelled -/

/-- A name without arguments. -/
def Segment.named (name : String) : Segment := .mk name .none

/-- Whether arguments are just the given types; no arguments and empty brackets are the same. The arguments of a
call are not just types. -/
def Args.AreTypes : Args → List Ty → Prop
  | .none, types => types = []
  | .angle _ args _, types => args = types.map .ty
  | .call _, _ => False

/-- A path by its names and the types behind the last one, whatever stands in front of it, and whether its
brackets have a mark in front or a comma at the end. -/
inductive Ty.Spells : Ty → List String → List Ty → Prop
  | path (absolute : Bool) (front : List String) (last : String) {args : Args} {types : List Ty}
      (are : args.AreTypes types) :
      Spells (.path absolute (front.map .named ++ [.mk last args])) (front ++ [last]) types

theorem Args.areTypes_unique {args : Args} {types types' : List Ty} (h : args.AreTypes types) (h' : args.AreTypes types') :
    types = types' := by
  cases args with
  | none => exact h.trans h'.symm
  | angle turbofish written trailing =>
    have same : types.map Arg.ty = types'.map Arg.ty := h.symm.trans h'
    exact List.map_injective_iff.2 (fun _ _ => Arg.ty.inj) same
  | call parts => exact h.elim

theorem PathPattern.lastArgs_append (front : List Segment) (s : Segment) : lastArgs (front ++ [s]) = s.args := by
  induction front with
  | nil => rfl
  | cons t front ih => cases front <;> exact ih

theorem Segment.map_name_named (names : List String) : (names.map Segment.named).map Segment.name = names := by
  rw [List.map_map]
  exact List.map_id names

/-- Segments without arguments are their names. -/
theorem Segment.map_named_name {ss : List Segment} (bare : ∀ s ∈ ss, s.args.isNone = true) :
    (ss.map Segment.name).map Segment.named = ss := by
  rw [List.map_map]
  refine (List.map_congr_left fun s mem => ?_).trans (List.map_id ss)
  obtain ⟨name, args⟩ := s
  have none := bare _ mem
  cases args with
  | none => rfl
  | angle | call => cases none

namespace PathPattern

/-! ## What a pattern asks of a spelling -/

/-- Arguments are written like patterns if they are types, each written like its pattern. -/
theorem matchArgs_iff {ps : List PathPattern} {args : List Arg} : matchArgs ps args = true ↔
    ∃ types : List Ty, args = types.map .ty ∧ List.Forall₂ (fun q u => q.Matches u = true) ps types := by
  induction ps generalizing args with
  | nil =>
    cases args with
    | nil => exact iff_of_true rfl ⟨[], rfl, .nil⟩
    | cons a args =>
      refine iff_of_false nofun ?_
      rintro ⟨types, written, matched⟩
      cases matched
      cases written
  | cons p ps ih =>
    constructor
    · intro h
      match args with
      | .ty t :: args =>
        obtain ⟨here, later⟩ := Bool.and_eq_true_iff.1 h
        obtain ⟨types, rfl, matched⟩ := ih.1 later
        exact ⟨t :: types, rfl, .cons here matched⟩
    · rintro ⟨types, rfl, matched⟩
      cases matched with
      | cons here later => exact Bool.and_eq_true_iff.2 ⟨here, ih.2 ⟨_, rfl, later⟩⟩

theorem matchLast_iff {ps : List PathPattern} {args : Args} : matchLast ps args = true ↔
    ∃ types : List Ty, args.AreTypes types ∧ List.Forall₂ (fun q u => q.Matches u = true) ps types := by
  cases args with
  | none =>
    rw [matchLast, List.isEmpty_iff]
    constructor
    · rintro rfl
      exact ⟨[], rfl, .nil⟩
    · rintro ⟨types, empty, matched⟩
      cases empty
      cases matched
      rfl
  | angle turbofish written trailing => exact matchArgs_iff
  | call parts =>
    refine iff_of_false (fun accepted => ?_) fun given => ?_
    · cases accepted
    · obtain ⟨types, are, -⟩ := given
      exact are

/-- A type that is written like a pattern has a spelling: it is a path that leads into no other type, and it has
arguments behind its last name alone, all of which are types. -/
theorem exists_spells_of_matches {p : PathPattern} {t : Ty} (h : p.Matches t = true) :
    ∃ names types, t.Spells names types := by
  obtain ⟨absolute, ss, rfl⟩ := exists_path_of_matches h
  obtain ⟨some, -, -, bare, last⟩ := matches_path_iff.1 h
  obtain ⟨front, s, rfl⟩ := (List.eq_nil_or_concat' ss).resolve_left some
  rw [List.dropLast_concat] at bare
  rw [lastArgs_append] at last
  obtain ⟨types, are, -⟩ := matchLast_iff.1 last
  obtain ⟨name, args⟩ := s
  have spelled := Ty.Spells.path absolute (front.map Segment.name) name are
  rw [Segment.map_named_name bare] at spelled
  exact ⟨_, _, spelled⟩

/-- Of a type with a spelling, the spelling decides whether it is written like a pattern. -/
theorem matches_iff_of_spells {p : PathPattern} {t : Ty} {names : List String} {types : List Ty}
    (h : t.Spells names types) : p.Matches t = true ↔ names ≠ [] ∧ names <:+ p.names ∧
      (p.exact = true → names = p.names) ∧ List.Forall₂ (fun q u => q.Matches u = true) p.args types := by
  obtain @⟨absolute, front, last, args, _, are⟩ := h
  have bare : ∀ s ∈ front.map Segment.named, s.args.isNone = true := List.forall_mem_map.2 fun _ _ => rfl
  rw [matches_path_iff, List.map_append, Segment.map_name_named, List.map_singleton, lastArgs_append,
    List.dropLast_concat, Segment.args, matchLast_iff]
  constructor
  · rintro ⟨-, suffix, full, -, types', are', matched⟩
    exact ⟨List.concat_ne_nil last front, suffix, full, Args.areTypes_unique are' are ▸ matched⟩
  · rintro ⟨-, suffix, full, matched⟩
    exact ⟨List.append_ne_nil_of_right_ne_nil _ (List.cons_ne_nil _ _), suffix, full, bare, _, are, matched⟩

end PathPattern

namespace NativeKind

/-! ## Entries apart -/

/-- The name that every accepted path of the type ends in. -/
def bareName : NativeKind → String
  | .dateTime => "DateTime"
  | k => k.typeName

theorem getLast?_names {k : NativeKind} : ∀ p ∈ k.patterns, p.names.getLast? = some k.bareName := by
  cases k <;> decide

theorem bareName_inj {k k' : NativeKind} (same : k.bareName = k'.bareName) : k = k' :=
  List.inj_on_of_nodup_map (by decide : (all.map bareName).Nodup) (mem_all k) (mem_all k') same

/-- A type that belongs to an entry ends in its name. -/
theorem getLast?_of_matches {k : NativeKind} {t : Ty} {names : List String} {types : List Ty}
    (spelled : t.Spells names types) (h : k.Matches t = true) : names.getLast? = some k.bareName := by
  obtain ⟨p, known, matched⟩ := List.any_eq_true.1 h
  obtain ⟨some, ⟨front, written⟩, -, -⟩ := (PathPattern.matches_iff_of_spells spelled).1 matched
  rw [← getLast?_names p known, ← written, List.getLast?_append_of_ne_nil front some]

/-- A type belongs to one entry at most. -/
theorem eq_of_matches {k k' : NativeKind} {t : Ty} (h : k.Matches t = true) (h' : k'.Matches t = true) : k = k' := by
  obtain ⟨p, -, matched⟩ := List.any_eq_true.1 h
  obtain ⟨names, types, spelled⟩ := PathPattern.exists_spells_of_matches matched
  have last := getLast?_of_matches spelled h
  rw [getLast?_of_matches spelled h'] at last
  exact (bareName_inj (Option.some.inj last)).symm

/-- Looking through the entries in any order finds the same one. -/
theorem find?_of_perm {table : List NativeKind} (order : table.Perm all) (t : Ty) :
    table.find? (·.Matches t) = lookup? t := by
  cases found : lookup? t with
  | none => exact List.find?_eq_none.2 fun k _ => Bool.eq_false_iff.1 ((lookup?_eq_none_iff t).1 found k)
  | some k =>
    have own := matches_of_lookup? found
    cases other : table.find? (·.Matches t) with
    | none => exact absurd own (List.find?_eq_none.1 other k (order.mem_iff.2 (mem_all k)))
    | some k' =>
      have matched := @List.find?_some _ (fun k : NativeKind => k.Matches t) k' table other
      exact congrArg some (eq_of_matches matched own)

/-- The table is unambiguous: a type belongs to one entry at most, and the order of the entries does not count. A
pattern asks for a path that leads into no other type, with arguments behind its last name alone, between angle
brackets, and types among them alone; and then nothing but the names and these types decides. The names are all those
of an exact pattern, and one or more of the last ones of any other, and there are as many types as the pattern has,
each written like its own. -/
theorem table_unambiguous (t : Ty) :
    (∀ k k' : NativeKind, k.Matches t = true → k'.Matches t = true → k = k') ∧
    (∀ table : List NativeKind, table.Perm all → table.find? (·.Matches t) = lookup? t) ∧
    ∀ p : PathPattern,
      (p.Matches t = true → ∃ names types, t.Spells names types) ∧
      ∀ names types, t.Spells names types → (p.Matches t = true ↔
        names ≠ [] ∧ names <:+ p.names ∧ (p.exact = true → names = p.names) ∧
          List.Forall₂ (fun q u => q.Matches u = true) p.args types) :=
  ⟨fun _ _ => eq_of_matches, fun _ order => find?_of_perm order t, fun _ =>
    ⟨PathPattern.exists_spells_of_matches, fun _ _ => PathPattern.matches_iff_of_spells⟩⟩

end NativeKind

end LiveSettings
