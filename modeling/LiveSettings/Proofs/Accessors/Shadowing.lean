import LiveSettings.Proofs.Accessors.Globs

/-!
# Types of the user

A type that a module declares, or a type parameter, goes before what is imported: its name stands for itself. So a
field whose type names it is kept as a document. Native types are told by their spelling, though: where the name is
one that an accepted path may start with, such as `Option` or `chrono`, the path is taken for the accepted one.

Results:
* `Ty.mem_heads_mapHeads`: a name that stands for itself is still there in the type in full.
* `Ty.heads_of_native`, `Ty.heads_of_option`: the names that accepted types start with.
* `Accessors.user_types_json`: types of the user are kept as documents.
* `Accessors.user_types_native`: names of the user that are taken for others.
-/

namespace LiveSettings

/-! ## First names -/

/-- The first name of a path. -/
def firstName : List Segment → List String
  | [] => []
  | s :: _ => [s.name]

mutual

/-- The first names of the paths in a type, at any depth. -/
def Ty.heads : Ty → List String
  | .path _ ss => firstName ss ++ segmentsHeads ss
  | .projection self _ _ ss => self.heads ++ (firstName ss ++ segmentsHeads ss)
  | .paren inner => inner.heads
  | .shaped _ parts => partsHeads parts

def segmentsHeads : List Segment → List String
  | [] => []
  | s :: ss => s.heads ++ segmentsHeads ss

def Segment.heads : Segment → List String
  | .mk _ args => args.heads

def Args.heads : Args → List String
  | .none => []
  | .angle _ as _ => argsHeads as
  | .call parts => partsHeads parts

def argsHeads : List Arg → List String
  | [] => []
  | a :: as => a.heads ++ argsHeads as

def Arg.heads : Arg → List String
  | .lifetime _ => []
  | .ty t => t.heads
  | .other parts => partsHeads parts

def partsHeads : List Part → List String
  | [] => []
  | p :: ps => p.heads ++ partsHeads ps

/-- A name outside a path of its own may be the first one. -/
def Part.heads : Part → List String
  | .token _ => []
  | .ty t => t.heads
  | .segment s => s.name :: s.heads
  | .embedded _ parts => partsHeads parts

end

theorem segmentsHeads_append (ss ts : List Segment) :
    segmentsHeads (ss ++ ts) = segmentsHeads ss ++ segmentsHeads ts := by
  induction ss with
  | nil => rfl
  | cons s ss ih => rw [List.cons_append, segmentsHeads, ih, segmentsHeads, List.append_assoc]

theorem Ty.heads_peel : (t : Ty) → t.peel.heads = t.heads
  | .paren inner => inner.heads_peel
  | .path _ _ | .projection _ _ _ _ | .shaped _ _ => rfl

/-- The first names in the arguments of a path are not lost where it is taken in. -/
theorem Imports.subset_splice {head : NamePath} (named : head.names ≠ []) (ss : List Segment) :
    segmentsHeads ss ⊆ segmentsHeads (splice head ss) := by
  obtain ⟨absolute, names⟩ := head
  obtain ⟨front, last, rfl⟩ := (List.eq_nil_or_concat' names).resolve_left named
  cases ss with
  | nil => exact List.nil_subset _
  | cons s ss =>
    obtain ⟨name, args⟩ := s
    rw [splice_mk, segmentsHeads_append]
    exact List.subset_append_right _ _

/-- What is found of first names leaves one name to itself, and gives paths of some names. -/
structure Spares (f : Bool → List Segment → Option NamePath) (n : String) : Prop where
  own : ∀ absolute s ss, s.name = n → f absolute (s :: ss) = none
  named : ∀ absolute ss head, f absolute ss = some head → head.names ≠ []

section

variable {f : Bool → List Segment → Option NamePath} {n : String}

theorem firstName_mapHeads (ss : List Segment) : firstName (segmentsMapHeads f ss) = firstName ss := by
  cases ss with
  | nil => rfl
  | cons s ss => exact congrArg (fun name => [name]) s.name_mapHeads

mutual

/-- A name that stands for itself is still there in the type in full. -/
theorem Ty.mem_heads_mapHeads (h : Spares f n) : (t : Ty) → n ∈ t.heads → n ∈ (t.mapHeads f).heads
  | .path absolute ss, mem => by
    have inside := mem_segmentsHeads_mapHeads h ss
    rw [Ty.mapHeads]
    cases found : f absolute ss with
    | none =>
      rcases List.mem_append.1 mem with first | later
      · exact List.mem_append_left _ (firstName_mapHeads ss ▸ first)
      · exact List.mem_append_right _ (inside later)
    | some head =>
      rcases List.mem_append.1 mem with first | later
      · cases ss with
        | nil => cases first
        | cons s ss =>
          rw [h.own absolute s ss (List.mem_singleton.1 first).symm] at found
          cases found
      · exact List.mem_append_right _ (Imports.subset_splice (h.named absolute ss head found) _ (inside later))
  | .projection self depth absolute ss, mem => by
    rcases List.mem_append.1 mem with outer | mem
    · exact List.mem_append_left _ (self.mem_heads_mapHeads h outer)
    · refine List.mem_append_right _ ?_
      rcases List.mem_append.1 mem with first | later
      · exact List.mem_append_left _ (firstName_mapHeads ss ▸ first)
      · exact List.mem_append_right _ (mem_segmentsHeads_mapHeads h ss later)
  | .paren inner, mem => inner.mem_heads_mapHeads h mem
  | .shaped _ parts, mem => mem_partsHeads_mapHeads h parts mem

theorem mem_segmentsHeads_mapHeads (h : Spares f n) : (ss : List Segment) → n ∈ segmentsHeads ss →
    n ∈ segmentsHeads (segmentsMapHeads f ss)
  | [], mem => mem
  | s :: ss, mem => by
    rcases List.mem_append.1 mem with here | later
    · exact List.mem_append_left _ (s.mem_heads_mapHeads h here)
    · exact List.mem_append_right _ (mem_segmentsHeads_mapHeads h ss later)

theorem Segment.mem_heads_mapHeads (h : Spares f n) : (s : Segment) → n ∈ s.heads → n ∈ (s.mapHeads f).heads
  | .mk _ .none, mem => mem
  | .mk _ (.angle _ as _), mem => mem_argsHeads_mapHeads h as mem
  | .mk _ (.call parts), mem => mem_partsHeads_mapHeads h parts mem

theorem mem_argsHeads_mapHeads (h : Spares f n) : (as : List Arg) → n ∈ argsHeads as →
    n ∈ argsHeads (argsMapHeads f as)
  | [], mem => mem
  | a :: as, mem => by
    rcases List.mem_append.1 mem with here | later
    · exact List.mem_append_left _ (a.mem_heads_mapHeads h here)
    · exact List.mem_append_right _ (mem_argsHeads_mapHeads h as later)

theorem Arg.mem_heads_mapHeads (h : Spares f n) : (a : Arg) → n ∈ a.heads → n ∈ (a.mapHeads f).heads
  | .lifetime _, mem => mem
  | .ty t, mem => t.mem_heads_mapHeads h mem
  | .other parts, mem => mem_partsHeads_mapHeads h parts mem

theorem mem_partsHeads_mapHeads (h : Spares f n) : (ps : List Part) → n ∈ partsHeads ps →
    n ∈ partsHeads (partsMapHeads f ps)
  | [], mem => mem
  | p :: ps, mem => by
    rcases List.mem_append.1 mem with here | later
    · exact List.mem_append_left _ (p.mem_heads_mapHeads h here)
    · exact List.mem_append_right _ (mem_partsHeads_mapHeads h ps later)

theorem Part.mem_heads_mapHeads (h : Spares f n) : (p : Part) → n ∈ p.heads → n ∈ (p.mapHeads f).heads
  | .token _, mem => mem
  | .ty t, mem => t.mem_heads_mapHeads h mem
  | .segment s, mem => by
    rcases List.mem_cons.1 mem with same | inside
    · exact List.mem_cons.2 (.inl (same.trans s.name_mapHeads.symm))
    · exact List.mem_cons_of_mem _ (s.mem_heads_mapHeads h inside)
  | .embedded _ parts, mem => mem_partsHeads_mapHeads h parts mem

end

end

/-! ## The first names of accepted types -/

/-- The names that a path written like a pattern may start with. -/
def PathPattern.heads (p : PathPattern) : List String := if p.exact then p.names.take 1 else p.names

/-- The names that accepted paths may start with: those of native types, of their arguments and of `Option`. -/
def acceptedHeads : List String :=
  (NativeKind.allPatterns ++ NativeKind.offsetPattern :: Ty.optionPatterns).flatMap PathPattern.heads

example : acceptedHeads.eraseDups = ["i16", "u16", "i32", "u32", "i64", "u64", "f32", "f64", "bool", "char", "std",
    "string", "String", "alloc", "chrono", "core", "uuid", "observable_settings_core", "observable_settings",
    "FixedOffset", "option", "Option"] := by
  decide +kernel

theorem subset_acceptedHeads {p : PathPattern}
    (known : p ∈ NativeKind.allPatterns ++ NativeKind.offsetPattern :: Ty.optionPatterns) : p.heads ⊆ acceptedHeads :=
  fun _ mem => List.mem_flatMap.2 ⟨p, known, mem⟩

theorem firstName_of_matches {p : PathPattern} {absolute : Bool} {ss : List Segment}
    (matched : p.Matches (.path absolute ss) = true) : firstName ss ⊆ p.heads := by
  obtain ⟨-, suffix, full, -, -⟩ := PathPattern.matches_path_iff.1 matched
  cases ss with
  | nil => exact List.nil_subset _
  | cons s ss =>
    rw [PathPattern.heads]
    split
    · rename_i exact
      rw [← full exact]
      exact List.Subset.refl _
    · intro n mem
      exact suffix.subset (List.mem_singleton.1 mem ▸ List.mem_cons_self)

/-- Where the names before the last have no arguments, the names inside are in those of the last. -/
theorem segmentsHeads_of_bare {ss : List Segment} (bare : ∀ s ∈ ss.dropLast, s.args.isNone = true) :
    segmentsHeads ss = (PathPattern.lastArgs ss).heads := by
  induction ss with
  | nil => rfl
  | cons s ss ih =>
    rw [segmentsHeads]
    cases ss with
    | nil =>
      obtain ⟨name, args⟩ := s
      exact List.append_nil args.heads
    | cons s' ss =>
      obtain ⟨none, later⟩ := List.forall_mem_cons.1 bare
      obtain ⟨name, args⟩ := s
      cases args with
      | none => exact ih later
      | angle | call => cases none

/-- A path written like a pattern has the first names of the pattern and of the arguments. -/
theorem heads_of_matches {p : PathPattern} {t : Ty} (matched : p.Matches t = true) {accepted : List String}
    (first : p.heads ⊆ accepted)
    (inside : ∀ args, PathPattern.matchLast p.args args = true → args.heads ⊆ accepted) : t.heads ⊆ accepted := by
  obtain ⟨absolute, ss, rfl⟩ := PathPattern.exists_path_of_matches matched
  obtain ⟨-, -, -, bare, last⟩ := PathPattern.matches_path_iff.1 matched
  rw [Ty.heads, segmentsHeads_of_bare bare]
  exact List.append_subset.2 ⟨fun n mem => first (firstName_of_matches matched mem), inside _ last⟩

theorem heads_of_noArgs {args : Args} (none : PathPattern.matchLast [] args = true) : args.heads = [] := by
  cases args with
  | none => rfl
  | angle _ as _ =>
    cases as with
    | nil => rfl
    | cons a as => cases none
  | call parts => cases none

/-- A native type has accepted first names. -/
theorem Ty.heads_of_native {t : Ty} (native : (NativeKind.lookup? t).isSome = true) : t.heads ⊆ acceptedHeads := by
  obtain ⟨p, known, matched⟩ := NativeKind.isSome_lookup?_iff.1 native
  refine heads_of_matches matched (subset_acceptedHeads (List.mem_append_left _ known)) fun args fits => ?_
  rcases NativeKind.args_of_pattern known with none | one
  · rw [none] at fits
    rw [heads_of_noArgs fits]
    exact List.nil_subset _
  · rw [one] at fits
    match args with
    | .none => exact List.nil_subset _
    | .angle _ (.ty t :: []) _ =>
      have offset : NativeKind.offsetPattern.Matches t = true := (Bool.and_eq_true_iff.1 fits).1
      have own := heads_of_matches offset (subset_acceptedHeads (by simp)) fun args fits => by
        rw [heads_of_noArgs fits]
        exact List.nil_subset _
      exact List.append_subset.2 ⟨own, List.nil_subset _⟩
    | .angle _ (.ty t :: a :: as) _ => exact absurd (Bool.and_eq_true_iff.1 fits).2 Bool.false_ne_true

theorem Ty.bareLast_spec (ss : List Segment) :
    firstName (bareLast ss) = firstName ss ∧ (bareLast ss).dropLast = ss.dropLast := by
  induction ss with
  | nil => exact ⟨rfl, rfl⟩
  | cons s ss ih =>
    cases ss with
    | nil => exact ⟨rfl, rfl⟩
    | cons s' ss =>
      have longer : bareLast (s' :: ss) ≠ [] := by cases ss <;> exact List.cons_ne_nil _ _
      refine ⟨rfl, ?_⟩
      rw [bareLast, List.dropLast_cons_of_ne_nil longer, ih.2]
      · rfl
      · intro empty
        cases empty

/-- An `Option` has accepted first names, and those inside. -/
theorem Ty.heads_of_option {t inner : Ty} (h : t.optionInner? = some inner) :
    ∀ n ∈ t.heads, n ∈ acceptedHeads ∨ n ∈ inner.heads := by
  cases t with
  | projection _ _ _ _ | paren _ | shaped _ _ => cases h
  | path absolute ss =>
    rw [optionInner?] at h
    split at h
    · rename_i turbofish inner' trailing last
      split at h
      · rename_i option
        cases h
        obtain ⟨p, known, matched⟩ := List.any_eq_true.1 option
        obtain ⟨-, -, -, bare, -⟩ := PathPattern.matches_path_iff.1 matched
        have first := firstName_of_matches matched
        rw [(bareLast_spec ss).1] at first
        rw [(bareLast_spec ss).2] at bare
        rw [heads, segmentsHeads_of_bare bare, last]
        intro n mem
        rcases List.mem_append.1 mem with own | inside
        · have kept := subset_acceptedHeads (List.mem_append_right _ (List.mem_cons_of_mem _ known))
          exact .inl (kept (first own))
        · exact .inr (List.append_nil inner.heads ▸ inside)
      · cases h
    · cases h

/-- The type of a property that is kept as it is has accepted first names. -/
theorem Descriptor.heads_of_native {t : Ty} {d : Descriptor} (described : ofTy? t = some d)
    (native : d.native?.isSome = true) : t.heads ⊆ acceptedHeads := by
  rw [ofTy?] at described
  rw [← t.heads_peel]
  split at described
  · split at described
    · rename_i inner option
      split at described
      · cases described
        intro n mem
        rcases Ty.heads_of_option option n mem with own | inside
        · exact own
        · exact Ty.heads_of_native native (inner.heads_peel.symm ▸ inside)
      · cases described
    · cases described
      exact Ty.heads_of_native native
  · cases described

/-! ## Types of the user -/

theorem Imports.spares {items : List Item} {params : List String} {n : String}
    (named : ∀ name path, BoundTo items name path → path.names ≠ [])
    (user : (∃ i ∈ items, i.Declares n) ∨ n ∈ params) : Spares ((ofItems items).head? params) n where
  own absolute s ss same := by
    cases absolute with
    | true => rfl
    | false =>
      refine head?_own ?_
      rw [same]
      exact user.symm.imp_right mem_declared_iff.2
  named absolute ss head found := ((finds_head? named params).headed ss head (head?_iff.1 found).2).2

namespace Accessors

/-- A field whose type names a type that its module declares, or a type parameter, is kept as a document, if no
accepted path starts with this name and every imported name stands for a path of some names. -/
theorem user_types_json {items : List Item} (named : ∀ name path, BoundTo items name path → path.names ≠ [])
    (scope : List String) (container : Container) (decl : Struct) {f : Field} {m : Marker.Settings}
    (marked : Marker.find f.attrs = .ok (some m)) (silent : m.strategy = none) {n : String} (mem : n ∈ f.ty.heads)
    (user : (∃ i ∈ items, i.Declares n) ∨ n ∈ decl.generics.typeNames) (other : n ∉ acceptedHeads) :
    let s : Site := ⟨.ofItems items, scope, container, decl⟩
    s.strategy? f =
      (Descriptor.ofTy? (s.imports.qualify decl.generics.typeNames f.ty)).map fun _ => Strategy.json := by
  intro s
  rw [Site.strategy?_eq s marked silent]
  refine Option.map_congr fun d described => ?_
  have still := f.ty.mem_heads_mapHeads (Imports.spares named user) mem
  rw [← Imports.qualify_eq_mapHeads] at still
  have kept : ¬d.native?.isSome = true := fun native => other (Descriptor.heads_of_native described native still)
  exact if_neg kept

/-- A module with a point of its own, which goes before the one that it imports with others. -/
theorem user_types_json_point :
    let items : List Item := [.imports false (.path "observable_settings" .glob), .typeName "Point"]
    let ty : Ty := .path false [.mk "Option" (.angle false [.ty (.named ["Point"])] false)]
    let f : Field := ⟨[⟨⟨false, [Marker.markerName]⟩, .none⟩], "_home", ty⟩
    let map : Struct := ⟨[], "Map", ⟨[], false, []⟩, .named [f]⟩
    let s : Site := ⟨.ofItems items, ["app"], .module, map⟩
    (∀ name path, BoundTo items name path → path.names ≠ []) ∧ "Point" ∈ f.ty.heads ∧
      (∃ i ∈ items, i.Declares "Point") ∧ "Point" ∉ acceptedHeads ∧ s.strategy? f = some .json := by
  intro items ty f map s
  have named : ∀ name path, BoundTo items name path → path.names ≠ [] := Imports.named_of_bindings (by decide)
  have declared : ∃ i ∈ items, i.Declares "Point" := ⟨.typeName "Point", by simp [items], .typeName⟩
  have marked : Marker.find f.attrs = .ok (some ⟨none, true, none⟩) := by decide +kernel
  have other : "Point" ∉ acceptedHeads := by decide +kernel
  have mem : "Point" ∈ f.ty.heads := by decide +kernel
  have kept := user_types_json named ["app"] .module map marked rfl mem (.inl declared) other
  have described : (Descriptor.ofTy? (s.imports.qualify map.generics.typeNames f.ty)).isSome = true := by
    decide +kernel
  obtain ⟨d, found⟩ := Option.isSome_iff_exists.1 described
  exact ⟨named, mem, declared, other, kept.trans (by rw [found]; rfl)⟩

/-- Types of the user under names that accepted paths start with: each is taken for an accepted one. -/
theorem user_types_native :
    let of (t : Ty) (name : String) : Segment := .mk name (.angle false [.ty t] false)
    let types : List (String × Ty) := [
      ("Option", .path false [of (.named ["i32"]) "Option"]),
      ("option", .path false [.mk "option" .none, of (.named ["i32"]) "Option"]),
      ("std", .named ["std", "time", "Duration"]), ("core", .named ["core", "time", "Duration"]),
      ("alloc", .named ["alloc", "string", "String"]), ("string", .named ["string", "String"]),
      ("chrono", .path false [.mk "chrono" .none, of (.named ["FixedOffset"]) "DateTime"]),
      ("FixedOffset", .path false [.mk "chrono" .none, of (.named ["FixedOffset"]) "DateTime"]),
      ("uuid", .named ["uuid", "Uuid"]), ("observable_settings", .named ["observable_settings", "Point"]),
      ("observable_settings_core", .named ["observable_settings_core", "Point"])]
    ∀ t ∈ types, let f : Field := ⟨[⟨⟨false, [Marker.markerName]⟩, .none⟩], "_value", t.2⟩
      let s : Site := ⟨.ofItems [.typeName t.1], ["app"], .module, ⟨[], "Values", ⟨[], false, []⟩, .named [f]⟩⟩
      t.1 ∈ f.ty.heads ∧ t.1 ∈ s.imports.declared ∧ s.strategy? f = some .native := by
  decide +kernel

end Accessors

end LiveSettings
