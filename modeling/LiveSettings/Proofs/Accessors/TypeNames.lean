import LiveSettings.Proofs.Accessors.Nesting
import LiveSettings.Proofs.Accessors.Reports
import Mathlib.Data.List.Nodup

/-!
# Names of types

Diagnostics show a type by its modules and its name with `::` between them, and the file of its unit bears the same
with points between them and a fixed ending. What is joined can be told from the text where the first character of
the separator stands in none of the parts. Neither identifiers nor the scopes of functions hold a colon or a point,
so two types that are known by such segments share neither name.

Results:
* `intercalate_inj`: what is joined can be told from the text.
* `TypeId.qualifiedName_inj`, `TypeId.unitFile_inj`: the same for the modules and the name of a type.
* `Accessors.forall_segments_of_site`: what all that a struct is known by is made of.
* `Accessors.exists_site_of_reported`: a type that is reported is that of a struct at a site.
* `Accessors.nodup_units`: no two units are of one type.
* `Accessors.names_identify`: names of types tell them apart, and so do names of files.
-/

namespace LiveSettings

/-! ## Joined lists -/

section

variable {α : Type} {c : α} {sep : List α}

theorem not_mem_intercalate {ls : List (List α)} (apart : c ∉ sep) (h : ∀ l ∈ ls, c ∉ l) :
    c ∉ sep.intercalate ls := by
  induction ls with
  | nil => exact List.not_mem_nil
  | cons l ls ih =>
    have here := h l List.mem_cons_self
    cases ls with
    | nil => rwa [List.intercalate_singleton]
    | cons k ls =>
      have later := ih fun m mem => h m (List.mem_cons_of_mem l mem)
      rw [List.intercalate_cons_cons]
      exact List.not_mem_append (List.not_mem_append here apart) later

/-- What stands in front of the first of a character ends there. -/
theorem append_cons_inj {l m as bs : List α} (hl : c ∉ l) (hm : c ∉ m) (same : l ++ c :: as = m ++ c :: bs) :
    l = m ∧ as = bs := by
  induction l generalizing m with
  | nil =>
    cases m with
    | nil => exact ⟨rfl, (List.cons.inj same).2⟩
    | cons d m => exact absurd ((List.cons.inj same).1 ▸ List.mem_cons_self) hm
  | cons d l ih =>
    cases m with
    | nil => exact absurd ((List.cons.inj same).1 ▸ List.mem_cons_self) hl
    | cons e m =>
      obtain ⟨rfl, later⟩ := List.cons.inj same
      obtain ⟨rfl, rest⟩ :=
        ih (fun mem => hl (List.mem_cons_of_mem d mem)) (fun mem => hm (List.mem_cons_of_mem d mem)) later
      exact ⟨rfl, rest⟩

/-- Lists are joined in one way only where the first of the separator stands in none of them. -/
theorem intercalate_inj {l m : List α} {ls ms : List (List α)} (hl : ∀ k ∈ l :: ls, c ∉ k) (hm : ∀ k ∈ m :: ms, c ∉ k)
    (same : (c :: sep).intercalate (l :: ls) = (c :: sep).intercalate (m :: ms)) : l :: ls = m :: ms := by
  have joined (k k' : List α) (ks : List (List α)) : (c :: sep).intercalate (k :: k' :: ks) =
      k ++ c :: (sep ++ (c :: sep).intercalate (k' :: ks)) := by
    rw [List.intercalate_cons_cons, List.append_assoc, List.cons_append]
  induction ls generalizing l m ms with
  | nil =>
    cases ms with
    | nil => rwa [List.intercalate_singleton, List.intercalate_singleton, ← List.singleton_inj] at same
    | cons m' ms =>
      rw [List.intercalate_singleton, joined] at same
      exact absurd (same ▸ List.mem_append_right m List.mem_cons_self) (hl l List.mem_cons_self)
  | cons l' ls ih =>
    cases ms with
    | nil =>
      rw [List.intercalate_singleton, joined] at same
      exact absurd (same ▸ List.mem_append_right l List.mem_cons_self) (hm m List.mem_cons_self)
    | cons m' ms =>
      rw [joined, joined] at same
      obtain ⟨rfl, rest⟩ := append_cons_inj (hl l List.mem_cons_self) (hm m List.mem_cons_self) same
      exact congrArg (l :: ·) (ih (List.forall_mem_cons.1 hl).2 (List.forall_mem_cons.1 hm).2
        (List.append_cancel_left rest))

end

namespace TypeId

/-! ## The segments of a type -/

/-- The modules of the type and its name. -/
def segments (t : TypeId) : List String := t.modulePath ++ [t.name]

theorem segments_inj {t u : TypeId} (same : t.segments = u.segments) : t = u := by
  obtain ⟨modules, name⟩ := List.append_inj' same rfl
  cases t
  cases u
  cases modules
  cases List.singleton_inj.1 name
  rfl

theorem toList_joined (separator : String) (t : TypeId) :
    (t.joined separator).toList = separator.toList.intercalate (t.segments.map String.toList) :=
  String.toList_intercalate

theorem not_mem_joined {separator : String} {c : Char} {t : TypeId} (apart : c ∉ separator.toList)
    (h : ∀ s ∈ t.segments, c ∉ s.toList) : c ∉ (t.joined separator).toList := by
  rw [toList_joined]
  exact not_mem_intercalate apart (List.forall_mem_map.2 h)

/-- Joined names tell types apart where the first character of the separator stands in no segment. -/
theorem joined_inj {separator : String} {c : Char} {rest : List Char} (starts : separator.toList = c :: rest)
    {t u : TypeId} (ht : ∀ s ∈ t.segments, c ∉ s.toList) (hu : ∀ s ∈ u.segments, c ∉ s.toList)
    (same : t.joined separator = u.joined separator) : t = u := by
  have lists := congrArg String.toList same
  rw [toList_joined, toList_joined, starts] at lists
  have parts (t : TypeId) : ∃ l ls, t.segments.map String.toList = l :: ls :=
    List.exists_cons_of_ne_nil (by simp [segments])
  obtain ⟨l, ls, first⟩ := parts t
  obtain ⟨m, ms, second⟩ := parts u
  rw [← List.forall_mem_map (P := (c ∉ ·)), first] at ht
  rw [← List.forall_mem_map (P := (c ∉ ·)), second] at hu
  rw [first, second] at lists
  have same := intercalate_inj ht hu lists
  rw [← first, ← second] at same
  exact segments_inj (List.map_injective_iff.2 (fun _ _ => String.toList_inj.1) same)

/-- Names with colons tell types apart where no segment holds one. -/
theorem qualifiedName_inj {t u : TypeId} (ht : ∀ s ∈ t.segments, ':' ∉ s.toList)
    (hu : ∀ s ∈ u.segments, ':' ∉ s.toList) (same : t.qualifiedName = u.qualifiedName) : t = u :=
  joined_inj (rfl : "::".toList = [':', ':']) ht hu same

/-- Names of unit files tell types apart where no segment holds a point. -/
theorem unitFile_inj {t u : TypeId} (ht : ∀ s ∈ t.segments, '.' ∉ s.toList) (hu : ∀ s ∈ u.segments, '.' ∉ s.toList)
    (same : t.unitFile = u.unitFile) : t = u := by
  have texts := congrArg String.toList same
  rw [unitFile, unitFile, String.toList_append, String.toList_append] at texts
  have dotted : t.dottedName = u.dottedName := String.toList_inj.1 (List.append_cancel_right texts)
  exact joined_inj (rfl : ".".toList = ['.']) ht hu dotted

end TypeId

/-- Whether a segment of a scope is a name, or stands for the inside of a function with a name. -/
def IsScopeSegment (segment : String) : Prop :=
  ∃ name, Text.isIdentifier name = true ∧ (segment = name ∨ segment = Accessors.functionScope name)

theorem not_mem_functionScope {name : String} {c : Char} (h : c ∉ name.toList) (brackets : c ∉ ['(', ')']) :
    c ∉ (Accessors.functionScope name).toList := by
  have ends : "()".toList = ['(', ')'] := rfl
  rw [Accessors.functionScope, String.toList_append, ends]
  exact List.not_mem_append h brackets

theorem not_mem_of_isScopeSegment {segment : String} (h : IsScopeSegment segment) {c : Char}
    (other : Text.isIdentPart c = false) (sign : c ≠ '#') (brackets : c ∉ ['(', ')']) : c ∉ segment.toList := by
  obtain ⟨name, identifier, same⟩ := h
  have inside : c ∉ name.toList := Text.not_mem_of_isIdentifier identifier other sign
  rcases same with rfl | rfl
  · exact inside
  · exact not_mem_functionScope inside brackets

namespace Accessors

/-! ## The segments of structs -/

section

variable {sources : List SourceFile}

/-- What holds of the modules of files, of all identifiers and of the scopes of functions holds of all that a struct
is known by. -/
theorem forall_segments_of_site {P : String → Prop}
    (identifier : ∀ {name}, Text.isIdentifier name = true → P name)
    (function : ∀ {name}, Text.isIdentifier name = true → P (functionScope name))
    (named : ∀ f ∈ sources, f.Named) (modules : ∀ f ∈ sources, ∀ segment ∈ f.modulePath, P segment) {s : Site}
    (site : s ∈ sites sources) : ∀ segment ∈ s.id.segments, P segment := by
  have append {scope : List String} {segment : String} (all : ∀ s ∈ scope, P s) (one : P segment) :
      ∀ s ∈ scope ++ [segment], P s :=
    List.forall_mem_append.2 ⟨all, List.forall_mem_singleton.2 one⟩
  have kept : Kept (fun name => Text.isIdentifier name = true) (fun scope _ => ∀ segment ∈ scope, P segment) :=
    ⟨fun name all => append all (identifier name), fun name all => append all (function name)⟩
  obtain ⟨scope, name⟩ := kept_at_sites kept named modules site
  exact append scope (identifier name)

/-- A character that stands in no identifier, in no scope of a function and in no module of a file stands in nothing
that a unit is named by. -/
theorem not_mem_segments_of_unit {c : Char} (other : Text.isIdentPart c = false) (sign : c ≠ '#')
    (brackets : c ∉ ['(', ')']) (named : ∀ f ∈ sources, f.Named)
    (modules : ∀ f ∈ sources, ∀ segment ∈ f.modulePath, c ∉ segment.toList) {u : GeneratedUnit}
    (mem : u ∈ (generate sources).units) : ∀ segment ∈ u.id.segments, c ∉ segment.toList := by
  have identifier {name : String} (h : Text.isIdentifier name = true) : c ∉ name.toList :=
    Text.not_mem_of_isIdentifier h other sign
  obtain ⟨s, site, own, -, -⟩ := exists_site_of_unit mem
  rw [← own]
  exact forall_segments_of_site identifier (fun h => not_mem_functionScope (identifier h) brackets) named modules site

/-! ## Types apart -/

/-- A type that is reported is that of a struct at a site. -/
theorem exists_site_of_reported {id : TypeId} (reported : id ∈ (generate sources).ids) :
    ∃ s ∈ sites sources, s.id = id := by
  have accepted (structs : structsOf sources id ≠ []) : ∃ s ∈ sites sources, s.id = id := by
    obtain ⟨s, mem⟩ := List.exists_mem_of_ne_nil _ structs
    exact ⟨s, (List.mem_filter.1 mem).1, (accepted_of_mem_structsOf mem).2⟩
  rw [← List.count_pos_iff, count_reports] at reported
  have reason : 0 < (refusedOf sources id).length ∨ 0 < ((markerDiagnostics (scan sources)).map (·.id)).count id ∨
      0 < (Property.types (properties (scan sources))).count id := by omega
  rcases reason with refused | unreadable | known
  · obtain ⟨s, mem⟩ := List.exists_mem_of_length_pos refused
    obtain ⟨site, own⟩ := List.mem_filter.1 mem
    exact ⟨s, site, (of_decide_eq_true own).2⟩
  · obtain ⟨d, made, rfl⟩ := List.mem_map.1 (List.count_pos_iff.1 unreadable)
    obtain ⟨c, kept, made⟩ := List.mem_filterMap.1 made
    obtain ⟨s, mem, -⟩ := exists_field_of_candidate kept
    split at made
    · cases made
    · cases made
      exact accepted (List.ne_nil_of_mem mem)
  · obtain ⟨p, mem, rfl⟩ := Property.mem_types.1 (List.count_pos_iff.1 known)
    exact accepted (structsOf_ne_nil mem)

/-- No two units are of one type. -/
theorem nodup_units (sources : List SourceFile) : ((generate sources).units.map (·.id)).Nodup := by
  have ids (types : List TypeId) :
      ((types.filterMap (unitOf? (scan sources))).map (·.id)).Sublist types := by
    induction types with
    | nil => exact List.Sublist.refl []
    | cons id types ih =>
      rw [List.filterMap_cons]
      cases made : unitOf? (scan sources) id with
      | none => exact ih.cons id
      | some u =>
        obtain ⟨outcome, found, left⟩ := Option.bind_eq_some_iff.1 made
        cases outcome with
        | inr d => cases left
        | inl v =>
          cases left
          rw [List.map_cons, (outcome_unit found).1]
          exact ih.cons_cons id
  rw [generate, units_eq]
  exact (ids _).nodup (Property.nodup_types _)

end

/-- Names identify types: two types that are known by names and by scopes of functions have different names, with
colons as with points and the ending of files. So no units of files that were read share a file, and no types that
are reported share a name. -/
theorem names_identify :
    (∀ t u : TypeId, (∀ s ∈ t.segments, IsScopeSegment s) → (∀ s ∈ u.segments, IsScopeSegment s) →
      (t.qualifiedName = u.qualifiedName → t = u) ∧ (t.unitFile = u.unitFile → t = u)) ∧
    ∀ sources : List SourceFile, (∀ f ∈ sources, f.Read) →
      (∀ f ∈ sources, ∀ s ∈ f.modulePath, IsScopeSegment s) →
        ((generate sources).units.map (·.id.unitFile)).Nodup ∧
        ((generate sources).units.map (·.id.qualifiedName)).Nodup ∧
        ∀ id ∈ (generate sources).ids, ∀ id' ∈ (generate sources).ids,
          id.qualifiedName = id'.qualifiedName → id = id' := by
  have apart {c : Char} (other : Text.isIdentPart c = false) (sign : c ≠ '#') (brackets : c ∉ ['(', ')']) {t : TypeId}
      (h : ∀ s ∈ t.segments, IsScopeSegment s) : ∀ s ∈ t.segments, c ∉ s.toList :=
    fun s mem => not_mem_of_isScopeSegment (h s mem) other sign brackets
  have colons {t u : TypeId} (ht : ∀ s ∈ t.segments, IsScopeSegment s) (hu : ∀ s ∈ u.segments, IsScopeSegment s) :
      t.qualifiedName = u.qualifiedName → t = u :=
    TypeId.qualifiedName_inj (apart (by decide) (by decide) (by decide) ht) (apart (by decide) (by decide) (by decide) hu)
  have points {t u : TypeId} (ht : ∀ s ∈ t.segments, IsScopeSegment s) (hu : ∀ s ∈ u.segments, IsScopeSegment s) :
      t.unitFile = u.unitFile → t = u :=
    TypeId.unitFile_inj (apart (by decide) (by decide) (by decide) ht) (apart (by decide) (by decide) (by decide) hu)
  refine ⟨fun t u ht hu => ⟨colons ht hu, points ht hu⟩, fun sources read modules => ?_⟩
  have scopes {id : TypeId} (reported : id ∈ (generate sources).ids) : ∀ s ∈ id.segments, IsScopeSegment s := by
    obtain ⟨s, site, rfl⟩ := exists_site_of_reported reported
    exact forall_segments_of_site (fun h => ⟨_, h, .inl rfl⟩) (fun h => ⟨_, h, .inr rfl⟩)
      (fun f listed => (read f listed).named) modules site
  have unit {u : GeneratedUnit} (mem : u ∈ (generate sources).units) : u.id ∈ (generate sources).ids :=
    List.mem_append_left _ (List.mem_map_of_mem mem)
  -- no two units are of one type, so it is enough that the types of units are told apart
  have distinct {f : TypeId → String} (apart : ∀ {t u : TypeId}, (∀ s ∈ t.segments, IsScopeSegment s) →
      (∀ s ∈ u.segments, IsScopeSegment s) → f t = f u → t = u) :
      ((generate sources).units.map (f ·.id)).Nodup := by
    rw [← Function.comp_def, ← List.map_map]
    refine (nodup_units sources).map_on fun t ht u hu same => ?_
    obtain ⟨v, mem, rfl⟩ := List.mem_map.1 ht
    obtain ⟨w, mem', rfl⟩ := List.mem_map.1 hu
    exact apart (scopes (unit mem)) (scopes (unit mem')) same
  exact ⟨distinct points, distinct colons, fun t ht u hu => colons (scopes ht) (scopes hu)⟩

set_option maxRecDepth 100000 in
/-- A module and a function of one name with a struct of one name in each. -/
theorem names_identify_build :
    let text : String :=
      "mod build { struct Local { #[observable_setting] _gain: f64, context: SettingsContext } }
       fn build() { struct Local { #[observable_setting] _gain: f64, context: SettingsContext } }"
    ∃ f, SourceFile.ofText? ["app"] text = some f ∧
      (generate [f]).units.map (·.id) = [⟨["app", "build"], "Local"⟩] ∧
      (generate [f]).diagnostics.map (·.id) = [⟨["app", "build()"], "Local"⟩] ∧
      ∀ u ∈ (generate [f]).units, ∀ d ∈ (generate [f]).diagnostics, u.id.qualifiedName ≠ d.id.qualifiedName := by
  intro text
  let ids (f : SourceFile) := ((generate [f]).units.map (·.id), (generate [f]).diagnostics.map (·.id))
  have found : (SourceFile.ofText? ["app"] text).map ids =
      some ([⟨["app", "build"], "Local"⟩], [⟨["app", "build()"], "Local"⟩]) := by decide +kernel
  obtain ⟨f, read, ids⟩ := Option.map_eq_some_iff.1 found
  obtain ⟨units, diagnostics⟩ := Prod.mk.inj ids
  have modules : ∀ s ∈ f.modulePath, IsScopeSegment s := by
    rw [(SourceFile.items_ofText? read).1]
    exact List.forall_mem_singleton.2 ⟨"app", by decide, .inl rfl⟩
  obtain ⟨-, -, apart⟩ := names_identify.2 [f] (List.forall_mem_singleton.2 (SourceFile.read_of_ofText? read))
    (List.forall_mem_singleton.2 modules)
  refine ⟨f, read, units, diagnostics, fun u mem d mem' same => ?_⟩
  have unit : u.id ∈ (generate [f]).units.map (·.id) := List.mem_map_of_mem mem
  have skipped : d.id ∈ (generate [f]).diagnostics.map (·.id) := List.mem_map_of_mem mem'
  have equal := apart u.id (List.mem_append_left _ unit) d.id (List.mem_append_right _ skipped) same
  rw [units, List.mem_singleton] at unit
  rw [diagnostics, List.mem_singleton] at skipped
  rw [unit, skipped] at equal
  exact absurd equal (by decide)

end Accessors

end LiveSettings
