import LiveSettings.Proofs.Accessors.Units
import Mathlib.Data.List.Dedup

/-!
# What is reported of a struct

A struct whose marked fields make it a settings type either has a unit, or a diagnostic says why not. A scan
refuses it, or it becomes a candidate for each of its fields; a marker that cannot be read is reported, and what
can be read ends in one outcome for the type. The stages report on their own: a type with several unreadable
markers is reported as often, and one of whose markers others can be read has a unit besides. A struct in code
that is not looked into, such as a block inside a function, is not reported at all.

Results:
* `perm_structs`: a struct is at a site of the scan or in code that is not looked into.
* `map_outcomes`: one outcome for each type that has a property.
* `accounted`: no struct at a site is lost.
* `count_reports`: how often a type is reported.
* `reported_once`: types that are reported once at most.
-/

namespace LiveSettings

namespace Accessors

/-! ## Every struct -/

mutual

/-- The structs inside an item that a scan does not come to. -/
def skippedStructsOf : Item → List Struct
  | .module _ items => skippedStructs items
  | .function _ body inner => skippedStructs body ++ itemStructs inner
  | .implementation _ _ members => skippedMembers members
  | .other inner => itemStructs inner
  | .struct _ | .typeName _ | .imports _ _ => []

/-- The structs inside the items of one module that a scan does not come to. -/
def skippedStructs : List Item → List Struct
  | [] => []
  | i :: is => skippedStructsOf i ++ skippedStructs is

/-- The structs inside an implementation that a scan does not come to: it looks into methods alone. -/
def skippedMembers : List Item → List Struct
  | [] => []
  | .function _ body inner :: is => skippedStructs body ++ itemStructs inner ++ skippedMembers is
  | i :: is => i.structs ++ skippedMembers is

end

mutual

theorem perm_structsOf (imports : Imports) (scope : List String) (container : Container) : (i : Item) →
    i.structs.Perm ((itemSites imports scope container i).map Site.decl ++ skippedStructsOf i)
  | .struct decl => .refl _
  | .module name items => perm_structs (Imports.ofItems items) (scope ++ [name]) container items
  | .function name body inner => by
    have inside := perm_structs (Imports.ofItems body) (scope ++ [functionScope name]) .nested body
    rw [Item.structs, itemSites, skippedStructsOf, ← List.append_assoc]
    exact inside.append_right _
  | .implementation _ _ members => perm_memberStructs scope members
  | .typeName _ | .imports _ _ | .other _ => .refl _

/-- A struct that is declared among items is at a site of theirs or in code that is not looked into. -/
theorem perm_structs (imports : Imports) (scope : List String) (container : Container) : (is : List Item) →
    (itemStructs is).Perm ((sitesIn imports scope container is).map Site.decl ++ skippedStructs is)
  | [] => .refl _
  | i :: is => by
    have here := perm_structsOf imports scope container i
    have later := perm_structs imports scope container is
    rw [itemStructs, sitesIn, skippedStructs, List.map_append]
    exact (here.append later).trans (perm_interchange _ _ _ _)

theorem perm_memberStructs (scope : List String) : (is : List Item) →
    (itemStructs is).Perm ((memberSites scope is).map Site.decl ++ skippedMembers is)
  | [] => .refl _
  | .function name body inner :: is => by
    have inside := perm_structs (Imports.ofItems body) (scope ++ [functionScope name]) .nested body
    have later := perm_memberStructs scope is
    rw [itemStructs, Item.structs, memberSites, skippedMembers, List.map_append]
    refine ((inside.append_right (itemStructs inner)).append later).trans ?_
    rw [List.append_assoc (List.map _ _)]
    exact perm_interchange _ _ _ _
  | .struct _ :: is | .typeName _ :: is | .module _ _ :: is | .implementation _ _ _ :: is
  | .imports _ _ :: is | .other _ :: is =>
    ((perm_memberStructs scope is).append_left _).trans (List.perm_append_comm_assoc _ _ _)

end

/-! ## What is found at sites -/

namespace Site

/-- The fields of the struct, with their types qualified. -/
def fields (s : Site) : List Field :=
  match (s.decl.qualified s.imports).fields with
  | .named fields => fields
  | _ => []

/-- The diagnostic of a struct that is refused. -/
def refusal? (s : Site) : Option Diagnostic :=
  if s.isOpen then
    match s.declaration with
    | .ok _ => none
    | .error e => some ⟨s.id, .config e⟩
  else none

theorem isSome_refusal? (s : Site) : s.refusal?.isSome = (s.isOpen && s.accepted?.isNone) := by
  unfold refusal? accepted?
  cases s.isOpen with
  | false => rfl
  | true => cases s.declaration <;> rfl

theorem id_of_refusal {s : Site} {d : Diagnostic} (h : s.refusal? = some d) : d.id = s.id := by
  unfold refusal? at h
  split at h
  · split at h
    · cases h
    · cases h
      rfl
  · cases h

theorem candidates_of_accepted {s : Site} (h : s.accepted?.isSome = true) :
    s.candidates = Candidate.ofFields s.id s.fields := by
  obtain ⟨⟨t, cs⟩, accepted⟩ := Option.isSome_iff_exists.1 h
  obtain ⟨-, -, -, -, fields, named, those⟩ := accepted_spec accepted
  rw [candidates, accepted, Site.fields, named]
  exact those

theorem isMarked_of_field (s : Site) {f : Field} (field : f ∈ s.fields) (marked : f.isMarked = true) :
    s.decl.isMarked = true := by
  unfold Site.fields Struct.qualified at field
  unfold Struct.isMarked
  cases named : s.decl.fields with
  | named fields =>
    simp only [named] at field
    obtain ⟨g, mem, rfl⟩ := List.mem_map.1 field
    exact List.any_eq_true.2 ⟨g, mem, marked⟩
  | unnamed fields | unit =>
    simp only [named] at field
    cases field

end Site

/-- The diagnostics of a scan are those of the structs that are refused. -/
theorem diagnostics_scan (sources : List SourceFile) :
    (scan sources).filterMap Finding.diagnostic? = (sites sources).filterMap Site.refusal? := by
  have each (s : Site) : (s.findings.flatMap fun f => f.diagnostic?.toList) = s.refusal?.toList := by
    unfold Site.refusal?
    cases opened : s.isOpen with
    | false =>
      rcases Site.findings_closed opened with none | derived
      · rw [none]; rfl
      · rw [derived]; rfl
    | true =>
      obtain ⟨reports, found⟩ := Site.findings_open opened
      rw [found]
      cases s.declaration <;> rfl
  rw [List.filterMap_eq_flatMap_toList, flatMap_scan (fun _ _ => rfl), List.filterMap_eq_flatMap_toList]
  exact congrArg (sites sources).flatMap (funext each)

section

variable {sources : List SourceFile} {id : TypeId}

theorem accepted_of_mem_structsOf {s : Site} (h : s ∈ structsOf sources id) :
    s.accepted?.isSome = true ∧ s.id = id :=
  of_decide_eq_true (List.mem_filter.1 h).2

/-- A candidate cannot be read where the marker of its field cannot. -/
theorem resolve_eq_error (f : Field) (e : Marker.MarkerError) :
    (f.candidate id).resolve = .error e ↔ Marker.find f.attrs = .error e := by
  have attrs : Marker.find (f.candidate id).attrs = Marker.find f.attrs := find_plainAttrs f
  rw [Candidate.resolve, attrs]
  cases Marker.find f.attrs with
  | error e' => simp [bind, Except.bind]
  | ok marker =>
    constructor
    · intro unreadable
      cases marker <;> cases unreadable
    · intro found
      cases found

/-- A candidate that is kept is one of a field of a struct of its type. -/
theorem exists_field_of_candidate {c : Candidate} (h : c ∈ candidates (scan sources)) :
    ∃ s ∈ structsOf sources c.enclosing, ∃ f ∈ s.fields, c = f.candidate c.enclosing := by
  have own : c ∈ Candidate.ofType c.enclosing ((scan sources).flatMap Finding.candidates) :=
    List.mem_filter.2 ⟨Candidate.mem_dedup.1 h, decide_eq_true rfl⟩
  rw [ofType_candidates] at own
  obtain ⟨s, mem, own⟩ := List.mem_flatMap.1 own
  obtain ⟨accepted, same⟩ := accepted_of_mem_structsOf mem
  rw [Site.candidates_of_accepted accepted, same] at own
  obtain ⟨f, field, made⟩ := List.mem_map.1 own
  exact ⟨s, mem, f, List.mem_of_mem_filter field, made.symm⟩

/-- A type with a property has a struct that is accepted. -/
theorem structsOf_ne_nil {p : Property} (h : p ∈ properties (scan sources)) :
    structsOf sources p.enclosing ≠ [] := by
  obtain ⟨c, kept, its⟩ := List.mem_flatMap.1 h
  obtain ⟨s, mem, -⟩ := exists_field_of_candidate kept
  rw [Candidate.enclosing_of_mem_resolved its]
  exact List.ne_nil_of_mem mem

/-- A type with a property has a target. -/
theorem isSome_findTarget? {p : Property} (h : p ∈ properties (scan sources)) :
    (findTarget? (scan sources) p.enclosing).isSome = true := by
  rw [findTarget?_scan, Option.isSome_map]
  cases structs : structsOf sources p.enclosing with
  | nil => exact absurd structs (structsOf_ne_nil h)
  | cons s rest =>
    have first : s ∈ structsOf sources p.enclosing := structs ▸ List.mem_cons_self
    exact (accepted_of_mem_structsOf first).1

end

/-! ## Reports -/

/-- The type that an outcome is reported for. -/
def reportedId : GeneratedUnit ⊕ Diagnostic → TypeId := Sum.elim (·.id) (·.id)

theorem reportedId_outcome {findings : List Finding} {id : TypeId} {ps : List Property}
    {o : GeneratedUnit ⊕ Diagnostic} (h : outcome findings id ps = some o) : reportedId o = id := by
  obtain ⟨t, -, made⟩ := Option.map_eq_some_iff.1 h
  split at made <;> exact made ▸ rfl

/-- There is one outcome for each type that has a property, in the order of the first properties. -/
theorem map_outcomes (sources : List SourceFile) :
    (outcomes (scan sources)).map reportedId = Property.types (properties (scan sources)) := by
  rw [outcomes_eq, List.map_filterMap]
  refine (List.filterMap_congr fun id known => ?_).trans List.filterMap_some
  obtain ⟨p, mem, rfl⟩ := Property.mem_types.1 known
  obtain ⟨t, found⟩ := Option.isSome_iff_exists.1 (isSome_findTarget? mem)
  cases made : outcome (scan sources) p.enclosing (Property.ofType p.enclosing (properties (scan sources))) with
  | none =>
    rw [outcome, found] at made
    cases made
  | some o => rw [Option.map_some, reportedId_outcome made]

/-- The types of the units and of the diagnostics. -/
def Generation.ids (g : Generation) : List TypeId := g.units.map (·.id) ++ g.diagnostics.map (·.id)

theorem count_parts (id : TypeId) (os : List (GeneratedUnit ⊕ Diagnostic)) :
    ((os.filterMap Sum.getLeft?).map (·.id)).count id + ((os.filterMap Sum.getRight?).map (·.id)).count id =
      (os.map reportedId).count id := by
  induction os with
  | nil => rfl
  | cons o os ih =>
    cases o with
    | inl u =>
      simp only [List.filterMap_cons, Sum.getLeft?, Sum.getRight?, List.map_cons, List.count_cons, reportedId,
        Sum.elim_inl] at ih ⊢
      omega
    | inr d =>
      simp only [List.filterMap_cons, Sum.getLeft?, Sum.getRight?, List.map_cons, List.count_cons, reportedId,
        Sum.elim_inr] at ih ⊢
      omega

/-- The structs of an identity that are refused. -/
def refusedOf (sources : List SourceFile) (id : TypeId) : List Site :=
  (sites sources).filter fun s => s.refusal?.isSome ∧ s.id = id

theorem count_refusals (id : TypeId) (ss : List Site) :
    ((ss.filterMap Site.refusal?).map (·.id)).count id =
      (ss.filter fun s => s.refusal?.isSome ∧ s.id = id).length := by
  induction ss with
  | nil => rfl
  | cons s ss ih =>
    cases refused : s.refusal? with
    | none =>
      rw [List.filterMap_cons_none refused, List.filter_cons_of_neg (by simp [refused])]
      exact ih
    | some d =>
      rw [List.filterMap_cons_some refused, List.map_cons, List.count_cons, Site.id_of_refusal refused, ih]
      by_cases same : s.id = id
      · rw [List.filter_cons_of_pos (by simp [refused, same]), List.length_cons, if_pos (by simp [same])]
      · rw [List.filter_cons_of_neg (by simp [same]), if_neg (by simp [same])]
        rfl

/-- A type is reported for each of its structs that is refused, for each candidate of it whose marker cannot be
read, and once if it has a property. -/
theorem count_reports (sources : List SourceFile) (id : TypeId) :
    (generate sources).ids.count id = (refusedOf sources id).length +
      ((markerDiagnostics (scan sources)).map (·.id)).count id +
      (Property.types (properties (scan sources))).count id := by
  have parts := count_parts id (outcomes (scan sources))
  have refusals := count_refusals id (sites sources)
  rw [map_outcomes] at parts
  simp only [Generation.ids, generate, generateFrom, diagnostics_scan, List.map_append, List.count_append,
    refusals, refusedOf]
  omega

section

variable {sources : List SourceFile} {id : TypeId}

theorem exists_report (h : id ∈ (generate sources).ids) :
    (∃ u ∈ (generate sources).units, u.id = id) ∨ ∃ d ∈ (generate sources).diagnostics, d.id = id := by
  rcases List.mem_append.1 h with unit | diagnostic
  · exact .inl (List.mem_map.1 unit)
  · exact .inr (List.mem_map.1 diagnostic)

/-- A type with a property is reported. -/
theorem reported_of_property {p : Property} (h : p ∈ properties (scan sources)) :
    p.enclosing ∈ (generate sources).ids := by
  have known : p.enclosing ∈ Property.types (properties (scan sources)) := Property.mem_types.2 ⟨p, h, rfl⟩
  rw [← List.count_pos_iff] at known ⊢
  rw [count_reports]
  omega

/-- A type with a candidate whose marker cannot be read is reported. -/
theorem reported_of_unreadable {c : Candidate} {e : Marker.MarkerError} (h : c ∈ candidates (scan sources))
    (unreadable : c.resolve = .error e) : c.enclosing ∈ (generate sources).ids := by
  have found : ⟨c.enclosing, .marker e⟩ ∈ markerDiagnostics (scan sources) :=
    List.mem_filterMap.2 ⟨c, h, by rw [unreadable]⟩
  have known : c.enclosing ∈ (markerDiagnostics (scan sources)).map (·.id) := List.mem_map_of_mem found
  rw [← List.count_pos_iff] at known ⊢
  rw [count_reports]
  omega

/-- A struct that is refused is reported. -/
theorem reported_of_refused {s : Site} (h : s ∈ sites sources) (refused : s.refusal?.isSome = true) :
    s.id ∈ (generate sources).ids := by
  have known : s ∈ refusedOf sources s.id := List.mem_filter.2 ⟨h, decide_eq_true ⟨refused, rfl⟩⟩
  have some := List.length_pos_of_mem known
  rw [← List.count_pos_iff, count_reports]
  omega

end

section

variable {sources : List SourceFile}

/-- The candidate of a marked field of an accepted struct is kept. -/
theorem mem_candidates {s : Site} (mem : s ∈ sites sources) (accepted : s.accepted?.isSome = true) {f : Field}
    (field : f ∈ s.fields) (marked : f.isMarked = true) : f.candidate s.id ∈ candidates (scan sources) := by
  have own : f.candidate s.id ∈ Candidate.ofType s.id ((scan sources).flatMap Finding.candidates) := by
    rw [ofType_candidates]
    refine List.mem_flatMap.2 ⟨s, List.mem_filter.2 ⟨mem, decide_eq_true ⟨accepted, rfl⟩⟩, ?_⟩
    rw [Site.candidates_of_accepted accepted]
    exact List.mem_map_of_mem (List.mem_filter.2 ⟨field, plainAttrs_of_isMarked marked⟩)
  exact Candidate.mem_dedup.2 (List.mem_of_mem_filter own)

/-- A marked field of a type that describes a value is reported, if its candidate is kept: its marker cannot be
read, or it gives a property. -/
theorem reported_of_kept {g : Field} {id : TypeId} (kept : g.candidate id ∈ candidates (scan sources))
    (marked : g.isMarked = true) (typed : (Descriptor.ofTy? g.ty).isSome = true) :
    id ∈ (generate sources).ids := by
  have readable := find_of_isMarked marked
  cases read : Marker.find g.attrs with
  | error e => exact reported_of_unreadable kept ((resolve_eq_error g e).2 read)
  | ok marker =>
    cases marker with
    | none => exact absurd read readable
    | some m =>
      obtain ⟨d, described⟩ := Option.isSome_iff_exists.1 typed
      have property : (g.candidate id).resolved ≠ [] := by
        simp [resolved_candidate, fieldProperty?, read, described]
      obtain ⟨p, its⟩ := List.exists_mem_of_ne_nil _ property
      have reported := reported_of_property (List.mem_flatMap.2 ⟨_, kept, its⟩)
      rwa [Candidate.enclosing_of_mem_resolved its] at reported

/-- A struct at a site, with a marked field of a type that describes a value, is reported. -/
theorem reported_of_site {s : Site} (mem : s ∈ sites sources)
    (underived : derives s.decl.attrs deriveName = false) {f : Field} (field : f ∈ s.fields)
    (marked : f.isMarked = true) (typed : (Descriptor.ofTy? f.ty).isSome = true) :
    s.id ∈ (generate sources).ids := by
  have opened : s.isOpen = true := by
    rw [Site.isOpen, s.isMarked_of_field field marked, underived]
    rfl
  cases accepted : s.accepted? with
  | none => exact reported_of_refused mem (by rw [Site.isSome_refusal?, opened, accepted]; rfl)
  | some declared =>
    have accepted : s.accepted?.isSome = true := by rw [accepted]; rfl
    exact reported_of_kept (mem_candidates mem accepted field marked) marked typed

end

/-- Each struct of a file is at a site of the scan, or in code that is not looked into. One at a site, that does not
derive its accessors and has a marked field of a type that describes a value, has a unit, or a diagnostic says
why not. -/
theorem accounted {sources : List SourceFile} {file : SourceFile} (listed : file ∈ sources) :
    (itemStructs file.items).Perm ((sites [file]).map Site.decl ++ skippedStructs file.items) ∧
      ∀ s ∈ sites [file], derives s.decl.attrs deriveName = false →
        (∃ f ∈ s.fields, f.isMarked = true ∧ (Descriptor.ofTy? f.ty).isSome = true) →
        (∃ u ∈ (generate sources).units, u.id = s.id) ∨ ∃ d ∈ (generate sources).diagnostics, d.id = s.id := by
  have own : sites [file] = sitesIn (Imports.ofItems file.items) file.modulePath .module file.items :=
    List.append_nil _
  rw [own]
  refine ⟨perm_structs _ _ _ file.items, ?_⟩
  rintro s mem underived ⟨f, field, marked, typed⟩
  have visited : s ∈ sites sources := List.mem_flatMap.2 ⟨file, listed, mem⟩
  exact exists_report (reported_of_site visited underived field marked typed)

/-- A struct in a method. -/
theorem accounted_inMethod :
    let flag : Field := ⟨[⟨⟨false, ["observable_setting"]⟩, .none⟩], "_flag", .path false [.mk "bool" .none]⟩
    let context : Field := ⟨[], "context", .path false [.mk "SettingsContext" .none]⟩
    let inner : Struct := ⟨[], "Inner", ⟨[], false, []⟩, .named [flag, context]⟩
    let file : SourceFile := ⟨["app"], [.implementation .inherent (.path false [.mk "Audio" .none])
      [.function "helper" [.struct inner] []]]⟩
    let site : Site := ⟨Imports.ofItems [.struct inner], ["app", "helper()"], .nested, inner⟩
    site ∈ sites [file] ∧ derives inner.attrs deriveName = false ∧
      (flag ∈ site.fields ∧ flag.isMarked = true ∧ (Descriptor.ofTy? flag.ty).isSome = true) ∧
      ((∃ u ∈ (generate [file]).units, u.id = ⟨["app", "helper()"], "Inner"⟩) ∨
        ∃ d ∈ (generate [file]).diagnostics, d.id = ⟨["app", "helper()"], "Inner"⟩) := by
  intro flag context inner file site
  have visited : site ∈ sites [file] := List.mem_singleton.2 rfl
  have underived : derives inner.attrs deriveName = false := by decide
  have field : flag ∈ site.fields ∧ flag.isMarked = true ∧ (Descriptor.ofTy? flag.ty).isSome = true :=
    ⟨List.mem_cons_self, by decide, by decide⟩
  exact ⟨visited, underived, field,
    (accounted (List.mem_singleton.2 rfl)).2 site visited underived ⟨flag, field⟩⟩

/-- A struct in a block inside a function, and one in a default method or an initial value, are lost. -/
theorem unaccounted_inBlock :
    let volume : Field := ⟨[⟨⟨false, ["observable_setting"]⟩, .none⟩], "_volume", .path false [.mk "f64" .none]⟩
    let context : Field := ⟨[], "context", .path false [.mk "SettingsContext" .none]⟩
    let inner : Struct := ⟨[], "Local", ⟨[], false, []⟩, .named [volume, context]⟩
    let inBlock : SourceFile := ⟨["app"], [.function "build" [] [.struct inner]]⟩
    let inOther : SourceFile := ⟨["app"], [.other [.struct inner]]⟩
    (volume.isMarked = true ∧ (Descriptor.ofTy? volume.ty).isSome = true ∧
        derives inner.attrs deriveName = false) ∧
      ∀ file ∈ [inBlock, inOther], (itemStructs file.items).map (·.name) = ["Local"] ∧
        (generate [file]).ids = [] := by
  decide +kernel

/-! ## Types that are reported once -/

/-- Whether all structs of an identity are accepted, and the markers of all their fields can be read, or it has one
struct alone, which is refused. -/
def ReadsOnce (sources : List SourceFile) (id : TypeId) : Prop :=
  (refusedOf sources id = [] ∧
      ∀ s ∈ structsOf sources id, ∀ f ∈ s.fields, (Marker.find f.attrs).isOk = true) ∨
    (refusedOf sources id).length = 1 ∧ structsOf sources id = []

section

variable {sources : List SourceFile} {id : TypeId}

theorem count_markerDiagnostics_of_readable
    (readable : ∀ s ∈ structsOf sources id, ∀ f ∈ s.fields, (Marker.find f.attrs).isOk = true) :
    ((markerDiagnostics (scan sources)).map (·.id)).count id = 0 := by
  refine List.count_eq_zero.2 fun mem => ?_
  obtain ⟨d, found, rfl⟩ := List.mem_map.1 mem
  obtain ⟨c, kept, made⟩ := List.mem_filterMap.1 found
  cases unreadable : c.resolve with
  | ok ps =>
    rw [unreadable] at made
    cases made
  | error e =>
    rw [unreadable] at made
    cases made
    obtain ⟨s, its, f, field, made⟩ := exists_field_of_candidate kept
    have read := readable s its f field
    rw [made, resolve_eq_error] at unreadable
    rw [unreadable] at read
    cases read

theorem count_types_of_structs (none : structsOf sources id = []) :
    (Property.types (properties (scan sources))).count id = 0 := by
  refine List.count_eq_zero.2 fun known => ?_
  obtain ⟨p, mem, rfl⟩ := Property.mem_types.1 known
  exact structsOf_ne_nil mem none

end

/-- A type that is read, or that has one struct alone, which is refused, is reported once at most. -/
theorem count_ids_of_readsOnce {sources : List SourceFile} {id : TypeId} (reads : ReadsOnce sources id) :
    (generate sources).ids.count id ≤ 1 := by
  rw [count_reports]
  rcases reads with ⟨accepted, readable⟩ | ⟨refused, others⟩
  · have once := List.nodup_iff_count.1 (Property.nodup_types (properties (scan sources))) id
    rw [accepted, count_markerDiagnostics_of_readable readable, List.length_nil]
    omega
  · have readable : ∀ s ∈ structsOf sources id, ∀ f ∈ s.fields, (Marker.find f.attrs).isOk = true := by
      simp [others]
    refine Nat.le_of_eq ?_
    rw [refused, count_markerDiagnostics_of_readable readable, count_types_of_structs others]

/-- A type that is read, or that has one struct alone, which is refused, has one diagnostic at most, and no unit
then. If all types are such, there are as many diagnostics as types that they name. -/
theorem reported_once (sources : List SourceFile) :
    (∀ id, ReadsOnce sources id →
      ((generate sources).diagnostics.map (·.id)).count id ≤ 1 ∧
        (id ∈ (generate sources).diagnostics.map (·.id) → id ∉ (generate sources).units.map (·.id))) ∧
      ((∀ id, ReadsOnce sources id) →
        (generate sources).diagnostics.length =
          ((generate sources).diagnostics.map (·.id)).dedup.length) := by
  have each (id : TypeId) (reads : ReadsOnce sources id) :
      ((generate sources).diagnostics.map (·.id)).count id ≤ 1 ∧
        (id ∈ (generate sources).diagnostics.map (·.id) → id ∉ (generate sources).units.map (·.id)) := by
    have once := count_ids_of_readsOnce reads
    rw [Generation.ids, List.count_append] at once
    refine ⟨by omega, fun diagnostic unit => ?_⟩
    rw [← List.count_pos_iff] at diagnostic unit
    omega
  refine ⟨each, fun all => ?_⟩
  have nodup : ((generate sources).diagnostics.map (·.id)).Nodup :=
    List.nodup_iff_count.2 fun id => (each id (all id)).1
  rw [nodup.dedup, List.length_map]

/-- A file that is listed twice, with a struct of which a unit is made and one that is skipped. -/
theorem reported_once_repeated :
    let volume : Field := ⟨[⟨⟨false, ["observable_setting"]⟩, .none⟩], "_volume", .path false [.mk "f64" .none]⟩
    let context : Field := ⟨[], "context", .path false [.mk "SettingsContext" .none]⟩
    let audio : Struct := ⟨[], "Audio", ⟨[], false, []⟩, .named [volume, context]⟩
    let silent : Struct := ⟨[], "Silent", ⟨[], false, []⟩, .named [volume]⟩
    let file : SourceFile := ⟨["app"], [.struct audio, .struct silent]⟩
    let skipped : TypeId := ⟨["app"], "Silent"⟩
    ReadsOnce [file, file] skipped ∧
      (generate [file, file]).ids = [⟨["app"], "Audio"⟩, ⟨["app"], "Silent"⟩] ∧
      ((generate [file, file]).diagnostics.map (·.id)).count skipped ≤ 1 ∧
      (skipped ∈ (generate [file, file]).diagnostics.map (·.id) →
        skipped ∉ (generate [file, file]).units.map (·.id)) := by
  intro volume context audio silent file skipped
  have reads : ReadsOnce [file, file] skipped := by
    refine .inl ⟨List.eq_nil_of_length_eq_zero ?_, ?_⟩ <;> decide +kernel
  exact ⟨reads, by decide +kernel, (reported_once [file, file]).1 skipped reads⟩

/-- A struct of whose markers one can be read and two cannot: it has a unit and two diagnostics. -/
theorem reported_again :
    let context : Field := ⟨[], "context", .path false [.mk "SettingsContext" .none]⟩
    let field (name : String) (args : AttrArgs) : Field :=
      ⟨[⟨⟨false, ["observable_setting"]⟩, args⟩], name, .path false [.mk "f64" .none]⟩
    let one : AttrArgs := .list .paren [.literal "1"]
    let audio : Struct :=
      ⟨[], "Audio", ⟨[], false, []⟩, .named [field "_volume" .none, field "_gain" one, field "_pan" one, context]⟩
    let file : SourceFile := ⟨["app"], [.struct audio]⟩
    (generate [file]).units.map (·.id) = [⟨["app"], "Audio"⟩] ∧
      (generate [file]).diagnostics.map (·.id) = [⟨["app"], "Audio"⟩, ⟨["app"], "Audio"⟩] := by
  decide +kernel

end Accessors

end LiveSettings
