import LiveSettings.Proofs.Accessors.Grouping
import LiveSettings.Proofs.Accessors.Sites
import LiveSettings.Proofs.Target.Declaration
import Mathlib.Data.List.Basic

/-!
# What a unit describes

A generation collects targets, candidates and implementations apart from each other and joins them again by
identity. The first struct of an identity gives a unit its name and its generic parameters; the properties come
of the fields of all structs of that identity, of those that are declared alike once. Where these structs have the
same fields, as when a file is listed twice, that is one struct. Where they have not, as under opposite conditions,
their fields are mixed.

Results:
* `Accessors.emit_ok`, `Accessors.exists_emit`: what is emitted for a target and properties, and when it is.
* `Accessors.resolved_candidate`: the property of a field.
* `Accessors.unit_of_structs`: the structs that a unit describes.
* `Accessors.unit_of_structs_mixed`: a unit that mixes the fields of two structs.
-/

namespace LiveSettings

namespace Accessors

/-! ## Emitting -/

/-- Whether the rows and the accessors are those of properties, in order. -/
structure Emitted.Describes (e : Emitted) (ps : List Property) : Prop where
  rows : e.rows = ps.map rowOf
  groups : ps.map groupOf = e.groups.map .ok

theorem describes_of_allOf {ps : List Property} {properties : List (Row × Group)}
    (h : (ps.map fun p => (groupOf p).map fun g => (rowOf p, g)) = properties.map .ok) :
    properties.map (·.1) = ps.map rowOf ∧ ps.map groupOf = (properties.map (·.2)).map .ok := by
  induction ps generalizing properties with
  | nil =>
    rw [List.map_eq_nil_iff.1 h.symm]
    exact ⟨rfl, rfl⟩
  | cons p ps ih =>
    cases properties with
    | nil => cases h
    | cons row properties =>
      obtain ⟨first, rest⟩ := List.cons.inj h
      obtain ⟨rows, groups⟩ := ih rest
      have first : (groupOf p).map (fun g => (rowOf p, g)) = .ok row := first
      cases written : groupOf p with
      | error e =>
        rw [written] at first
        cases first
      | ok g =>
        rw [written] at first
        obtain rfl : (rowOf p, g) = row := Except.ok.inj first
        simp only [List.map_cons, rows, groups, written, and_self]

/-- What is emitted for a target and properties. -/
theorem emit_ok {t : Target} {ps : List Property} {e : Emitted} (h : emit t ps = .ok (some e)) :
    t.container = .module ∧ t.contextField = some e.contextField ∧ e.name = t.name ∧
      e.generics = t.generics ∧ e.notifies = !t.declares notifyTrait ∧ e.Describes ps := by
  unfold emit at h
  split at h
  · cases h
  · rename_i beside
    have container : t.container = .module := by
      cases standing : t.container with
      | module => rfl
      | nested => exact absurd standing beside
    split at h
    · cases h
    · rename_i contextField context
      split at h
      · cases h
      · rename_i properties all
        cases h
        obtain ⟨rows, groups⟩ := describes_of_allOf (Target.allOf_eq_ok.1 all)
        exact ⟨container, context, rfl, rfl, rfl, rows, groups⟩

/-- What is emitted for a target follows from its name, its parameters, its standing, its context and whether it
notifies. -/
theorem emit_congr {t t' : Target} (ps : List Property) (name : t'.name = t.name)
    (generics : t'.generics = t.generics) (container : t'.container = t.container)
    (context : t'.contextField = t.contextField) (notifies : t'.declares notifyTrait = t.declares notifyTrait) :
    emit t' ps = emit t ps := by
  unfold emit
  rw [name, generics, container, context, notifies]

theorem exists_of_isSome {ε α : Type} {r : Except ε α} (h : r.toOption.isSome = true) : ∃ a, r = .ok a := by
  cases r with
  | error e => cases h
  | ok a => exact ⟨a, rfl⟩

/-- The names that a property and its accessors get can be used. -/
structure Usable (p : Property) : Prop where
  name : p.name ≠ ""
  getter : (Naming.getterName (Naming.accessorName p.field)).toOption.isSome = true
  setter : (Naming.setterName (Naming.accessorName p.field)).toOption.isSome = true
  event : (Naming.eventName (Naming.accessorName p.field)).toOption.isSome = true

instance (p : Property) : Decidable (Usable p) :=
  decidable_of_iff (p.name ≠ "" ∧ (Naming.getterName (Naming.accessorName p.field)).toOption.isSome = true ∧
      (Naming.setterName (Naming.accessorName p.field)).toOption.isSome = true ∧
      (Naming.eventName (Naming.accessorName p.field)).toOption.isSome = true)
    ⟨fun h => ⟨h.1, h.2.1, h.2.2.1, h.2.2.2⟩, fun h => ⟨h.name, h.getter, h.setter, h.event⟩⟩

theorem exists_groupOf {p : Property} (usable : Usable p) :
    ∃ g, groupOf p = .ok g ∧ g.type = p.type.declared := by
  obtain ⟨name, getter, setter, event⟩ := usable
  obtain ⟨getterName, got⟩ := exists_of_isSome getter
  obtain ⟨setterName, set⟩ := exists_of_isSome setter
  obtain ⟨eventName, raised⟩ := exists_of_isSome event
  rw [groupOf, if_neg name]
  simp only [got, set, raised]
  exact ⟨_, rfl, rfl⟩

/-- The rows and the accessors belong to the properties, in order. -/
theorem forall₂_of_describes {ps : List Property} (usable : ∀ p ∈ ps, Usable p) {properties : List (Row × Group)}
    (rows : properties.map (·.1) = ps.map rowOf) (groups : ps.map groupOf = (properties.map (·.2)).map .ok) :
    List.Forall₂ (fun p q => q.1 = rowOf p ∧ groupOf p = .ok q.2 ∧ q.2.type = p.type.declared) ps properties := by
  induction ps generalizing properties with
  | nil =>
    obtain rfl := List.map_eq_nil_iff.1 rows
    exact .nil
  | cons p ps ih =>
    obtain - | ⟨q, properties⟩ := properties
    · cases rows
    obtain ⟨first, later⟩ := List.forall_mem_cons.1 usable
    obtain ⟨row, rows⟩ := List.cons.inj rows
    obtain ⟨group, groups⟩ := List.cons.inj groups
    obtain ⟨g, made, type⟩ := exists_groupOf first
    have same : q.2 = g := Except.ok.inj (group.symm.trans made)
    exact .cons ⟨row, group, same ▸ type⟩ (ih later rows groups)

/-- For usable names and a context, something is written for a type beside which items can stand. -/
theorem exists_emit {t : Target} {ps : List Property} (container : t.container = .module)
    (context : t.contextField.isSome = true) (usable : ∀ p ∈ ps, Usable p) : ∃ e, emit t ps = .ok (some e) := by
  have all : ∃ properties : List (Row × Group),
      (ps.map fun p => (groupOf p).map fun g => (rowOf p, g)) = properties.map .ok := by
    induction ps with
    | nil => exact ⟨[], rfl⟩
    | cons p ps ih =>
      obtain ⟨first, later⟩ := List.forall_mem_cons.1 usable
      obtain ⟨g, made, -⟩ := exists_groupOf first
      obtain ⟨properties, rest⟩ := ih later
      have row : ((groupOf p).map fun g => (rowOf p, g)) = .ok (rowOf p, g) := by simp only [made, Except.map]
      exact ⟨(rowOf p, g) :: properties, congrArg₂ List.cons row rest⟩
  obtain ⟨contextField, owner⟩ := Option.isSome_iff_exists.1 context
  obtain ⟨properties, each⟩ := all
  have written := Target.allOf_eq_ok.2 each
  refine ⟨⟨t.name, t.generics, contextField, !t.declares notifyTrait, properties⟩, ?_⟩
  rw [emit, if_neg (by rw [container]; decide), owner]
  simp only [written]

/-! ## The properties of fields -/

/-- The property of a field with one marker that can be read and a type that describes a value. -/
def fieldProperty? (id : TypeId) (f : Field) : Option Property :=
  match Marker.find f.attrs with
  | .ok (some s) => (Descriptor.ofTy? f.ty).map fun d =>
    { field := f.name
      type := d
      enclosing := id
      documentation := Marker.documentation? f.attrs
      overrideKey := s.key
      raiseEvent := s.raiseEvent
      strategyOverride := s.strategy }
  | _ => none

/-- An attribute of another name is no configuration. -/
theorem isName_plain {a : Attr} {name : String} (named : a.path.isName name = true)
    (other : name ≠ Config.attributeName) : a.path.names ≠ [Config.attributeName] := by
  intro same
  simp only [NamePath.isName, same, Bool.and_eq_true, beq_iff_eq, List.cons.injEq, and_true] at named
  exact other named.2.symm

/-- The configuration of a field is no marker. -/
theorem find_plainAttrs (f : Field) : Marker.find f.plainAttrs = Marker.find f.attrs := by
  have same : f.plainAttrs.filter (·.path.isName Marker.markerName) =
      f.attrs.filter (·.path.isName Marker.markerName) := by
    unfold Field.plainAttrs
    rw [List.filter_filter]
    refine List.filter_congr fun a _ => ?_
    cases named : a.path.isName Marker.markerName with
    | false => rfl
    | true =>
      have plain := isName_plain named (by decide)
      simp only [Bool.true_and, decide_eq_true plain]
  unfold Marker.find
  rw [same]

theorem find_of_isMarked {f : Field} (marked : f.isMarked = true) : Marker.find f.attrs ≠ .ok none := by
  intro none
  obtain ⟨a, mem, named⟩ := List.any_eq_true.1 marked
  rw [(Marker.find_eq_none_iff f.attrs).1 none a mem] at named
  cases named

/-- A field with a marker is a candidate. -/
theorem plainAttrs_of_isMarked {f : Field} (marked : f.isMarked = true) : (!f.plainAttrs.isEmpty) = true := by
  have readable := find_of_isMarked marked
  rw [← find_plainAttrs] at readable
  cases attrs : f.plainAttrs with
  | nil =>
    rw [attrs] at readable
    exact absurd rfl readable
  | cons a rest => rfl

/-- The configuration of a field is no documentation. -/
theorem documentation?_plainAttrs (f : Field) :
    Marker.documentation? f.plainAttrs = Marker.documentation? f.attrs := by
  have same : f.plainAttrs.filterMap Marker.docText? = f.attrs.filterMap Marker.docText? := by
    unfold Field.plainAttrs
    induction f.attrs with
    | nil => rfl
    | cons a attrs ih =>
      cases named : a.path.isName "doc" with
      | false =>
        have silent : Marker.docText? a = none := by simp [Marker.docText?, named]
        rw [List.filter_cons]
        split
        · rw [List.filterMap_cons_none silent, List.filterMap_cons_none silent, ih]
        · rw [List.filterMap_cons_none silent, ih]
      | true =>
        have plain := isName_plain named (by decide)
        rw [List.filter_cons, if_pos (decide_eq_true plain), List.filterMap_cons, ih, List.filterMap_cons]
  unfold Marker.documentation?
  rw [same]

theorem resolved_candidate (id : TypeId) (f : Field) :
    (f.candidate id).resolved = (fieldProperty? id f).toList := by
  have marker := find_plainAttrs f
  have documentation := documentation?_plainAttrs f
  unfold Candidate.resolved Candidate.resolve fieldProperty?
  simp only [Field.candidate, Candidate.single, marker]
  cases Marker.find f.attrs with
  | error e => rfl
  | ok found =>
    cases found with
    | none => rfl
    | some s =>
      simp only [bind, Except.bind, pure, Except.pure, Except.toOption, Option.getD_some, Candidate.properties,
        List.zipIdx_cons, List.zipIdx_nil, documentation, List.filterMap_cons, List.filterMap_nil]
      cases Descriptor.ofTy? f.ty <;> rfl

/-! ## The structs of one identity -/

namespace Site

/-- The candidates that are found at a site. -/
def candidates (s : Site) : List Candidate := (s.accepted?.map (·.2)).getD []

/-- The properties of the marked fields of the struct, in order. -/
def fieldProperties (s : Site) : List Property :=
  match (s.decl.qualified s.imports).fields with
  | .named fields => fields.filterMap (fieldProperty? s.id)
  | _ => []

/-- The properties of the struct, of fields that are declared alike those of the first one alone. -/
def properties (s : Site) : List Property := (Candidate.dedup s.candidates).flatMap Candidate.resolved

/-- What is accepted at a site has the identity, the name and the parameters of its struct; its candidates are
those of the fields. -/
theorem accepted_spec {s : Site} {t : Target} {cs : List Candidate} (h : s.accepted? = some (t, cs)) :
    t.id = s.id ∧ t.name = s.decl.name ∧ t.generics = s.decl.generics ∧ t.container = s.container ∧
      ∃ fields, (s.decl.qualified s.imports).fields = .named fields ∧
        cs = Candidate.ofFields s.id fields := by
  obtain ⟨id, name, generics, container, fields, named, those⟩ :=
    Target.ofDeclaration_ok (accepted?_eq_some_iff.1 h).2
  rw [Struct.name_qualified] at id name those
  rw [Struct.generics_qualified] at generics
  exact ⟨id, name, generics, container, fields, named, those⟩

theorem enclosing_of_mem_candidates {s : Site} {c : Candidate} (h : c ∈ s.candidates) :
    c.enclosing = s.id := by
  unfold candidates at h
  cases accepted : s.accepted? with
  | none =>
    rw [accepted] at h
    cases h
  | some declared =>
    obtain ⟨t, cs⟩ := declared
    obtain ⟨-, -, -, -, fields, -, rfl⟩ := accepted_spec accepted
    rw [accepted] at h
    obtain ⟨f, -, rfl⟩ := List.mem_map.1 h
    rfl

end Site

/-- The structs of an identity that accessors can be written for, in the order of the scan. -/
def structsOf (sources : List SourceFile) (id : TypeId) : List Site :=
  (sites sources).filter fun s => s.accepted?.isSome ∧ s.id = id

/-- The candidates that are found are those of the sites. -/
theorem flatMap_candidates (sources : List SourceFile) :
    (scan sources).flatMap Finding.candidates = (sites sources).flatMap Site.candidates := by
  have each : (fun s : Site => s.findings.flatMap Finding.candidates) = Site.candidates :=
    funext fun s => s.findings_targets (·.2)
  rw [flatMap_scan (fun _ _ => rfl), each]

/-- The candidates of an identity are those of its structs. -/
theorem ofType_candidates (sources : List SourceFile) (id : TypeId) :
    Candidate.ofType id ((scan sources).flatMap Finding.candidates) =
      (structsOf sources id).flatMap Site.candidates := by
  rw [flatMap_candidates]
  unfold structsOf
  induction sites sources with
  | nil => rfl
  | cons s ss ih =>
    rw [List.flatMap_cons, Candidate.ofType, List.filter_append, ← Candidate.ofType, ← Candidate.ofType, ih]
    by_cases own : s.accepted?.isSome ∧ s.id = id
    · have all : Candidate.ofType id s.candidates = s.candidates := by
        refine List.filter_eq_self.2 fun c mem => ?_
        simp only [Site.enclosing_of_mem_candidates mem, own.2, decide_true]
      rw [List.filter_cons_of_pos (by simpa using own), List.flatMap_cons, all]
    · have none : Candidate.ofType id s.candidates = [] := by
        refine List.filter_eq_nil_iff.2 fun c mem => ?_
        rw [Site.enclosing_of_mem_candidates mem, decide_eq_true_eq]
        intro same
        refine own ⟨?_, same⟩
        cases accepted : s.accepted? with
        | some declared => rfl
        | none =>
          rw [Site.candidates, accepted] at mem
          cases mem
      rw [List.filter_cons_of_neg (by simpa using own), none, List.nil_append]

/-- The target of an identity is that of its first struct, with what implementations add. -/
theorem findTarget?_scan (sources : List SourceFile) (id : TypeId) :
    findTarget? (scan sources) id = ((structsOf sources id).head?.bind (·.accepted?)).map fun declared =>
      (((scan sources).filterMap Finding.implementation?).filter (·.1 == id)).foldl
        (fun t i => t.addCapability i.2) declared.1 := by
  have first : ((scan sources).filterMap Finding.target?).find? (·.id == id) =
      ((structsOf sources id).head?.bind (·.accepted?)).map (·.1) := by
    rw [filterMap_target?]
    unfold structsOf
    induction sites sources with
    | nil => rfl
    | cons s ss ih =>
      cases accepted : s.accepted? with
      | none => simp [accepted, ih]
      | some declared =>
        obtain ⟨t, cs⟩ := declared
        obtain ⟨own, -⟩ := Site.accepted_spec accepted
        by_cases same : s.id = id
        · simp [accepted, own, same]
        · simpa [accepted, own, same] using ih
  unfold findTarget?
  rw [first, Option.map_map]
  rfl

/-! ## Units -/

/-- What implementations add to a target. -/
theorem foldl_addCapability (is : List (TypeId × Path)) (t : Target) :
    let t' := is.foldl (fun t i => t.addCapability i.2) t
    t'.id = t.id ∧ t'.name = t.name ∧ t'.generics = t.generics ∧ t'.container = t.container ∧
      t'.contextField = t.contextField := by
  induction is generalizing t with
  | nil => exact ⟨rfl, rfl, rfl, rfl, rfl⟩
  | cons i is ih =>
    have step : (t.addCapability i.2).id = t.id ∧ (t.addCapability i.2).name = t.name ∧
        (t.addCapability i.2).generics = t.generics ∧ (t.addCapability i.2).container = t.container ∧
        (t.addCapability i.2).contextField = t.contextField := by
      unfold Target.addCapability
      split <;> exact ⟨rfl, rfl, rfl, rfl, rfl⟩
    have rest := ih (t.addCapability i.2)
    simp only [List.foldl_cons]
    rwa [step.1, step.2.1, step.2.2.1, step.2.2.2.1, step.2.2.2.2] at rest

/-- Of fields with names of their own each marked one gives its property. -/
theorem Site.properties_eq {s : Site} {declared : Target × List Candidate} (h : s.accepted? = some declared)
    (distinct : ∀ fields, s.decl.fields = .named fields → (fields.map (·.name)).Nodup) :
    s.properties = s.fieldProperties := by
  obtain ⟨t, cs⟩ := declared
  obtain ⟨-, -, -, -, fields, named, those⟩ := Site.accepted_spec h
  have candidates : s.candidates = Candidate.ofFields s.id fields := by
    rw [Site.candidates, h, ← those]
    rfl
  have names : (fields.map (·.name)).Nodup := by
    obtain ⟨declared, same, rfl⟩ := Struct.fields_qualified named
    rw [List.map_map]
    exact distinct declared same
  have distinct : s.candidates.Nodup := by
    rw [candidates, Candidate.ofFields]
    have kept : ((fields.filter fun f => !f.plainAttrs.isEmpty).map (·.name)).Nodup :=
      names.sublist (List.filter_sublist.map _)
    rw [List.Nodup, List.pairwise_map] at kept ⊢
    refine kept.imp fun apart same => apart ?_
    obtain ⟨-, -, declared⟩ := Candidate.mk.inj same
    exact (Prod.mk.inj (List.cons.inj declared).1).1
  unfold Site.properties Site.fieldProperties
  rw [Candidate.dedup, eraseDups_of_nodup distinct, candidates, named, Candidate.ofFields, List.flatMap_map]
  simp only [resolved_candidate]
  clear distinct candidates names those named
  induction fields with
  | nil => rfl
  | cons f fields ih =>
    rw [List.filter_cons, List.filterMap_cons]
    split
    · rw [List.flatMap_cons, ih]
      cases fieldProperty? s.id f <;> rfl
    · rename_i bare
      -- a field without attributes has no marker
      have plain : f.plainAttrs = [] := by simpa using bare
      have unmarked : fieldProperty? s.id f = none := by
        rw [fieldProperty?, ← find_plainAttrs, plain]
        rfl
      rw [unmarked, ih]

/-- A unit bears the name and the parameters of the first struct of its identity, which stands in a module, and
describes the candidates of all structs of that identity. -/
theorem structs_of_unit {sources : List SourceFile} {u : GeneratedUnit} (mem : u ∈ (generate sources).units) :
    ∃ s rest t cs, structsOf sources u.id = s :: rest ∧ s.accepted? = some (t, cs) ∧
      u.emitted.name = s.decl.name ∧ u.emitted.generics = s.decl.generics ∧
      t.contextField = some u.emitted.contextField ∧ s.container = .module ∧
      u.emitted.Describes
        ((Candidate.dedup ((s :: rest).flatMap Site.candidates)).flatMap Candidate.resolved) := by
  obtain ⟨-, t', found, written⟩ := mem_units mem
  have properties := properties_ofType (scan sources) u.id
  rw [ofType_candidates] at properties
  rw [properties] at written
  obtain ⟨container, context, name, generics, -, describes⟩ := emit_ok written
  rw [findTarget?_scan] at found
  obtain ⟨⟨t, cs⟩, first, rfl⟩ := Option.map_eq_some_iff.1 found
  cases structs : structsOf sources u.id with
  | nil =>
    rw [structs] at first
    cases first
  | cons s rest =>
    rw [structs] at first describes
    have accepted : s.accepted? = some (t, cs) := first
    obtain ⟨-, name', generics', container', -⟩ := Site.accepted_spec accepted
    obtain ⟨-, sameName, sameGenerics, sameContainer, sameContext⟩ := foldl_addCapability
      (((scan sources).filterMap Finding.implementation?).filter (·.1 == u.id)) t
    refine ⟨s, rest, t, cs, rfl, accepted, ?_, ?_, ?_, ?_, describes⟩
    · exact name.trans (sameName.trans name')
    · exact generics.trans (sameGenerics.trans generics')
    · exact sameContext.symm.trans context
    · exact container'.symm.trans (sameContainer.symm.trans container)

/-- A unit is that of a struct in a module. -/
theorem exists_site_of_unit {sources : List SourceFile} {u : GeneratedUnit} (mem : u ∈ (generate sources).units) :
    ∃ s ∈ sites sources, s.id = u.id ∧ s.container = .module ∧ u.emitted.name = s.decl.name := by
  obtain ⟨s, rest, t, cs, structs, -, name, -, -, outside, -⟩ := structs_of_unit mem
  obtain ⟨site, own⟩ := List.mem_filter.1 (structs ▸ List.mem_cons_self : s ∈ structsOf sources u.id)
  exact ⟨s, site, (of_decide_eq_true own).2, outside, name⟩

/-- A unit bears the name and the parameters of the first struct of its identity. Its rows and its accessors are
the properties of all structs of that identity, of fields that are declared alike once. If these have the same
fields, they are those of that one struct, and of each of its fields with a marker that can be read and a type that
describes a value, in order. -/
theorem unit_of_structs {sources : List SourceFile} {u : GeneratedUnit} (mem : u ∈ (generate sources).units) :
    ∃ s rest t cs, structsOf sources u.id = s :: rest ∧ s.accepted? = some (t, cs) ∧
      u.emitted.name = s.decl.name ∧ u.emitted.generics = s.decl.generics ∧
      t.contextField = some u.emitted.contextField ∧ s.container = .module ∧
      u.emitted.Describes
        ((Candidate.dedup ((s :: rest).flatMap Site.candidates)).flatMap Candidate.resolved) ∧
      ((∀ r ∈ rest, r.candidates = s.candidates) → u.emitted.Describes s.properties ∧
        ((∀ fields, s.decl.fields = .named fields → (fields.map (·.name)).Nodup) →
          u.emitted.Describes s.fieldProperties)) := by
  obtain ⟨s, rest, t, cs, structs, accepted, name, generics, context, container, describes⟩ := structs_of_unit mem
  refine ⟨s, rest, t, cs, structs, accepted, name, generics, context, container, describes, fun alike => ?_⟩
  have one : Candidate.dedup ((s :: rest).flatMap Site.candidates) = Candidate.dedup s.candidates := by
    rw [List.flatMap_cons]
    refine Candidate.dedup_append_of_subset fun c mem => ?_
    obtain ⟨r, other, mem⟩ := List.mem_flatMap.1 mem
    exact alike r other ▸ mem
  rw [one] at describes
  refine ⟨describes, fun distinct => ?_⟩
  rw [← Site.properties_eq accepted distinct]
  exact describes

/-- A file that is listed twice: the unit describes the one struct of it. -/
theorem unit_of_structs_repeated :
    let volume : Field := ⟨[⟨⟨false, ["observable_setting"]⟩, .none⟩], "_volume", .path false [.mk "f64" .none]⟩
    let context : Field := ⟨[], "context", .path false [.mk "SettingsContext" .none]⟩
    let audio : Struct := ⟨[], "Audio", ⟨[], false, []⟩, .named [volume, context]⟩
    let sources : List SourceFile := [⟨["app"], [.struct audio]⟩, ⟨["app"], [.struct audio]⟩]
    (generate sources).units.map (·.id) = [⟨["app"], "Audio"⟩] ∧
      ∀ u ∈ (generate sources).units, ∃ s ∈ structsOf sources u.id, u.emitted.Describes s.fieldProperties := by
  intro volume context audio sources
  have ids : (generate sources).units.map (·.id) = [⟨["app"], "Audio"⟩] := by decide +kernel
  let site : Site := ⟨Imports.ofItems [.struct audio], ["app"], .module, audio⟩
  have found : structsOf sources ⟨["app"], "Audio"⟩ = [site, site] := by
    have accepted : (site.accepted?.isSome ∧ site.id = ⟨["app"], "Audio"⟩) := by decide +kernel
    have all : sites sources = [site, site] := rfl
    rw [structsOf, all, List.filter_eq_self]
    intro s mem
    have same : s = site := by simpa using mem
    rw [same]
    exact decide_eq_true accepted
  refine ⟨ids, fun u mem => ?_⟩
  have its : u.id = ⟨["app"], "Audio"⟩ := by
    have known : u.id ∈ (generate sources).units.map (·.id) := List.mem_map_of_mem mem
    rw [ids] at known
    exact List.mem_singleton.1 known
  obtain ⟨s, rest, t, cs, structs, -, -, -, -, -, -, described⟩ := unit_of_structs mem
  rw [its, found] at structs
  obtain ⟨rfl, rfl⟩ := List.cons.inj structs
  rw [its, found]
  refine ⟨site, List.mem_cons_self, (described ?_).2 ?_⟩
  · intro r same
    rw [List.mem_singleton.1 same]
  · rintro fields ⟨⟩
    decide

/-- Two structs of one name under opposite conditions: the unit has the fields of both. -/
theorem unit_of_structs_mixed :
    let field (name type : String) : Field :=
      ⟨[⟨⟨false, ["observable_setting"]⟩, .none⟩], name, .path false [.mk type .none]⟩
    let context : Field := ⟨[], "context", .path false [.mk "SettingsContext" .none]⟩
    let unix : List Token := [.ident "unix"]
    let audio (condition : List Token) (f : Field) : Struct :=
      ⟨[⟨⟨false, ["cfg"]⟩, .list .paren condition⟩], "Audio", ⟨[], false, []⟩, .named [f, context]⟩
    let sources : List SourceFile := [⟨["app"], [.struct (audio unix (field "_volume" "f64")),
      .struct (audio (.ident "not" :: Token.group .paren unix) (field "_gain" "f32"))]⟩]
    (sites sources).map (fun s => (s.id, s.fieldProperties.map (·.name))) =
        [(⟨["app"], "Audio"⟩, ["Volume"]), (⟨["app"], "Audio"⟩, ["Gain"])] ∧
      (generate sources).units.map (fun u => (u.id, u.emitted.rows.map (·.name))) =
        [(⟨["app"], "Audio"⟩, ["Volume", "Gain"])] := by
  decide +kernel

end Accessors

end LiveSettings
