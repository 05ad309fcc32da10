import LiveSettings.Accessors.Derive
import LiveSettings.Proofs.Accessors.Units
import LiveSettings.Proofs.Target.Implements

/-!
# Both front ends write the same

Accessors are written beside a declaration, or as a unit for a struct that is found in a file. The two ways meet
again where code is emitted, under another identity and with what the file says about implemented traits. For
the one marked struct of a file they write the same, if its field types are qualified by the imports of the
file.

Results:
* `Candidate.resolve_moved`, `Candidate.dedup_moved`, `Accessors.emit_moved`: the identity of a type shows in
  nothing that is written.
* `Accessors.generate_eq_expand`: the unit of the one marked struct of a file.
* `Accessors.generate_ne_expand`: an implementation for another type of the same name takes the notification
  trait away.
-/

namespace LiveSettings

/-! ## Under another identity -/

namespace Candidate

/-- Resolving looks at no identity. -/
theorem resolve_moved (id : TypeId) (c : Candidate) :
    (c.moved id).resolve = c.resolve.map fun ps => ps.map (·.moved id) := by
  have properties (s : Marker.Settings) : (c.moved id).properties s = (c.properties s).map (·.moved id) := by
    unfold Candidate.properties
    rw [List.map_filterMap]
    congr 1
    funext ⟨⟨field, type⟩, i⟩
    simp only [Option.map_map]
    rfl
  have same : (c.moved id).attrs = c.attrs := rfl
  unfold resolve
  rw [same]
  cases Marker.find c.attrs with
  | error e => rfl
  | ok found =>
    cases found with
    | none => rfl
    | some s =>
      simp only [bind, Except.bind, pure, Except.pure, Except.map, properties]

theorem resolved_moved (id : TypeId) (c : Candidate) :
    (c.moved id).resolved = c.resolved.map (·.moved id) := by
  unfold resolved
  rw [resolve_moved]
  cases c.resolve <;> rfl

theorem flatMap_resolved_moved (id : TypeId) (cs : List Candidate) :
    (cs.map (·.moved id)).flatMap resolved = (cs.flatMap resolved).map (·.moved id) := by
  rw [List.flatMap_map, List.map_flatMap]
  exact List.flatMap_congr fun c _ => resolved_moved id c

/-- Candidates of one type are the same just if they are under another identity. -/
theorem dedup_moved (id : TypeId) {old : TypeId} {cs : List Candidate} (own : ∀ c ∈ cs, c.enclosing = old) :
    dedup (cs.map (·.moved id)) = (dedup cs).map (·.moved id) := by
  refine eraseDups_map cs fun c hc d hd same => ?_
  obtain ⟨enclosing, attrs, fields⟩ := c
  obtain ⟨enclosing', attrs', fields'⟩ := d
  obtain rfl : enclosing = enclosing' := (own _ hc).trans (own _ hd).symm
  obtain ⟨-, rfl, rfl⟩ := Candidate.mk.inj same
  rfl

theorem combine_ok {ε α : Type} {rs : List (Except ε (List α))} {as : List α} (h : combine rs = .ok as) :
    ∃ ass : List (List α), rs = ass.map .ok ∧ as = ass.flatten := by
  induction rs generalizing as with
  | nil =>
    cases h
    exact ⟨[], rfl, rfl⟩
  | cons r rs ih =>
    cases r with
    | error e =>
      simp only [combine] at h
      split at h <;> cases h
    | ok bs =>
      simp only [combine] at h
      split at h
      · rename_i rest found
        cases h
        obtain ⟨ass, rfl, rfl⟩ := ih found
        exact ⟨bs :: ass, rfl, rfl⟩
      · cases h

/-- Where nothing is wrong with the candidates, their properties are collected one after the other. -/
theorem collect_ok {cs : List Candidate} {ps : List Property} (h : collect cs = .ok ps) :
    (∀ c ∈ dedup cs, c.resolve = .ok c.resolved) ∧ ps = (dedup cs).flatMap resolved := by
  obtain ⟨pss, each, rfl⟩ := combine_ok h
  have resolves : ∀ c ∈ dedup cs, c.resolve = .ok c.resolved := by
    intro c hc
    have mem : c.resolve ∈ pss.map Except.ok := each ▸ List.mem_map_of_mem hc
    obtain ⟨qs, -, same⟩ := List.mem_map.1 mem
    unfold resolved
    rw [← same]
    rfl
  refine ⟨resolves, ?_⟩
  have lists : pss = (dedup cs).map resolved := by
    have same : pss.map (fun qs => (.ok qs : Except Marker.MarkerError _)) =
        ((dedup cs).map resolved).map .ok := by
      rw [← each, List.map_map]
      exact List.map_congr_left resolves
    exact List.map_injective_iff.2 (fun _ _ => Except.ok.inj) same
  rw [lists, List.flatMap_def]

end Candidate

namespace Accessors

/-! ## Emitting elsewhere -/

theorem rowOf_moved (id : TypeId) (p : Property) : rowOf (p.moved id) = rowOf p := by
  simp only [rowOf, Property.moved, Property.name, Property.storageKey, Property.strategy]

theorem groupOf_moved (id : TypeId) (p : Property) : groupOf (p.moved id) = groupOf p := by
  have name : (p.moved id).name = p.name := rfl
  unfold groupOf
  by_cases unnamed : p.name = ""
  · rw [if_pos unnamed, if_pos (name.trans unnamed)]
    rfl
  · rw [if_neg unnamed, if_neg fun same => unnamed (name.symm.trans same)]
    simp only [Property.moved, Property.name, Property.storageKey, Property.strategy]

/-- What is emitted depends on the context, on the traits implemented and on what is spelled out, but not on the
identity of the type. -/
theorem emit_moved {t t' : Target} (id : TypeId) (ps : List Property) (name : t'.name = t.name)
    (generics : t'.generics = t.generics) (container : t'.container = t.container)
    (context : t'.contextField = t.contextField) (notifies : t'.declares notifyTrait = t.declares notifyTrait) :
    emit t' (ps.map (·.moved id)) = emit t ps := by
  have written : ((ps.map (·.moved id)).map fun p => (groupOf p).map fun g => (rowOf p, g)) =
      ps.map fun p => (groupOf p).map fun g => (rowOf p, g) := by
    rw [List.map_map]
    refine List.map_congr_left fun p _ => ?_
    rw [Function.comp_apply, groupOf_moved, rowOf_moved]
  rw [emit_congr _ name generics container context notifies, emit, written]
  rfl

/-- Something is written for a type beside which items can stand. -/
theorem exists_emitted {t : Target} {ps : List Property} {written : Option Emitted}
    (container : t.container = .module) (h : emit t ps = .ok written) : ∃ e, written = some e := by
  unfold emit at h
  rw [if_neg (by rw [container]; decide)] at h
  split at h
  · cases h
  · split at h
    · cases h
    · cases h
      exact ⟨_, rfl⟩

theorem declares_foldl {is : List (TypeId × Path)} (others : ∀ i ∈ is, i.2.lastName? ≠ some notifyTrait)
    (t : Target) :
    (is.foldl (fun t i => t.addCapability i.2) t).declares notifyTrait = t.declares notifyTrait := by
  have none : is.any (·.2.lastName? == some notifyTrait) = false :=
    List.any_eq_false.2 fun i mem same => others i mem (eq_of_beq same)
  rw [Target.declares_foldl, none, Bool.or_false]

/-- Where one target is found whose properties can be emitted, its unit is all that is generated. -/
theorem generateFrom_single {findings : List Finding} {t : Target} {cs : List Candidate} {e : Emitted}
    (targets : findings.filterMap Finding.target? = [t])
    (declared : findings.flatMap Finding.candidates = cs)
    (diagnostics : findings.filterMap Finding.diagnostic? = [])
    (own : ∀ c ∈ cs, c.enclosing = t.id) (resolves : ∀ c ∈ Candidate.dedup cs, c.resolve = .ok c.resolved)
    (nonempty : (Candidate.dedup cs).flatMap Candidate.resolved ≠ [])
    (emitted : emit (((findings.filterMap Finding.implementation?).filter (·.1 == t.id)).foldl
      (fun t i => t.addCapability i.2) t) ((Candidate.dedup cs).flatMap Candidate.resolved) = .ok (some e)) :
    generateFrom findings = ⟨[⟨t.id, e⟩], []⟩ := by
  have kept : candidates findings = Candidate.dedup cs := by rw [candidates, declared]
  have collected : properties findings = (Candidate.dedup cs).flatMap Candidate.resolved := by
    rw [← kept]
    rfl
  have enclosing : ∀ p ∈ properties findings, p.enclosing = t.id := by
    intro p mem
    rw [collected] at mem
    obtain ⟨c, hc, mem⟩ := List.mem_flatMap.1 mem
    rw [Candidate.enclosing_of_mem_resolved mem]
    exact own c (Candidate.mem_dedup.1 hc)
  have types : Property.types (properties findings) = [t.id] :=
    Property.types_of_one enclosing (by rwa [collected])
  have all : Property.ofType t.id (properties findings) =
      (Candidate.dedup cs).flatMap Candidate.resolved := by
    rw [← collected]
    exact List.filter_eq_self.2 fun p mem => decide_eq_true (enclosing p mem)
  have found : findTarget? findings t.id = some (((findings.filterMap Finding.implementation?).filter
      (·.1 == t.id)).foldl (fun t i => t.addCapability i.2) t) := by
    rw [findTarget?, targets]
    simp
  have made : outcomes findings = [.inl ⟨t.id, e⟩] := by
    rw [outcomes_eq, types, List.filterMap_cons, List.filterMap_nil, all, outcome, found, Option.map_some, emitted]
  have markers : markerDiagnostics findings = [] := by
    rw [markerDiagnostics, kept, List.filterMap_eq_nil_iff]
    intro c hc
    rw [resolves c hc]
  rw [generateFrom, made, diagnostics, markers]
  rfl

/-! ## The one marked struct of a file -/

section

variable {path : List String} {before after : List Item} {decl : Struct}

/-- The file with the struct among its items. -/
def fileOf (path : List String) (before : List Item) (decl : Struct) (after : List Item) : SourceFile :=
  ⟨path, before ++ .struct decl :: after⟩

/-- The struct with the types of its fields qualified by the imports of the file. -/
def qualifiedIn (before : List Item) (decl : Struct) (after : List Item) : Struct :=
  decl.qualified (Imports.ofItems (before ++ .struct decl :: after))

/-- The site of the struct. -/
def siteOf (path : List String) (before : List Item) (decl : Struct) (after : List Item) : Site :=
  ⟨Imports.ofItems (before ++ .struct decl :: after), path, .module, decl⟩

theorem findings_others {imports : Imports} {scope : List String} {container : Container} {items : List Item}
    (unmarked : ∀ i ∈ items, ∀ d ∈ i.structs, d.isMarked = false) {α : Type} (g : Finding → List α) :
    ((sitesIn imports scope container items).flatMap fun s => s.findings.flatMap g) = [] := by
  rw [List.flatMap_eq_nil_iff]
  intro s mem
  have declared := mem_itemStructs_of_site items mem
  have plain : s.decl.isMarked = false := by
    clear mem
    induction items with
    | nil => cases declared
    | cons i items ih =>
      rcases List.mem_append.1 declared with here | later
      · exact unmarked i List.mem_cons_self s.decl here
      · exact ih (fun j hj => unmarked j (List.mem_cons_of_mem i hj)) later
  rw [Site.findings_unmarked plain]
  rfl

theorem sitesIn_append (imports : Imports) (scope : List String) (container : Container) (as bs : List Item) :
    sitesIn imports scope container (as ++ bs) =
      sitesIn imports scope container as ++ sitesIn imports scope container bs := by
  induction as with
  | nil => rfl
  | cons a as ih =>
    simp only [List.cons_append, sitesIn, ih, List.append_assoc]

/-- What a scan of the file finds, apart from implementations, it finds at the struct. -/
theorem flatMap_scan_fileOf (unmarked : ∀ i ∈ before ++ after, ∀ d ∈ i.structs, d.isMarked = false)
    {α : Type} {g : Finding → List α} (silent : ∀ id trait, g (.implements id trait) = []) :
    (scan [fileOf path before decl after]).flatMap g = (siteOf path before decl after).findings.flatMap g := by
  rw [flatMap_scan silent]
  simp only [sites, List.flatMap_cons, List.flatMap_nil, List.append_nil, fileOf, sitesIn_append,
    List.flatMap_append, sitesIn, itemSites, List.singleton_append]
  rw [findings_others fun i hi => unmarked i (List.mem_append_left _ hi),
    findings_others fun i hi => unmarked i (List.mem_append_right _ hi), List.append_nil]
  rfl

theorem filterMap_scan_fileOf (unmarked : ∀ i ∈ before ++ after, ∀ d ∈ i.structs, d.isMarked = false)
    {α : Type} {g : Finding → Option α} (silent : ∀ id trait, g (.implements id trait) = none) :
    (scan [fileOf path before decl after]).filterMap g = (siteOf path before decl after).findings.filterMap g := by
  have nothing (id : TypeId) (trait : Path) : (g (.implements id trait)).toList = [] := by
    rw [silent]
    rfl
  rw [List.filterMap_eq_flatMap_toList, flatMap_scan_fileOf unmarked nothing,
    ← List.filterMap_eq_flatMap_toList]

/-- The implementations of the file for the struct are of other traits, if none of its items is one of the
notification trait for the name of the struct. -/
theorem implementations_fileOf
    (foreign : ∀ trait self members, .implementation (.positive trait) self members ∈ before ++ after →
      implementedType? path self = some ⟨path, decl.name⟩ → trait.lastName? ≠ some notifyTrait) :
    ∀ i ∈ ((scan [fileOf path before decl after]).filterMap Finding.implementation?).filter
      (·.1 == ⟨path, decl.name⟩), i.2.lastName? ≠ some notifyTrait := by
  rintro ⟨id, trait⟩ mem
  obtain ⟨mem, own⟩ := List.mem_filter.1 mem
  obtain rfl : id = ⟨path, decl.name⟩ := eq_of_beq own
  obtain ⟨finding, mem, implements⟩ := List.mem_filterMap.1 mem
  have found : .implements ⟨path, decl.name⟩ trait ∈ scan [fileOf path before decl after] := by
    cases finding with
    | implements id' trait' =>
      cases implements
      exact mem
    | _ => cases implements
  rw [scan, List.flatMap_singleton] at found
  obtain ⟨self, members, item, implemented⟩ := mem_of_implements found rfl
  refine foreign trait self members ?_ implemented
  rcases List.mem_append.1 item with here | later
  · exact List.mem_append_left _ here
  · rcases List.mem_cons.1 later with same | later
    · cases same
    · exact List.mem_append_right _ later

/-- What accessors are written of beside a declaration. -/
theorem ofDeclaration_ok {d : Declaration} {written : Option Emitted} (h : ofDeclaration d = .ok written) :
    ∃ t cs ps, Target.ofDeclaration d [] .module = .ok (t, cs) ∧ Candidate.collect cs = .ok ps ∧
      emit t ps = .ok written := by
  unfold ofDeclaration at h
  split at h
  · cases h
  · rename_i t cs read
    split at h
    · cases h
    · rename_i ps collected
      cases emitted : emit t ps with
      | error es =>
        rw [emitted] at h
        cases h
      | ok e =>
        rw [emitted] at h
        cases h
        exact ⟨t, cs, ps, read, collected, emitted⟩

/-- A marked field of a type that describes a value gives a property. -/
theorem exists_property {id : TypeId} {fields : List Field} {f : Field} (field : f ∈ fields)
    (marked : f.isMarked = true) (typed : (Descriptor.ofTy? f.ty).isSome)
    (resolves : ∀ c ∈ Candidate.dedup (Candidate.ofFields id fields), c.resolve = .ok c.resolved) :
    (Candidate.dedup (Candidate.ofFields id fields)).flatMap Candidate.resolved ≠ [] := by
  have readable := find_of_isMarked marked
  have plain := plainAttrs_of_isMarked marked
  have kept : f.candidate id ∈ Candidate.dedup (Candidate.ofFields id fields) :=
    Candidate.mem_dedup.2 (List.mem_map_of_mem (List.mem_filter.2 ⟨field, plain⟩))
  have property : (f.candidate id).resolved ≠ [] := by
    have resolved := resolves _ kept
    have attrs : (f.candidate id).attrs = f.plainAttrs := rfl
    obtain ⟨d, described⟩ := Option.isSome_iff_exists.1 typed
    unfold Candidate.resolve at resolved
    rw [attrs, find_plainAttrs] at resolved
    rw [resolved_candidate]
    cases found : Marker.find f.attrs with
    | error e =>
      rw [found] at resolved
      cases resolved
    | ok marker =>
      cases marker with
      | none => exact absurd found readable
      | some m => simp [fieldProperty?, found, described]
  intro none
  exact property (List.flatMap_eq_nil_iff.1 none _ kept)

/-- What is found at the struct is what its declaration gives, under another identity. -/
theorem findings_siteOf (path : List String) (marked : decl.isMarked = true)
    (underived : derives decl.attrs deriveName = false) {t : Target} {cs : List Candidate}
    (read : Target.ofDeclaration (.struct (qualifiedIn before decl after)) [] .module = .ok (t, cs)) :
    ∃ reports, (siteOf path before decl after).findings = [.qualified reports,
      .target (t.moved path .module) (cs.map (·.moved ⟨path, t.name⟩))] := by
  have opened : (siteOf path before decl after).isOpen = true := by
    simp only [Site.isOpen, siteOf, marked, underived, Bool.not_false, Bool.and_self]
  have declared : (siteOf path before decl after).declaration =
      .ok (t.moved path .module, cs.map (·.moved ⟨path, t.name⟩)) := by
    have moved := Target.ofDeclaration_moved (.struct (qualifiedIn before decl after)) path .module
    rw [read] at moved
    exact moved
  obtain ⟨reports, found⟩ := Site.findings_open opened
  rw [declared] at found
  exact ⟨reports, found⟩

/-- The one marked struct of a file, which does not derive its accessors: if what is written beside its
declaration, with the types of its fields qualified by the imports of the file, is no error, and a marked field is
of a type that describes a value, the file gives one unit, which says just that, and no diagnostic. No item of the
file may implement the notification trait for the name of the struct. -/
theorem generate_eq_expand (marked : decl.isMarked = true) (underived : derives decl.attrs deriveName = false)
    (unmarked : ∀ i ∈ before ++ after, ∀ d ∈ i.structs, d.isMarked = false)
    (foreign : ∀ trait self members, .implementation (.positive trait) self members ∈ before ++ after →
      implementedType? path self = some ⟨path, decl.name⟩ → trait.lastName? ≠ some notifyTrait)
    {written : Option Emitted} (accepted : ofDeclaration (.struct (qualifiedIn before decl after)) = .ok written)
    (resolvable : ∃ fields, (qualifiedIn before decl after).fields = .named fields ∧
      ∃ f ∈ fields, f.isMarked = true ∧ (Descriptor.ofTy? f.ty).isSome) :
    ∃ e, generate [fileOf path before decl after] = ⟨[⟨⟨path, decl.name⟩, e⟩], []⟩ ∧
      ∀ runtime, e.tokens runtime = expand runtime (.struct (qualifiedIn before decl after)) := by
  -- what the declaration gives at the top of a module
  obtain ⟨t, cs, ps, read, collected, emitted⟩ := ofDeclaration_ok accepted
  obtain ⟨-, name, -, container, fields, named, those⟩ := Target.ofDeclaration_ok read
  rw [qualifiedIn, Struct.name_qualified] at name those
  obtain ⟨resolves, properties⟩ := Candidate.collect_ok collected
  obtain ⟨e, rfl⟩ := exists_emitted container emitted
  have nonempty : ps ≠ [] := by
    obtain ⟨own, written, f, field, marker, typed⟩ := resolvable
    obtain rfl := Fields.named.inj (written.symm.trans named)
    rw [properties, those]
    rw [those] at resolves
    exact exists_property field marker typed resolves
  -- the same in the file
  have own : ∀ c ∈ cs, c.enclosing = ⟨[], decl.name⟩ := by
    intro c hc
    rw [those] at hc
    obtain ⟨f, -, rfl⟩ := List.mem_map.1 hc
    rfl
  have moved : Candidate.dedup (cs.map (·.moved ⟨path, decl.name⟩)) =
      (Candidate.dedup cs).map (·.moved ⟨path, decl.name⟩) := Candidate.dedup_moved _ own
  have movedProperties : (Candidate.dedup (cs.map (·.moved ⟨path, decl.name⟩))).flatMap Candidate.resolved =
      ps.map (·.moved ⟨path, decl.name⟩) := by
    rw [moved, properties, Candidate.flatMap_resolved_moved]
  obtain ⟨reports, found⟩ := findings_siteOf path marked underived read
  rw [name] at found
  have target : (t.moved path .module).id = ⟨path, decl.name⟩ := by rw [Target.moved, name]
  refine ⟨e, ?_, fun runtime => ?_⟩
  · rw [← target]
    have declared : (scan [fileOf path before decl after]).flatMap Finding.candidates =
        cs.map (·.moved ⟨path, decl.name⟩) := by
      rw [flatMap_scan_fileOf unmarked (fun _ _ => rfl), found]
      exact List.append_nil _
    refine generateFrom_single ?_ declared ?_ ?_ ?_ ?_ ?_
    · rw [filterMap_scan_fileOf unmarked (fun _ _ => rfl), found]
      rfl
    · rw [filterMap_scan_fileOf unmarked (fun _ _ => rfl), found]
      rfl
    · intro c hc
      obtain ⟨d, -, rfl⟩ := List.mem_map.1 hc
      exact target.symm
    · intro c hc
      rw [moved] at hc
      obtain ⟨d, hd, rfl⟩ := List.mem_map.1 hc
      rw [Candidate.resolve_moved, Candidate.resolved_moved, resolves d hd]
      rfl
    · rw [movedProperties]
      exact fun none => nonempty (List.map_eq_nil_iff.1 none)
    · rw [movedProperties, target, ← emitted]
      obtain ⟨-, sameName, sameGenerics, sameContainer, sameContext⟩ := foldl_addCapability
        (((scan [fileOf path before decl after]).filterMap Finding.implementation?).filter
          (·.1 == ⟨path, decl.name⟩)) (t.moved path .module)
      refine emit_moved _ ps sameName sameGenerics (sameContainer.trans container.symm) sameContext ?_
      rw [declares_foldl (implementations_fileOf foreign)]
      rfl
  · rw [expand, accepted]

end

/-- A file that imports the type of a field and implements another trait for the struct. -/
theorem generate_eq_expand_imported :
    let fade : Field := ⟨[⟨⟨false, ["observable_setting"]⟩, .none⟩], "_fade", .path false [.mk "Duration" .none]⟩
    let context : Field := ⟨[], "context", .path false [.mk "SettingsContext" .none]⟩
    let audio : Struct := ⟨[], "Audio", ⟨[], false, []⟩, .named [fade, context]⟩
    let before : List Item := [.imports false (.path "std" (.path "time" (.name "Duration")))]
    let after : List Item :=
      [.implementation (.positive ⟨false, [.mk "Default" .none]⟩) (.path false [.mk "Audio" .none]) []]
    (qualifiedIn before audio after).fields = .named [{ fade with
        ty := .path false [.mk "std" .none, .mk "time" .none, .mk "Duration" .none] }, context] ∧
      ∃ e, generate [fileOf ["app"] before audio after] = ⟨[⟨⟨["app"], "Audio"⟩, e⟩], []⟩ ∧
        ∀ runtime, e.tokens runtime = expand runtime (.struct (qualifiedIn before audio after)) := by
  intro fade context audio before after
  let full : Field := { fade with ty := .path false [.mk "std" .none, .mk "time" .none, .mk "Duration" .none] }
  have fields : (qualifiedIn before audio after).fields = .named [full, context] := rfl
  have foreign : ∀ trait self members, .implementation (.positive trait) self members ∈ before ++ after →
      implementedType? ["app"] self = some ⟨["app"], "Audio"⟩ → trait.lastName? ≠ some notifyTrait := by
    intro trait self members mem _
    obtain ⟨rfl, -, -⟩ : trait = ⟨false, [.mk "Default" .none]⟩ ∧ self = .path false [.mk "Audio" .none] ∧
        members = [] := by simpa [before, after] using mem
    decide
  have some : (ofDeclaration (.struct (qualifiedIn before audio after))).toOption.isSome = true := by
    decide +kernel
  obtain ⟨written, accepted⟩ : ∃ written, ofDeclaration (.struct (qualifiedIn before audio after)) = .ok written := by
    cases found : ofDeclaration (.struct (qualifiedIn before audio after)) with
    | ok written => exact ⟨written, rfl⟩
    | error e =>
      rw [found] at some
      cases some
  refine ⟨fields, generate_eq_expand (by decide) (by decide) (by decide) foreign accepted ?_⟩
  exact ⟨[full, context], fields, full, List.mem_cons_self, by decide, by decide⟩

/-- The notification trait is implemented for a type of another module that bears the name of the struct. Beside
the declaration it is written for the struct too, but not in the unit. -/
theorem generate_ne_expand :
    let volume : Field := ⟨[⟨⟨false, ["observable_setting"]⟩, .none⟩], "_volume", .path false [.mk "f64" .none]⟩
    let context : Field := ⟨[], "context", .path false [.mk "SettingsContext" .none]⟩
    let audio : Struct := ⟨[], "Audio", ⟨[], false, []⟩, .named [volume, context]⟩
    let other : Struct := ⟨[], "Audio", ⟨[], false, []⟩, .unit⟩
    let before : List Item := [.module "other" [.struct other],
      .implementation (.positive ⟨false, [.mk "NotifyPropertyChanged" .none]⟩)
        (.path false [.mk "other" .none, .mk "Audio" .none]) []]
    let runtime : List Token := Token.op "::" ++ word "observable_settings_core"
    (∀ i ∈ before, ∀ d ∈ i.structs, d.isMarked = false) ∧
      (ofDeclaration (.struct (qualifiedIn before audio []))).toOption.isSome = true ∧
      (generate [fileOf ["app"] before audio []]).units.map (·.id) = [⟨["app"], "Audio"⟩] ∧
      (generate [fileOf ["app"] before audio []]).units.map (·.emitted.tokens runtime) ≠
        [expand runtime (.struct (qualifiedIn before audio []))] := by
  decide +kernel

end Accessors

end LiveSettings
