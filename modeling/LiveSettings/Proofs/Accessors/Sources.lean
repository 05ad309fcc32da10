import LiveSettings.Proofs.Accessors.Grouping
import LiveSettings.Proofs.Accessors.Sites
import LiveSettings.Proofs.Target.Declaration
import Mathlib.Data.List.Basic

/-!
# Lists of source files

The files of a generation are scanned into one list of findings. Targets, candidates and implementations are
collected from it apart from each other and joined again by identity. What has been found before adds nothing
to them, and what belongs to other types does not reach them.

Results:
* `findTarget?_insert`, `outcomes_insert`: findings that repeat earlier ones change no outcome.
* `units_repeated`: a file that is listed once more changes no unit.
* `mem_scopes_of_scan`: all that is found belongs to a scope that the scan visits.
* `outcomes_append`: where no type occurs in both lists of findings, each has its own outcomes.
* `generate_apart`: files without a common scope give what each of them gives.
-/

namespace LiveSettings

/-! ## Traits that are added twice -/

theorem Path.same_refl (p : Path) : p.same p = true := (Path.same_iff p p).2 rfl

namespace Target

/-- Whether a trait of this spelling is among those implemented. -/
def implements (t : Target) (p : Path) : Bool := t.capabilities.any (·.same p)

theorem implements_addCapability (t : Target) (p : Path) : (t.addCapability p).implements p = true := by
  unfold addCapability
  split
  · assumption
  · simp [implements, Path.same_refl]

theorem implements_of_implements {t : Target} {p : Path} (q : Path) (h : t.implements p = true) :
    (t.addCapability q).implements p = true := by
  unfold addCapability
  split
  · exact h
  · rw [implements] at h
    simp [implements, h]

theorem implements_foldl {is : List (TypeId × Path)} {i : TypeId × Path} (t : Target)
    (h : t.implements i.2 = true ∨ i ∈ is) :
    (is.foldl (fun t i => t.addCapability i.2) t).implements i.2 = true := by
  induction is generalizing t with
  | nil => exact h.resolve_right List.not_mem_nil
  | cons j is ih =>
    rw [List.foldl_cons]
    refine ih _ ?_
    rcases h with already | mem
    · exact .inl (implements_of_implements j.2 already)
    · rcases List.mem_cons.1 mem with rfl | mem
      · exact .inl (implements_addCapability t i.2)
      · exact .inr mem

/-- Traits that are implemented already are not added. -/
theorem foldl_of_implements {is : List (TypeId × Path)} {t : Target}
    (already : ∀ i ∈ is, t.implements i.2 = true) : is.foldl (fun t i => t.addCapability i.2) t = t := by
  induction is with
  | nil => rfl
  | cons i is ih =>
    have same : t.addCapability i.2 = t := if_pos (already i List.mem_cons_self)
    rw [List.foldl_cons, same]
    exact ih fun j hj => already j (List.mem_cons_of_mem i hj)

end Target

namespace Accessors

/-! ## Findings once more -/

section

variable {front again : List Finding}

/-- Findings that repeat earlier ones change no target: the first declaration stays the first, and the traits
are there already. -/
theorem findTarget?_insert (back : List Finding) (old : ∀ f ∈ again, f ∈ front) (id : TypeId) :
    findTarget? (front ++ (again ++ back)) id = findTarget? (front ++ back) id := by
  have first : ((front ++ (again ++ back)).filterMap Finding.target?).find? (·.id == id) =
      ((front ++ back).filterMap Finding.target?).find? (·.id == id) := by
    simp only [List.filterMap_append, List.find?_append]
    cases found : (front.filterMap Finding.target?).find? (·.id == id) with
    | some t => rfl
    | none =>
      have none : (again.filterMap Finding.target?).find? (·.id == id) = none := by
        rw [List.find?_eq_none] at found ⊢
        intro t mem
        obtain ⟨f, hf, is⟩ := List.mem_filterMap.1 mem
        exact found t (List.mem_filterMap.2 ⟨f, old f hf, is⟩)
      simp only [none, Option.none_or]
  unfold findTarget?
  rw [first]
  congr 1
  funext t
  simp only [List.filterMap_append, List.filter_append, List.foldl_append]
  congr 1
  refine Target.foldl_of_implements fun i mem => Target.implements_foldl t (.inr ?_)
  obtain ⟨mem, own⟩ := List.mem_filter.1 mem
  obtain ⟨f, hf, is⟩ := List.mem_filterMap.1 mem
  exact List.mem_filter.2 ⟨List.mem_filterMap.2 ⟨f, old f hf, is⟩, own⟩

theorem properties_insert (back : List Finding) (old : ∀ f ∈ again, f ∈ front) :
    properties (front ++ (again ++ back)) = properties (front ++ back) := by
  have kept : candidates (front ++ (again ++ back)) = candidates (front ++ back) := by
    simp only [candidates, List.flatMap_append]
    refine Candidate.dedup_insert _ fun c mem => ?_
    obtain ⟨f, hf, mem⟩ := List.mem_flatMap.1 mem
    exact List.mem_flatMap.2 ⟨f, old f hf, mem⟩
  rw [properties, kept]
  rfl

/-- Findings that repeat earlier ones change no outcome. -/
theorem outcomes_insert (back : List Finding) (old : ∀ f ∈ again, f ∈ front) :
    outcomes (front ++ (again ++ back)) = outcomes (front ++ back) := by
  simp only [outcomes, outcome, properties_insert back old, findTarget?_insert back old]

end

/-- A file that is listed once more, anywhere behind its first place, changes no unit: the same types have
units, in the same order, with the same code. -/
theorem units_repeated (before between after : List SourceFile) (file : SourceFile) :
    (generate (before ++ file :: between ++ file :: after)).units =
      (generate (before ++ file :: between ++ after)).units := by
  have inserted : outcomes (scan (before ++ file :: between ++ file :: after)) =
      outcomes (scan (before ++ file :: between ++ after)) := by
    have listed : before ++ file :: between ++ file :: after =
        (before ++ file :: between) ++ ([file] ++ after) := rfl
    rw [listed, scan_append, scan_append [file], scan_append (before ++ file :: between) after]
    refine outcomes_insert (scan after) fun f mem => ?_
    rw [scan_append]
    refine List.mem_append_right _ ?_
    rw [scan, List.flatMap_singleton] at mem
    exact List.mem_flatMap.2 ⟨file, List.mem_cons_self, mem⟩
  simp only [generate, generateFrom, inserted]

/-! ## Scopes -/

mutual

/-- The scopes inside an item that a scan visits: modules, functions and methods. -/
def itemScopes (scope : List String) : Item → List (List String)
  | .module name items => (scope ++ [name]) :: scopesIn (scope ++ [name]) items
  | .function name body _ =>
    (scope ++ [functionScope name]) :: scopesIn (scope ++ [functionScope name]) body
  | .implementation _ _ members => memberScopes scope members
  | .struct _ | .typeName _ | .imports _ _ | .other _ => []

/-- The scopes inside the items of one module. -/
def scopesIn (scope : List String) : List Item → List (List String)
  | [] => []
  | i :: is => itemScopes scope i ++ scopesIn scope is

/-- The scopes of the methods of an implementation, and inside them. -/
def memberScopes (scope : List String) : List Item → List (List String)
  | [] => []
  | .function name body _ :: is =>
    (scope ++ [functionScope name]) :: scopesIn (scope ++ [functionScope name]) body ++
      memberScopes scope is
  | _ :: is => memberScopes scope is

end

/-- The scopes of files and all scopes inside them. -/
def scopes (sources : List SourceFile) : List (List String) :=
  sources.flatMap fun s => s.modulePath :: scopesIn s.modulePath s.items

/-- The types that a finding is about. -/
def Finding.ids : Finding → List TypeId
  | .target t cs => t.id :: cs.map (·.enclosing)
  | .refused id _ | .implements id _ => [id]
  | .derived _ | .qualified _ => []

variable {id : TypeId}

theorem modulePath_of_scanStruct {imports : Imports} {scope : List String} {container : Container}
    {decl : Struct} (h : id ∈ (scanStruct imports scope container decl).flatMap Finding.ids) :
    id.modulePath = scope := by
  obtain ⟨f, mem, about⟩ := List.mem_flatMap.1 h
  have site : f ∈ (⟨imports, scope, container, decl⟩ : Site).findings := mem
  cases opened : (⟨imports, scope, container, decl⟩ : Site).isOpen with
  | false =>
    rcases Site.findings_closed opened with none | derived
    · rw [none] at site
      cases site
    · rw [derived, List.mem_singleton] at site
      subst site
      cases about
  | true =>
    obtain ⟨reports, found⟩ := Site.findings_open opened
    rw [found] at site
    rcases List.mem_cons.1 site with rfl | site
    · cases about
    · cases read : (⟨imports, scope, container, decl⟩ : Site).declaration with
      | error e =>
        rw [read, List.mem_singleton] at site
        subst site
        rw [List.mem_singleton.1 about]
        rfl
      | ok declared =>
        obtain ⟨t, cs⟩ := declared
        rw [read, List.mem_singleton] at site
        subst site
        obtain ⟨own, -, -, -, fields, -, rfl⟩ := Target.ofDeclaration_ok read
        rcases List.mem_cons.1 about with rfl | candidate
        · rw [own]
        · obtain ⟨c, hc, rfl⟩ := List.mem_map.1 candidate
          obtain ⟨g, -, rfl⟩ := List.mem_map.1 hc
          rfl

mutual

/-- What is found in an item belongs to the scope of the item or to one inside it. -/
theorem mem_scopes_of_item {imports : Imports} {scope : List String} {container : Container} :
    (i : Item) → id ∈ (scanItem imports scope container i).flatMap Finding.ids →
      id.modulePath ∈ scope :: itemScopes scope i
  | .struct decl, h => List.mem_cons.2 (.inl (modulePath_of_scanStruct h))
  | .module name items, h => List.mem_cons_of_mem scope (mem_scopes_of_items items h)
  | .function name body _, h => List.mem_cons_of_mem scope (mem_scopes_of_items body h)
  | .implementation head self members, h => by
    simp only [scanItem, List.flatMap_append] at h
    rcases List.mem_append.1 h with here | inside
    · split at here
      · rename_i implemented
        rw [List.flatMap_singleton] at here
        rw [List.mem_singleton.1 here, modulePath_of_implementedType implemented]
        exact List.mem_cons_self
      · cases here
    · exact List.mem_cons_of_mem scope (mem_scopes_of_members members inside)
  | .typeName _, h | .imports _ _, h | .other _, h => absurd h List.not_mem_nil

theorem mem_scopes_of_items {imports : Imports} {scope : List String} {container : Container} :
    (is : List Item) → id ∈ (scanItems imports scope container is).flatMap Finding.ids →
      id.modulePath ∈ scope :: scopesIn scope is
  | [], h => absurd h List.not_mem_nil
  | i :: is, h => by
    rw [scanItems, List.flatMap_append] at h
    rcases List.mem_append.1 h with here | later
    · rcases List.mem_cons.1 (mem_scopes_of_item i here) with own | inside
      · exact List.mem_cons.2 (.inl own)
      · exact List.mem_cons_of_mem scope (List.mem_append_left _ inside)
    · rcases List.mem_cons.1 (mem_scopes_of_items is later) with own | inside
      · exact List.mem_cons.2 (.inl own)
      · exact List.mem_cons_of_mem scope (List.mem_append_right _ inside)

theorem mem_scopes_of_members {scope : List String} :
    (is : List Item) → id ∈ (scanMembers scope is).flatMap Finding.ids →
      id.modulePath ∈ memberScopes scope is
  | [], h => absurd h List.not_mem_nil
  | .function name body _ :: is, h => by
    rw [scanMembers, List.flatMap_append] at h
    rcases List.mem_append.1 h with here | later
    · exact List.mem_append_left _ (mem_scopes_of_items body here)
    · exact List.mem_append_right _ (mem_scopes_of_members is later)
  | .struct _ :: is, h | .typeName _ :: is, h | .module _ _ :: is, h | .implementation _ _ _ :: is, h
  | .imports _ _ :: is, h | .other _ :: is, h => mem_scopes_of_members is h

end

/-- All that is found belongs to a scope that the scan visits. -/
theorem mem_scopes_of_scan {sources : List SourceFile} (h : id ∈ (scan sources).flatMap Finding.ids) :
    id.modulePath ∈ scopes sources := by
  rw [scan, List.flatMap_assoc] at h
  obtain ⟨s, listed, found⟩ := List.mem_flatMap.1 h
  exact List.mem_flatMap.2 ⟨s, listed, mem_scopes_of_items s.items found⟩

/-! ## Findings of other types -/

section

variable {findings : List Finding}

theorem mem_ids_of_target {t : Target} (h : t ∈ findings.filterMap Finding.target?) :
    t.id ∈ findings.flatMap Finding.ids := by
  obtain ⟨f, mem, is⟩ := List.mem_filterMap.1 h
  refine List.mem_flatMap.2 ⟨f, mem, ?_⟩
  cases f <;> cases is
  exact List.mem_cons_self

theorem mem_ids_of_implementation {i : TypeId × Path} (h : i ∈ findings.filterMap Finding.implementation?) :
    i.1 ∈ findings.flatMap Finding.ids := by
  obtain ⟨f, mem, is⟩ := List.mem_filterMap.1 h
  refine List.mem_flatMap.2 ⟨f, mem, ?_⟩
  cases f <;> cases is
  exact List.mem_cons_self

theorem mem_ids_of_candidate {c : Candidate} (h : c ∈ findings.flatMap Finding.candidates) :
    c.enclosing ∈ findings.flatMap Finding.ids := by
  obtain ⟨f, mem, its⟩ := List.mem_flatMap.1 h
  refine List.mem_flatMap.2 ⟨f, mem, ?_⟩
  cases f with
  | target t cs => exact List.mem_cons_of_mem _ (List.mem_map_of_mem its)
  | refused _ _ | implements _ _ | derived _ | qualified _ => cases its

theorem mem_ids_of_property {p : Property} (h : p ∈ properties findings) :
    p.enclosing ∈ findings.flatMap Finding.ids := by
  obtain ⟨c, mem, its⟩ := List.mem_flatMap.1 h
  rw [Candidate.enclosing_of_mem_resolved its]
  exact mem_ids_of_candidate (Candidate.mem_dedup.1 mem)

theorem targets_of_absent (absent : id ∉ findings.flatMap Finding.ids) :
    (findings.filterMap Finding.target?).find? (·.id == id) = none := by
  rw [List.find?_eq_none]
  intro t mem own
  exact absent (eq_of_beq own ▸ mem_ids_of_target mem)

theorem implementations_of_absent (absent : id ∉ findings.flatMap Finding.ids) :
    (findings.filterMap Finding.implementation?).filter (·.1 == id) = [] := by
  rw [List.filter_eq_nil_iff]
  intro i mem own
  exact absent (eq_of_beq own ▸ mem_ids_of_implementation mem)

theorem properties_of_absent (absent : id ∉ findings.flatMap Finding.ids) :
    Property.ofType id (properties findings) = [] := by
  refine List.filter_eq_nil_iff.2 fun p mem own => ?_
  exact absent (of_decide_eq_true own ▸ mem_ids_of_property mem)

end

section

variable {front back : List Finding}

theorem candidates_append (apart : ∀ id ∈ front.flatMap Finding.ids, id ∉ back.flatMap Finding.ids) :
    candidates (front ++ back) = candidates front ++ candidates back := by
  rw [candidates, List.flatMap_append]
  exact Candidate.dedup_append_of_disjoint fun c mem old =>
    apart _ (mem_ids_of_candidate old) (mem_ids_of_candidate mem)

theorem properties_append (apart : ∀ id ∈ front.flatMap Finding.ids, id ∉ back.flatMap Finding.ids) :
    properties (front ++ back) = properties front ++ properties back := by
  rw [properties, candidates_append apart, List.flatMap_append]
  rfl

theorem outcome_append_left (ps : List Property) (absent : id ∉ back.flatMap Finding.ids) :
    outcome (front ++ back) id ps = outcome front id ps := by
  have found : findTarget? (front ++ back) id = findTarget? front id := by
    simp only [findTarget?, List.filterMap_append, List.find?_append, List.filter_append,
      targets_of_absent absent, implementations_of_absent absent, Option.or_none, List.append_nil]
  rw [outcome, found]
  rfl

theorem outcome_append_right (ps : List Property) (absent : id ∉ front.flatMap Finding.ids) :
    outcome (front ++ back) id ps = outcome back id ps := by
  have found : findTarget? (front ++ back) id = findTarget? back id := by
    simp only [findTarget?, List.filterMap_append, List.find?_append, List.filter_append,
      targets_of_absent absent, implementations_of_absent absent, Option.none_or, List.nil_append]
  rw [outcome, found]
  rfl

/-- Where no type occurs in both lists of findings, each has its own outcomes. -/
theorem outcomes_append (apart : ∀ id ∈ front.flatMap Finding.ids, id ∉ back.flatMap Finding.ids) :
    outcomes (front ++ back) = outcomes front ++ outcomes back := by
  have types : Property.types (properties (front ++ back)) =
      Property.types (properties front) ++ Property.types (properties back) := by
    rw [properties_append apart]
    refine Property.types_append_of_apart fun p hp q hq same => ?_
    exact apart _ (mem_ids_of_property hp) (same ▸ mem_ids_of_property hq)
  rw [outcomes_eq, types, List.filterMap_append, outcomes_eq, outcomes_eq]
  congr 1
  · refine List.filterMap_congr fun id known => ?_
    obtain ⟨p, hp, rfl⟩ := Property.mem_types.1 known
    have absent := apart _ (mem_ids_of_property hp)
    rw [outcome_append_left _ absent, properties_append apart, Property.ofType_append,
      properties_of_absent absent, List.append_nil]
  · refine List.filterMap_congr fun id known => ?_
    obtain ⟨p, hp, rfl⟩ := Property.mem_types.1 known
    have absent : p.enclosing ∉ front.flatMap Finding.ids := fun both =>
      apart _ both (mem_ids_of_property hp)
    rw [outcome_append_right _ absent, properties_append apart, Property.ofType_append,
      properties_of_absent absent, List.nil_append]

end

/-- Two lists of files without a common scope: the units are those of the first, then those of the second, and
no diagnostic is added or lost. -/
theorem generate_apart {s t : List SourceFile} (apart : ∀ scope ∈ scopes s, scope ∉ scopes t) :
    (generate (s ++ t)).units = (generate s).units ++ (generate t).units ∧
      (generate (s ++ t)).diagnostics.Perm ((generate s).diagnostics ++ (generate t).diagnostics) := by
  have others : ∀ id ∈ (scan s).flatMap Finding.ids, id ∉ (scan t).flatMap Finding.ids :=
    fun id here there => apart _ (mem_scopes_of_scan here) (mem_scopes_of_scan there)
  have made := outcomes_append others
  have kept := candidates_append others
  constructor
  · simp only [generate, generateFrom, scan_append, made, List.filterMap_append]
  · simp only [generate, generateFrom, markerDiagnostics, scan_append, made, kept, List.filterMap_append]
    exact ((perm_interchange _ _ _ _).append_right _).trans (perm_interchange _ _ _ _)

/-- The same struct in two modules, one of which imports the type of its field and implements the notification
trait; the other holds a struct in a function besides. -/
theorem generate_apart_twoModules :
    let fade : Field := ⟨[⟨⟨false, ["observable_setting"]⟩, .none⟩], "_fade", .path false [.mk "Duration" .none]⟩
    let context : Field := ⟨[], "context", .path false [.mk "SettingsContext" .none]⟩
    let audio : Struct := ⟨[], "Audio", ⟨[], false, []⟩, .named [fade, context]⟩
    let notifies : Item := .implementation (.positive ⟨false, [.mk "NotifyPropertyChanged" .none]⟩)
      (.path false [.mk "Audio" .none]) []
    let s : List SourceFile := [⟨["a"], [.imports false (.path "std" (.path "time" (.name "Duration"))),
      .struct audio, notifies]⟩]
    let t : List SourceFile := [⟨["b"], [.struct audio, .function "build" [.struct audio] []]⟩]
    (∀ scope ∈ scopes s, scope ∉ scopes t) ∧
      (generate (s ++ t)).units.map (·.id) = [⟨["a"], "Audio"⟩, ⟨["b"], "Audio"⟩] ∧
      (generate (s ++ t)).units = (generate s).units ++ (generate t).units ∧
      (generate (s ++ t)).diagnostics.Perm ((generate s).diagnostics ++ (generate t).diagnostics) := by
  intro fade context audio notifies s t
  have apart : ∀ scope ∈ scopes s, scope ∉ scopes t := by decide
  obtain ⟨units, diagnostics⟩ := generate_apart apart
  exact ⟨apart, by decide +kernel, units, diagnostics⟩

end Accessors

end LiveSettings
