import LiveSettings.Proofs.Code.Names
import LiveSettings.Proofs.Accessors.Units

/-!
# Structs inside functions

A struct in the body of a function has a scope with a segment for the function, which ends in a pair of brackets
as no name of a module does. So the identity of a struct tells whether a function surrounds it, and what stands in
bodies has no part in the unit of a type outside, of whatever name.

Results:
* `mem_sites_inModules`: the scope of a struct consists of modules if no function surrounds it, and only then.
* `sites_withoutBodies`: without the bodies of functions, the structs that no function surrounds are left.
* `implementations_withoutBodies`: what bodies implement is for types in functions.
* `units_of_modules`: the bodies of functions do not count for units, and a unit belongs to a struct that no
  function surrounds.
-/

namespace LiveSettings

/-! ## Scopes of functions -/

/-- Whether a segment of a scope stands for a function. -/
def isFunctionScope (segment : String) : Bool := ['(', ')'].isSuffixOf segment.toList

/-- Whether no segment of a scope stands for a function. -/
def inModules (scope : List String) : Bool := scope.all fun segment => !isFunctionScope segment

theorem isFunctionScope_functionScope (name : String) :
    isFunctionScope (Accessors.functionScope name) = true := by
  rw [isFunctionScope, Accessors.functionScope, String.toList_append, List.isSuffixOf_iff_suffix]
  exact List.suffix_append _ _

/-- Names are not taken for functions. -/
theorem isFunctionScope_of_isIdentifier {name : String} (h : Text.isIdentifier name = true) :
    isFunctionScope name = false := by
  rw [← Bool.not_eq_true, isFunctionScope, List.isSuffixOf_iff_suffix]
  intro ending
  exact Text.not_mem_of_isIdentifier h (by decide) (by decide) (ending.subset (List.mem_cons_self (a := '(')))

theorem inModules_append (scope : List String) (segment : String) :
    inModules (scope ++ [segment]) = (inModules scope && !isFunctionScope segment) := by
  simp only [inModules, List.all_append, List.all_cons, List.all_nil, Bool.and_true]

/-- A scope inside that of a function is one of functions too. -/
theorem inModules_of_functionScope {scope inner : List String} {name : String}
    (inside : scope ++ [Accessors.functionScope name] <+: inner) : inModules inner = false := by
  obtain ⟨rest, rfl⟩ := inside
  rw [inModules, List.all_append, ← inModules, inModules_append, isFunctionScope_functionScope]
  simp only [Bool.not_true, Bool.and_false, Bool.false_and]

/-! ## Files without the bodies of functions -/

mutual

/-- The item without the bodies of functions, and whatever other code it holds. -/
def Item.withoutBodies : Item → Item
  | .struct decl => .struct decl
  | .typeName name => .typeName name
  | .module name items => .module name (itemsWithoutBodies items)
  | .function name _ _ => .function name [] []
  | .implementation head self members => .implementation head self (itemsWithoutBodies members)
  | .imports absolute tree => .imports absolute tree
  | .other _ => .other []

def itemsWithoutBodies : List Item → List Item
  | [] => []
  | i :: is => i.withoutBodies :: itemsWithoutBodies is

end

/-- A module binds and declares what it does without bodies. -/
theorem Imports.ofItems_withoutBodies (items : List Item) :
    Imports.ofItems (itemsWithoutBodies items) = Imports.ofItems items := by
  unfold Imports.ofItems
  induction items with
  | nil => rfl
  | cons i items ih =>
    obtain ⟨bindings, declared⟩ := Imports.mk.inj ih
    rw [itemsWithoutBodies, List.flatMap_cons, List.flatMap_cons, bindings, List.filterMap_cons,
      List.filterMap_cons, declared]
    cases i <;> rfl

namespace Accessors

namespace SourceFile

/-- The file without the bodies of functions. -/
def withoutBodies (f : SourceFile) : SourceFile := { f with items := itemsWithoutBodies f.items }

/-- Whether the path of the file is one of modules. -/
def InModules (f : SourceFile) : Prop := inModules f.modulePath = true

end SourceFile

/-! ## Structs -/

section

variable {allowed : String → Prop} {Inv : List String → Container → Prop}

/-- Whether going into modules and functions with names that are allowed keeps what holds of a scope and its
standing. -/
structure Kept (allowed : String → Prop) (Inv : List String → Container → Prop) : Prop where
  modules : ∀ {scope container name}, allowed name → Inv scope container → Inv (scope ++ [name]) container
  functions : ∀ {scope container name}, allowed name → Inv scope container →
    Inv (scope ++ [functionScope name]) .nested

mutual

/-- What holds of the scope and the standing of a list of items, and is kept, holds at every site among them. -/
theorem kept_at_itemSites (kept : Kept allowed Inv) {imports : Imports} {scope : List String}
    {container : Container} (start : Inv scope container) {s : Site} :
    (i : Item) → (∀ name ∈ i.names, allowed name) → s ∈ itemSites imports scope container i →
      Inv s.scope s.container ∧ allowed s.decl.name
  | .struct decl, names, h => by
    rw [List.mem_singleton.1 h]
    exact ⟨start, names decl.name (List.mem_singleton.2 rfl)⟩
  | .module name items, names, h =>
    kept_at_sitesIn kept (kept.modules (names name List.mem_cons_self) start) items
      (fun n mem => names n (List.mem_cons_of_mem name mem)) h
  | .function name body _, names, h =>
    kept_at_sitesIn kept (kept.functions (names name List.mem_cons_self) start) body
      (fun n mem => names n (List.mem_cons_of_mem name mem)) h
  | .implementation _ _ members, names, h => kept_at_memberSites kept start members names h
  | .typeName _, _, h | .imports _ _, _, h | .other _, _, h => absurd h List.not_mem_nil

theorem kept_at_sitesIn (kept : Kept allowed Inv) {imports : Imports} {scope : List String}
    {container : Container} (start : Inv scope container) {s : Site} :
    (is : List Item) → (∀ name ∈ itemNames is, allowed name) → s ∈ sitesIn imports scope container is →
      Inv s.scope s.container ∧ allowed s.decl.name
  | [], _, h => absurd h List.not_mem_nil
  | i :: is, names, h => by
    rcases List.mem_append.1 h with here | later
    · exact kept_at_itemSites kept start i (fun n mem => names n (List.mem_append_left _ mem)) here
    · exact kept_at_sitesIn kept start is (fun n mem => names n (List.mem_append_right _ mem)) later

theorem kept_at_memberSites (kept : Kept allowed Inv) {scope : List String} {container : Container}
    (start : Inv scope container) {s : Site} :
    (is : List Item) → (∀ name ∈ itemNames is, allowed name) → s ∈ memberSites scope is →
      Inv s.scope s.container ∧ allowed s.decl.name
  | [], _, h => absurd h List.not_mem_nil
  | .function name body inner :: is, names, h => by
    rcases List.mem_append.1 h with here | later
    · have start := kept.functions (names name (List.mem_append_left _ List.mem_cons_self)) start
      exact kept_at_sitesIn kept start body
        (fun n mem => names n (List.mem_append_left _ (List.mem_cons_of_mem name mem))) here
    · exact kept_at_memberSites kept start is (fun n mem => names n (List.mem_append_right _ mem)) later
  | .struct _ :: is, names, h | .typeName _ :: is, names, h | .module _ _ :: is, names, h
  | .implementation _ _ _ :: is, names, h | .imports _ _ :: is, names, h | .other _ :: is, names, h =>
    kept_at_memberSites kept start is (fun n mem => names n (List.mem_append_right _ mem)) h

end

/-- What holds of the paths of files, and is kept, holds at every site. -/
theorem kept_at_sites (kept : Kept (fun name => Text.isIdentifier name = true) Inv) {sources : List SourceFile}
    (named : ∀ f ∈ sources, f.Named) (start : ∀ f ∈ sources, Inv f.modulePath .module) {s : Site}
    (h : s ∈ sites sources) : Inv s.scope s.container ∧ Text.isIdentifier s.decl.name = true := by
  obtain ⟨f, listed, h⟩ := List.mem_flatMap.1 h
  exact kept_at_sitesIn kept (start f listed) f.items (named f listed) h

end

/-- All that stands in a function is nested, whatever the names. -/
theorem nested_of_mem_sitesIn {imports : Imports} {scope : List String} {items : List Item} {s : Site}
    (h : s ∈ sitesIn imports scope .nested items) : s.container = .nested := by
  have kept : Kept (fun _ => True) (fun _ container => container = .nested) :=
    ⟨fun _ nested => nested, fun _ _ => rfl⟩
  exact (kept_at_sitesIn kept rfl items (fun _ _ => trivial) h).1

/-- The scope of a struct consists of modules if no function surrounds it, and only then. -/
theorem mem_sites_inModules {sources : List SourceFile} (named : ∀ f ∈ sources, f.Named)
    (plain : ∀ f ∈ sources, f.InModules) {s : Site} (h : s ∈ sites sources) :
    inModules s.scope = true ↔ s.container = .module := by
  have kept : Kept (fun name => Text.isIdentifier name = true)
      (fun scope container => inModules scope = true ↔ container = .module) := by
    constructor
    · intro scope container name identifier standing
      rw [inModules_append, isFunctionScope_of_isIdentifier identifier, Bool.not_false, Bool.and_true]
      exact standing
    · intro scope container name _ _
      rw [inModules_append, isFunctionScope_functionScope, Bool.not_true, Bool.and_false]
      exact ⟨nofun, nofun⟩
  exact (kept_at_sites kept named (fun f listed => iff_of_true (plain f listed) rfl) h).1

theorem filter_sitesIn_nested (imports : Imports) (scope : List String) (items : List Item) :
    (sitesIn imports scope .nested items).filter (·.container = .module) = [] := by
  rw [List.filter_eq_nil_iff]
  intro s mem standing
  have nested := nested_of_mem_sitesIn mem
  rw [nested] at standing
  cases of_decide_eq_true standing

theorem filter_memberSites (scope : List String) (is : List Item) :
    (memberSites scope is).filter (·.container = .module) = [] := by
  induction is with
  | nil => rfl
  | cons i is ih =>
    cases i with
    | function name body _ =>
      rw [memberSites, List.filter_append, filter_sitesIn_nested, ih]
      rfl
    | struct _ | typeName _ | module _ _ | implementation _ _ _ | imports _ _ | other _ => exact ih

theorem memberSites_withoutBodies (scope : List String) (is : List Item) :
    memberSites scope (itemsWithoutBodies is) = [] := by
  induction is with
  | nil => rfl
  | cons i is ih => cases i <;> exact ih

mutual

theorem itemSites_withoutBodies (imports : Imports) (scope : List String) : (i : Item) →
    itemSites imports scope .module i.withoutBodies =
      (itemSites imports scope .module i).filter (·.container = .module)
  | .struct decl => rfl
  | .module name items => by
    rw [Item.withoutBodies, itemSites, itemSites, Imports.ofItems_withoutBodies]
    exact sitesIn_withoutBodies (Imports.ofItems items) (scope ++ [name]) items
  | .function name body _ => (filter_sitesIn_nested _ _ body).symm
  | .implementation _ _ members =>
    (memberSites_withoutBodies scope members).trans (filter_memberSites scope members).symm
  | .typeName _ | .imports _ _ | .other _ => rfl

theorem sitesIn_withoutBodies (imports : Imports) (scope : List String) : (is : List Item) →
    sitesIn imports scope .module (itemsWithoutBodies is) =
      (sitesIn imports scope .module is).filter (·.container = .module)
  | [] => rfl
  | i :: is => by
    rw [itemsWithoutBodies, sitesIn, sitesIn, List.filter_append, itemSites_withoutBodies imports scope i,
      sitesIn_withoutBodies imports scope is]

end

/-- Without the bodies of functions, the structs that no function surrounds are left. -/
theorem sites_withoutBodies (sources : List SourceFile) :
    sites (sources.map (·.withoutBodies)) = (sites sources).filter (·.container = .module) := by
  induction sources with
  | nil => rfl
  | cons f sources ih =>
    simp only [sites, List.map_cons, List.flatMap_cons, List.filter_append] at ih ⊢
    rw [ih]
    congr 1
    rw [SourceFile.withoutBodies, Imports.ofItems_withoutBodies]
    exact sitesIn_withoutBodies _ _ f.items

/-! ## Implementations -/

/-- The implementations that are found for types in modules alone. -/
def moduleImplementations (findings : List Finding) : List (TypeId × Path) :=
  (findings.filterMap Finding.implementation?).filter (inModules ·.1.modulePath)

theorem moduleImplementations_append (a b : List Finding) :
    moduleImplementations (a ++ b) = moduleImplementations a ++ moduleImplementations b := by
  rw [moduleImplementations, List.filterMap_append, List.filter_append]
  rfl

theorem moduleImplementations_eq_nil {findings : List Finding}
    (h : ∀ id trait, .implements id trait ∈ findings → inModules id.modulePath = false) :
    moduleImplementations findings = [] := by
  rw [moduleImplementations, List.filter_eq_nil_iff]
  intro i mem
  obtain ⟨f, found, is⟩ := List.mem_filterMap.1 mem
  cases f <;> cases is
  simp only [h _ _ found, Bool.false_eq_true, not_false_eq_true]

theorem moduleImplementations_function (imports : Imports) (scope : List String) (name : String)
    (container : Container) (body : List Item) :
    moduleImplementations (scanItems imports (scope ++ [functionScope name]) container body) = [] :=
  moduleImplementations_eq_nil fun _ _ found => inModules_of_functionScope (scope_of_implements_items body found)

theorem moduleImplementations_members (scope : List String) (is : List Item) :
    moduleImplementations (scanMembers scope is) = [] := by
  induction is with
  | nil => rfl
  | cons i is ih =>
    cases i with
    | function name body _ =>
      rw [scanMembers, moduleImplementations_append, moduleImplementations_function, ih]
      rfl
    | struct _ | typeName _ | module _ _ | implementation _ _ _ | imports _ _ | other _ => exact ih

mutual

theorem itemImplementations_withoutBodies (imports : Imports) (scope : List String) (container : Container) :
    (i : Item) → moduleImplementations (scanItem imports scope container i.withoutBodies) =
      moduleImplementations (scanItem imports scope container i)
  | .struct decl => rfl
  | .module name items => by
    rw [Item.withoutBodies, scanItem, scanItem, Imports.ofItems_withoutBodies]
    exact implementationsIn_withoutBodies (Imports.ofItems items) (scope ++ [name]) container items
  | .function name body _ => (moduleImplementations_function _ scope name .nested body).symm
  | .implementation head self members => by
    refine (moduleImplementations_append _ (scanMembers scope (itemsWithoutBodies members))).trans ?_
    refine Eq.trans ?_ (moduleImplementations_append _ (scanMembers scope members)).symm
    rw [moduleImplementations_members, moduleImplementations_members]
  | .typeName _ | .imports _ _ | .other _ => rfl

theorem implementationsIn_withoutBodies (imports : Imports) (scope : List String) (container : Container) :
    (is : List Item) → moduleImplementations (scanItems imports scope container (itemsWithoutBodies is)) =
      moduleImplementations (scanItems imports scope container is)
  | [] => rfl
  | i :: is => by
    rw [itemsWithoutBodies, scanItems, scanItems, moduleImplementations_append, moduleImplementations_append,
      itemImplementations_withoutBodies imports scope container i,
      implementationsIn_withoutBodies imports scope container is]

end

/-- What the bodies of functions implement is for types in functions. -/
theorem implementations_withoutBodies (sources : List SourceFile) :
    moduleImplementations (scan (sources.map (·.withoutBodies))) = moduleImplementations (scan sources) := by
  induction sources with
  | nil => rfl
  | cons f sources ih =>
    simp only [scan, List.map_cons, List.flatMap_cons, moduleImplementations_append] at ih ⊢
    rw [ih]
    congr 1
    rw [SourceFile.withoutBodies, Imports.ofItems_withoutBodies]
    exact implementationsIn_withoutBodies _ _ _ f.items

/-! ## Units -/

/-- The unit of a type, if one comes of its properties. -/
def unitOf? (findings : List Finding) (id : TypeId) : Option GeneratedUnit :=
  (outcome findings id (Property.ofType id (properties findings))).bind Sum.getLeft?

theorem units_eq (findings : List Finding) :
    (generateFrom findings).units = (Property.types (properties findings)).filterMap (unitOf? findings) := by
  show (outcomes findings).filterMap Sum.getLeft? = _
  rw [outcomes_eq, List.filterMap_filterMap]
  rfl

section

variable {sources : List SourceFile}

/-- A type in modules has the structs that it has without the bodies of functions. -/
theorem structsOf_withoutBodies (named : ∀ f ∈ sources, f.Named) (plain : ∀ f ∈ sources, f.InModules)
    {id : TypeId} (own : inModules id.modulePath = true) :
    structsOf (sources.map (·.withoutBodies)) id = structsOf sources id := by
  rw [structsOf, sites_withoutBodies, List.filter_filter]
  refine List.filter_congr fun s mem => ?_
  by_cases same : s.id = id
  · rw [← same] at own
    have standing := (mem_sites_inModules named plain mem).1 own
    simp only [standing, decide_true, Bool.and_true]
  · simp only [same, and_false, decide_false, Bool.false_and]

/-- The candidates of types in modules are those without the bodies of functions. -/
theorem candidates_withoutBodies (named : ∀ f ∈ sources, f.Named) (plain : ∀ f ∈ sources, f.InModules) :
    (scan (sources.map (·.withoutBodies))).flatMap Finding.candidates =
      ((scan sources).flatMap Finding.candidates).filter (inModules ·.enclosing.modulePath) := by
  rw [flatMap_candidates, flatMap_candidates, sites_withoutBodies]
  have standing : ∀ s ∈ sites sources, inModules s.scope = true ↔ s.container = .module :=
    fun s mem => mem_sites_inModules named plain mem
  generalize sites sources = ss at standing ⊢
  induction ss with
  | nil => rfl
  | cons s ss ih =>
    have rest := ih fun r mem => standing r (List.mem_cons_of_mem s mem)
    have scope {c : Candidate} (mem : c ∈ s.candidates) : c.enclosing.modulePath = s.scope :=
      congrArg TypeId.modulePath (Site.enclosing_of_mem_candidates mem)
    rw [List.flatMap_cons, List.filter_append, ← rest]
    by_cases outside : s.container = .module
    · have all : s.candidates.filter (inModules ·.enclosing.modulePath) = s.candidates :=
        List.filter_eq_self.2 fun c mem => scope mem ▸ (standing s List.mem_cons_self).2 outside
      rw [List.filter_cons_of_pos (by simpa using outside), List.flatMap_cons, all]
    · have none : s.candidates.filter (inModules ·.enclosing.modulePath) = [] :=
        List.filter_eq_nil_iff.2 fun c mem own =>
          outside ((standing s List.mem_cons_self).1 (scope mem ▸ own))
      rw [List.filter_cons_of_neg (by simpa using outside), none, List.nil_append]

theorem properties_withoutBodies (named : ∀ f ∈ sources, f.Named) (plain : ∀ f ∈ sources, f.InModules) :
    properties (scan (sources.map (·.withoutBodies))) =
      (properties (scan sources)).filter (inModules ·.enclosing.modulePath) := by
  rw [properties_filter _ fun id => inModules id.modulePath, ← candidates_withoutBodies named plain]
  rfl

/-- A type in modules has the target that it has without the bodies of functions. -/
theorem findTarget?_withoutBodies (named : ∀ f ∈ sources, f.Named) (plain : ∀ f ∈ sources, f.InModules)
    {id : TypeId} (own : inModules id.modulePath = true) :
    findTarget? (scan (sources.map (·.withoutBodies))) id = findTarget? (scan sources) id := by
  -- of the implementations those for types in modules hold the ones for the type
  have implementations (findings : List Finding) :
      (findings.filterMap Finding.implementation?).filter (·.1 == id) =
        (moduleImplementations findings).filter (·.1 == id) := by
    rw [moduleImplementations, List.filter_filter]
    refine List.filter_congr fun i _ => ?_
    cases same : i.1 == id with
    | false => rfl
    | true => rw [eq_of_beq same, own]; rfl
  rw [findTarget?_scan, findTarget?_scan, structsOf_withoutBodies named plain own, implementations,
    implementations, implementations_withoutBodies]

theorem unitOf?_withoutBodies (named : ∀ f ∈ sources, f.Named) (plain : ∀ f ∈ sources, f.InModules)
    {id : TypeId} (own : inModules id.modulePath = true) :
    unitOf? (scan (sources.map (·.withoutBodies))) id = unitOf? (scan sources) id := by
  have properties : Property.ofType id (properties (scan (sources.map (·.withoutBodies)))) =
      Property.ofType id (properties (scan sources)) := by
    rw [properties_ofType, properties_ofType, ofType_candidates, ofType_candidates,
      structsOf_withoutBodies named plain own]
  rw [unitOf?, unitOf?, outcome, outcome, findTarget?_withoutBodies named plain own, properties]

/-- A unit belongs to a type in modules. -/
theorem inModules_of_unit (named : ∀ f ∈ sources, f.Named) (plain : ∀ f ∈ sources, f.InModules)
    {u : GeneratedUnit} (mem : u ∈ (generate sources).units) : inModules u.id.modulePath = true := by
  obtain ⟨s, site, own, outside, -⟩ := exists_site_of_unit mem
  rw [← own]
  exact (mem_sites_inModules named plain site).2 outside

theorem unitOf?_of_not_inModules (named : ∀ f ∈ sources, f.Named) (plain : ∀ f ∈ sources, f.InModules)
    {id : TypeId} (known : id ∈ Property.types (properties (scan sources)))
    (inside : inModules id.modulePath = false) : unitOf? (scan sources) id = none := by
  cases made : unitOf? (scan sources) id with
  | none => rfl
  | some u =>
    have mem : u ∈ (generate sources).units := by
      rw [generate, units_eq]
      exact List.mem_filterMap.2 ⟨id, known, made⟩
    obtain ⟨made, written, left⟩ := Option.bind_eq_some_iff.1 made
    cases made with
    | inr d => cases left
    | inl v =>
      cases left
      have own := inModules_of_unit named plain mem
      rw [(outcome_unit written).1, inside] at own
      cases own

/-- The units are those of the files without the bodies of functions. -/
theorem units_withoutBodies (named : ∀ f ∈ sources, f.Named) (plain : ∀ f ∈ sources, f.InModules) :
    (generate sources).units = (generate (sources.map (·.withoutBodies))).units := by
  have outside : (Property.types (properties (scan sources))).filterMap (unitOf? (scan sources)) =
      ((Property.types (properties (scan sources))).filter (inModules ·.modulePath)).filterMap
        (unitOf? (scan sources)) := by
    rw [List.filterMap_filter]
    refine List.filterMap_congr fun id known => ?_
    split
    · rfl
    · rename_i inside
      exact unitOf?_of_not_inModules named plain known (Bool.eq_false_iff.2 inside)
  rw [generate, generate, units_eq, units_eq, outside, properties_withoutBodies named plain,
    Property.types_filter fun id => inModules id.modulePath]
  refine List.filterMap_congr fun id known => ?_
  exact (unitOf?_withoutBodies named plain (List.mem_filter.1 known).2).symm

/-- The bodies of functions do not count for units: the units are those of the files without them. Each belongs
to a struct that no function surrounds, and so does every struct of its identity. Names are identifiers in every
file that is read, see `SourceFile.named_ofText?`. -/
theorem units_of_modules (named : ∀ f ∈ sources, f.Named) (plain : ∀ f ∈ sources, f.InModules) :
    (generate sources).units = (generate (sources.map (·.withoutBodies))).units ∧
      ∀ u ∈ (generate sources).units,
        (∃ s ∈ sites (sources.map (·.withoutBodies)), s.id = u.id ∧ s.container = .module ∧
          u.emitted.name = s.decl.name) ∧
        ∀ s ∈ sites sources, s.id = u.id → s.container = .module := by
  refine ⟨units_withoutBodies named plain, fun u mem => ⟨?_, fun s site same => ?_⟩⟩
  · obtain ⟨s, site, own, outside, name⟩ := exists_site_of_unit mem
    rw [sites_withoutBodies]
    exact ⟨s, List.mem_filter.2 ⟨site, decide_eq_true outside⟩, own, outside, name⟩
  · have own := inModules_of_unit named plain mem
    rw [← same] at own
    exact (mem_sites_inModules named plain site).1 own

end

/-- A struct in a module, one of its name in a module `build`, and more of its name in a function `build`: in its
body, in a module there, and in a method of an implementation in that module. -/
theorem units_of_modules_sameNames :
    let field (name type : String) : Field :=
      ⟨[⟨⟨false, ["observable_setting"]⟩, .none⟩], name, .path false [.mk type .none]⟩
    let context : Field := ⟨[], "context", .path false [.mk "SettingsContext" .none]⟩
    let audio (f : Field) : Item := .struct ⟨[], "Audio", ⟨[], false, []⟩, .named [f, context]⟩
    let helper : Item := .implementation .inherent (.path false [.mk "Audio" .none])
      [.function "helper" [audio (field "_rate" "u32")] []]
    let sources : List SourceFile := [⟨["app"], [
      .function "build" [audio (field "_gain" "f32"), .module "deep" [audio (field "_pan" "f32"), helper]] [],
      audio (field "_volume" "f64"),
      .module "build" [audio (field "_balance" "f64")]]⟩]
    (generate sources).units.map (fun u => (u.id, u.emitted.rows.map (·.name))) =
        [(⟨["app"], "Audio"⟩, ["Volume"]), (⟨["app", "build"], "Audio"⟩, ["Balance"])] ∧
      (sites sources).map (fun s => (s.id, s.container)) =
        [(⟨["app", "build()"], "Audio"⟩, .nested), (⟨["app", "build()", "deep"], "Audio"⟩, .nested),
          (⟨["app", "build()", "deep", "helper()"], "Audio"⟩, .nested), (⟨["app"], "Audio"⟩, .module),
          (⟨["app", "build"], "Audio"⟩, .module)] ∧
      (generate sources).units = (generate (sources.map (·.withoutBodies))).units ∧
      ∀ u ∈ (generate sources).units, ∀ s ∈ sites sources, s.id = u.id → s.container = .module := by
  intro field context audio helper sources
  have named : ∀ f ∈ sources, f.Named := by
    intro f mem
    rw [List.mem_singleton.1 mem]
    exact List.all_eq_true.1 (by decide +kernel)
  have plain : ∀ f ∈ sources, f.InModules := by
    intro f mem
    rw [List.mem_singleton.1 mem]
    exact (by decide : inModules ["app"] = true)
  obtain ⟨same, outside⟩ := units_of_modules named plain
  exact ⟨by decide +kernel, by decide +kernel, same, fun u mem => (outside u mem).2⟩

end Accessors

end LiveSettings
