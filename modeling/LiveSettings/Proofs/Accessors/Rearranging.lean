import LiveSettings.Proofs.Accessors.Nesting
import LiveSettings.Proofs.Target.Bindings
import LiveSettings.Proofs.Target.Implements
import Mathlib.Data.List.Pairwise

/-!
# Imports and implementations in any place

What a module imports is known before its first struct is looked at, and where each name is bound once and one path
is opened at most, the order of the imports does not count. Implementations are added to a type when all files have
been read, and only which traits they are of counts. So imports and implementations may stand anywhere among the
items of their module, and the structs, functions and modules there may be looked at in their own order.

Results:
* `Imports.alike_of_perm`: unambiguous imports qualify alike in any order.
* `outcomes_congr`: where the same structs are accepted, implementations may be found in any order.
* `units_rearranged`: imports and implementations may stand anywhere.
* `units_rearranged_functionScope`: the order shows where a file goes by the path of a function's scope.
-/

namespace LiveSettings

/-! ## Items in another order -/

/-- Whether an item may stand anywhere in its module. -/
def Item.isMovable : Item → Bool
  | .imports _ _ | .implementation _ _ _ => true
  | .struct _ | .typeName _ | .module _ _ | .function _ _ _ | .other _ => false

/-- The same items, of which all but the movable ones keep their order. -/
structure Moved (items items' : List Item) : Prop where
  perm : items'.Perm items
  kept : items'.filter (!·.isMovable) = items.filter (!·.isMovable)

/-- The name that a binding binds. -/
def Binding.name? : Binding → Option String
  | .name n _ => some n
  | .glob _ => none

namespace Imports

/-- The names that are bound, each as often as it is. -/
def names (imports : Imports) : List String := imports.bindings.filterMap Binding.name?

/-- Whether each name is bound once, and one path is opened at most. -/
structure Unambiguous (imports : Imports) : Prop where
  distinct : imports.names.Nodup
  single : imports.globs.length ≤ 1

/-- Whether imports qualify alike. -/
structure Alike (a b : Imports) : Prop where
  declared : a.declared = b.declared
  bound : ∀ name, a.find? name = b.find? name
  opened : a.globs = b.globs
  isEmpty : a.isEmpty = b.isEmpty

variable {a b : Imports}

theorem Alike.refl (a : Imports) : a.Alike a := ⟨rfl, fun _ => rfl, rfl, rfl⟩

theorem Alike.qualify (h : a.Alike b) (params : List String) (t : Ty) : a.qualify params t = b.qualify params t := by
  have head : a.head? params = b.head? params := by
    funext absolute segments
    simp only [Imports.head?, h.declared, h.bound, h.opened]
  rw [Imports.qualify, Imports.qualify, head, h.isEmpty]

/-- Where each name is bound once, it is bound to one path. -/
theorem eq_of_bound (distinct : a.names.Nodup) {name : String} {path other : NamePath}
    (mem : .name name path ∈ a.bindings) (again : .name name other ∈ a.bindings) : path = other := by
  by_contra differ
  have apart := List.pairwise_filterMap.1 distinct
  have : Std.Symm fun x y : Binding => ∀ n, x.name? = some n → ∀ m, y.name? = some m → n ≠ m :=
    ⟨fun _ _ h m its n own => (h n own m its).symm⟩
  have twice : Binding.name name path ≠ .name name other := fun same => differ (Binding.name.inj same).2
  exact apart.forall mem again twice name rfl name rfl rfl

/-- Where each name is bound once, it stands for what it is bound to. -/
theorem find?_eq_some_iff (distinct : a.names.Nodup) {name : String} {path : NamePath} :
    a.find? name = some path ↔ .name name path ∈ a.bindings := by
  have last : a.find? name = a.bindings.reverse.findSome? (Binding.pathOf? name) := rfl
  have bound {other : NamePath} (found : a.find? name = some other) : .name name other ∈ a.bindings := by
    obtain ⟨b, mem, its⟩ := List.exists_of_findSome?_eq_some (last ▸ found)
    rw [← Binding.pathOf?_eq_some_iff.1 its]
    exact List.mem_reverse.1 mem
  refine ⟨bound, fun mem => ?_⟩
  cases found : a.find? name with
  | none =>
    have unbound := List.findSome?_eq_none_iff.1 (last ▸ found) _ (List.mem_reverse.2 mem)
    rw [Binding.pathOf?_eq_some_iff.2 rfl] at unbound
    cases unbound
  | some other => rw [eq_of_bound distinct mem (bound found)]

theorem alike_of_perm (clear : b.Unambiguous) (perm : a.bindings.Perm b.bindings) (declared : a.declared = b.declared) :
    a.Alike b := by
  have distinct : a.names.Nodup := (perm.filterMap Binding.name?).nodup_iff.2 clear.distinct
  refine ⟨declared, fun name => Option.ext fun path => ?_, ?_, ?_⟩
  · rw [find?_eq_some_iff distinct, find?_eq_some_iff clear.distinct, perm.mem_iff]
  · have opened : a.globs.Perm b.globs := perm.filterMap _
    match found : b.globs, clear.single with
    | [], _ => exact List.perm_nil.1 (found ▸ opened)
    | [path], _ => exact List.perm_singleton.1 (found ▸ opened)
  · rw [Imports.isEmpty, Imports.isEmpty, perm.isEmpty_eq]

end Imports

/-- A module in another order imports the same. -/
theorem Moved.alike {items items' : List Item} (h : Moved items items') (clear : (Imports.ofItems items).Unambiguous) :
    (Imports.ofItems items').Alike (Imports.ofItems items) := by
  refine Imports.alike_of_perm clear (h.perm.flatMap_right _) ?_
  have declared (is : List Item) :
      (Imports.ofItems is).declared = (is.filter (!·.isMovable)).filterMap Item.declared? := by
    rw [Imports.declared_ofItems, List.filterMap_filter]
    refine List.filterMap_congr fun i _ => ?_
    cases i <;> rfl
  rw [declared, declared, h.kept]

/-- Items that hold items: modules, functions, implementations and other code. -/
inductive Item.Holds : (List Item → Item) → Prop
  | module {name : String} : Holds (.module name)
  | body {name : String} {inner : List Item} : Holds (.function name · inner)
  | inner {name : String} {body : List Item} : Holds (.function name body)
  | members {head : ImplHead} {self : Ty} : Holds (.implementation head self)
  | other : Holds .other

/-- Items among which, or somewhere inside which, imports and implementations of one module have moved. -/
inductive Rearranged : List Item → List Item → Prop
  | here {items items' : List Item} (moved : Moved items items') (clear : (Imports.ofItems items).Unambiguous) :
    Rearranged items items'
  | inside {before after items items' : List Item} {holder : List Item → Item} (holds : Item.Holds holder)
      (deeper : Rearranged items items') :
    Rearranged (before ++ holder items :: after) (before ++ holder items' :: after)

namespace Accessors

/-! ## What is found without bodies -/

theorem scanMembers_withoutBodies (scope : List String) (is : List Item) :
    scanMembers scope (itemsWithoutBodies is) = [] := by
  induction is with
  | nil => rfl
  | cons i is ih => cases i <;> exact ih

/-- What is accepted in an item, the bodies of functions apart. -/
def acceptedIn (imports : Imports) (scope : List String) (i : Item) : List (Target × List Candidate) :=
  (itemSites imports scope .module i.withoutBodies).filterMap Site.accepted?

/-- The implementations in an item, the bodies of functions apart. -/
def implementationsIn (imports : Imports) (scope : List String) (i : Item) : List (TypeId × Path) :=
  (scanItem imports scope .module i.withoutBodies).filterMap Finding.implementation?

section

variable (imports : Imports) (scope : List String) (items : List Item)

theorem accepted_sitesIn : (sitesIn imports scope .module (itemsWithoutBodies items)).filterMap Site.accepted? =
    items.flatMap (acceptedIn imports scope) := by
  induction items with
  | nil => rfl
  | cons i items ih => rw [itemsWithoutBodies, sitesIn, List.filterMap_append, ih, List.flatMap_cons, acceptedIn]

theorem implementations_scanItems :
    (scanItems imports scope .module (itemsWithoutBodies items)).filterMap Finding.implementation? =
      items.flatMap (implementationsIn imports scope) := by
  induction items with
  | nil => rfl
  | cons i items ih =>
    rw [itemsWithoutBodies, scanItems, List.filterMap_append, ih, List.flatMap_cons, implementationsIn]

end

section

variable (scope : List String)

/-- What is accepted of a struct is the same under imports that qualify alike. -/
theorem acceptedIn_congr {a b : Imports} (alike : a.Alike b) : acceptedIn a scope = acceptedIn b scope := by
  funext i
  cases i with
  | struct decl =>
    have same : decl.qualified a = decl.qualified b := by
      unfold Struct.qualified
      simp only [alike.qualify]
    have accepted : Site.accepted? ⟨a, scope, .module, decl⟩ = Site.accepted? ⟨b, scope, .module, decl⟩ := by
      rw [Site.accepted?, Site.accepted?, Site.declaration, Site.declaration, same]
      rfl
    simp only [acceptedIn, Item.withoutBodies, itemSites, List.filterMap_cons, accepted]
  | typeName _ | module _ _ | function _ _ _ | implementation _ _ _ | imports _ _ | other _ => rfl

/-- No imports have a part in implementations. -/
theorem implementationsIn_congr (a b : Imports) : implementationsIn a scope = implementationsIn b scope := by
  have struct (imports : Imports) (decl : Struct) : implementationsIn imports scope (.struct decl) = [] := by
    refine List.filterMap_eq_nil_iff.2 fun f mem => ?_
    cases f with
    | implements id trait => exact absurd mem not_implements_of_struct
    | target _ _ | refused _ _ | derived _ | qualified _ => rfl
  funext i
  cases i with
  | struct decl => rw [struct, struct]
  | typeName _ | module _ _ | function _ _ _ | implementation _ _ _ | imports _ _ | other _ => rfl

theorem acceptedIn_implementation (imports : Imports) (head : ImplHead) (self : Ty) (members : List Item) :
    acceptedIn imports scope (.implementation head self members) = [] := by
  rw [acceptedIn, Item.withoutBodies, itemSites, memberSites_withoutBodies, List.filterMap_nil]

theorem acceptedIn_movable (imports : Imports) {i : Item} (movable : i.isMovable = true) :
    acceptedIn imports scope i = [] := by
  cases i with
  | implementation head self members => exact acceptedIn_implementation scope imports head self members
  | imports _ _ => rfl
  | struct _ | typeName _ | module _ _ | function _ _ _ | other _ => cases movable

end

/-! ## Items in which the same is found -/

/-- The same is found in items, implementations in any order. -/
structure Same (items items' : List Item) : Prop where
  imports : (Imports.ofItems items').Alike (Imports.ofItems items)
  accepted : ∀ imports scope, items'.flatMap (acceptedIn imports scope) = items.flatMap (acceptedIn imports scope)
  implementations : ∀ imports scope,
    (items'.flatMap (implementationsIn imports scope)).Perm (items.flatMap (implementationsIn imports scope))
  names : ∀ name ∈ itemNames items', name ∈ itemNames items

variable {items items' : List Item}

/-- The same is found if imports and implementations have moved. -/
theorem same_of_moved (moved : Moved items items') (clear : (Imports.ofItems items).Unambiguous) :
    Same items items' := by
  have structs (imports : Imports) (scope : List String) (is : List Item) :
      is.flatMap (acceptedIn imports scope) = (is.filter (!·.isMovable)).flatMap (acceptedIn imports scope) := by
    induction is with
    | nil => rfl
    | cons i is ih =>
      rw [List.flatMap_cons, ih, List.filter_cons]
      cases movable : i.isMovable with
      | false => rw [Bool.not_false, if_pos rfl, List.flatMap_cons]
      | true =>
        rw [acceptedIn_movable scope imports movable, List.nil_append, Bool.not_true, if_neg Bool.false_ne_true]
  refine ⟨moved.alike clear, fun imports scope => ?_, fun _ _ => moved.perm.flatMap_right _, fun name mem => ?_⟩
  · rw [structs imports scope items', moved.kept, ← structs]
  · obtain ⟨i, inside, own⟩ := mem_itemNames.1 mem
    exact mem_itemNames.2 ⟨i, moved.perm.mem_iff.1 inside, own⟩

/-- The same is found around an item in which the same is found. -/
theorem same_of_item (before after : List Item) {i i' : Item} (bindings : i'.bindings = i.bindings)
    (declared : i'.declared? = i.declared?)
    (accepted : ∀ imports scope, acceptedIn imports scope i' = acceptedIn imports scope i)
    (implementations : ∀ imports scope,
      (implementationsIn imports scope i').Perm (implementationsIn imports scope i))
    (names : ∀ name ∈ i'.names, name ∈ i.names) : Same (before ++ i :: after) (before ++ i' :: after) := by
  have imports : Imports.ofItems (before ++ i' :: after) = Imports.ofItems (before ++ i :: after) := by
    have parts (is : List Item) : Imports.ofItems is = ⟨is.flatMap Item.bindings, is.filterMap Item.declared?⟩ := rfl
    simp only [parts, List.flatMap_append, List.flatMap_cons, List.filterMap_append, List.filterMap_cons, bindings,
      declared]
  refine ⟨imports ▸ .refl _, fun imports scope => ?_, fun imports scope => ?_, fun name mem => ?_⟩
  · rw [List.flatMap_append, List.flatMap_append, List.flatMap_cons, List.flatMap_cons, accepted]
  · rw [List.flatMap_append, List.flatMap_append, List.flatMap_cons, List.flatMap_cons]
    exact ((implementations imports scope).append_right _).append_left _
  · obtain ⟨j, inside, own⟩ := mem_itemNames.1 mem
    rw [mem_itemNames]
    rcases List.mem_append.1 inside with front | inside
    · exact ⟨j, List.mem_append_left _ front, own⟩
    · rcases List.mem_cons.1 inside with rfl | back
      · exact ⟨i, List.mem_append_right _ List.mem_cons_self, names name own⟩
      · exact ⟨j, List.mem_append_right _ (List.mem_cons_of_mem i back), own⟩

theorem Same.cons_names (h : Same items items') (name : String) :
    ∀ n ∈ name :: itemNames items', n ∈ name :: itemNames items :=
  fun _ mem => List.mem_cons.2 ((List.mem_cons.1 mem).imp_right (h.names _))

/-- What is accepted among items in which the same is found. -/
theorem Same.accepted_ofItems (h : Same items items') (scope : List String) :
    (sitesIn (Imports.ofItems (itemsWithoutBodies items')) scope .module (itemsWithoutBodies items')).filterMap
        Site.accepted? =
      (sitesIn (Imports.ofItems (itemsWithoutBodies items)) scope .module (itemsWithoutBodies items)).filterMap
        Site.accepted? := by
  rw [accepted_sitesIn, accepted_sitesIn, Imports.ofItems_withoutBodies, Imports.ofItems_withoutBodies,
    acceptedIn_congr scope h.imports]
  exact h.accepted _ scope

/-- The implementations among items in which the same is found. -/
theorem Same.implementations_ofItems (h : Same items items') (imports imports' : Imports) (scope : List String) :
    ((scanItems imports' scope .module (itemsWithoutBodies items')).filterMap Finding.implementation?).Perm
      ((scanItems imports scope .module (itemsWithoutBodies items)).filterMap Finding.implementation?) := by
  rw [implementations_scanItems, implementations_scanItems, implementationsIn_congr scope imports' imports]
  exact h.implementations imports scope

/-- The same is found in items that are rearranged. -/
theorem same_of_rearranged (h : Rearranged items items') : Same items items' := by
  induction h with
  | here moved clear => exact same_of_moved moved clear
  | inside holds deeper ih =>
    cases holds with
    | @module name =>
      exact same_of_item _ _ rfl rfl (fun _ scope => ih.accepted_ofItems (scope ++ [name]))
        (fun _ scope => ih.implementations_ofItems _ _ (scope ++ [name])) (ih.cons_names name)
    | @body name _ =>
      exact same_of_item _ _ rfl rfl (fun _ _ => rfl) (fun _ _ => .refl _) (ih.cons_names name)
    | inner => exact same_of_item _ _ rfl rfl (fun _ _ => rfl) (fun _ _ => .refl _) fun _ mem => mem
    | members =>
      refine same_of_item _ _ rfl rfl (fun imports scope => ?_) (fun imports scope => ?_) ih.names
      · rw [acceptedIn_implementation, acceptedIn_implementation]
      · simp only [implementationsIn, Item.withoutBodies, scanItem, scanMembers_withoutBodies]
        exact .refl _
    | other => exact same_of_item _ _ rfl rfl (fun _ _ => rfl) (fun _ _ => .refl _) fun _ mem => mem

/-! ## Units -/

/-- Implementations in another order give the same code. -/
theorem emit_foldl {is is' : List (TypeId × Path)} (perm : is'.Perm is) (t : Target) (ps : List Property) :
    emit (is'.foldl (fun t i => t.addCapability i.2) t) ps = emit (is.foldl (fun t i => t.addCapability i.2) t) ps := by
  obtain ⟨-, name, generics, container, context⟩ := foldl_addCapability is t
  obtain ⟨-, name', generics', container', context'⟩ := foldl_addCapability is' t
  refine emit_congr ps (name'.trans name.symm) (generics'.trans generics.symm) (container'.trans container.symm)
    (context'.trans context.symm) ?_
  rw [Target.declares_foldl, Target.declares_foldl, perm.any_eq]

section

variable {sources sources' : List SourceFile}

/-- Where the same is accepted, implementations may be found in any order. -/
theorem outcomes_congr (accepted : (sites sources').filterMap Site.accepted? = (sites sources).filterMap Site.accepted?)
    (implementations : ((scan sources').filterMap Finding.implementation?).Perm
      ((scan sources).filterMap Finding.implementation?)) : outcomes (scan sources') = outcomes (scan sources) := by
  have found (ss : List SourceFile) :
      (scan ss).flatMap Finding.candidates = ((sites ss).filterMap Site.accepted?).flatMap (·.2) :=
    flatMap_targets ss (·.2)
  have properties : properties (scan sources') = properties (scan sources) := by
    rw [Accessors.properties, Accessors.properties, candidates, candidates, found, found, accepted]
  have each (id : TypeId) (ps : List Property) : outcome (scan sources') id ps = outcome (scan sources) id ps := by
    rw [outcome, outcome, findTarget?, findTarget?, filterMap_target?, filterMap_target?, accepted, Option.map_map,
      Option.map_map]
    congr 1
    funext t
    simp only [Function.comp_apply, emit_foldl (implementations.filter (·.1 == id)) t ps]
  rw [outcomes, outcomes, properties]
  simp only [each]

variable {front back : List SourceFile} {path : List String}

/-- Imports and implementations may stand anywhere in their module: where each name is bound once and one path is
opened at most, the units are the same, in the same order. -/
theorem units_rearranged (named : ∀ f ∈ front ++ ⟨path, items⟩ :: back, f.Named)
    (plain : ∀ f ∈ front ++ ⟨path, items⟩ :: back, f.InModules) (h : Rearranged items items') :
    (generate (front ++ ⟨path, items'⟩ :: back)).units = (generate (front ++ ⟨path, items⟩ :: back)).units := by
  have same := same_of_rearranged h
  have named' : ∀ f ∈ front ++ ⟨path, items'⟩ :: back, f.Named := by
    obtain ⟨before, here, after⟩ := List.forall_mem_append.1 named |>.imp_right List.forall_mem_cons.1
    exact List.forall_mem_append.2 ⟨before, List.forall_mem_cons.2 ⟨fun n mem => here n (same.names n mem), after⟩⟩
  have plain' : ∀ f ∈ front ++ ⟨path, items'⟩ :: back, f.InModules := by
    obtain ⟨before, here, after⟩ := List.forall_mem_append.1 plain |>.imp_right List.forall_mem_cons.1
    exact List.forall_mem_append.2 ⟨before, List.forall_mem_cons.2 ⟨here, after⟩⟩
  rw [units_withoutBodies named' plain', units_withoutBodies named plain]
  have unchanged : outcomes (scan ((front ++ ⟨path, items'⟩ :: back).map (·.withoutBodies))) =
      outcomes (scan ((front ++ ⟨path, items⟩ :: back).map (·.withoutBodies))) := by
    refine outcomes_congr ?_ ?_
    · simp only [sites, List.map_append, List.map_cons, List.flatMap_append, List.flatMap_cons,
        List.filterMap_append, SourceFile.withoutBodies, same.accepted_ofItems path]
    · simp only [scan, List.map_append, List.map_cons, List.flatMap_append, List.flatMap_cons,
        List.filterMap_append, SourceFile.withoutBodies]
      exact ((same.implementations_ofItems _ _ path).append_right _).append_left _
  simp only [generate, generateFrom, unchanged]

end

/-- In a module inside another, imports move behind the struct that needs them, and an implementation moves in front
of it. -/
theorem units_rearranged_inner :
    let field : Field :=
      ⟨[⟨⟨false, ["observable_setting"]⟩, .none⟩], "_fade", .path false [.mk "Span" .none]⟩
    let context : Field := ⟨[], "context", .path false [.mk "SettingsContext" .none]⟩
    let audio : Item := .struct ⟨[], "Audio", ⟨[], false, []⟩, .named [field, context]⟩
    let span : Item := .imports false (.path "std" (.path "time" (.rename "Duration" "Span")))
    let opened : Item := .imports false (.path "uuid" .glob)
    let implemented : Item :=
      .implementation (.positive ⟨false, [.mk "NotifyPropertyChanged" .none]⟩) (.path false [.mk "Audio" .none]) []
    let items : List Item := [.module "sound" [span, opened, audio, implemented], .typeName "Rate"]
    let items' : List Item := [.module "sound" [implemented, audio, opened, span], .typeName "Rate"]
    Rearranged items items' ∧
      (generate [⟨["app"], items⟩]).units.map (fun u => (u.id, u.emitted.rows.map (·.name), u.emitted.notifies)) =
        [(⟨["app", "sound"], "Audio"⟩, ["Fade"], false)] ∧
      (generate [⟨["app"], items'⟩]).units = (generate [⟨["app"], items⟩]).units := by
  intro field context audio span opened implemented items items'
  have perm : [implemented, audio, opened, span].Perm [span, opened, audio, implemented] :=
    List.reverse_perm [span, opened, audio, implemented]
  have clear : (Imports.ofItems [span, opened, audio, implemented]).Unambiguous := ⟨by decide, by decide⟩
  have rearranged : Rearranged items items' :=
    @Rearranged.inside [] [.typeName "Rate"] _ _ _ .module (.here ⟨perm, rfl⟩ clear)
  have named : ∀ f ∈ [(⟨["app"], items⟩ : SourceFile)], f.Named := by
    intro f mem
    rw [List.mem_singleton.1 mem]
    exact List.all_eq_true.1 (by decide +kernel)
  have plain : ∀ f ∈ [(⟨["app"], items⟩ : SourceFile)], f.InModules := by
    intro f mem
    rw [List.mem_singleton.1 mem]
    exact (by decide : inModules ["app"] = true)
  exact ⟨rearranged, by decide +kernel, @units_rearranged items items' [] [] ["app"] named plain rearranged⟩

/-- A file goes by the path of the scope inside a function `build`. Two implementations with methods of this name
change places, and with them the rows that the structs in the methods add to the type of the file. -/
theorem units_rearranged_functionScope :
    let field (name : String) : Field :=
      ⟨[⟨⟨false, ["observable_setting"]⟩, .none⟩], name, .path false [.mk "f64" .none]⟩
    let context : Field := ⟨[], "context", .path false [.mk "SettingsContext" .none]⟩
    let audio (name : String) : Item := .struct ⟨[], "Audio", ⟨[], false, []⟩, .named [field name, context]⟩
    let build (type name : String) : Item :=
      .implementation .inherent (.path false [.mk type .none]) [.function "build" [audio name] []]
    let items : List Item := [build "Left" "_left", build "Right" "_right"]
    let items' : List Item := [build "Right" "_right", build "Left" "_left"]
    let sources (items : List Item) : List SourceFile := [⟨["app", "build()"], [audio "_volume"]⟩, ⟨["app"], items⟩]
    Rearranged items items' ∧
      (generate (sources items)).units.map (fun u => (u.id, u.emitted.rows.map (·.name))) =
        [(⟨["app", "build()"], "Audio"⟩, ["Volume", "Left", "Right"])] ∧
      (generate (sources items')).units.map (fun u => (u.id, u.emitted.rows.map (·.name))) =
        [(⟨["app", "build()"], "Audio"⟩, ["Volume", "Right", "Left"])] ∧
      (generate (sources items')).units ≠ (generate (sources items)).units := by
  intro field context audio build items items' sources
  have before : (generate (sources items)).units.map (fun u => (u.id, u.emitted.rows.map (·.name))) =
      [(⟨["app", "build()"], "Audio"⟩, ["Volume", "Left", "Right"])] := by decide +kernel
  have behind : (generate (sources items')).units.map (fun u => (u.id, u.emitted.rows.map (·.name))) =
      [(⟨["app", "build()"], "Audio"⟩, ["Volume", "Right", "Left"])] := by decide +kernel
  refine ⟨.here ⟨.swap .., rfl⟩ ⟨by decide, by decide⟩, before, behind, fun same => ?_⟩
  rw [same, before] at behind
  exact absurd behind (by decide)

end Accessors

end LiveSettings
