import LiveSettings.Target.Imports
import Mathlib.Data.List.Basic

/-!
# What the imports of a module bring

An import that holds groups stands for several imports without any, each of which binds one name, opens one path or
does neither. Of the imports that bind a name the last counts. A name that none binds may be found below a path that
an import opens: below the first where this gives a native type.

Results:
* `Imports.ofItems_ungrouped`: groups are the same as separate imports.
* `Imports.find?_iff`: the last import that binds a name counts.
* `Imports.head?_iff`: what the first name of a path stands for.
-/

namespace LiveSettings

/-! ## Imports without groups -/

mutual

/-- The imports without groups that an import stands for. -/
def UseTree.leaves : UseTree → List UseTree
  | .path name tree => tree.leaves.map (.path name)
  | .group trees => treeLeaves trees
  | .name name => [.name name]
  | .rename name newName => [.rename name newName]
  | .glob => [.glob]

def treeLeaves : List UseTree → List UseTree
  | [] => []
  | t :: ts => t.leaves ++ treeLeaves ts

end

/-- The import holds no group. -/
def UseTree.isSingle : UseTree → Bool
  | .path _ tree => tree.isSingle
  | .group _ => false
  | .name _ | .rename _ _ | .glob => true

mutual

theorem UseTree.isSingle_of_leaf : (tree : UseTree) → ∀ leaf ∈ tree.leaves, leaf.isSingle = true
  | .path name tree, leaf, mem => by
    obtain ⟨inner, inside, rfl⟩ := List.mem_map.1 mem
    exact tree.isSingle_of_leaf inner inside
  | .group trees, leaf, mem => isSingle_of_treeLeaf trees leaf mem
  | .name _, leaf, mem | .rename _ _, leaf, mem | .glob, leaf, mem => by
    rw [List.mem_singleton.1 mem]
    rfl

theorem isSingle_of_treeLeaf : (trees : List UseTree) → ∀ leaf ∈ treeLeaves trees, leaf.isSingle = true
  | t :: ts, leaf, mem => (List.mem_append.1 mem).elim (t.isSingle_of_leaf leaf) (isSingle_of_treeLeaf ts leaf)

end

mutual

/-- The imports without groups bind what the import binds, in the same order. -/
theorem UseTree.bindings_leaves (path : NamePath) : (tree : UseTree) →
    tree.leaves.flatMap (·.bindings path) = tree.bindings path
  | .path name tree => by
    rw [UseTree.leaves, List.flatMap_map, UseTree.bindings, ← tree.bindings_leaves (path.push name)]
    rfl
  | .group trees => treeBindings_leaves path trees
  | .name _ | .rename _ _ | .glob => List.flatMap_singleton _ _

theorem treeBindings_leaves (path : NamePath) : (trees : List UseTree) →
    (treeLeaves trees).flatMap (·.bindings path) = treeBindings path trees
  | [] => rfl
  | t :: ts => by
    rw [treeLeaves, List.flatMap_append, t.bindings_leaves path, treeBindings_leaves path ts, treeBindings]

end

/-- The items that an item stands for: imports without groups, or the item itself. -/
def Item.separate : Item → List Item
  | .imports absolute tree => tree.leaves.map (.imports absolute)
  | i => [i]

/-- The items with separate imports in place of groups. -/
def ungrouped (items : List Item) : List Item := items.flatMap Item.separate

/-- An import without groups, or another item. -/
def Item.isSingle : Item → Bool
  | .imports _ tree => tree.isSingle
  | _ => true

theorem Item.isSingle_of_ungrouped {items : List Item} {i : Item} (h : i ∈ ungrouped items) : i.isSingle = true := by
  obtain ⟨j, -, mem⟩ := List.mem_flatMap.1 h
  cases j with
  | imports absolute tree =>
    obtain ⟨leaf, inside, rfl⟩ := List.mem_map.1 mem
    exact tree.isSingle_of_leaf leaf inside
  | struct _ | typeName _ | module _ _ | function _ _ _ | implementation _ _ _ | other _ =>
    rw [List.mem_singleton.1 mem]
    rfl

/-- The bindings of an item. -/
def Item.bindings : Item → List Binding
  | .imports absolute tree => tree.bindings ⟨absolute, []⟩
  | _ => []

/-- The type that an item declares. -/
def Item.declared? : Item → Option String
  | .struct decl => some decl.name
  | .typeName name => some name
  | _ => none

namespace Imports

theorem bindings_ofItems (items : List Item) : (ofItems items).bindings = items.flatMap Item.bindings := rfl

theorem declared_ofItems (items : List Item) : (ofItems items).declared = items.filterMap Item.declared? := rfl

/-- Groups are the same as separate imports. -/
theorem ofItems_ungrouped (items : List Item) : ofItems (ungrouped items) = ofItems items := by
  have bindings : (ungrouped items).flatMap Item.bindings = items.flatMap Item.bindings := by
    rw [ungrouped, List.flatMap_assoc]
    refine List.flatMap_congr fun i _ => ?_
    cases i with
    | imports absolute tree =>
      rw [Item.separate, List.flatMap_map]
      exact tree.bindings_leaves ⟨absolute, []⟩
    | struct _ | typeName _ | module _ _ | function _ _ _ | implementation _ _ _ | other _ => rfl
  have declared : (ungrouped items).filterMap Item.declared? = items.filterMap Item.declared? := by
    rw [ungrouped, List.filterMap_flatMap, List.filterMap_eq_flatMap_toList]
    refine List.flatMap_congr fun i _ => ?_
    cases i with
    | imports absolute tree =>
      refine List.filterMap_eq_nil_iff.2 fun j mem => ?_
      obtain ⟨leaf, -, rfl⟩ := List.mem_map.1 mem
      rfl
    | struct _ | typeName _ | module _ _ | function _ _ _ | implementation _ _ _ | other _ => rfl
  have parts (is : List Item) : ofItems is = ⟨is.flatMap Item.bindings, is.filterMap Item.declared?⟩ := rfl
  rw [parts, parts, bindings, declared]

end Imports

/-! ## What an import brings -/

/-- An import without groups, below a path, binds a name to a path. -/
inductive UseTree.Binds : NamePath → UseTree → String → NamePath → Prop
  | name {front : NamePath} {name : String} (plain : name ≠ "self") :
    Binds front (.name name) name (front.push name)
  /-- The module itself goes by its own name. -/
  | self {front : NamePath} {last : String} (named : front.names.getLast? = some last) :
    Binds front (.name "self") last front
  | renamed {front : NamePath} {name newName : String} (plain : name ≠ "self") (used : newName ≠ "_") :
    Binds front (.rename name newName) newName (front.push name)
  | selfRenamed {front : NamePath} {newName : String} (used : newName ≠ "_") :
    Binds front (.rename "self" newName) newName front
  | within {front path : NamePath} {step name : String} {tree : UseTree} (h : Binds (front.push step) tree name path) :
    Binds front (.path step tree) name path

/-- An import without groups, below a path, opens a path. -/
inductive UseTree.Opens : NamePath → UseTree → NamePath → Prop
  | glob {front : NamePath} : Opens front .glob front
  | within {front path : NamePath} {step : String} {tree : UseTree} (h : Opens (front.push step) tree path) :
    Opens front (.path step tree) path

/-- An item binds a name to a path. -/
inductive Item.Binds : Item → String → NamePath → Prop
  | imports {absolute : Bool} {tree : UseTree} {name : String} {path : NamePath}
    (h : tree.Binds ⟨absolute, []⟩ name path) : Binds (.imports absolute tree) name path

/-- An item opens a path. -/
inductive Item.Opens : Item → NamePath → Prop
  | imports {absolute : Bool} {tree : UseTree} {path : NamePath} (h : tree.Opens ⟨absolute, []⟩ path) :
    Opens (.imports absolute tree) path

/-- An item declares a type. -/
inductive Item.Declares : Item → String → Prop
  | struct {decl : Struct} : Declares (.struct decl) decl.name
  | typeName {name : String} : Declares (.typeName name) name

namespace UseTree

/-- An import without groups binds one name, opens one path or does neither. -/
theorem length_bindings (front : NamePath) : (tree : UseTree) → tree.isSingle = true →
    (tree.bindings front).length ≤ 1
  | .path step tree, single => tree.length_bindings (front.push step) single
  | .name n, _ => by
    rw [bindings]
    split
    · cases front.names.getLast? <;> simp
    · exact Nat.le_refl 1
  | .rename n newName, _ => by
    rw [bindings]
    split
    · exact Nat.zero_le 1
    · exact Nat.le_refl 1
  | .glob, _ => Nat.le_refl 1
  | .group trees, single => nomatch single

theorem binds_name_iff {bound : String} {path front : NamePath} {n : String} :
    (name n).Binds front bound path ↔ .name bound path ∈ (name n).bindings front := by
  rw [bindings]
  constructor
  · intro h
    cases h with
    | name plain =>
      rw [if_neg plain]
      exact List.mem_singleton_self _
    | self named =>
      rw [if_pos rfl, named]
      exact List.mem_singleton_self _
  · intro mem
    split at mem
    · rename_i own
      subst own
      obtain ⟨last, named, same⟩ := Option.map_eq_some_iff.1 (Option.mem_toList.1 mem)
      cases same
      exact .self named
    · rename_i plain
      cases List.mem_singleton.1 mem
      exact .name plain

theorem binds_rename_iff {bound : String} {path front : NamePath} {n newName : String} :
    (rename n newName).Binds front bound path ↔ .name bound path ∈ (rename n newName).bindings front := by
  rw [bindings]
  constructor
  · intro h
    cases h with
    | renamed plain used =>
      rw [if_neg used, if_neg plain]
      exact List.mem_singleton_self _
    | selfRenamed used =>
      rw [if_neg used, if_pos rfl]
      exact List.mem_singleton_self _
  · intro mem
    split at mem
    · cases mem
    · rename_i used
      cases List.mem_singleton.1 mem
      split
      · rename_i own
        subst own
        exact .selfRenamed used
      · rename_i plain
        exact .renamed plain used

theorem binds_iff {bound : String} {path : NamePath} (front : NamePath) : (tree : UseTree) →
    tree.isSingle = true → (tree.Binds front bound path ↔ .name bound path ∈ tree.bindings front)
  | .path step tree, single => by
    rw [bindings, ← tree.binds_iff (front.push step) single]
    exact ⟨fun | .within h => h, .within⟩
  | .name _, _ => binds_name_iff
  | .rename _ _, _ => binds_rename_iff
  | .glob, _ => ⟨nofun, fun mem => nomatch List.mem_singleton.1 mem⟩
  | .group trees, single => nomatch single

theorem opens_iff {path : NamePath} (front : NamePath) : (tree : UseTree) → tree.isSingle = true →
    (tree.Opens front path ↔ .glob path ∈ tree.bindings front)
  | .path step tree, single => by
    rw [bindings, ← tree.opens_iff (front.push step) single]
    exact ⟨fun | .within h => h, .within⟩
  | .name n, _ => by
    rw [bindings]
    refine iff_of_false nofun fun mem => ?_
    split at mem
    · obtain ⟨last, -, same⟩ := Option.map_eq_some_iff.1 (Option.mem_toList.1 mem)
      cases same
    · cases List.mem_singleton.1 mem
  | .rename n newName, _ => by
    rw [bindings]
    refine iff_of_false nofun fun mem => ?_
    split at mem
    · cases mem
    · cases List.mem_singleton.1 mem
  | .glob, _ => by
    constructor
    · intro h
      cases h with
      | glob => exact List.mem_singleton_self _
    · intro mem
      cases List.mem_singleton.1 mem
      exact .glob
  | .group trees, single => nomatch single

end UseTree

namespace Item

theorem length_bindings {i : Item} (single : i.isSingle = true) : i.bindings.length ≤ 1 := by
  cases i with
  | imports absolute tree => exact tree.length_bindings ⟨absolute, []⟩ single
  | struct _ | typeName _ | module _ _ | function _ _ _ | implementation _ _ _ | other _ => exact Nat.zero_le 1

theorem binds_iff {i : Item} (single : i.isSingle = true) {name : String} {path : NamePath} :
    i.Binds name path ↔ .name name path ∈ i.bindings := by
  cases i with
  | imports absolute tree =>
    refine Iff.trans ⟨fun | .imports h => h, .imports⟩ (tree.binds_iff ⟨absolute, []⟩ single)
  | struct _ | typeName _ | module _ _ | function _ _ _ | implementation _ _ _ | other _ =>
    exact iff_of_false nofun List.not_mem_nil

theorem opens_iff {i : Item} (single : i.isSingle = true) {path : NamePath} :
    i.Opens path ↔ .glob path ∈ i.bindings := by
  cases i with
  | imports absolute tree =>
    refine Iff.trans ⟨fun | .imports h => h, .imports⟩ (tree.opens_iff ⟨absolute, []⟩ single)
  | struct _ | typeName _ | module _ _ | function _ _ _ | implementation _ _ _ | other _ =>
    exact iff_of_false nofun List.not_mem_nil

theorem declares_iff (i : Item) (name : String) : i.Declares name ↔ i.declared? = some name := by
  cases i with
  | struct decl => exact ⟨fun | .struct => rfl, fun h => Option.some.inj h ▸ .struct⟩
  | typeName n => exact ⟨fun | .typeName => rfl, fun h => Option.some.inj h ▸ .typeName⟩
  | module _ _ | function _ _ _ | implementation _ _ _ | imports _ _ | other _ => exact iff_of_false nofun nofun

end Item

/-! ## What the items of a module bring -/

/-- The last item that binds the name binds it to the path. -/
def BoundTo (items : List Item) (name : String) (path : NamePath) : Prop :=
  ∃ before i after, ungrouped items = before ++ i :: after ∧ i.Binds name path ∧
    ∀ j ∈ after, ∀ other, ¬j.Binds name other

/-- The name with its arguments, below the path, is a native type. -/
def NativeBelow (path : NamePath) (s : Segment) : Prop :=
  (NativeKind.lookup? (.path path.absolute (path.names.map (Segment.mk · .none) ++ [s]))).isSome = true

instance (path : NamePath) (s : Segment) : Decidable (NativeBelow path s) := inferInstanceAs (Decidable (_ = true))

/-- The first path that the items open and that has a native type of this name below it. -/
def OpenedTo (items : List Item) (s : Segment) (path : NamePath) : Prop :=
  ∃ before i after, ungrouped items = before ++ i :: after ∧ i.Opens path ∧ NativeBelow path s ∧
    ∀ j ∈ before, ∀ other, j.Opens other → ¬NativeBelow other s

/-- What the first name of a path stands for, in a module with these items and below these type parameters. -/
inductive StandsFor (items : List Item) (params : List String) : List Segment → NamePath → Prop
  | bound {s : Segment} {ss : List Segment} {path : NamePath} (free : s.name ∉ params)
    (undeclared : ∀ i ∈ items, ¬i.Declares s.name) (bound : BoundTo items s.name path) :
    StandsFor items params (s :: ss) path
  | opened {s : Segment} {path : NamePath} (free : s.name ∉ params) (undeclared : ∀ i ∈ items, ¬i.Declares s.name)
    (unbound : ∀ other, ¬BoundTo items s.name other) (opened : OpenedTo items s path) :
    StandsFor items params [s] (path.push s.name)

/-- What a binding binds a name to. -/
def Binding.pathOf? (name : String) : Binding → Option NamePath
  | .name n path => if n = name then some path else none
  | .glob _ => none

/-- The path that a binding opens. -/
def Binding.opened? : Binding → Option NamePath
  | .glob path => some path
  | .name _ _ => none

theorem Binding.pathOf?_eq_some_iff {name : String} {path : NamePath} {b : Binding} :
    b.pathOf? name = some path ↔ b = .name name path := by
  cases b with
  | name n p => simp [pathOf?]
  | glob p => simp [pathOf?]

namespace Imports

section

variable {i : Item} {items : List Item} {name : String} {path : NamePath}

/-- What an item without groups binds a name to. -/
theorem findSome?_bindings (single : i.isSingle = true) :
    i.bindings.reverse.findSome? (Binding.pathOf? name) = some path ↔ i.Binds name path := by
  rw [Item.binds_iff single]
  match i.bindings, Item.length_bindings single with
  | [], _ => exact iff_of_false nofun List.not_mem_nil
  | [b], _ =>
    have one : [b].reverse.findSome? (Binding.pathOf? name) = b.pathOf? name := by
      rw [List.reverse_singleton, List.findSome?_cons]
      cases b.pathOf? name <;> rfl
    rw [one, Binding.pathOf?_eq_some_iff, List.mem_singleton, eq_comm]
  | _ :: _ :: _, long => simp at long

theorem findSome?_bindings_eq_none (single : i.isSingle = true) :
    i.bindings.reverse.findSome? (Binding.pathOf? name) = none ↔ ∀ other, ¬i.Binds name other := by
  rw [Option.eq_none_iff_forall_ne_some]
  exact forall_congr' fun other => not_congr (findSome?_bindings single)

/-- What an item without groups opens. -/
theorem find?_opened (single : i.isSingle = true) {p : NamePath → Bool} :
    (i.bindings.filterMap Binding.opened?).find? p = some path ↔ i.Opens path ∧ p path = true := by
  rw [Item.opens_iff single]
  match i.bindings, Item.length_bindings single with
  | [], _ => simp
  | [b], _ =>
    cases b with
    | name n other => simp [Binding.opened?]
    | glob other =>
      have one : [Binding.glob other].filterMap Binding.opened? = [other] := rfl
      rw [one, List.mem_singleton, Binding.glob.injEq]
      constructor
      · intro found
        obtain rfl := List.mem_singleton.1 (List.mem_of_find?_eq_some found)
        exact ⟨rfl, List.find?_some found⟩
      · rintro ⟨rfl, holds⟩
        exact List.find?_cons_of_pos holds
  | _ :: _ :: _, long => simp at long

theorem find?_opened_eq_none (single : i.isSingle = true) {p : NamePath → Bool} :
    (i.bindings.filterMap Binding.opened?).find? p = none ↔ ∀ other, i.Opens other → ¬p other = true := by
  rw [Option.eq_none_iff_forall_ne_some]
  refine forall_congr' fun other => ?_
  rw [Ne, find?_opened single, not_and]

theorem findSome?_flatMap {α β γ : Type} (g : β → Option γ) (f : α → List β) (as : List α) :
    (as.flatMap f).findSome? g = as.findSome? fun a => (f a).findSome? g := by
  induction as with
  | nil => rfl
  | cons a as ih =>
    rw [List.flatMap_cons, List.findSome?_append, ih, List.findSome?_cons]
    cases (f a).findSome? g <;> rfl

/-- The last import that binds a name counts. -/
theorem find?_iff : (ofItems items).find? name = some path ↔ BoundTo items name path := by
  have last : (ofItems items).find? name =
      (ungrouped items).reverse.findSome? fun i => i.bindings.reverse.findSome? (Binding.pathOf? name) := by
    rw [← ofItems_ungrouped, ← findSome?_flatMap]
    show ((ungrouped items).flatMap Item.bindings).reverse.findSome? (Binding.pathOf? name) = _
    rw [List.reverse_flatMap]
    rfl
  have single {j : Item} (mem : j ∈ ungrouped items) := Item.isSingle_of_ungrouped mem
  rw [last, List.findSome?_eq_some_iff]
  constructor
  · rintro ⟨after, i, before, parts, binds, silent⟩
    have parts : ungrouped items = before.reverse ++ i :: after.reverse := by
      simpa using congrArg List.reverse parts
    refine ⟨before.reverse, i, after.reverse, parts, (findSome?_bindings (single ?_)).1 binds, fun j mem => ?_⟩
    · simp [parts]
    · exact (findSome?_bindings_eq_none (single (by simp_all))).1 (silent j (List.mem_reverse.1 mem))
  · rintro ⟨before, i, after, parts, binds, silent⟩
    refine ⟨after.reverse, i, before.reverse, by simp [parts], (findSome?_bindings (single ?_)).2 binds,
      fun j mem => ?_⟩
    · simp [parts]
    · have mem := List.mem_reverse.1 mem
      exact (findSome?_bindings_eq_none (single (by simp [parts, mem]))).2 (silent j mem)

/-- The first opened path below which there is a type that counts. -/
theorem find?_globs {p : NamePath → Bool} : (ofItems items).globs.find? p = some path ↔
    ∃ before i after, ungrouped items = before ++ i :: after ∧ i.Opens path ∧ p path = true ∧
      ∀ j ∈ before, ∀ other, j.Opens other → ¬p other = true := by
  have first : (ofItems items).globs.find? p =
      (ungrouped items).findSome? fun i => (i.bindings.filterMap Binding.opened?).find? p := by
    rw [← ofItems_ungrouped, ← List.find?_flatMap, ← List.filterMap_flatMap]
    rfl
  have single {j : Item} (mem : j ∈ ungrouped items) := Item.isSingle_of_ungrouped mem
  rw [first, List.findSome?_eq_some_iff]
  constructor
  · rintro ⟨before, i, after, parts, found, silent⟩
    obtain ⟨opens, holds⟩ := (find?_opened (single (by simp [parts]))).1 found
    exact ⟨before, i, after, parts, opens, holds, fun j mem =>
      (find?_opened_eq_none (single (by simp [parts, mem]))).1 (silent j mem)⟩
  · rintro ⟨before, i, after, parts, opens, holds, silent⟩
    exact ⟨before, i, after, parts, (find?_opened (single (by simp [parts]))).2 ⟨opens, holds⟩, fun j mem =>
      (find?_opened_eq_none (single (by simp [parts, mem]))).2 (silent j mem)⟩

end

theorem headSegments_append (args : Args) (front : List String) (last : String) :
    headSegments args (front ++ [last]) = front.map (Segment.mk · .none) ++ [.mk last args] := by
  induction front with
  | nil => rfl
  | cons n front ih =>
    cases front with
    | nil => rfl
    | cons m front =>
      show Segment.mk n .none :: headSegments args (m :: front ++ [last]) = _
      rw [ih]
      rfl

theorem mem_declared_iff {items : List Item} {name : String} :
    name ∈ (ofItems items).declared ↔ ∃ i ∈ items, i.Declares name := by
  rw [declared_ofItems, List.mem_filterMap]
  simp only [Item.declares_iff]

/-- What is tried below an opened path. -/
theorem nativeBelow_iff {path : NamePath} {s : Segment} : NativeBelow path s ↔
    (NativeKind.lookup? (.path path.absolute (splice (path.push s.name) [s]))).isSome = true := by
  obtain ⟨name, args⟩ := s
  have same : splice (path.push name) [.mk name args] = path.names.map (Segment.mk · .none) ++ [.mk name args] :=
    (List.append_nil _).trans (headSegments_append args path.names name)
  rw [NativeBelow, Segment.name, same]

/-- The path below which a name without an import is found. -/
theorem find?_pushed_iff {items : List Item} {s : Segment} {head : NamePath} :
    (((ofItems items).globs.map (·.push s.name)).find? fun path =>
      (NativeKind.lookup? (.path path.absolute (splice path [s]))).isSome) = some head ↔
      ∃ path, OpenedTo items s path ∧ path.push s.name = head := by
  rw [List.find?_map, Option.map_eq_some_iff]
  refine exists_congr fun path => and_congr_left fun _ => ?_
  rw [find?_globs]
  simp only [OpenedTo, nativeBelow_iff]
  rfl

section

variable {imports : Imports} {params : List String} {s : Segment} {ss : List Segment}

/-- Type parameters and declared types stand for themselves. -/
theorem head?_own (own : s.name ∈ params ∨ s.name ∈ imports.declared) :
    imports.head? params false (s :: ss) = none := if_pos own

/-- A name that an import binds stands for its path. -/
theorem head?_bound (other : ¬(s.name ∈ params ∨ s.name ∈ imports.declared)) {path : NamePath}
    (bound : imports.find? s.name = some path) : imports.head? params false (s :: ss) = some path := by
  refine (if_neg other).trans ?_
  rw [bound]

/-- A name that none binds is found below an opened path, if it stands alone. -/
theorem head?_unbound (other : ¬(s.name ∈ params ∨ s.name ∈ imports.declared))
    (unbound : imports.find? s.name = none) : imports.head? params false (s :: ss) =
      if ss.isEmpty then (imports.globs.map (·.push s.name)).find? fun path =>
        (NativeKind.lookup? (.path path.absolute (splice path [s]))).isSome
      else none := by
  refine (if_neg other).trans ?_
  rw [unbound]

end

section

variable {items : List Item} {params : List String} {s : Segment} {ss : List Segment} {head : NamePath}

theorem not_own_iff : ¬(s.name ∈ params ∨ s.name ∈ (ofItems items).declared) ↔
    s.name ∉ params ∧ ∀ i ∈ items, ¬i.Declares s.name := by
  simp only [not_or, mem_declared_iff, not_exists, not_and]

/-- A name that stands for another is no type parameter and no declared type. -/
theorem not_own_of_standsFor (h : StandsFor items params (s :: ss) head) :
    ¬(s.name ∈ params ∨ s.name ∈ (ofItems items).declared) := by
  cases h with
  | bound free undeclared => exact not_own_iff.2 ⟨free, undeclared⟩
  | opened free undeclared => exact not_own_iff.2 ⟨free, undeclared⟩

/-- What a bound name stands for, if it is not taken. -/
theorem standsFor_bound_iff (other : ¬(s.name ∈ params ∨ s.name ∈ (ofItems items).declared)) {path : NamePath}
    (bound : BoundTo items s.name path) : StandsFor items params (s :: ss) head ↔ path = head := by
  obtain ⟨free, undeclared⟩ := not_own_iff.1 other
  constructor
  · intro h
    cases h with
    | bound _ _ again => exact Option.some.inj ((find?_iff.2 bound).symm.trans (find?_iff.2 again))
    | opened _ _ unbound => exact absurd bound (unbound path)
  · rintro rfl
    exact .bound free undeclared bound

/-- What a name without an import stands for, if it is not taken. -/
theorem standsFor_unbound_iff (other : ¬(s.name ∈ params ∨ s.name ∈ (ofItems items).declared))
    (unbound : ∀ path, ¬BoundTo items s.name path) : StandsFor items params (s :: ss) head ↔
      ss = [] ∧ ∃ path, OpenedTo items s path ∧ path.push s.name = head := by
  obtain ⟨free, undeclared⟩ := not_own_iff.1 other
  constructor
  · intro h
    cases h with
    | bound _ _ bound => exact absurd bound (unbound head)
    | opened _ _ _ opened => exact ⟨rfl, _, opened, rfl⟩
  · rintro ⟨rfl, path, opened, rfl⟩
    exact .opened free undeclared unbound opened

end

/-- What the first name of a path stands for. -/
theorem head?_iff {items : List Item} {params : List String} {absolute : Bool} {segments : List Segment}
    {head : NamePath} : (ofItems items).head? params absolute segments = some head ↔
      absolute = false ∧ StandsFor items params segments head := by
  cases absolute with
  | true => exact iff_of_false nofun fun h => nomatch h.1
  | false =>
    rw [eq_self_iff_true, true_and]
    cases segments with
    | nil => exact iff_of_false nofun nofun
    | cons s ss =>
      by_cases own : s.name ∈ params ∨ s.name ∈ (ofItems items).declared
      · rw [head?_own own]
        exact iff_of_false nofun fun h => not_own_of_standsFor h own
      · cases bound : (ofItems items).find? s.name with
        | some path => rw [head?_bound own bound, standsFor_bound_iff own (find?_iff.1 bound), Option.some.injEq]
        | none =>
          have unbound (path : NamePath) : ¬BoundTo items s.name path := fun h => by
            rw [find?_iff.2 h] at bound
            cases bound
          rw [head?_unbound own bound, standsFor_unbound_iff own unbound]
          cases ss with
          | nil => rw [List.isEmpty_nil, if_pos rfl, find?_pushed_iff, eq_self_iff_true, true_and]
          | cons s' ss => exact iff_of_false nofun fun h => List.cons_ne_nil _ _ h.1

end Imports

end LiveSettings
