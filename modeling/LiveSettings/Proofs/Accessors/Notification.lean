import LiveSettings.Proofs.Accessors.Nesting
import LiveSettings.Proofs.Target.Implements

/-!
# Types that notify by themselves

A unit implements the notification trait, unless the struct lists it or an implementation of it was found. Found
are the implementations in the scope of the struct, which is its module, in whatever file and before or behind the
struct, and their type is told by the last name of its path alone. So an implementation for a type elsewhere counts
too, if that type has the name of the struct.

Results:
* `isScope_iff`: a scope with a path of modules is a module.
* `implements_iff`: which implementations are found for a type.
* `notifies_iff`: when a unit leaves the notification trait out.
* `notifies_other`: an implementation for a type of another module takes the trait away.
-/

namespace LiveSettings

namespace Accessors

variable {sources : List SourceFile}

/-! ## Where implementations stand -/

/-- The items of a module: those of a file, or those of a module among the items of another. -/
inductive IsModule (sources : List SourceFile) : List String → List Item → Prop where
  | file {f : SourceFile} (listed : f ∈ sources) : IsModule sources f.modulePath f.items
  | inner {path : List String} {items inside : List Item} {name : String} (outer : IsModule sources path items)
      (mem : .module name inside ∈ items) : IsModule sources (path ++ [name]) inside

/-- The items of a scope: those of a file, of a module, or of the body of a function or a method. -/
inductive IsScope (sources : List SourceFile) : List String → List Item → Prop where
  | file {f : SourceFile} (listed : f ∈ sources) : IsScope sources f.modulePath f.items
  | module {path : List String} {items inside : List Item} {name : String} (outer : IsScope sources path items)
      (mem : .module name inside ∈ items) : IsScope sources (path ++ [name]) inside
  | function {path : List String} {items body inner : List Item} {name : String} (outer : IsScope sources path items)
      (mem : .function name body inner ∈ items) : IsScope sources (path ++ [functionScope name]) body
  | method {path : List String} {items members body inner : List Item} {head : ImplHead} {self : Ty} {name : String}
      (outer : IsScope sources path items) (mem : .implementation head self members ∈ items)
      (method : .function name body inner ∈ members) : IsScope sources (path ++ [functionScope name]) body

/-- A scope with a path of modules is a module. -/
theorem isScope_iff {path : List String} {items : List Item} (plain : inModules path = true) :
    IsScope sources path items ↔ IsModule sources path items := by
  constructor
  · intro h
    induction h with
    | file listed => exact .file listed
    | module _ mem ih =>
      rw [inModules_append, Bool.and_eq_true] at plain
      exact .inner (ih plain.1) mem
    | function _ _ _ | method _ _ _ _ =>
      rw [inModules_append, isFunctionScope_functionScope, Bool.not_true, Bool.and_false] at plain
      cases plain
  · intro h
    clear plain
    induction h with
    | file listed => exact .file listed
    | inner _ mem ih => exact .module ih mem

theorem mem_scanItems {imports : Imports} {scope : List String} {container : Container} {items : List Item}
    {i : Item} (mem : i ∈ items) {f : Finding} (h : f ∈ scanItem imports scope container i) :
    f ∈ scanItems imports scope container items := by
  induction items with
  | nil => cases mem
  | cons j items ih =>
    rcases List.mem_cons.1 mem with rfl | mem
    · exact List.mem_append_left _ h
    · exact List.mem_append_right _ (ih mem)

theorem mem_scanMembers {scope : List String} {members body inner : List Item} {name : String}
    (mem : .function name body inner ∈ members) {f : Finding}
    (h : f ∈ scanItems (Imports.ofItems body) (scope ++ [functionScope name]) .nested body) :
    f ∈ scanMembers scope members := by
  induction members with
  | nil => cases mem
  | cons i members ih =>
    rcases List.mem_cons.1 mem with rfl | later
    · exact List.mem_append_left _ h
    · cases i with
      | function _ _ _ => exact List.mem_append_right _ (ih later)
      | struct _ | typeName _ | module _ _ | implementation _ _ _ | imports _ _ | other _ => exact ih later

/-- A scan comes to every scope. -/
theorem scan_of_isScope {path : List String} {items : List Item} (h : IsScope sources path items) :
    ∃ container, ∀ f ∈ scanItems (Imports.ofItems items) path container items, f ∈ scan sources := by
  induction h with
  | file listed => exact ⟨.module, fun f mem => List.mem_flatMap.2 ⟨_, listed, mem⟩⟩
  | module _ mem ih =>
    obtain ⟨container, all⟩ := ih
    exact ⟨container, fun f found => all f (mem_scanItems mem found)⟩
  | function _ mem ih =>
    obtain ⟨container, all⟩ := ih
    exact ⟨.nested, fun f found => all f (mem_scanItems mem found)⟩
  | method _ mem method ih =>
    obtain ⟨container, all⟩ := ih
    exact ⟨.nested, fun f found =>
      all f (mem_scanItems mem (List.mem_append_right _ (mem_scanMembers method found)))⟩

section

variable {id : TypeId} {trait : Path}

/-- An implementation for the given type, in a scope that goes by the path of its module. -/
def ImplementedIn (sources : List SourceFile) (id : TypeId) (trait : Path) : Prop :=
  ∃ items self members, IsScope sources id.modulePath items ∧
    .implementation (.positive trait) self members ∈ items ∧ implementedType? id.modulePath self = some id

mutual

theorem implementedIn_of_item {scope : List String} {items : List Item} {imports : Imports} {container : Container}
    (place : IsScope sources scope items) : (i : Item) → i ∈ items →
      .implements id trait ∈ scanItem imports scope container i → ImplementedIn sources id trait
  | .struct decl, _, h => absurd h not_implements_of_struct
  | .module name inside, mem, h => implementedIn_of_items (.module place mem) inside (fun _ mem => mem) h
  | .function name body _, mem, h => implementedIn_of_items (.function place mem) body (fun _ mem => mem) h
  | .implementation head self members, mem, h => by
    rcases List.mem_append.1 h with here | inside
    · split at here
      · rename_i type
        cases List.mem_singleton.1 here
        obtain rfl := modulePath_of_implementedType type
        exact ⟨items, self, members, place, mem, type⟩
      · cases here
    · exact implementedIn_of_members place mem members (fun _ mem => mem) inside
  | .typeName _, _, h | .imports _ _, _, h | .other _, _, h => absurd h List.not_mem_nil
termination_by structural i => i

theorem implementedIn_of_items {scope : List String} {items : List Item} {imports : Imports} {container : Container}
    (place : IsScope sources scope items) : (is : List Item) → (∀ i ∈ is, i ∈ items) →
      .implements id trait ∈ scanItems imports scope container is → ImplementedIn sources id trait
  | [], _, h => absurd h List.not_mem_nil
  | i :: is, part, h => by
    rcases List.mem_append.1 h with here | later
    · exact implementedIn_of_item place i (part i List.mem_cons_self) here
    · exact implementedIn_of_items place is (fun j mem => part j (List.mem_cons_of_mem i mem)) later
termination_by structural is => is

theorem implementedIn_of_members {scope : List String} {items members : List Item} {head : ImplHead} {self : Ty}
    (place : IsScope sources scope items) (mem : .implementation head self members ∈ items) : (is : List Item) →
      (∀ i ∈ is, i ∈ members) → .implements id trait ∈ scanMembers scope is → ImplementedIn sources id trait
  | [], _, h => absurd h List.not_mem_nil
  | .function name body _ :: is, part, h => by
    rcases List.mem_append.1 h with here | later
    · exact implementedIn_of_items (.method place mem (part _ List.mem_cons_self)) body (fun _ mem => mem) here
    · exact implementedIn_of_members place mem is (fun j mem => part j (List.mem_cons_of_mem _ mem)) later
  | .struct _ :: is, part, h | .typeName _ :: is, part, h | .module _ _ :: is, part, h
  | .implementation _ _ _ :: is, part, h | .imports _ _ :: is, part, h | .other _ :: is, part, h =>
    implementedIn_of_members place mem is (fun j mem => part j (List.mem_cons_of_mem _ mem)) h
termination_by structural is => is

end

/-- The implementations that are found for a type are those in the scopes that go by the path of its module. -/
theorem implements_iff : .implements id trait ∈ scan sources ↔ ImplementedIn sources id trait := by
  constructor
  · intro found
    obtain ⟨f, listed, found⟩ := List.mem_flatMap.1 found
    exact implementedIn_of_items (.file listed) f.items (fun _ mem => mem) found
  · rintro ⟨items, self, members, place, mem, type⟩
    obtain ⟨container, all⟩ := scan_of_isScope place
    refine all _ (mem_scanItems mem (List.mem_append_left _ ?_))
    rw [type]
    exact List.mem_singleton_self _

end

/-! ## Units -/

end Accessors

namespace Ty

/-- The name that a path ends in. -/
def lastName? : Ty → Option String
  | .path _ segments | .projection _ _ _ segments => segments.getLast?.map Segment.name
  | _ => none

/-- Whether a type is written as the one of a name in the same module: by the name, which may stand behind `self`. -/
def IsOwn (name : String) : Ty → Prop
  | .path false [.mk n _] => Naming.withoutRaw n = Naming.withoutRaw name
  | .path false [.mk front .none, .mk n _] => front = "self" ∧ Naming.withoutRaw n = Naming.withoutRaw name
  | _ => False

end Ty

namespace Accessors

theorem implementedType?_eq_some_iff {scope : List String} {self : Ty} {id : TypeId} :
    implementedType? scope self = some id ↔ id.modulePath = scope ∧ self.lastName? = some id.name := by
  have same : implementedType? scope self = self.lastName?.map (⟨scope, ·⟩) := by
    cases self with
    | path absolute segments => exact (Option.map_map ..).symm
    | projection self depth absolute segments => exact (Option.map_map ..).symm
    | paren inner => rfl
    | shaped shape parts => rfl
  rw [same, Option.map_eq_some_iff]
  constructor
  · rintro ⟨name, last, rfl⟩
    exact ⟨rfl, last⟩
  · rintro ⟨rfl, last⟩
    exact ⟨id.name, last, rfl⟩

/-- Whether the notification trait is implemented for a type, among items of one of these places. -/
def NotifiedIn (places : List Item → Prop) (self : Ty) : Prop :=
  ∃ items trait members, places items ∧ .implementation (.positive trait) self members ∈ items ∧
    trait.lastName? = some notifyTrait

/-- The implementations of the notification trait that are found for a type. -/
theorem any_implementations (sources : List SourceFile) (id : TypeId) :
    (((scan sources).filterMap Finding.implementation?).filter (·.1 == id)).any
        (·.2.lastName? == some notifyTrait) = true ↔
      ∃ self, NotifiedIn (IsScope sources id.modulePath) self ∧ self.lastName? = some id.name := by
  constructor
  · intro some
    obtain ⟨⟨id', trait⟩, mem, last⟩ := List.any_eq_true.1 some
    obtain ⟨mem, same⟩ := List.mem_filter.1 mem
    obtain ⟨f, found, is⟩ := List.mem_filterMap.1 mem
    obtain rfl : id' = id := eq_of_beq same
    cases f <;> cases is
    obtain ⟨items, self, members, place, mem, type⟩ := implements_iff.1 found
    exact ⟨self, ⟨items, trait, members, place, mem, eq_of_beq last⟩, (implementedType?_eq_some_iff.1 type).2⟩
  · rintro ⟨self, ⟨items, trait, members, place, mem, last⟩, name⟩
    have found := implements_iff.2 ⟨items, self, members, place, mem, implementedType?_eq_some_iff.2 ⟨rfl, name⟩⟩
    refine List.any_eq_true.2 ⟨(id, trait), List.mem_filter.2 ⟨List.mem_filterMap.2 ⟨_, found, rfl⟩, ?_⟩, ?_⟩
    · exact beq_self_eq_true id
    · rw [last]
      exact beq_self_eq_true _

/-- What a unit does about the notification trait follows from the first struct of its identity and from the
implementations that are found. -/
theorem notifies_eq {u : GeneratedUnit} (mem : u ∈ (generate sources).units) :
    ∃ s t cs, (structsOf sources u.id).head? = some s ∧ s.accepted? = some (t, cs) ∧
      u.emitted.notifies = !(t.declares notifyTrait ||
        (((scan sources).filterMap Finding.implementation?).filter (·.1 == u.id)).any
          (·.2.lastName? == some notifyTrait)) := by
  obtain ⟨-, t', found, written⟩ := mem_units mem
  rw [findTarget?_scan] at found
  obtain ⟨⟨t, cs⟩, first, rfl⟩ := Option.map_eq_some_iff.1 found
  obtain ⟨s, head, accepted⟩ := Option.bind_eq_some_iff.1 first
  obtain ⟨-, -, -, -, notifies, -⟩ := emit_ok written
  exact ⟨s, t, cs, head, accepted, by rw [notifies, Target.declares_foldl]⟩

/-- What a struct declares it lists, whatever its fields refer to. -/
theorem Site.declares_iff {s : Site} {t : Target} {cs : List Candidate} (h : s.accepted? = some (t, cs))
    (trait : String) : t.declares trait = true ↔ s.decl.Lists trait := by
  rw [Target.declares_iff_lists (accepted?_eq_some_iff.1 h).2, Struct.Lists, Struct.attrs_qualified, Struct.Lists]

/-- A unit leaves the notification trait out just if the struct lists it, or it is implemented in the scope of the
struct for a type whose path ends in the name of the struct. In a module, where these are the types that are written
as the struct itself, the trait is left out for the right type. -/
theorem notifies_iff {u : GeneratedUnit} (mem : u ∈ (generate sources).units) :
    ∃ s, (structsOf sources u.id).head? = some s ∧
      (u.emitted.notifies = false ↔ s.decl.Lists notifyTrait ∨
        ∃ self, NotifiedIn (IsScope sources u.id.modulePath) self ∧ self.lastName? = some u.id.name) ∧
      (inModules u.id.modulePath = true →
        (∀ self, NotifiedIn (IsModule sources u.id.modulePath) self →
          (self.lastName? = some u.id.name ↔ self.IsOwn u.id.name)) →
        (u.emitted.notifies = false ↔ s.decl.Lists notifyTrait ∨
          ∃ self, NotifiedIn (IsModule sources u.id.modulePath) self ∧ self.IsOwn u.id.name)) := by
  obtain ⟨s, t, cs, head, accepted, notifies⟩ := notifies_eq mem
  have exact : u.emitted.notifies = false ↔ s.decl.Lists notifyTrait ∨
      ∃ self, NotifiedIn (IsScope sources u.id.modulePath) self ∧ self.lastName? = some u.id.name := by
    rw [notifies, Bool.not_eq_false', Bool.or_eq_true, s.declares_iff accepted, any_implementations]
  refine ⟨s, head, exact, fun plain alike => ?_⟩
  have places : IsScope sources u.id.modulePath = IsModule sources u.id.modulePath :=
    funext fun items => propext (isScope_iff plain)
  rw [exact, places]
  exact or_congr_right (exists_congr fun self => and_congr_right (alike self))

/-- The implementation stands in another file of the module, for `self::Audio<u8>`. -/
theorem notifies_iff_otherFile :
    let volume : Field := ⟨[⟨⟨false, ["observable_setting"]⟩, .none⟩], "_volume", .path false [.mk "f64" .none]⟩
    let context : Field := ⟨[], "context", .path false [.mk "SettingsContext" .none]⟩
    let audio : Struct := ⟨[], "Audio", ⟨[], false, []⟩, .named [volume, context]⟩
    let self : Ty := .path false [.mk "self" .none, .mk "Audio" (.angle false [.ty (.named ["u8"])] false)]
    let sources : List SourceFile := [
      ⟨["app"], [.implementation (.positive ⟨false, [.mk "NotifyPropertyChanged" .none]⟩) self []]⟩,
      ⟨["app"], [.struct audio]⟩]
    (generate sources).units.map (·.id) = [⟨["app"], "Audio"⟩] ∧
      ∀ u ∈ (generate sources).units, u.emitted.notifies = false := by
  intro volume context audio self sources
  have ids : (generate sources).units.map (·.id) = [⟨["app"], "Audio"⟩] := by decide +kernel
  refine ⟨ids, fun u mem => ?_⟩
  have its : u.id = ⟨["app"], "Audio"⟩ := by
    have known : u.id ∈ (generate sources).units.map (·.id) := List.mem_map_of_mem mem
    rw [ids] at known
    exact List.mem_singleton.1 known
  obtain ⟨s, -, exact, -⟩ := notifies_iff mem
  rw [its] at exact
  exact exact.2 (.inr ⟨self, ⟨_, _, _, .file List.mem_cons_self, List.mem_singleton_self _, rfl⟩, rfl⟩)

/-- An implementation for a type `Audio` in another module takes the notification trait away: the struct does not
list the trait, and no implementation is for the struct itself. -/
theorem notifies_other :
    let volume : Field := ⟨[⟨⟨false, ["observable_setting"]⟩, .none⟩], "_volume", .path false [.mk "f64" .none]⟩
    let context : Field := ⟨[], "context", .path false [.mk "SettingsContext" .none]⟩
    let audio : Struct := ⟨[], "Audio", ⟨[], false, []⟩, .named [volume, context]⟩
    let other : List Item := [.struct ⟨[], "Audio", ⟨[], false, []⟩, .unit⟩]
    let items : List Item := [.module "other" other,
      .implementation (.positive ⟨false, [.mk "NotifyPropertyChanged" .none]⟩)
        (.path false [.mk "other" .none, .mk "Audio" .none]) [],
      .struct audio]
    let sources : List SourceFile := [⟨["app"], items⟩]
    (generate sources).units.map (fun u => (u.id, u.emitted.notifies)) = [(⟨["app"], "Audio"⟩, false)] ∧
      (∀ s ∈ structsOf sources ⟨["app"], "Audio"⟩, ¬ s.decl.Lists notifyTrait) ∧
      ∀ self, NotifiedIn (IsModule sources ["app"]) self → ¬ self.IsOwn "Audio" := by
  intro volume context audio other items sources
  refine ⟨by decide +kernel, fun s mem => ?_, ?_⟩
  · have plain : ∀ s ∈ sites sources, s.decl.attrs.isEmpty = true := by decide
    rintro ⟨a, use, -⟩
    rw [List.isEmpty_iff.1 (plain s (List.mem_of_mem_filter mem))] at use
    cases use
  · have modules : ∀ path inside, IsModule sources path inside → inside = items ∨ inside = other := by
      intro path inside module
      induction module with
      | file listed => exact .inl (by rw [List.mem_singleton.1 listed])
      | inner outer mem ih =>
        rcases ih with rfl | rfl
        · rcases List.mem_cons.1 mem with same | mem
          · exact .inr (Item.module.inj same).2
          · simp at mem
        · cases List.mem_singleton.1 mem
    rintro self ⟨inside, trait, members, module, mem, -⟩ own
    rcases modules _ _ module with rfl | rfl
    · simp only [items, List.mem_cons, List.not_mem_nil, or_false, reduceCtorEq, false_or,
        Item.implementation.injEq] at mem
      obtain ⟨-, rfl, -⟩ := mem
      exact absurd own.1 (by decide)
    · cases List.mem_singleton.1 mem

end Accessors

end LiveSettings
