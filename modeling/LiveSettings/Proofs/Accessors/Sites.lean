import LiveSettings.Accessors.Generator
import Mathlib.Data.List.Basic

/-!
# The structs that a scan comes to

A scan goes through modules, functions and implementations, and comes to structs on its way. A `Site` is a
struct with what counts there: the imports of its module, the scope that gives it its identity, and whether
generated items can stand beside it. All that a scan finds, but the implementations of traits, it finds at
sites.

Results:
* `flatMap_scan`: what sources give, apart from implementations, is what their sites give, in order.
* `Site.findings_open`, `Site.findings_targets`: what is found at one site.
* `flatMap_targets`: the targets and candidates of sources are those that are accepted at their sites.
* `mem_structs_of_site`: a site is a struct that is declared in its item.
* `scope_of_implements`, `mem_of_implements`: where implementations stand.
-/

namespace LiveSettings

theorem perm_interchange {α : Type} (as bs cs ds : List α) :
    (as ++ bs ++ (cs ++ ds)).Perm (as ++ cs ++ (bs ++ ds)) := by
  rw [List.append_assoc, List.append_assoc, ← List.append_assoc bs, ← List.append_assoc cs]
  exact (List.perm_append_comm.append_right ds).append_left as

/-- Whether a field carries a marker. -/
def Field.isMarked (f : Field) : Bool := f.attrs.any (·.path.isName Marker.markerName)

namespace Struct

/-- Whether a named field carries a marker. -/
def isMarked (d : Struct) : Bool :=
  match d.fields with
  | .named fields => fields.any Field.isMarked
  | _ => false

/-- The struct with the types of its fields qualified by imports. -/
def qualified (imports : Imports) (d : Struct) : Struct :=
  match d.fields with
  | .named fields =>
    { d with fields := .named (fields.map fun f => { f with ty := imports.qualify d.generics.typeNames f.ty }) }
  | _ => d

@[simp]
theorem name_qualified (imports : Imports) (d : Struct) : (d.qualified imports).name = d.name := by
  unfold qualified
  split <;> rfl

@[simp]
theorem generics_qualified (imports : Imports) (d : Struct) : (d.qualified imports).generics = d.generics := by
  unfold qualified
  split <;> rfl

@[simp]
theorem attrs_qualified (imports : Imports) (d : Struct) : (d.qualified imports).attrs = d.attrs := by
  unfold qualified
  split <;> rfl

theorem fields_qualified {imports : Imports} {d : Struct} {fields : List Field}
    (h : (d.qualified imports).fields = .named fields) : ∃ declared, d.fields = .named declared ∧
      fields = declared.map fun f => { f with ty := imports.qualify d.generics.typeNames f.ty } := by
  unfold qualified at h
  split at h
  · rename_i declared same
    cases h
    exact ⟨declared, same, rfl⟩
  · rename_i other
    exact absurd h (other fields)

end Struct

namespace Accessors

/-- A struct that a scan comes to. -/
structure Site where
  imports : Imports
  scope : List String
  container : Container
  decl : Struct

namespace Site

def id (s : Site) : TypeId := ⟨s.scope, s.decl.name⟩

/-- What a scan finds at the site. -/
def findings (s : Site) : List Finding := scanStruct s.imports s.scope s.container s.decl

/-- Whether the struct is one to write accessors for. -/
def isOpen (s : Site) : Bool := s.decl.isMarked && !derives s.decl.attrs deriveName

/-- The target and the candidates of the struct, with the types of its fields qualified. -/
def declaration (s : Site) : Except Config.ConfigError (Target × List Candidate) :=
  Target.ofDeclaration (.struct (s.decl.qualified s.imports)) s.scope s.container

/-- The target and the candidates that are found at the site, if there are any. -/
def accepted? (s : Site) : Option (Target × List Candidate) :=
  if s.isOpen then s.declaration.toOption else none

theorem accepted?_eq_some_iff {s : Site} {declared : Target × List Candidate} :
    s.accepted? = some declared ↔ s.isOpen = true ∧ s.declaration = .ok declared := by
  unfold accepted?
  cases s.declaration <;> simp [Except.toOption]

end Site

mutual

/-- The sites in an item. -/
def itemSites (imports : Imports) (scope : List String) (container : Container) : Item → List Site
  | .struct decl => [⟨imports, scope, container, decl⟩]
  | .module name items => sitesIn (Imports.ofItems items) (scope ++ [name]) container items
  | .function name body _ => sitesIn (Imports.ofItems body) (scope ++ [functionScope name]) .nested body
  | .implementation _ _ members => memberSites scope members
  | .typeName _ | .imports _ _ | .other _ => []

/-- The sites in the items of one module. -/
def sitesIn (imports : Imports) (scope : List String) (container : Container) : List Item → List Site
  | [] => []
  | i :: is => itemSites imports scope container i ++ sitesIn imports scope container is

/-- The sites in the methods of an implementation. -/
def memberSites (scope : List String) : List Item → List Site
  | [] => []
  | .function name body _ :: is =>
    sitesIn (Imports.ofItems body) (scope ++ [functionScope name]) .nested body ++ memberSites scope is
  | _ :: is => memberSites scope is

end

/-- The sites in files. -/
def sites (sources : List SourceFile) : List Site :=
  sources.flatMap fun s => sitesIn (Imports.ofItems s.items) s.modulePath .module s.items

/-! ## What a scan finds -/

variable {α : Type} {g : Finding → List α}

mutual

theorem flatMap_scanItem (silent : ∀ id trait, g (.implements id trait) = []) (imports : Imports)
    (scope : List String) (container : Container) : (i : Item) →
    (scanItem imports scope container i).flatMap g =
      (itemSites imports scope container i).flatMap fun s => s.findings.flatMap g
  | .struct decl => by
    simp only [scanItem, itemSites, List.flatMap_cons, List.flatMap_nil, List.append_nil, Site.findings]
  | .module name items => flatMap_scanItems silent (Imports.ofItems items) (scope ++ [name]) container items
  | .function name body _ =>
    flatMap_scanItems silent (Imports.ofItems body) (scope ++ [functionScope name]) .nested body
  | .implementation head self members => by
    simp only [scanItem, itemSites, List.flatMap_append]
    rw [flatMap_scanMembers silent scope members]
    split
    · simp only [List.flatMap_cons, List.flatMap_nil, silent, List.nil_append]
    · rfl
  | .typeName _ | .imports _ _ | .other _ => rfl

/-- What items give, apart from implementations, is what their sites give. -/
theorem flatMap_scanItems (silent : ∀ id trait, g (.implements id trait) = []) (imports : Imports)
    (scope : List String) (container : Container) : (is : List Item) →
    (scanItems imports scope container is).flatMap g =
      (sitesIn imports scope container is).flatMap fun s => s.findings.flatMap g
  | [] => rfl
  | i :: is => by
    simp only [scanItems, sitesIn, List.flatMap_append]
    rw [flatMap_scanItem silent imports scope container i, flatMap_scanItems silent imports scope container is]

theorem flatMap_scanMembers (silent : ∀ id trait, g (.implements id trait) = []) (scope : List String) :
    (is : List Item) →
    (scanMembers scope is).flatMap g = (memberSites scope is).flatMap fun s => s.findings.flatMap g
  | [] => rfl
  | .function name body _ :: is => by
    simp only [scanMembers, memberSites, List.flatMap_append]
    rw [flatMap_scanItems silent _ _ _ body, flatMap_scanMembers silent scope is]
  | .struct _ :: is | .typeName _ :: is | .module _ _ :: is | .implementation _ _ _ :: is
  | .imports _ _ :: is | .other _ :: is => flatMap_scanMembers silent scope is

end

/-- What sources give, apart from implementations, is what their sites give. -/
theorem flatMap_scan (silent : ∀ id trait, g (.implements id trait) = []) (sources : List SourceFile) :
    (scan sources).flatMap g = (sites sources).flatMap fun s => s.findings.flatMap g := by
  induction sources with
  | nil => rfl
  | cons s sources ih =>
    simp only [scan, sites, List.flatMap_cons, List.flatMap_append] at ih ⊢
    rw [flatMap_scanItems silent, ih]

/-! ## What is found at a site -/

namespace Site

variable {s : Site}

theorem findings_unmarked (h : s.decl.isMarked = false) : s.findings = [] := by
  obtain ⟨imports, scope, container, decl⟩ := s
  unfold Struct.isMarked at h
  simp only [findings, scanStruct]
  split
  · rename_i fields named
    rw [named] at h
    have none : (fields.any fun f => f.attrs.any (·.path.isName Marker.markerName)) = false := h
    rw [if_pos (by simp only [none, Bool.not_false])]
  · rfl

theorem findings_open (h : s.isOpen = true) : ∃ reports, s.findings = .qualified reports ::
    match s.declaration with
      | .ok (t, cs) => [.target t cs]
      | .error e => [.refused s.id e] := by
  obtain ⟨imports, scope, container, decl⟩ := s
  obtain ⟨marked, written⟩ := Bool.and_eq_true_iff.1 h
  rw [Bool.not_eq_true'] at written
  unfold Struct.isMarked at marked
  simp only [findings, scanStruct, declaration, Struct.qualified, id]
  split at marked
  · rename_i fields found
    have named : decl.fields = .named fields := found
    have some : (fields.any fun f => f.attrs.any (·.path.isName Marker.markerName)) = true := marked
    have those : ¬ ((!fields.any fun f => f.attrs.any (·.path.isName Marker.markerName)) = true) := by
      simp only [some, Bool.not_true, Bool.false_eq_true, not_false_eq_true]
    have other : ¬ (derives decl.attrs deriveName = true) := Bool.eq_false_iff.1 written
    simp only [named]
    rw [if_neg those, if_neg other]
    exact ⟨_, rfl⟩
  · cases marked

theorem findings_closed (h : s.isOpen = false) :
    s.findings = [] ∨ s.findings = [.derived s.decl.name] := by
  cases marked : s.decl.isMarked with
  | false => exact .inl (findings_unmarked marked)
  | true =>
    obtain ⟨imports, scope, container, decl⟩ := s
    have written : derives decl.attrs deriveName = true := by
      simpa [isOpen, marked] using h
    simp only [findings, scanStruct]
    split
    · split
      · exact .inl rfl
      · exact .inr rfl
    · exact .inl rfl

/-- The targets and candidates that are found are those that are accepted. -/
theorem findings_targets (s : Site) {β : Type} (f : Target × List Candidate → List β) :
    (s.findings.flatMap fun | .target t cs => f (t, cs) | _ => []) = (s.accepted?.map f).getD [] := by
  cases opened : s.isOpen with
  | false =>
    rw [accepted?, opened]
    rcases findings_closed opened with none | derived
    · rw [none]; rfl
    · rw [derived]; rfl
  | true =>
    obtain ⟨reports, found⟩ := findings_open opened
    rw [found, accepted?, opened]
    cases s.declaration with
    | error e => rfl
    | ok declared => simp [Except.toOption]

end Site

/-- The targets and candidates that are found are those that are accepted, site by site. -/
theorem flatMap_targets {β : Type} (sources : List SourceFile) (f : Target × List Candidate → List β) :
    ((scan sources).flatMap fun | .target t cs => f (t, cs) | _ => []) =
      ((sites sources).filterMap Site.accepted?).flatMap f := by
  rw [flatMap_scan (fun _ _ => rfl), List.filterMap_eq_flatMap_toList, List.flatMap_assoc]
  refine List.flatMap_congr fun s _ => (s.findings_targets f).trans ?_
  cases s.accepted? with
  | none => rfl
  | some declared => exact (List.append_nil _).symm

theorem filterMap_target? (sources : List SourceFile) :
    (scan sources).filterMap Finding.target? = ((sites sources).filterMap Site.accepted?).map (·.1) := by
  rw [← List.flatMap_pure_eq_map, List.filterMap_eq_flatMap_toList]
  refine Eq.trans (List.flatMap_congr fun f _ => ?_) (flatMap_targets sources fun declared => [declared.1])
  cases f <;> rfl

/-! ## Where sites and implementations stand -/

mutual

/-- A site is a struct that is declared in its item. -/
theorem mem_structs_of_site {imports : Imports} {scope : List String} {container : Container} {s : Site} :
    (i : Item) → s ∈ itemSites imports scope container i → s.decl ∈ i.structs
  | .struct decl, h => by
    cases List.mem_singleton.1 h
    exact List.mem_singleton.2 rfl
  | .module _ items, h => mem_itemStructs_of_site items h
  | .function _ body _, h => List.mem_append_left _ (mem_itemStructs_of_site body h)
  | .implementation _ _ members, h => mem_itemStructs_of_member members h
  | .typeName _, h | .imports _ _, h | .other _, h => absurd h List.not_mem_nil

theorem mem_itemStructs_of_site {imports : Imports} {scope : List String} {container : Container} {s : Site} :
    (is : List Item) → s ∈ sitesIn imports scope container is → s.decl ∈ itemStructs is
  | [], h => absurd h List.not_mem_nil
  | i :: is, h => by
    rcases List.mem_append.1 h with here | later
    · exact List.mem_append_left _ (mem_structs_of_site i here)
    · exact List.mem_append_right _ (mem_itemStructs_of_site is later)

theorem mem_itemStructs_of_member {scope : List String} {s : Site} :
    (is : List Item) → s ∈ memberSites scope is → s.decl ∈ itemStructs is
  | [], h => absurd h List.not_mem_nil
  | .function name body inner :: is, h => by
    rcases List.mem_append.1 h with here | later
    · exact List.mem_append_left _ (List.mem_append_left _ (mem_itemStructs_of_site body here))
    · exact List.mem_append_right _ (mem_itemStructs_of_member is later)
  | .struct _ :: is, h | .typeName _ :: is, h | .module _ _ :: is, h | .implementation _ _ _ :: is, h
  | .imports _ _ :: is, h | .other _ :: is, h =>
    List.mem_append_right _ (mem_itemStructs_of_member is h)

end

theorem modulePath_of_implementedType {scope : List String} {self : Ty} {id : TypeId}
    (h : implementedType? scope self = some id) : id.modulePath = scope := by
  unfold implementedType? at h
  split at h
  · obtain ⟨_, -, rfl⟩ := Option.map_eq_some_iff.1 h
    rfl
  · obtain ⟨_, -, rfl⟩ := Option.map_eq_some_iff.1 h
    rfl
  · cases h

/-- No implementation is found at a struct. -/
theorem not_implements_of_struct {imports : Imports} {scope : List String} {container : Container}
    {decl : Struct} {id : TypeId} {trait : Path} :
    .implements id trait ∉ scanStruct imports scope container decl := by
  unfold scanStruct
  split
  · split
    · exact List.not_mem_nil
    · split
      · simp
      · dsimp only
        split <;> simp
  · exact List.not_mem_nil

mutual

/-- An implementation that is found in a scope, or deeper, is for a type there. -/
theorem scope_of_implements {imports : Imports} {scope : List String} {container : Container} {id : TypeId}
    {trait : Path} :
    (i : Item) → .implements id trait ∈ scanItem imports scope container i → scope <+: id.modulePath
  | .struct decl, h => absurd h not_implements_of_struct
  | .module name items, h => (List.prefix_append scope [name]).trans (scope_of_implements_items items h)
  | .function name body _, h =>
    (List.prefix_append scope [functionScope name]).trans (scope_of_implements_items body h)
  | .implementation head self members, h => by
    rcases List.mem_append.1 h with here | inside
    · split at here
      · rename_i implemented
        cases List.mem_singleton.1 here
        exact modulePath_of_implementedType implemented ▸ List.prefix_rfl
      · cases here
    · obtain ⟨name, deeper⟩ := scope_of_implements_members members inside
      exact (List.prefix_append scope [name]).trans deeper
  | .typeName _, h | .imports _ _, h | .other _, h => absurd h List.not_mem_nil

theorem scope_of_implements_items {imports : Imports} {scope : List String} {container : Container}
    {id : TypeId} {trait : Path} :
    (is : List Item) → .implements id trait ∈ scanItems imports scope container is → scope <+: id.modulePath
  | [], h => absurd h List.not_mem_nil
  | i :: is, h => by
    rcases List.mem_append.1 h with here | later
    · exact scope_of_implements i here
    · exact scope_of_implements_items is later

theorem scope_of_implements_members {scope : List String} {id : TypeId} {trait : Path} :
    (is : List Item) → .implements id trait ∈ scanMembers scope is →
      ∃ name, scope ++ [name] <+: id.modulePath
  | [], h => absurd h List.not_mem_nil
  | .function name body _ :: is, h => by
    rcases List.mem_append.1 h with here | later
    · exact ⟨_, scope_of_implements_items body here⟩
    · exact scope_of_implements_members is later
  | .struct _ :: is, h | .typeName _ :: is, h | .module _ _ :: is, h | .implementation _ _ _ :: is, h
  | .imports _ _ :: is, h | .other _ :: is, h => scope_of_implements_members is h

end

/-- An implementation for a type of the scope itself stands among the items of the scope. -/
theorem mem_of_implements {imports : Imports} {scope : List String} {container : Container} {id : TypeId}
    {trait : Path} {is : List Item} (h : .implements id trait ∈ scanItems imports scope container is)
    (own : id.modulePath = scope) :
    ∃ self members, .implementation (.positive trait) self members ∈ is ∧
      implementedType? scope self = some id := by
  have deeper (name : String) : ¬ scope ++ [name] <+: id.modulePath := by
    intro below
    have longer := below.length_le
    rw [own, List.length_append, List.length_singleton] at longer
    omega
  induction is with
  | nil => cases h
  | cons i is ih =>
    rcases List.mem_append.1 h with here | later
    · cases i with
      | struct decl => exact absurd here not_implements_of_struct
      | module name items => exact absurd (scope_of_implements_items items here) (deeper name)
      | function name body inner => exact absurd (scope_of_implements_items body here) (deeper _)
      | implementation head self members =>
        rcases List.mem_append.1 here with here | inside
        · split at here
          · cases List.mem_singleton.1 here
            exact ⟨self, members, List.mem_cons_self, by assumption⟩
          · cases here
        · obtain ⟨name, below⟩ := scope_of_implements_members members inside
          exact absurd below (deeper name)
      | typeName name => cases here
      | imports absolute tree => cases here
      | other inner => cases here
    · obtain ⟨self, members, mem, implemented⟩ := ih later
      exact ⟨self, members, List.mem_cons_of_mem i mem, implemented⟩

end Accessors

end LiveSettings
