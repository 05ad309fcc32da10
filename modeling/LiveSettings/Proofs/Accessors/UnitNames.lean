import LiveSettings.Proofs.Accessors.Units
import LiveSettings.Proofs.Code.Names
import LiveSettings.Proofs.Token.Rendering
import LiveSettings.Proofs.Code.Reading

/-!
# The names in a unit

A unit takes the names of its type and of its fields from the sources, and makes the names of its functions from
those of the fields. Each of them can be written as an identifier and is none of the keywords.

Results:
* `Naming.codeName_getterName`, `Naming.codeName_setterName`, `Naming.codeName_eventName`: the names that are made.
* `Accessors.named_of_unit`: the names in a unit of files that were read.
-/

namespace LiveSettings

/-- A name that can be written as an identifier and is none of the keywords. -/
structure CodeName (name : String) : Prop where
  spelled : Token.Spelled name
  plain : name ∉ Parser.keywords

namespace Token

open Text

theorem dropByteOrderMark_of_isIdentPart {c : Char} (part : isIdentPart c = true) (cs : List Char) :
    dropByteOrderMark (c :: cs) = c :: cs := by
  unfold dropByteOrderMark
  split
  · rename_i same
    cases same
    have other : isIdentPart '\ufeff' = false := by decide +kernel
    exact absurd part (Bool.eq_false_iff.1 other)
  · rfl

/-- An identifier as a text is one identifier. -/
theorem ofText?_spelled {name : String} (h : Spelled name) : ofText? name = some [.ident name] := by
  obtain ⟨c, cs, chars, start⟩ := exists_start h
  have written : Written [.ident name] := ⟨h, trivial⟩
  have balanced : Balanced [.ident name] := rfl
  have text : (render [.ident name]).toList ++ [] = name.toList := by
    simp [render, renderAfter, Token.text]
  have read := lexLoop_render ends_nil rfl written balanced (Nat.lt_succ_self _)
  rw [ofText?, chars, dropByteOrderMark_of_isIdentPart (isIdentPart_of_start start), ← chars, ofChars?, ← text]
  exact read

end Token

namespace Naming

open Text

theorem ok_of_plainName {name made : String} (h : plainName name = .ok made) :
    made = name ∧ isWord name.toList = true := by
  unfold plainName at h
  split at h
  · cases h
    exact ⟨rfl, ‹_›⟩
  · cases h

/-- A word that holds an identifier is one. -/
theorem not_mem_keywords_of_holdsIdentifier {name : String} (word : isWord name.toList = true)
    (holds : holdsIdentifier name = true) : name ∉ Parser.keywords := by
  intro keyword
  have identifier : Parser.isIdent [.ident name] = false := by simp [Parser.isIdent, keyword]
  have none : Parser.ident.runAll [.ident name] = none := by
    have fails := Parser.fails_ident identifier []
    rw [Parser.runAll, fails]
    rfl
  rw [holdsIdentifier, Token.ofText?_spelled (Token.spelled_of_isWord word), Option.bind_some, none] at holds
  cases holds

/-- The name of a getter, which may be raw. -/
theorem codeName_getterName {name made : String} (h : getterName name = .ok made) : CodeName made := by
  unfold getterName at h
  split at h
  · rename_i holds
    obtain ⟨rfl, word⟩ := ok_of_plainName h
    exact ⟨Token.spelled_of_isWord word, not_mem_keywords_of_holdsIdentifier word holds⟩
  · split at h
    · rename_i holds
      cases plainly : plainName name with
      | error e =>
        rw [plainly] at h
        cases h
      | ok word =>
        rw [plainly] at h
        cases h
        obtain ⟨rfl, isWord⟩ := ok_of_plainName plainly
        have allowed : Token.neverRaw.contains word = false := by
          refine Bool.eq_false_iff.2 fun never => ?_
          have all : ∀ n ∈ Token.neverRaw, holdsIdentifier ("r#" ++ n) = false := by decide +kernel
          rw [all word (List.contains_iff_mem.1 never)] at holds
          cases holds
        have sign : ∀ k ∈ Parser.keywords, '#' ∉ k.toList := by decide
        have raw := Token.identifier?_raw isWord (by rwa [String.ofList_toList]) [] Token.ends_nil
        have name : "r#" ++ word = String.ofList ('r' :: '#' :: word.toList) := by
          rw [← String.toList_inj]
          simp
        refine ⟨?_, fun keyword => sign _ keyword (by simp)⟩
        rw [List.append_nil] at raw
        show Token.Spelled ("r#" ++ word)
        rw [name, Token.Spelled, String.toList_ofList]
        exact raw
    · cases h

/-- No keyword starts like the name of a setter, and none ends like that of an event. -/
theorem codeName_setterName {name made : String} (h : setterName name = .ok made) : CodeName made := by
  obtain ⟨rfl, word⟩ := ok_of_plainName h
  have apart : ∀ k ∈ Parser.keywords, ¬"set_".toList <+: k.toList := by decide
  exact ⟨Token.spelled_of_isWord word, fun keyword => apart _ keyword (by simp)⟩

theorem codeName_eventName {name made : String} (h : eventName name = .ok made) : CodeName made := by
  obtain ⟨rfl, word⟩ := ok_of_plainName h
  have apart : ∀ k ∈ Parser.keywords, ¬"_changed".toList <:+ k.toList := by decide
  exact ⟨Token.spelled_of_isWord word, fun keyword => apart _ keyword (by simp)⟩

end Naming

/-! ## Names of fields -/

namespace Target

theorem mem_of_findContext {fields : List ConfiguredField} {name : String}
    (h : findContext fields = .ok (some name)) : ∃ f ∈ fields, f.name = name := by
  unfold findContext at h
  split at h
  · rename_i f marked
    cases h
    exact ⟨f, (List.mem_filter.1 (marked ▸ List.mem_cons_self)).1, rfl⟩
  · cases h
  · split at h
    · cases h
    · rename_i f typed
      cases h
      exact ⟨f, (List.mem_filter.1 (typed ▸ List.mem_cons_self)).1, rfl⟩
    · cases h

/-- The context of a struct is one of its fields. -/
theorem mem_of_contextField {decl : Struct} {modulePath : List String} {container : Container} {t : Target}
    {cs : List Candidate} (h : ofDeclaration (.struct decl) modulePath container = .ok (t, cs)) {name : String}
    (context : t.contextField = some name) : ∃ fields, decl.fields = .named fields ∧ ∃ f ∈ fields, f.name = name := by
  obtain ⟨fields, configured, _, _, named, each, -, found, rfl, -⟩ := ofDeclaration_spec h
  obtain rfl : _ = some name := context
  obtain ⟨c, mem, rfl⟩ := mem_of_findContext found
  have made : (.ok c : Except Config.ConfigError ConfiguredField) ∈ configured.map .ok := List.mem_map_of_mem mem
  rw [← each] at made
  obtain ⟨f, inFields, read⟩ := List.mem_map.1 made
  exact ⟨fields, named, f, inFields, (configureField_ok read).1.symm⟩

end Target

namespace Candidate

/-- A property of a candidate is of one of its variables, and of the type of that. -/
theorem variable_of_mem_resolved {c : Candidate} {p : Property} (h : p ∈ c.resolved) :
    ∃ v ∈ c.variables, p.field = v.1 ∧ Descriptor.ofTy? v.2 = some p.type := by
  obtain ⟨s, -, mem⟩ := mem_properties_of_resolved h
  obtain ⟨⟨v, i⟩, place, made⟩ := List.mem_filterMap.1 mem
  obtain ⟨d, given, rfl⟩ := Option.map_eq_some_iff.1 made
  exact ⟨v, List.fst_mem_of_mem_zipIdx place, rfl, given⟩

end Candidate

namespace Accessors

theorem exists_item_of_site {imports : Imports} {scope : List String} {container : Container} {items : List Item}
    {s : Site} (h : s ∈ sitesIn imports scope container items) :
    ∃ i ∈ items, s ∈ itemSites imports scope container i := by
  induction items with
  | nil => cases h
  | cons i is ih =>
    rcases List.mem_append.1 h with here | later
    · exact ⟨i, List.mem_cons_self, here⟩
    · obtain ⟨j, mem, there⟩ := ih later
      exact ⟨j, List.mem_cons_of_mem i mem, there⟩

theorem exists_member_of_site {scope : List String} {members : List Item} {s : Site}
    (h : s ∈ memberSites scope members) : ∃ i ∈ members, s ∈ itemSites default scope .nested i := by
  induction members with
  | nil => cases h
  | cons i is ih =>
    have behind (later : s ∈ memberSites scope is) : ∃ j ∈ i :: is, s ∈ itemSites default scope .nested j := by
      obtain ⟨j, mem, there⟩ := ih later
      exact ⟨j, List.mem_cons_of_mem i mem, there⟩
    cases i with
    | function name body inner =>
      rcases List.mem_append.1 h with here | later
      · exact ⟨_, List.mem_cons_self, here⟩
      · exact behind later
    | struct _ | typeName _ | module _ _ | implementation _ _ _ | imports _ _ | other _ => exact behind h

/-- Names are bound by imports that are read from the tokens. -/
def ImportsIn (ts : List Token) (imports : Imports) : Prop :=
  ∀ b ∈ imports.bindings, ∃ absolute tree, Grammar.ImportedIn ts tree ∧ b ∈ tree.bindings ⟨absolute, []⟩

theorem importsIn_ofItems {ts : List Token} {items : List Item}
    (each : ∀ i ∈ items, ∀ absolute tree, i = .imports absolute tree → Grammar.ImportedIn ts tree) :
    ImportsIn ts (Imports.ofItems items) := by
  intro b mem
  obtain ⟨i, inside, mem⟩ := List.mem_flatMap.1 mem
  cases i with
  | imports absolute tree => exact ⟨absolute, tree, each _ inside absolute tree rfl, mem⟩
  | struct _ | typeName _ | module _ _ | function _ _ _ | implementation _ _ _ | other _ => cases mem

/-- A struct that a scan comes to is read from the tokens, and so is what its module imports. -/
structure SiteIn (ts : List Token) (s : Site) : Prop where
  decl : Grammar.DeclaredIn ts s.decl
  imports : ImportsIn ts s.imports

/-- The structs that a scan comes to in an item are read from its tokens. -/
theorem inherited_sites (ts : List Token) : Grammar.Inherited ts fun i =>
    (∀ absolute tree, i = .imports absolute tree → Grammar.ImportedIn ts tree) ∧
      ∀ imports scope container, ImportsIn ts imports → ∀ s ∈ itemSites imports scope container i, SiteIn ts s where
  struct d declared := ⟨nofun, fun imports scope container imported s mem => by
    rw [List.mem_singleton.1 mem]
    exact ⟨declared, imported⟩⟩
  typeName _ := ⟨nofun, fun _ _ _ _ _ mem => nomatch mem⟩
  module name items _ all := ⟨nofun, fun _ _ _ _ s mem => by
    obtain ⟨i, inside, mem⟩ := exists_item_of_site mem
    exact (all i inside).2 _ _ _ (importsIn_ofItems fun j mem => (all j mem).1) s mem⟩
  function name body inner _ all := ⟨nofun, fun _ _ _ _ s mem => by
    obtain ⟨i, inside, mem⟩ := exists_item_of_site mem
    exact (all i inside).2 _ _ _ (importsIn_ofItems fun j mem => (all j mem).1) s mem⟩
  implementation head self members all := ⟨nofun, fun _ _ _ _ s mem => by
    obtain ⟨i, inside, mem⟩ := exists_member_of_site mem
    exact (all i inside).2 _ _ _ (fun b none => absurd none List.not_mem_nil) s mem⟩
  imports absolute tree imported := ⟨fun _ _ same => by cases same; exact imported, fun _ _ _ _ _ mem => nomatch mem⟩
  other _ := ⟨nofun, fun _ _ _ _ _ mem => nomatch mem⟩

/-- A struct in files that were read is read from the tokens of one of them. -/
theorem siteIn_of_site {sources : List SourceFile} (read : ∀ f ∈ sources, f.Read) {s : Site} (mem : s ∈ sites sources) :
    ∃ text ts, Token.ofFile? text = some ts ∧ SiteIn ts s := by
  obtain ⟨file, inSources, mem⟩ := List.mem_flatMap.1 mem
  obtain ⟨i, inFile, mem⟩ := exists_item_of_site mem
  obtain ⟨text, read⟩ := read file inSources
  obtain ⟨-, ts, lexed, items⟩ := SourceFile.items_ofText? read
  have each := items _ (inherited_sites ts)
  exact ⟨text, ts, lexed, (each i inFile).2 _ _ _ (importsIn_ofItems fun j mem => (each j mem).1) s mem⟩

/-- The names of a struct in files that were read, and of its fields. -/
theorem codeNames_of_site {sources : List SourceFile} (read : ∀ f ∈ sources, f.Read) {s : Site}
    (mem : s ∈ sites sources) :
    CodeName s.decl.name ∧ ∀ fields, s.decl.fields = .named fields → ∀ f ∈ fields, f.name = "_" ∨ CodeName f.name := by
  obtain ⟨text, ts, lexed, site⟩ := siteIn_of_site read mem
  have codeName {name : String} (h : Grammar.IsName ts name) : CodeName name :=
    ⟨Token.spelled_of_ofFile? lexed h.1, h.2⟩
  exact ⟨codeName site.decl.name, fun fields same f mem =>
    (site.decl.fields fields same f mem).imp_right fun field => codeName field.1⟩

/-- The names in the code of a property. -/
structure Group.Named (g : Group) : Prop where
  field : CodeName g.field
  getter : CodeName g.getter
  setter : CodeName g.setter
  event : CodeName g.event
  read : CodeName g.access.read
  write : CodeName g.access.write
  unchanged : CodeName g.access.unchanged

/-- What is written for a property has the names of that property. -/
structure Group.Of (g : Group) (p : Property) : Prop where
  name : g.name = p.name
  key : g.key = p.storageKey
  raisesEvent : g.raisesEvent = p.raiseEvent
  getter : Naming.getterName (Naming.accessorName p.field) = .ok g.getter
  setter : Naming.setterName (Naming.accessorName p.field) = .ok g.setter
  event : Naming.eventName (Naming.accessorName p.field) = .ok g.event

/-- A field without a name gives no property. -/
theorem groupOf_ok {p : Property} {g : Group} (h : groupOf p = .ok g) :
    p.field ≠ "_" ∧ g.field = p.field ∧ g.type = p.type.declared ∧ g.access = accessFor p.strategy p.type.nullable ∧
      g.Of p := by
  unfold groupOf at h
  split at h
  · cases h
  · rename_i named
    have field : p.field ≠ "_" := by
      intro same
      refine named ?_
      rw [Property.name, same]
      decide
    cases getter : Naming.getterName (Naming.accessorName p.field) with
    | error e => simp [getter] at h
    | ok getterName =>
      cases setter : Naming.setterName (Naming.accessorName p.field) with
      | error e => simp [getter, setter] at h
      | ok setterName =>
        cases event : Naming.eventName (Naming.accessorName p.field) with
        | error e => simp [getter, setter, event] at h
        | ok eventName =>
          simp only [getter, setter, event] at h
          have made := Except.ok.inj h
          refine ⟨field, by rw [← made], by rw [← made], by rw [← made], ?_⟩
          exact {
            name := by rw [← made]
            key := by rw [← made]
            raisesEvent := by rw [← made]
            getter := by rw [getter, ← made]
            setter := by rw [setter, ← made]
            event := by rw [event, ← made] }

theorem codeName_access (strategy : Strategy) (nullable : Bool) :
    CodeName (accessFor strategy nullable).read ∧ CodeName (accessFor strategy nullable).write ∧
      CodeName (accessFor strategy nullable).unchanged := by
  cases strategy <;> cases nullable <;>
    exact ⟨⟨by decide, by decide⟩, ⟨by decide, by decide⟩, ⟨by decide, by decide⟩⟩

theorem named_of_groupOf {p : Property} {g : Group} (h : groupOf p = .ok g) (field : p.field = "_" ∨ CodeName p.field) :
    g.Named := by
  obtain ⟨given, same, -, access, names⟩ := groupOf_ok h
  obtain ⟨read, write, unchanged⟩ := codeName_access p.strategy p.type.nullable
  rw [← access] at read write unchanged
  exact { field := same ▸ field.resolve_left given
          getter := Naming.codeName_getterName names.getter
          setter := Naming.codeName_setterName names.setter
          event := Naming.codeName_eventName names.event
          read, write, unchanged }

/-- The names in a unit of files that were read. The context may be a field without a name. -/
structure Emitted.Named (e : Emitted) : Prop where
  name : CodeName e.name
  context : e.contextField = "_" ∨ CodeName e.contextField
  groups : ∀ g ∈ e.groups, g.Named

/-- The fields of a struct whose types are qualified have their names from the struct. -/
theorem exists_field_of_qualified {imports : Imports} {d : Struct} {fields : List Field}
    (h : (d.qualified imports).fields = .named fields) {f : Field} (mem : f ∈ fields) :
    ∃ declared, d.fields = .named declared ∧ ∃ f' ∈ declared, f'.name = f.name := by
  obtain ⟨declared, same, rfl⟩ := Struct.fields_qualified h
  obtain ⟨f', inside, rfl⟩ := List.mem_map.1 mem
  exact ⟨declared, same, f', inside, rfl⟩

theorem isMarked_of_find {f : Field} {x : Marker.Settings} (h : Marker.find f.attrs = .ok (some x)) :
    f.isMarked = true := by
  by_contra unmarked
  have none : Marker.find f.attrs = .ok none :=
    (Marker.find_eq_none_iff f.attrs).2 fun a mem => by
      simpa using List.any_eq_false.1 (Bool.eq_false_iff.2 unmarked) a mem
  rw [none] at h
  cases h

/-- What is written for a property is that of a marked field of one of the structs of the unit. -/
theorem exists_field_of_group {sources : List SourceFile} {u : GeneratedUnit} (mem : u ∈ (generate sources).units)
    {g : Group} (listed : g ∈ u.emitted.groups) :
    ∃ s ∈ structsOf sources u.id, ∃ fields, s.decl.fields = .named fields ∧ ∃ f ∈ fields, f.isMarked = true ∧
      ∃ p, groupOf p = .ok g ∧ p.field = f.name ∧
        Descriptor.ofTy? (s.imports.qualify s.decl.generics.typeNames f.ty) = some p.type := by
  obtain ⟨first, rest, t, cs, structs, -, -, -, -, -, describes⟩ := structs_of_unit mem
  have made : (.ok g : Except EmitError Group) ∈ u.emitted.groups.map .ok := List.mem_map_of_mem listed
  rw [← describes.groups] at made
  obtain ⟨p, mem, made⟩ := List.mem_map.1 made
  obtain ⟨c, mem, resolved⟩ := List.mem_flatMap.1 mem
  obtain ⟨s, inside, mem⟩ := List.mem_flatMap.1 (Candidate.mem_dedup.1 mem)
  cases found : s.accepted? with
  | none =>
    rw [Site.candidates, found] at mem
    cases mem
  | some declared =>
    obtain ⟨t', cs'⟩ := declared
    obtain ⟨-, -, -, -, fields, same, rfl⟩ := Site.accepted_spec found
    rw [Site.candidates, found] at mem
    obtain ⟨f, among, rfl⟩ := List.mem_map.1 mem
    have among := (List.mem_filter.1 among).1
    obtain ⟨v, own, name, type⟩ := Candidate.variable_of_mem_resolved resolved
    obtain rfl : v = (f.name, f.ty) := List.mem_singleton.1 own
    obtain ⟨written, declared, rfl⟩ := Struct.fields_qualified same
    obtain ⟨f', inFields, rfl⟩ := List.mem_map.1 among
    obtain ⟨settings, marker, -⟩ := Candidate.mem_properties_of_resolved resolved
    have marked : f'.isMarked = true := isMarked_of_find ((find_plainAttrs f').symm.trans marker)
    exact ⟨s, structs ▸ inside, written, declared, f', inFields, marked, p, made, name, type⟩

/-- The names in a unit of files that were read. -/
theorem named_of_unit {sources : List SourceFile} (read : ∀ f ∈ sources, f.Read) {u : GeneratedUnit}
    (mem : u ∈ (generate sources).units) : u.emitted.Named := by
  obtain ⟨s, rest, t, cs, structs, accepted, name, -, context, -, -⟩ := structs_of_unit mem
  have names {r : Site} (mem : r ∈ structsOf sources u.id) := codeNames_of_site read (List.mem_filter.1 mem).1
  have first : s ∈ structsOf sources u.id := structs ▸ List.mem_cons_self
  refine ⟨?_, ?_, fun g listed => ?_⟩
  · rw [name]
    exact (names first).1
  · obtain ⟨fields, same, f, inside, own⟩ :=
      Target.mem_of_contextField (Site.accepted?_eq_some_iff.1 accepted).2 context
    obtain ⟨declared, same, f', among, named⟩ := exists_field_of_qualified same inside
    rw [← own, ← named]
    exact (names first).2 declared same f' among
  · obtain ⟨r, own, fields, same, f, among, -, p, made, field, -⟩ := exists_field_of_group mem listed
    exact named_of_groupOf made (field ▸ (names own).2 fields same f among)

end Accessors

end LiveSettings
