import LiveSettings.Proofs.Property.Markers
import LiveSettings.Proofs.Target.Declaration

/-!
# Traits that a type implements

A type lists the traits that it implements in its configuration, and implementations add to them. A setting
counts once: where it could be read without a mistake there is one use of it at most, in all attributes together.

Results:
* `Config.fromAttrs_ok`: what is read of attributes without a mistake.
* `Target.declares_iff_lists`: the traits of a declaration are those that its configuration lists.
* `Target.declares_foldl`: implementations add the traits that they are of.
-/

namespace LiveSettings

/-! ## One setting in all attributes -/

namespace Config

section

variable {α : Type} {name : String} {read : Attr → Except Mistake α}

/-- The uses of a setting in a list of settings. -/
def usesIn (name : String) (ss : List Setting) : List Attr :=
  ss.filterMap fun
    | .path a => if "::".intercalate a.path.names = name then some a else none
    | .literal => none

/-- The uses of a setting in the configuration among attributes. -/
def uses (name : String) (attrs : List Attr) : List Attr :=
  attrs.flatMap fun a =>
    if a.path.names = [attributeName] then usesIn name ((attrSettings a).toOption.getD []) else []

/-- What reading uses of a setting has come to: nothing new, or the value of the first and only use. -/
def Comes (read : Attr → Except Mistake α) (before after : Bool × Option α) (uses : List Attr) : Prop :=
  (uses = [] ∧ after = before) ∨ (before.1 = false ∧ ∃ a v, uses = [a] ∧ read a = .ok v ∧ after = (true, some v))

theorem Comes.append {before between after : Bool × Option α} {uses later : List Attr}
    (h : Comes read before between uses) (h' : Comes read between after later) :
    Comes read before after (uses ++ later) := by
  rcases h with ⟨rfl, rfl⟩ | ⟨fresh, a, v, rfl, value, rfl⟩
  · exact h'
  · rcases h' with ⟨rfl, rfl⟩ | ⟨again, -⟩
    · exact .inr ⟨fresh, a, v, rfl, value, rfl⟩
    · cases again

theorem known_ok {ss : List Setting} {seen : Bool} {value : Option α} {after : Bool × Option α}
    (h : known name read ss seen value = ([], after)) : Comes read (seen, value) after (usesIn name ss) := by
  induction ss generalizing seen value with
  | nil =>
    cases h
    exact .inl ⟨rfl, rfl⟩
  | cons s ss ih =>
    cases s with
    | literal => cases h
    | path a =>
      simp only [known] at h
      split at h
      · rename_i written
        have more : usesIn name (.path a :: ss) = [a] ++ usesIn name ss := by
          simp [usesIn, written]
        split at h
        · cases h
        · rename_i fresh
          split at h
          · rename_i v ok
            rw [more]
            exact Comes.append (.inr ⟨Bool.eq_false_iff.2 fresh, a, v, rfl, ok, rfl⟩) (ih h)
          · cases h
      · cases h

/-- Where attributes are read without a mistake, there is one use of the setting at most, and its value is what was
read. -/
theorem fromAttrs_ok {attrs : List Attr} {seen : Bool} {value after : Option α}
    (h : fromAttrs name read attrs seen value = ([], after)) :
    ∃ seen', Comes read (seen, value) (seen', after) (uses name attrs) := by
  induction attrs generalizing seen value with
  | nil =>
    cases h
    exact ⟨seen, .inl ⟨rfl, rfl⟩⟩
  | cons a attrs ih =>
    simp only [fromAttrs] at h
    split at h
    · rename_i configures
      split at h
      · rename_i ss settings
        obtain ⟨nothing, later⟩ := Prod.mk.inj h
        obtain ⟨own, others⟩ := List.append_eq_nil_iff.1 nothing
        have here := known_ok (Prod.ext own rfl : known name read ss seen value = ([], _))
        obtain ⟨seen', rest⟩ := ih (Prod.ext others later)
        have more : uses name (a :: attrs) = usesIn name ss ++ uses name attrs := by
          simp [uses, configures, settings, Except.toOption]
        exact ⟨seen', more ▸ here.append rest⟩
      · cases (Prod.mk.inj h).1
    · rename_i other
      have more : uses name (a :: attrs) = uses name attrs := by
        simp [uses, other]
      exact more ▸ ih h

end

/-- The traits that a use of the setting lists are its words, all of them. -/
theorem mem_of_readImplements {a : Attr} {ps : List NamePath} (h : readImplements a = .ok ps) :
    ∃ d ts ss, a.args = .list d ts ∧ settings ts = .ok ss ∧ ∀ p, p ∈ ps ↔ .path ⟨p, .none⟩ ∈ ss := by
  unfold readImplements at h
  split at h
  · cases h
  · cases h
  · rename_i d ts args
    cases found : settings ts with
    | error m =>
      rw [found] at h
      cases h
    | ok ss =>
      rw [found] at h
      refine ⟨d, ts, ss, args, found, ?_⟩
      replace h : ss.mapM _ = Except.ok ps := h
      clear found args
      induction ss generalizing ps with
      | nil =>
        cases h
        simp
      | cons s ss ih =>
        rw [List.mapM_cons] at h
        obtain ⟨p, word, h⟩ := Marker.bind_eq_ok_iff.1 h
        obtain ⟨later, rest, made⟩ := Marker.bind_eq_ok_iff.1 h
        cases made
        split at word
        · cases word
          intro q
          rw [List.mem_cons, List.mem_cons, ih rest]
          simp
        · cases word

end Config

/-! ## The traits of a declaration -/

/-- Whether the configuration of a struct lists a trait of this name. -/
def Struct.Lists (decl : Struct) (trait : String) : Prop :=
  ∃ a ∈ Config.uses "implements" decl.attrs, ∃ d ts ss p, a.args = .list d ts ∧ Config.settings ts = .ok ss ∧
    .path ⟨p, .none⟩ ∈ ss ∧ p.names.getLast? = some trait

theorem Path.lastName?_ofNames (p : NamePath) : (Path.ofNames p).lastName? = p.names.getLast? := by
  have name : Segment.name ∘ (fun n => Segment.mk n .none) = id := rfl
  rw [Path.lastName?, Path.ofNames, List.getLast?_map, Option.map_map, name, Option.map_id, id_eq]

namespace Target

/-- The traits of a declaration are those that its configuration lists. -/
theorem declares_iff_lists {decl : Struct} {modulePath : List String} {container : Container} {t : Target}
    {cs : List Candidate} (h : ofDeclaration (.struct decl) modulePath container = .ok (t, cs)) (trait : String) :
    t.declares trait = true ↔ decl.Lists trait := by
  obtain ⟨_, _, implemented, _, -, -, read, -, rfl, -⟩ := ofDeclaration_spec h
  obtain ⟨seen, comes⟩ := Config.fromAttrs_ok read
  rw [declares_iff]
  rcases comes with ⟨unused, same⟩ | ⟨-, a, ps, used, value, same⟩
  · obtain ⟨-, rfl⟩ := Prod.mk.inj same
    simp [Struct.Lists, unused]
  · obtain ⟨-, rfl⟩ := Prod.mk.inj same
    obtain ⟨d, ts, ss, args, settings, words⟩ := Config.mem_of_readImplements value
    constructor
    · rintro ⟨q, mem, last⟩
      obtain ⟨p, listed, rfl⟩ := List.mem_map.1 mem
      rw [Path.lastName?_ofNames] at last
      exact ⟨a, used ▸ List.mem_singleton_self a, d, ts, ss, p, args, settings, (words p).1 listed, last⟩
    · rintro ⟨a', mem, d', ts', ss', p, args', settings', listed, last⟩
      rw [used, List.mem_singleton] at mem
      subst mem
      cases args.symm.trans args'
      cases settings.symm.trans settings'
      exact ⟨.ofNames p, List.mem_map_of_mem ((words p).2 listed), (Path.lastName?_ofNames p).trans last⟩

/-! ## Traits of implementations -/

theorem declares_addCapability (t : Target) (p : Path) (name : String) :
    (t.addCapability p).declares name = (t.declares name || p.lastName? == some name) := by
  unfold addCapability
  split
  · rename_i known
    obtain ⟨q, mem, same⟩ := List.any_eq_true.1 known
    rw [(Path.same_iff q p).1 same] at mem
    cases own : p.lastName? == some name with
    | false => rw [Bool.or_false]
    | true => rw [Bool.or_true, declares, List.any_eq_true.2 ⟨p, mem, own⟩]
  · simp [declares, List.any_append]

/-- Implementations add the traits that they are of, one by one. -/
theorem declares_foldl (is : List (TypeId × Path)) (t : Target) (name : String) :
    (is.foldl (fun t i => t.addCapability i.2) t).declares name =
      (t.declares name || is.any (·.2.lastName? == some name)) := by
  induction is generalizing t with
  | nil => rw [List.foldl_nil, List.any_nil, Bool.or_false]
  | cons i is ih => rw [List.foldl_cons, ih, declares_addCapability, List.any_cons, Bool.or_assoc]

end Target

end LiveSettings
