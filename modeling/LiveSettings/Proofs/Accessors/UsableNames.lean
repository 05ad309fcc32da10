import LiveSettings.Proofs.Accessors.Problems
import Mathlib.Data.List.DropRight

/-!
# Names that accessors can have

A field's name without raw mark and leading underscores may start with a digit or a mark, be a keyword that can be
raw or one that cannot, or be nothing at all. The getter's name is asked for first. Where it can be had, those of
the setter and of the event are words, so that no name is ever made of what is no identifier.

Results:
* `Token.identifier?_of_ofText?`: a text that starts like a word, with an identifier first, starts with it.
* `Naming.getterName_eq`: the getter's name, for every name of word characters.
* `Accessors.groupOf_of_isIdentifier`: the names of the accessors of a field, or why there are none.
* `Accessors.emit_eq_error_iff`: what is reported for any properties.
* `Accessors.names_of_fields`: names never break what is written.
-/

namespace LiveSettings

/-! ## Texts of one identifier -/

namespace Token

open Text

theorem identifier?_of_ofText? {text name : String} {c : Char} {cs : List Char} {ts : List Token}
    (chars : text.toList = c :: cs) (part : isIdentPart c = true) (h : ofText? text = some (.ident name :: ts)) :
    ∃ rest, identifier? text.toList = some (name, rest) := by
  have start := startsLeaf_of_isIdentPart part
  have slash : c ≠ '/' := by
    rintro rfl
    exact absurd part (by decide)
  obtain ⟨gap, comment⟩ : Solid (c :: cs) := solid_of_start start.gap fun is => absurd is slash
  rw [ofText?, chars, dropByteOrderMark_of_isIdentPart part, ofChars?, lexLoop] at h
  simp only [skipGaps_none gap, comment, start.opening, start.closing, leafThen] at h
  split at h
  · rename_i t rest leaf
    obtain ⟨later, -, same⟩ := Option.map_eq_some_iff.1 h
    cases (List.cons.inj same).1
    exact ⟨rest, chars ▸ identifier?_of_leaf? leaf⟩
  · cases h

end Token

namespace Naming

open Text

theorem holdsIdentifier_of_spelled {name : String} (h : Token.Spelled name) (plain : name ∉ Parser.keywords) :
    holdsIdentifier name = true := by
  obtain ⟨_, _, read, rfl⟩ := Parser.reads_ident plain [] []
  rw [holdsIdentifier, Token.ofText?_spelled h, Option.bind_some, Parser.runAll, read]
  rfl

theorem exists_of_holdsIdentifier {text : String} (holds : holdsIdentifier text = true) :
    ∃ name ts, Token.ofText? text = some (.ident name :: ts) := by
  unfold holdsIdentifier at holds
  cases read : Token.ofText? text with
  | none =>
    rw [read] at holds
    cases holds
  | some ts =>
    cases ident : Parser.isIdent ts with
    | false =>
      rw [read, Option.bind_some, Parser.runAll, Parser.fails_ident ident []] at holds
      cases holds
    | true =>
      unfold Parser.isIdent at ident
      split at ident
      · exact ⟨_, _, rfl⟩
      · cases ident

/-- What starts like a word and is no identifier holds none. -/
theorem not_holdsIdentifier {text : String} {c : Char} {cs : List Char} (chars : text.toList = c :: cs)
    (part : isIdentPart c = true) (none : Token.identifier? text.toList = none) : holdsIdentifier text = false := by
  refine Bool.eq_false_iff.2 fun holds => ?_
  obtain ⟨name, ts, read⟩ := exists_of_holdsIdentifier holds
  obtain ⟨rest, found⟩ := Token.identifier?_of_ofText? chars part read
  rw [none] at found
  cases found

/-! ## The getter's name -/

/-- What names a place and never anything in it, raw or not. -/
def pathWords : List String := ["self", "Self", "super", "crate"]

/-- Whether no getter can have the name: it is nothing, does not start like a word or stands for a place. -/
def Barred (name : String) : Prop :=
  name = "" ∨ name.toList.head?.any (fun c => !isIdentStart c) = true ∨ name ∈ pathWords

theorem toList_raw (name : String) : ("r#" ++ name).toList = 'r' :: '#' :: name.toList := by
  rw [String.toList_append]
  rfl

section

variable {name : String} (parts : ∀ c ∈ name.toList, isIdentPart c = true)

include parts in
theorem isWord_of_not_barred (h : ¬ Barred name) : isWord name.toList = true := by
  cases chars : name.toList with
  | nil => exact absurd (.inl (String.toList_eq_nil_iff.1 chars)) h
  | cons c cs =>
    have start : isIdentStart c = true := by
      by_contra other
      exact h (.inr (.inl (by simp [chars, Bool.eq_false_iff.2 other])))
    refine Bool.and_eq_true_iff.2 ⟨start, List.all_eq_true.2 fun d mem => parts d ?_⟩
    rw [chars]
    exact List.mem_cons_of_mem c mem

include parts in
/-- A name that does not start like a word is no identifier, raw or not. -/
theorem getterName_of_start {c : Char} {cs : List Char} (chars : name.toList = c :: cs)
    (start : isIdentStart c = false) : getterName name = .error (.unusable name) := by
  have part : isIdentPart c = true := parts c (chars ▸ List.mem_cons_self)
  have word : Token.identifier?.word? (c :: cs) = none := by
    rw [Token.identifier?.word?, Literal.wordRest?, if_neg (by rw [start]; decide)]
    rfl
  have plain : holdsIdentifier name = false := by
    refine not_holdsIdentifier chars part ?_
    rw [chars, Token.identifier?]
    · exact word
    · rintro rest same
      obtain ⟨rfl, -⟩ := List.cons.inj same
      exact absurd start (by decide)
  have raw : holdsIdentifier ("r#" ++ name) = false := by
    refine not_holdsIdentifier (toList_raw name) (by decide) ?_
    rw [toList_raw, chars]
    simp only [Token.identifier?, word]
    rfl
  rw [getterName, plain, raw]
  rfl

/-- A word is a getter's name, raw if it is a keyword. -/
theorem getterName_of_word (word : isWord name.toList = true) (allowed : name ∉ Token.neverRaw) :
    getterName name = .ok (if name ∈ Parser.keywords then "r#" ++ name else name) := by
  have itself : plainName name = .ok name := if_pos word
  by_cases keyword : name ∈ Parser.keywords
  · have plain : holdsIdentifier name = false :=
      Bool.eq_false_iff.2 fun holds => not_mem_keywords_of_holdsIdentifier word holds keyword
    have sign : ∀ k ∈ Parser.keywords, '#' ∉ k.toList := by decide
    have raw : holdsIdentifier ("r#" ++ name) = true := by
      refine holdsIdentifier_of_spelled ?_ fun keyword => sign _ keyword (by simp)
      have read := Token.identifier?_raw word (by simpa using allowed) [] Token.ends_nil
      rw [List.append_nil, ← toList_raw, String.ofList_toList] at read
      exact read
    rw [getterName, plain, raw, itself, if_pos keyword]
    rfl
  · rw [getterName, holdsIdentifier_of_spelled (Token.spelled_of_isWord word) keyword, itself, if_neg keyword]
    rfl

/-- A word that may not be raw names no getter. -/
theorem getterName_of_neverRaw (never : name ∈ Token.neverRaw) : getterName name = .error (.unusable name) := by
  have all : ∀ n ∈ Token.neverRaw, getterName n = .error (.unusable n) := by decide +kernel
  exact all name never

end

instance (name : String) : Decidable (Barred name) := inferInstanceAs (Decidable (_ = _ ∨ _ = true ∨ _ ∈ _))

/-- The getter's name, for every name of word characters without leading underscores. -/
theorem getterName_eq {name : String} (parts : ∀ c ∈ name.toList, isIdentPart c = true) (filled : name ≠ "")
    (underscore : name.toList.head? ≠ some '_') :
    getterName name =
      if Barred name then .error (.unusable name)
      else .ok (if name ∈ Parser.keywords then "r#" ++ name else name) := by
  split
  · rename_i barred
    rcases barred with rfl | start | place
    · exact absurd rfl filled
    · cases chars : name.toList with
      | nil => simp [chars] at start
      | cons c cs => exact getterName_of_start parts chars (by simpa [chars] using start)
    · exact getterName_of_neverRaw (List.mem_cons_of_mem "_" ((by decide : pathWords ⊆ _) place))
  · rename_i free
    refine getterName_of_word (isWord_of_not_barred parts free) fun never => ?_
    rcases List.mem_cons.1 never with rfl | place
    · exact underscore rfl
    · exact free (.inr (.inr ((by decide : Token.neverRaw.tail ⊆ pathWords) place)))

/-! ## Names of fields -/

/-- What is left of a field's name are characters of words. -/
theorem isIdentPart_of_accessorName {field : String} (h : isIdentifier field = true) {c : Char}
    (mem : c ∈ (accessorName field).toList) : isIdentPart c = true := by
  rw [accessorName, String.toList_ofList, stripped] at mem
  have mem := (List.dropWhile_sublist _).subset mem
  unfold withoutRaw at mem
  split at mem
  · rename_i rest chars
    rw [String.toList_ofList] at mem
    rcases Bool.or_eq_true_iff.1 h with word | raw
    · have sign := isIdentPart_of_isWord word (c := '#') (by simp [chars])
      exact absurd sign (by decide)
    · obtain ⟨-, word⟩ := Bool.and_eq_true_iff.1 raw
      rw [chars] at word
      exact isIdentPart_of_isWord word mem
  · rename_i plain
    rcases Bool.or_eq_true_iff.1 h with word | raw
    · exact isIdentPart_of_isWord word mem
    · obtain ⟨mark, -⟩ := Bool.and_eq_true_iff.1 raw
      refine absurd ?_ (plain (field.toList.drop 2))
      rw [← List.take_append_drop 2 field.toList, eq_of_beq mark]
      simp

theorem head?_accessorName (field : String) : (accessorName field).toList.head? ≠ some '_' := by
  intro first
  rw [accessorName, String.toList_ofList] at first
  have other := List.head?_dropWhile_not (· == '_') (withoutRaw field).toList
  rw [← stripped, first] at other
  simp at other

theorem upperForm_ne_nil (c : Char) : upperForm c ≠ [] := by
  have forms : ∀ e ∈ upperSequences, e.2 ≠ [] := by decide
  unfold upperForm
  dsimp only
  split
  · exact List.cons_ne_nil _ _
  · split
    · rename_i found
      exact fun none => forms _ (List.mem_of_find?_eq_some found) (List.map_eq_nil_iff.1 none)
    · split <;> exact List.cons_ne_nil _ _

/-- A property has a name just if its field has one without leading underscores. -/
theorem propertyName_accessorName (field : String) :
    propertyName (accessorName field) = "" ↔ accessorName field = "" := by
  have once : stripped (accessorName field) = (accessorName field).toList := by
    rw [accessorName, String.toList_ofList, stripped, String.toList_ofList, stripped]
    exact List.dropWhile_idempotent _ _
  unfold propertyName
  rw [once]
  split
  · rename_i nothing
    exact ⟨fun _ => String.toList_eq_nil_iff.1 nothing, fun _ => rfl⟩
  · rename_i c cs chars
    constructor
    · intro none
      have none := congrArg String.toList none
      rw [String.toList_ofList] at none
      exact absurd (List.append_eq_nil_iff.1 none).1 (upperForm_ne_nil c)
    · intro none
      rw [none] at chars
      cases chars

end Naming

namespace Accessors

open Naming

/-! ## Accessors of a field -/

/-- Why a field has no accessors, if its name is barred. -/
def barredError (field : String) : EmitError :=
  if accessorName field = "" then .unnamed field else .badName (.unusable (accessorName field))

/-- What the accessors of a field are called, all of them names that code can have. -/
structure Group.CalledAfter (g : Group) (name : String) : Prop where
  getter : g.getter = if name ∈ Parser.keywords then "r#" ++ name else name
  setter : g.setter = "set_" ++ name
  event : g.event = name ++ "_changed"
  getterCode : CodeName g.getter
  setterCode : CodeName g.setter
  eventCode : CodeName g.event

theorem groupOf_of_getterName {p : Property} {getter : String} (named : p.name ≠ "")
    (h : getterName (accessorName p.field) = .ok getter) :
    ∃ g, groupOf p = .ok g ∧ g.getter = getter ∧ g.setter = "set_" ++ accessorName p.field ∧
      g.event = accessorName p.field ++ "_changed" := by
  obtain ⟨setter, event⟩ := others_of_getterName h
  rw [groupOf, if_neg named]
  simp only [h, setter, event]
  exact ⟨_, rfl, rfl, rfl, rfl⟩

/-- The accessors of a field with an identifier as its name. -/
theorem groupOf_of_isIdentifier {p : Property} (h : Text.isIdentifier p.field = true) :
    if Barred (accessorName p.field) then groupOf p = .error (barredError p.field)
    else ∃ g, groupOf p = .ok g ∧ g.CalledAfter (accessorName p.field) := by
  have parts := fun c mem => isIdentPart_of_accessorName h (c := c) mem
  have named : p.name = "" ↔ accessorName p.field = "" := propertyName_accessorName p.field
  by_cases filled : accessorName p.field = ""
  · rw [if_pos (.inl filled), groupOf, if_pos (named.2 filled), barredError, if_pos filled]
  · have getter := getterName_eq parts filled (head?_accessorName p.field)
    split
    · rename_i barred
      rw [if_pos barred] at getter
      rw [groupOf, if_neg (mt named.1 filled), barredError, if_neg filled]
      simp only [getter]
    · rename_i free
      rw [if_neg free] at getter
      obtain ⟨setter, event⟩ := others_of_getterName getter
      obtain ⟨g, made, hget, hset, hevent⟩ := groupOf_of_getterName (mt named.1 filled) getter
      exact ⟨g, made, hget, hset, hevent, hget ▸ codeName_getterName getter, hset ▸ codeName_setterName setter,
        hevent ▸ codeName_eventName event⟩

/-! ## What is reported -/

theorem failure?_eq_some_iff {ε α : Type} {r : Except ε α} {e : ε} : failure? r = some e ↔ r = .error e := by
  cases r <;> simp

/-- With a context, emitting for any properties reports those without accessors, one by one and in order, and
fails for nothing else. -/
theorem emit_eq_error_iff {t : Target} {context : String} (module : t.container = .module)
    (owner : t.contextField = some context) (ps : List Property) (es : List EmitError) :
    emit t ps = .error es ↔ es ≠ [] ∧ es = ps.filterMap fun p => failure? (groupOf p) := by
  have emitted := failure?_emit module ps
  simp only [← failure?_groupOf, owner] at emitted
  rw [← failure?_eq_some_iff, emitted]
  cases ps.filterMap fun p => failure? (groupOf p) with
  | nil => simp
  | cons e es' =>
    simp only [Option.some.injEq]
    exact ⟨fun same => ⟨same ▸ List.cons_ne_nil e es', same.symm⟩, fun h => h.2.symm⟩

/-- Names never break what is written: for a field with an identifier as its name there are either three names that
code can have, or an error, and that just if the name is barred; what is no identifier is never made one. For
properties of a type with a context, emitting fails just if one of them has no accessors, and reports each of
these once, in order. -/
theorem names_of_fields :
    (∀ p : Property, Text.isIdentifier p.field = true →
      ((∃ e, groupOf p = .error e) ↔ Barred (accessorName p.field)) ∧
      (∀ name, groupOf p ≠ .error (.badName (.malformed name))) ∧
      ∀ g, groupOf p = .ok g → g.CalledAfter (accessorName p.field)) ∧
    ∀ (t : Target) (context : String) (ps : List Property),
      t.container = .module → t.contextField = some context →
        ((∃ es, emit t ps = .error es) ↔ ∃ p ∈ ps, ∃ e, groupOf p = .error e) ∧
        ∀ es, emit t ps = .error es → es = ps.filterMap fun p => failure? (groupOf p) := by
  refine ⟨fun p field => ?_, fun t context ps module owner => ?_⟩
  · have each := groupOf_of_isIdentifier field
    split at each
    · rename_i barred
      refine ⟨iff_of_true ⟨_, each⟩ barred, fun name => ?_, fun g made => ?_⟩
      · rw [each, barredError]
        split <;> simp
      · rw [each] at made
        cases made
    · rename_i free
      obtain ⟨g, made, called⟩ := each
      refine ⟨iff_of_false (fun ⟨e, failed⟩ => ?_) free, fun name failed => ?_, fun g' made' => ?_⟩
      · rw [made] at failed
        cases failed
      · rw [made] at failed
        cases failed
      · rw [made] at made'
        cases made'
        exact called
  · have emitted := emit_eq_error_iff module owner ps
    have failing : (ps.filterMap fun p => failure? (groupOf p)) ≠ [] ↔ ∃ p ∈ ps, ∃ e, groupOf p = .error e := by
      rw [ne_eq, List.filterMap_eq_nil_iff]
      simp only [not_forall, exists_prop, ← ne_eq, Option.ne_none_iff_exists', failure?_eq_some_iff]
    exact ⟨⟨fun ⟨es, failed⟩ => failing.1 (((emitted es).1 failed).2 ▸ ((emitted es).1 failed).1),
      fun some => ⟨_, (emitted _).2 ⟨failing.2 some, rfl⟩⟩⟩, fun es failed => ((emitted es).1 failed).2⟩

/-- A property of a field with the given name. -/
def sampleProperty (field : String) : Property where
  field
  type := default
  enclosing := ⟨["app"], "Audio"⟩
  documentation := none
  overrideKey := none
  raiseEvent := true
  strategyOverride := none

/-- A struct `Audio` with a context. -/
def sampleTarget : Target where
  id := ⟨["app"], "Audio"⟩
  name := "Audio"
  generics := default
  capabilities := []
  container := .module
  contextField := some "context"

/-- `_type` has a raw getter, `_2` and `r#__self` have none. -/
theorem names_of_fields_mixed :
    (∃ g, groupOf (sampleProperty "_type") = .ok g ∧ g.getter = "r#type" ∧ g.setter = "set_type" ∧
      g.event = "type_changed") ∧
    (∃ e, groupOf (sampleProperty "_2") = .error e) ∧
    emit sampleTarget [sampleProperty "_2", sampleProperty "_type", sampleProperty "r#__self"] =
      .error [.badName (.unusable "2"), .badName (.unusable "self")] := by
  obtain ⟨property, emission⟩ := names_of_fields
  obtain ⟨free, -, called⟩ := property (sampleProperty "_type") (by decide +kernel)
  obtain ⟨barred, -, -⟩ := property (sampleProperty "_2") (by decide +kernel)
  obtain ⟨failing, reported⟩ := emission sampleTarget "context"
    [sampleProperty "_2", sampleProperty "_type", sampleProperty "r#__self"] rfl rfl
  have unusable := barred.2 (by decide +kernel)
  refine ⟨?_, unusable, ?_⟩
  · cases made : groupOf (sampleProperty "_type") with
    | error e => exact absurd (free.1 ⟨e, made⟩) (by decide +kernel)
    | ok g => exact ⟨g, rfl, (called g made).getter.trans (by decide +kernel),
        (called g made).setter.trans (by decide +kernel), (called g made).event.trans (by decide +kernel)⟩
  · obtain ⟨es, failed⟩ := failing.2 ⟨_, List.mem_cons_self, unusable⟩
    rw [failed, reported es failed]
    exact congrArg Except.error (by decide +kernel)

end Accessors

end LiveSettings
