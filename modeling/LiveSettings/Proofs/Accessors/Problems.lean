import LiveSettings.Proofs.Accessors.Collecting
import LiveSettings.Proofs.Accessors.UnitNames

/-!
# The problems of a struct

A struct whose configuration can be read may still have problems: markers that cannot be read, no context, and
names that no property can have. Each gives a compiler error of its own, and with any of them no implementation is
written. But they are found in three stages, and a stage is entered only where nothing is wrong in those before it:
a marker that cannot be read hides a missing context, and both hide the names that cannot be used.

Results:
* `Target.exists_ofDeclaration`: a struct whose configuration can be read gives a target.
* `Candidate.dedup_ofFields`: a field that is declared like an earlier one is passed over.
* `Field.unrepeated_of_nodup`: fields of different names are all kept.
* `Accessors.failure?_groupOf`: a property has accessors just if it and its getter have a name.
* `Accessors.failure?_ofDeclaration`: the problems of the first stage that finds some are kept.
* `Accessors.problems_shown`: they are shown one by one, and with any problem there is no implementation.
* `Accessors.problems_hidden`: a struct with a problem of each stage, of which one is shown.
-/

namespace LiveSettings

/-! ## Failures -/

/-- The error of an attempt that failed. -/
def failure? {ε α : Type} : Except ε α → Option ε
  | .error e => some e
  | .ok _ => none

section

variable {ε α : Type}

@[simp]
theorem failure?_error (e : ε) : failure? (.error e : Except ε α) = some e := rfl

@[simp]
theorem failure?_ok (a : α) : failure? (.ok a : Except ε α) = none := rfl

/-- Several attempts fail with the errors of those that fail. -/
theorem Candidate.combine_eq (rs : List (Except ε (List α))) : combine rs =
    match rs.filterMap failure? with
    | [] => .ok (rs.flatMap fun r => r.toOption.getD [])
    | e :: es => .error (e :: es) := by
  induction rs with
  | nil => rfl
  | cons r rs ih =>
    cases r with
    | ok as =>
      simp only [combine, ih, List.filterMap_cons, failure?_ok]
      cases rs.filterMap failure? <;> rfl
    | error e =>
      simp only [combine, ih, List.filterMap_cons, failure?_error]
      cases rs.filterMap failure? <;> rfl

theorem Target.failure?_allOf (rs : List (Except ε α)) : failure? (allOf rs) =
    match rs.filterMap failure? with
    | [] => none
    | e :: es => some (e :: es) := by
  induction rs with
  | nil => rfl
  | cons r rs ih =>
    cases r with
    | ok a =>
      simp only [allOf, List.filterMap_cons, failure?_ok, ← ih]
      cases allOf rs <;> rfl
    | error e =>
      simp only [allOf, List.filterMap_cons, failure?_error]
      cases others : allOf rs with
      | ok as =>
        rw [others, failure?_ok] at ih
        cases found : rs.filterMap failure? with
        | nil => rfl
        | cons e' es => rw [found] at ih; cases ih
      | error es' =>
        rw [others, failure?_error] at ih
        cases found : rs.filterMap failure? with
        | nil => rw [found] at ih; cases ih
        | cons e' es => rw [found] at ih; cases ih; rfl

end

/-! ## Structs whose configuration can be read -/

/-- Whether a field is configured as the one that holds the context. -/
def Field.marksContext (f : Field) : Bool :=
  (Config.fromAttrs "context" Config.readContext f.attrs false none).2.getD false

namespace Target

/-- The configuration of a struct and of its fields has no mistakes, and it is clear which field holds the context,
if one does: the only one that says so, or else the only one of its type. -/
structure Configured (decl : Struct) (fields : List Field) : Prop where
  named : decl.fields = .named fields
  own : (Config.fromAttrs "implements" Config.readImplements decl.attrs false none).1 = []
  each : ∀ f ∈ fields, (Config.fromAttrs "context" Config.readContext f.attrs false none).1 = []
  marked : (fields.filter Field.marksContext).length ≤ 1
  typed : fields.filter Field.marksContext = [] → (fields.filter fun f => isContextType f.ty).length ≤ 1

/-- Whether a field holds the context. -/
def hasContext (fields : List Field) : Bool := fields.any fun f => f.marksContext || isContextType f.ty

/-- A field whose configuration has no mistakes. -/
def configured (f : Field) : ConfiguredField := ⟨f.name, f.ty, f.plainAttrs, f.marksContext⟩

theorem configureField_eq {f : Field}
    (read : (Config.fromAttrs "context" Config.readContext f.attrs false none).1 = []) :
    configureField f = .ok (configured f) := by
  simp only [configureField, read, Config.combineErrors]
  rfl

/-- The context is found where it is clear which field holds it. -/
theorem findContext_configured {fields : List Field} (marked : (fields.filter Field.marksContext).length ≤ 1)
    (typed : fields.filter Field.marksContext = [] → (fields.filter fun f => isContextType f.ty).length ≤ 1) :
    ∃ context, findContext (fields.map configured) = .ok context ∧ context.isSome = hasContext fields := by
  have contexts : (fields.map configured).filter (·.isContext) = (fields.filter Field.marksContext).map configured :=
    List.filter_map
  have holds : (fields.map configured).filter (fun f => isContextType f.ty) =
      (fields.filter fun f => isContextType f.ty).map configured := List.filter_map
  have any (p : Field → Bool) (q : Field → Bool) {f : Field} {rest : List Field} (found : fields.filter p = f :: rest)
      (weaker : ∀ f, p f = true → q f = true) : fields.any q = true := by
    obtain ⟨mem, own⟩ := List.mem_filter.1 (found ▸ List.mem_cons_self : f ∈ fields.filter p)
    exact List.any_eq_true.2 ⟨f, mem, weaker f own⟩
  rw [findContext, contexts, holds]
  match foundMarked : fields.filter Field.marksContext with
  | [f] => exact ⟨some f.name, rfl, (any _ _ foundMarked fun _ own => by rw [own]; rfl).symm⟩
  | _ :: _ :: _ => rw [foundMarked] at marked; simp at marked
  | [] =>
    match foundTyped : fields.filter fun f => isContextType f.ty with
    | [f] =>
      rw [foundTyped]
      exact ⟨some f.name, rfl, (any _ _ foundTyped fun _ own => by rw [own, Bool.or_true]).symm⟩
    | _ :: _ :: _ =>
      have one := typed foundMarked
      rw [foundTyped] at one
      simp at one
    | [] =>
      rw [foundTyped]
      refine ⟨none, rfl, Eq.symm (List.any_eq_false.2 fun f mem => ?_)⟩
      have silent := List.filter_eq_nil_iff.1 foundMarked f mem
      have other := List.filter_eq_nil_iff.1 foundTyped f mem
      simp only [silent, other, Bool.or_self, not_false_eq_true, Bool.false_eq_true]

/-- A struct whose configuration can be read gives a target. -/
theorem exists_ofDeclaration {decl : Struct} {fields : List Field} (h : Configured decl fields) :
    ∃ t, ofDeclaration (.struct decl) [] .module = .ok (t, Candidate.ofFields ⟨[], decl.name⟩ fields) ∧
      t.name = decl.name ∧ t.container = .module ∧ t.contextField.isSome = hasContext fields := by
  obtain ⟨named, own, each, marked, typed⟩ := h
  obtain ⟨context, found, known⟩ := findContext_configured marked typed
  have read : fields.map configureField = (fields.map configured).map .ok := by
    rw [List.map_map]
    exact List.map_congr_left fun f mem => configureField_eq (each f mem)
  have all : allOf (fields.map configureField) = .ok (fields.map configured) := allOf_eq_ok.2 read
  have candidates := candidates_configured ⟨[], decl.name⟩ read
  obtain ⟨t, made, name, container, holder⟩ : ∃ t, ofDeclaration (.struct decl) [] .module = .ok (t,
      ((fields.map configured).filter fun f => !f.attrs.isEmpty).map fun f =>
        Candidate.single ⟨[], decl.name⟩ f.attrs f.name f.ty) ∧
      t.name = decl.name ∧ t.container = .module ∧ t.contextField = context := by
    simp only [ofDeclaration, namedFields, named, bind, Except.bind, own, all, Config.combineErrors, List.append_nil,
      found, pure, Except.pure]
    exact ⟨_, rfl, rfl, rfl, rfl⟩
  exact ⟨t, candidates ▸ made, name, container, holder ▸ known⟩

end Target

/-! ## The problems of a field -/

/-- What a field declares, but for its configuration. -/
def Field.declared (f : Field) : String × List Attr × Ty := (f.name, f.plainAttrs, f.ty)

/-- The fields that are declared like no earlier one. -/
def Field.unrepeated : List Field → List Field
  | [] => []
  | f :: fs => f :: (unrepeated fs).filter (·.declared ≠ f.declared)

/-- What is wrong with the marker of a field. -/
def Field.markerError? (f : Field) : Option Marker.MarkerError := failure? (Marker.find f.attrs)

/-- Fields of different names are all kept. -/
theorem Field.unrepeated_of_nodup {fields : List Field} (distinct : (fields.map Field.name).Nodup) :
    unrepeated fields = fields := by
  induction fields with
  | nil => rfl
  | cons f fs ih =>
    obtain ⟨new, later⟩ := List.nodup_cons.1 distinct
    have other : ∀ g ∈ fs, g.declared ≠ f.declared := fun g mem same => by
      have name : g.name = f.name := congrArg Prod.fst same
      exact new (name ▸ List.mem_map_of_mem mem)
    rw [unrepeated, ih later, List.filter_eq_self.2 fun g mem => decide_eq_true (other g mem)]

/-- Fields are picked by what they declare before or after the repeated ones are left out. -/
theorem Field.filter_unrepeated {p : Field → Bool} (alike : ∀ f g, f.declared = g.declared → p f = p g)
    (fields : List Field) : (unrepeated fields).filter p = unrepeated (fields.filter p) := by
  induction fields with
  | nil => rfl
  | cons f fs ih =>
    rw [unrepeated]
    cases picked : p f with
    | true =>
      rw [List.filter_cons_of_pos picked, List.filter_cons_of_pos picked, unrepeated, ← ih, List.filter_filter,
        List.filter_filter]
      simp only [Bool.and_comm]
    | false =>
      have unlike : ∀ g, p g = true → g.declared ≠ f.declared := fun g own same => by
        rw [alike g f same, picked] at own
        cases own
      rw [List.filter_cons_of_neg (by simp [picked]), List.filter_cons_of_neg (by simp [picked]), ← ih,
        List.filter_filter]
      refine List.filter_congr fun g _ => ?_
      cases own : p g with
      | true => rw [Bool.true_and, decide_eq_true (unlike g own)]
      | false => rfl

namespace Candidate

theorem candidate_eq_iff (id : TypeId) (f g : Field) :
    f.candidate id = g.candidate id ↔ f.declared = g.declared := by
  simp only [Field.candidate, single, Field.declared, Candidate.mk.injEq, Prod.mk.injEq, List.cons.injEq, true_and,
    and_true]
  constructor
  · rintro ⟨attrs, name, type⟩
    exact ⟨name, attrs, type⟩
  · rintro ⟨name, attrs, type⟩
    exact ⟨attrs, name, type⟩

/-- Of the candidates of fields, those of the fields that are not repeated are kept. -/
theorem dedup_ofFields (id : TypeId) (fields : List Field) :
    dedup (ofFields id fields) = ofFields id (Field.unrepeated fields) := by
  have all (fields : List Field) : (fields.map (·.candidate id)).eraseDups =
      (Field.unrepeated fields).map (·.candidate id) := by
    induction fields with
    | nil => rfl
    | cons f fs ih =>
      rw [List.map_cons, List.eraseDups_cons, eraseDups_filter, ih, Field.unrepeated, List.map_cons, List.filter_map]
      congr 2
      refine List.filter_congr fun g _ => ?_
      simp only [Function.comp_apply, beq_eq_decide, candidate_eq_iff, decide_not]
  have plain (f g : Field) (same : f.declared = g.declared) : (!f.plainAttrs.isEmpty) = !g.plainAttrs.isEmpty := by
    have attrs : f.plainAttrs = g.plainAttrs := congrArg (·.2.1) same
    rw [attrs]
  rw [ofFields, dedup, all, ofFields, Field.filter_unrepeated plain]

end Candidate

/-! ## Names that cannot be used -/

namespace Naming

open Text

theorem isWord_append {cs ds : List Char} (word : isWord cs = true) (more : ∀ d ∈ ds, isIdentPart d = true) :
    isWord (cs ++ ds) = true := by
  cases cs with
  | nil => cases word
  | cons c cs =>
    obtain ⟨first, rest⟩ := Bool.and_eq_true_iff.1 word
    refine Bool.and_eq_true_iff.2 ⟨first, List.all_eq_true.2 fun d mem => ?_⟩
    rcases List.mem_append.1 mem with mem | mem
    · exact List.all_eq_true.1 rest d mem
    · exact more d mem

/-- A name that a getter can have is a word, be the getter raw or not. -/
theorem isWord_of_getterName {name made : String} (h : getterName name = .ok made) : isWord name.toList = true := by
  unfold getterName at h
  split at h
  · exact (ok_of_plainName h).2
  · split at h
    · cases plainly : plainName name with
      | error e => rw [plainly] at h; cases h
      | ok word => exact (ok_of_plainName plainly).2
    · cases h

/-- Where a getter has a name, so have the setter and the event. -/
theorem others_of_getterName {name made : String} (h : getterName name = .ok made) :
    setterName name = .ok ("set_" ++ name) ∧ eventName name = .ok (name ++ "_changed") := by
  have word := isWord_of_getterName h
  constructor
  · refine setterName_ok name ?_
    rw [String.toList_append]
    exact isWord_append (by decide) fun d mem => isIdentPart_of_isWord word mem
  · have ending : "_changed".toList.all isIdentPart = true := by decide
    refine eventName_ok name ?_
    rw [String.toList_append]
    exact isWord_append word (List.all_eq_true.1 ending)

end Naming

namespace Accessors

/-- Why no property can be named for a field, if none can. -/
def unusable? (field : String) : Option EmitError :=
  if Naming.propertyName (Naming.accessorName field) = "" then some (.unnamed field)
  else (failure? (Naming.getterName (Naming.accessorName field))).map .badName

/-- A property has accessors just if it and its getter have a name. -/
theorem failure?_groupOf (p : Property) : failure? (groupOf p) = unusable? p.field := by
  have name : p.name = Naming.propertyName (Naming.accessorName p.field) := rfl
  rw [unusable?, ← name]
  by_cases unnamed : p.name = ""
  · rw [groupOf, if_pos unnamed, if_pos unnamed, failure?_error]
  · rw [if_neg unnamed]
    cases getter : Naming.getterName (Naming.accessorName p.field) with
    | error e =>
      rw [groupOf, if_neg unnamed]
      simp only [getter, failure?_error, Option.map_some]
    | ok made =>
      obtain ⟨setter, event⟩ := Naming.others_of_getterName getter
      have usable : Usable p := ⟨unnamed, by rw [getter]; rfl, by rw [setter]; rfl, by rw [event]; rfl⟩
      obtain ⟨g, written, -⟩ := exists_groupOf usable
      rw [written, failure?_ok, failure?_ok, Option.map_none]

end Accessors

/-- What is wrong with the names that a field would give. A field gives some if its marker can be read and its type
describes a value. -/
def Field.nameError? (f : Field) : Option Accessors.EmitError :=
  match Marker.find f.attrs with
  | .ok (some _) => if (Descriptor.ofTy? f.ty).isSome then Accessors.unusable? f.name else none
  | _ => none

namespace Accessors

/-- The problems of a struct, by the stage that finds them. -/
structure Faults where
  markers : List Marker.MarkerError
  context : List EmitError
  names : List EmitError
  deriving DecidableEq, Repr, Inhabited

namespace Faults

/-- The problems of a struct of named fields. A field declared like an earlier one has no problem of its own. -/
def ofFields (type : String) (fields : List Field) : Faults where
  markers := (Field.unrepeated fields).filterMap Field.markerError?
  context := if Target.hasContext fields then [] else [.missingContext type]
  names := (Field.unrepeated fields).filterMap Field.nameError?

/-- The messages of each stage. -/
def stages (f : Faults) : List (List String) :=
  [f.markers.map (·.message), f.context.map (·.message), f.names.map (·.message)]

/-- The problems of the first stage that finds some. -/
def first? : Faults → Option Problems
  | ⟨e :: es, _, _⟩ => some (.markers (e :: es))
  | ⟨[], e :: es, _⟩ => some (.names (e :: es))
  | ⟨[], [], e :: es⟩ => some (.names (e :: es))
  | ⟨[], [], []⟩ => none

end Faults

/-! ## Stage by stage -/

/-- What is made of the candidates of fields is made of the fields, if nothing is made of one that is no candidate. -/
theorem flatMap_ofFields {α : Type} {id : TypeId} {g : Candidate → List α} {h : Field → List α}
    (each : ∀ f, g (f.candidate id) = h f) (bare : ∀ f : Field, f.plainAttrs = [] → h f = []) (fields : List Field) :
    (Candidate.ofFields id fields).flatMap g = fields.flatMap h := by
  induction fields with
  | nil => rfl
  | cons f fs ih =>
    rw [Candidate.ofFields] at ih ⊢
    rw [List.flatMap_cons, ← ih]
    cases attrs : f.plainAttrs with
    | nil => rw [List.filter_cons_of_neg (by simp [attrs]), bare f attrs, List.nil_append]
    | cons a as => rw [List.filter_cons_of_pos (by simp [attrs]), List.map_cons, List.flatMap_cons, each]

theorem failures_ofFields (id : TypeId) (fields : List Field) :
    ((Candidate.ofFields id fields).map Candidate.resolve).filterMap failure? =
      fields.filterMap Field.markerError? := by
  rw [List.filterMap_map, List.filterMap_eq_flatMap_toList, List.filterMap_eq_flatMap_toList]
  refine flatMap_ofFields (fun f => ?_) (fun f bare => ?_) fields
  · have marker : Marker.find (f.candidate id).attrs = Marker.find f.attrs := find_plainAttrs f
    rw [Function.comp_apply, Candidate.resolve, marker, Field.markerError?]
    cases Marker.find f.attrs with
    | error e => rfl
    | ok found => cases found <;> rfl
  · rw [Field.markerError?, ← find_plainAttrs, bare]
    rfl

/-- The properties of the candidates of fields. -/
theorem resolved_ofFields (id : TypeId) (fields : List Field) :
    (Candidate.ofFields id fields).flatMap Candidate.resolved = fields.filterMap (fieldProperty? id) := by
  rw [List.filterMap_eq_flatMap_toList]
  refine flatMap_ofFields (fun f => resolved_candidate id f) (fun f bare => ?_) fields
  rw [fieldProperty?, ← find_plainAttrs, bare]
  rfl

theorem nameError?_eq (id : TypeId) (f : Field) :
    f.nameError? = (fieldProperty? id f).bind fun p => unusable? p.field := by
  unfold Field.nameError? fieldProperty?
  cases Marker.find f.attrs with
  | error e => rfl
  | ok found =>
    cases found with
    | none => rfl
    | some s =>
      cases Descriptor.ofTy? f.ty with
      | none => rfl
      | some d => simp only [Option.isSome_some, if_true, Option.map_some, Option.bind_some]

theorem failures_groupOf (ps : List Property) :
    (ps.map fun p => (groupOf p).map fun g => (rowOf p, g)).filterMap failure? =
      ps.filterMap fun p => unusable? p.field := by
  have each (p : Property) : failure? ((groupOf p).map fun g => (rowOf p, g)) = unusable? p.field := by
    rw [← failure?_groupOf]
    cases groupOf p <;> rfl
  rw [List.filterMap_map]
  exact List.filterMap_congr fun p _ => each p

theorem nameErrors_eq (id : TypeId) (fields : List Field) :
    (fields.filterMap (fieldProperty? id)).filterMap (fun p => unusable? p.field) =
      fields.filterMap Field.nameError? := by
  rw [List.filterMap_filterMap]
  exact List.filterMap_congr fun f _ => (nameError?_eq id f).symm

theorem collect_ofFields (id : TypeId) (fields : List Field) : Candidate.collect (Candidate.ofFields id fields) =
    match (Field.unrepeated fields).filterMap Field.markerError? with
    | [] => .ok ((Field.unrepeated fields).filterMap (fieldProperty? id))
    | e :: es => .error (e :: es) := by
  rw [Candidate.collect, Candidate.dedup_ofFields, Candidate.combine_eq, failures_ofFields, List.flatMap_map,
    ← resolved_ofFields]
  cases (Field.unrepeated fields).filterMap Field.markerError? <;> rfl

/-- Emitting fails for want of a context, or else for the names that cannot be used. -/
theorem failure?_emit {t : Target} (container : t.container = .module) (ps : List Property) :
    failure? (emit t ps) =
      match t.contextField, ps.filterMap fun p => unusable? p.field with
      | none, _ => some [.missingContext t.name]
      | some _, [] => none
      | some _, e :: es => some (e :: es) := by
  have names := Target.failure?_allOf (ps.map fun p => (groupOf p).map fun g => (rowOf p, g))
  rw [failures_groupOf] at names
  rw [emit, if_neg (by rw [container]; decide)]
  cases t.contextField with
  | none => rfl
  | some context =>
    cases all : Target.allOf (ps.map fun p => (groupOf p).map fun g => (rowOf p, g)) with
    | ok written =>
      cases unusable : ps.filterMap fun p => unusable? p.field with
      | nil => rfl
      | cons e es => rw [all, unusable] at names; cases names
    | error es =>
      cases unusable : ps.filterMap fun p => unusable? p.field with
      | nil => rw [all, unusable] at names; cases names
      | cons e es' => rw [all, unusable] at names; exact names

/-- What is written for a struct fails with the problems of the first stage that finds some. -/
theorem failure?_ofDeclaration {decl : Struct} {fields : List Field} (h : Target.Configured decl fields) :
    failure? (ofDeclaration (.struct decl)) = (Faults.ofFields decl.name fields).first? := by
  obtain ⟨t, read, name, container, context⟩ := Target.exists_ofDeclaration h
  have emitted := failure?_emit container ((Field.unrepeated fields).filterMap (fieldProperty? ⟨[], decl.name⟩))
  rw [nameErrors_eq] at emitted
  have collected := collect_ofFields ⟨[], decl.name⟩ fields
  simp only [ofDeclaration, read, Faults.ofFields, ← context]
  cases markers : (Field.unrepeated fields).filterMap Field.markerError? with
  | cons e es =>
    rw [markers] at collected
    simp only [collected]
    rfl
  | nil =>
    rw [markers] at collected
    simp only [collected]
    have mapped (r : Except (List EmitError) (Option Emitted)) :
        failure? (r.mapError Problems.names) = (failure? r).map Problems.names := by cases r <;> rfl
    rw [mapped, emitted]
    cases t.contextField with
    | none => rw [name]; rfl
    | some field => cases (Field.unrepeated fields).filterMap Field.nameError? <;> rfl

/-! ## What is shown -/

/-- A compiler error is no implementation. -/
theorem impl_notMem_compileError (message : String) : .ident "impl" ∉ compileError message := by
  simp [compileError, Token.op, Token.marks, word, brace, text, Token.group]

theorem impl_mem_tokens (runtime : List Token) (e : Emitted) : .ident "impl" ∈ e.tokens runtime := by
  simp [Emitted.tokens, Emitted.tableTokens, Emitted.implHead, word]

theorem Faults.first?_eq_none_iff (f : Faults) : f.first? = none ↔ f.stages.flatten = [] := by
  obtain ⟨_ | ⟨m, ms⟩, _ | ⟨c, cs⟩, _ | ⟨n, ns⟩⟩ := f <;> simp [first?, stages]

/-- The problems of the first stage that finds some have the first messages that there are. -/
theorem Faults.first?_of_stages {f : Faults} {before after : List (List String)} {messages : List String}
    (stages : f.stages = before ++ messages :: after) (silent : before.flatten = []) (found : messages ≠ []) :
    f.first?.map Problems.messages = some messages := by
  obtain ⟨_ | ⟨m, ms⟩, _ | ⟨c, cs⟩, _ | ⟨n, ns⟩⟩ := f <;>
    obtain _ | ⟨_, _ | ⟨_, _ | ⟨_, before⟩⟩⟩ := before <;>
    simp_all [Faults.stages, Faults.first?, Problems.messages]

/-- The stages that find something are one. -/
theorem Faults.flatten_of_one {stages : List (List String)} {messages : List String}
    (one : stages.filter (· ≠ []) = [messages]) : ∃ before after, stages = before ++ messages :: after ∧
      before.flatten = [] ∧ messages ≠ [] ∧ stages.flatten = messages := by
  obtain ⟨before, after, rfl, none, own, rest⟩ := List.filter_eq_cons_iff.1 one
  have front : before.flatten = [] := List.flatten_eq_nil_iff.2 fun ms mem => by simpa using none ms mem
  have back : after.flatten = [] := List.flatten_eq_nil_iff.2 fun ms mem => by
    simpa using List.filter_eq_nil_iff.1 rest ms mem
  refine ⟨before, after, rfl, front, of_decide_eq_true own, ?_⟩
  rw [List.flatten_append, List.flatten_cons, front, back, List.nil_append, List.append_nil]

section

variable {decl : Struct} {fields : List Field}

/-- The problems that are kept become compiler errors. -/
theorem expand_of_first {p : Problems} (h : Target.Configured decl fields) (runtime : List Token)
    (first : (Faults.ofFields decl.name fields).first? = some p) :
    expand runtime (.struct decl) = p.messages.flatMap compileError := by
  have failed := failure?_ofDeclaration h
  rw [first] at failed
  unfold expand
  cases made : ofDeclaration (.struct decl) with
  | ok written => rw [made] at failed; cases failed
  | error q =>
    rw [made] at failed
    cases failed
    rfl

/-- Accessors are written where there is no problem. -/
theorem exists_expand (h : Target.Configured decl fields) (runtime : List Token)
    (first : (Faults.ofFields decl.name fields).first? = none) :
    ∃ e : Emitted, expand runtime (.struct decl) = e.tokens runtime := by
  have failed := failure?_ofDeclaration h
  rw [first] at failed
  obtain ⟨t, known, -, container, -⟩ := Target.exists_ofDeclaration h
  unfold expand
  cases made : ofDeclaration (.struct decl) with
  | error q => rw [made] at failed; cases failed
  | ok written =>
    obtain ⟨t', cs, ps, read, -, emitted⟩ := ofDeclaration_ok made
    rw [read] at known
    cases known
    obtain ⟨e, rfl⟩ := exists_emitted container emitted
    exact ⟨e, rfl⟩

/-- The problems of a struct whose configuration can be read become compiler errors, one for each problem of the first
stage that finds some; where all are found in one stage, all are shown. With any problem there is no implementation,
and without one there is. -/
theorem problems_shown (h : Target.Configured decl fields) (runtime : List Token) :
    let stages := (Faults.ofFields decl.name fields).stages
    (.ident "impl" ∈ expand runtime (.struct decl) ↔ stages.flatten = []) ∧
      (∀ before messages after, stages = before ++ messages :: after → before.flatten = [] → messages ≠ [] →
        expand runtime (.struct decl) = messages.flatMap compileError) ∧
      (∀ messages, stages.filter (· ≠ []) = [messages] →
        expand runtime (.struct decl) = stages.flatten.flatMap compileError) := by
  intro stages
  have shown (before : List (List String)) (messages : List String) (after : List (List String))
      (parts : stages = before ++ messages :: after) (silent : before.flatten = []) (found : messages ≠ []) :
      expand runtime (.struct decl) = messages.flatMap compileError := by
    obtain ⟨p, first, rfl⟩ := Option.map_eq_some_iff.1 (Faults.first?_of_stages parts silent found)
    exact expand_of_first h runtime first
  refine ⟨?_, shown, fun messages one => ?_⟩
  · rw [← Faults.first?_eq_none_iff]
    cases first : (Faults.ofFields decl.name fields).first? with
    | none =>
      obtain ⟨e, written⟩ := exists_expand h runtime first
      exact iff_of_true (written ▸ impl_mem_tokens runtime e) rfl
    | some p =>
      have errors := expand_of_first h runtime first
      refine iff_of_false (fun mem => ?_) nofun
      rw [errors] at mem
      obtain ⟨message, -, mem⟩ := List.mem_flatMap.1 mem
      exact impl_notMem_compileError message mem
  · obtain ⟨before, after, parts, silent, found, all⟩ := Faults.flatten_of_one one
    rw [shown before messages after parts silent found, all]

/-- Two fields whose names cannot be used: both are shown. -/
theorem problems_shown_names :
    let field (name : String) : Field :=
      ⟨[⟨⟨false, ["observable_setting"]⟩, .none⟩], name, .path false [.mk "f64" .none]⟩
    let context : Field := ⟨[], "context", .path false [.mk "SettingsContext" .none]⟩
    let fields : List Field := [field "__", field "_self", context]
    let audio : Struct := ⟨[], "Audio", ⟨[], false, []⟩, .named fields⟩
    Target.Configured audio fields ∧ expand [] (.struct audio) =
      compileError ((EmitError.unnamed "__").message) ++
        compileError ((Naming.NameError.unusable "self").message) := by
  intro field context fields audio
  have configured : Target.Configured audio fields := ⟨rfl, rfl, by decide, by decide, by decide⟩
  have stages : (Faults.ofFields audio.name fields).stages =
      [[], [], [(EmitError.unnamed "__").message, (Naming.NameError.unusable "self").message]] := by decide +kernel
  refine ⟨configured, ?_⟩
  have all := (problems_shown configured []).2.2 _ (by rw [stages]; rfl)
  rw [stages] at all
  simpa using all

/-- A struct with a problem of each stage: a marker that cannot be read, no context, and a field without a name. Of
the three the first is shown. -/
theorem problems_hidden :
    let marker (args : AttrArgs) : Attr := ⟨⟨false, ["observable_setting"]⟩, args⟩
    let gain : Field := ⟨[marker (.list .paren [.literal "1"])], "_gain", .path false [.mk "f64" .none]⟩
    let unnamed : Field := ⟨[marker .none], "__", .path false [.mk "f64" .none]⟩
    let audio : Struct := ⟨[], "Audio", ⟨[], false, []⟩, .named [gain, unnamed]⟩
    Target.Configured audio [gain, unnamed] ∧
      Faults.ofFields "Audio" [gain, unnamed] =
        ⟨[.keyNotString], [.missingContext "Audio"], [.unnamed "__"]⟩ ∧
      expand [] (.struct audio) = compileError Marker.MarkerError.keyNotString.message := by
  intro marker gain unnamed audio
  refine ⟨⟨rfl, rfl, by decide, by decide, by decide⟩, ?_, ?_⟩ <;> decide +kernel

end

end Accessors

end LiveSettings
