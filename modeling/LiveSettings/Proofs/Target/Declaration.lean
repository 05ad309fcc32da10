import LiveSettings.Target

/-!
# What a declaration gives

A declaration that can be read gives a target and one candidate for each field that carries an attribute other
than a configuration. Where it stands shows in their identity and in nothing else.

Results:
* `Target.allOf_eq_ok`: all attempts succeed just if each one does.
* `Target.ofDeclaration_spec`: the target and the candidates of a struct.
* `Target.ofDeclaration_moved`: the same declaration elsewhere.
-/

namespace LiveSettings

/-- The attributes of a field other than its configuration. -/
def Field.plainAttrs (f : Field) : List Attr := f.attrs.filter fun a => a.path.names ≠ [Config.attributeName]

/-- The candidate of a field in a type. -/
def Field.candidate (id : TypeId) (f : Field) : Candidate := .single id f.plainAttrs f.name f.ty

/-- The candidates of the fields of a type. -/
def Candidate.ofFields (id : TypeId) (fields : List Field) : List Candidate :=
  (fields.filter fun f => !f.plainAttrs.isEmpty).map (·.candidate id)

/-- The candidate in another type. -/
def Candidate.moved (id : TypeId) (c : Candidate) : Candidate := { c with enclosing := id }

/-- The property in another type. -/
def Property.moved (id : TypeId) (p : Property) : Property := { p with enclosing := id }

theorem Config.combineErrors_eq_none_iff {es : List ConfigError} : combineErrors es = none ↔ es = [] := by
  unfold combineErrors
  split <;> simp_all

namespace Target

/-- The same type, declared elsewhere. -/
def moved (modulePath : List String) (container : Container) (t : Target) : Target :=
  { t with id := ⟨modulePath, t.name⟩, container }

theorem allOf_eq_ok {ε α : Type} {rs : List (Except ε α)} {as : List α} :
    allOf rs = .ok as ↔ rs = as.map .ok := by
  induction rs generalizing as with
  | nil =>
    constructor
    · intro h
      cases h
      rfl
    · intro h
      rw [List.map_eq_nil_iff.1 h.symm]
      rfl
  | cons r rs ih =>
    cases r with
    | error e =>
      constructor
      · intro h
        simp only [allOf] at h
        split at h <;> cases h
      · intro h
        cases as <;> cases h
    | ok a =>
      constructor
      · intro h
        simp only [allOf] at h
        split at h
        · rename_i rest found
          cases h
          rw [ih.1 found, List.map_cons]
        · cases h
      · intro h
        cases as with
        | nil => cases h
        | cons b as =>
          obtain ⟨first, rest⟩ := List.cons.inj h
          cases first
          simp only [allOf, ih.2 rest]

theorem configureField_ok {f : Field} {c : ConfiguredField} (h : configureField f = .ok c) :
    c.name = f.name ∧ c.ty = f.ty ∧ c.attrs = f.plainAttrs := by
  simp only [configureField] at h
  split at h
  · cases h
  · cases h
    exact ⟨rfl, rfl, rfl⟩

/-- The candidates of configured fields are those of the fields as declared. -/
theorem candidates_configured (id : TypeId) {fields : List Field} {configured : List ConfiguredField}
    (h : fields.map configureField = configured.map .ok) :
    ((configured.filter fun f => !f.attrs.isEmpty).map fun f => Candidate.single id f.attrs f.name f.ty) =
      Candidate.ofFields id fields := by
  unfold Candidate.ofFields
  induction fields generalizing configured with
  | nil =>
    rw [List.map_eq_nil_iff.1 h.symm]
    rfl
  | cons f fields ih =>
    cases configured with
    | nil => cases h
    | cons c configured =>
      obtain ⟨first, rest⟩ := List.cons.inj h
      obtain ⟨name, ty, attrs⟩ := configureField_ok first
      simp only [List.filter_cons, attrs]
      split
      · rw [List.map_cons, List.map_cons, ih rest, name, ty, attrs]
        rfl
      · exact ih rest

theorem namedFields_ok {decl d : Struct} {fields : List Field}
    (h : namedFields (.struct decl) = .ok (d, fields)) : d = decl ∧ decl.fields = .named fields := by
  simp only [namedFields] at h
  split at h
  · rename_i named
    cases h
    exact ⟨rfl, named⟩
  · cases h
  · cases h

/-- A struct that can be read has named fields, each configured without a mistake, lists its traits without one and has
one context at most. This is all that is in its target. -/
theorem ofDeclaration_spec {decl : Struct} {modulePath : List String} {container : Container} {t : Target}
    {cs : List Candidate} (h : ofDeclaration (.struct decl) modulePath container = .ok (t, cs)) :
    ∃ fields configured implemented context, decl.fields = .named fields ∧
      fields.map configureField = configured.map .ok ∧
      Config.fromAttrs "implements" Config.readImplements decl.attrs false none = ([], implemented) ∧
      findContext configured = .ok context ∧
      t = ⟨⟨modulePath, decl.name⟩, decl.name, decl.generics, (implemented.getD []).map Path.ofNames, container, context⟩ ∧
      cs = Candidate.ofFields ⟨modulePath, decl.name⟩ fields := by
  unfold ofDeclaration at h
  cases read : namedFields (.struct decl) with
  | error e =>
    rw [read] at h
    cases h
  | ok found =>
    obtain ⟨_, fields⟩ := found
    obtain ⟨rfl, named⟩ := namedFields_ok read
    simp only [read, bind, Except.bind] at h
    split at h
    · cases h
    · cases h
    · rename_i configured faultless all
      rw [all, List.append_nil, Config.combineErrors_eq_none_iff] at faultless
      cases found : findContext configured with
      | error e => simp [found] at h
      | ok context =>
        simp only [found, pure, Except.pure, Except.ok.injEq, Prod.mk.injEq] at h
        obtain ⟨rfl, rfl⟩ := h
        have each := allOf_eq_ok.1 all
        exact ⟨fields, configured, _, context, named, each, Prod.ext faultless rfl, found, rfl,
          candidates_configured _ each⟩

/-- The target and the candidates of a struct that can be read. -/
theorem ofDeclaration_ok {decl : Struct} {modulePath : List String} {container : Container} {t : Target}
    {cs : List Candidate} (h : ofDeclaration (.struct decl) modulePath container = .ok (t, cs)) :
    t.id = ⟨modulePath, decl.name⟩ ∧ t.name = decl.name ∧ t.generics = decl.generics ∧
      t.container = container ∧ ∃ fields, decl.fields = .named fields ∧
        cs = Candidate.ofFields ⟨modulePath, decl.name⟩ fields := by
  obtain ⟨fields, _, _, _, named, -, -, -, rfl, rfl⟩ := ofDeclaration_spec h
  exact ⟨rfl, rfl, rfl, rfl, fields, named, rfl⟩

/-- The same declaration elsewhere gives the same, under another identity. -/
theorem ofDeclaration_moved (d : Declaration) (modulePath : List String) (container : Container) :
    ofDeclaration d modulePath container = (ofDeclaration d [] .module).map fun read =>
      (read.1.moved modulePath container, read.2.map (·.moved ⟨modulePath, read.1.name⟩)) := by
  unfold ofDeclaration
  cases namedFields d with
  | error e => rfl
  | ok read =>
    obtain ⟨decl, fields⟩ := read
    simp only [bind, Except.bind]
    split
    · rfl
    · rfl
    · cases findContext _ with
      | error e => rfl
      | ok context =>
        simp only [pure, Except.pure, Except.map, moved, List.map_map]
        rfl

end Target

end LiveSettings
