import LiveSettings.Proofs.Access.Documents
import LiveSettings.Proofs.Session.ReadBack

/-!
# Setting a value again

A setter that is called twice with one value should write once. The second call compares with what the first
one left, so it is silent where the value, as it is kept and then read over the default, counts as unchanged.
That is not so for every value: nothing at all is kept of an absent one, a document that is null is read as no
document, a document may be read as another value than it was written for, and some values differ from
themselves.

Results:
* `SettingType.settles_native`: of the native values only an absent one over a default that is present is not
  settled.
* `SettingType.settles_iff_decoded`: what is kept as a document is settled as what its text is decoded to is.
* `SettingType.decoded?_hidden`, `SettingType.decoded?_of_sorted`, `SettingType.decoded?_of_survives`: what the
  text of a document is decoded to.
* `Session.set_again`: the second call is silent just where the first one was or the value is settled.
* `Session.set_again_heard`: values that are told to the handlers each time.
-/

namespace LiveSettings

namespace SettingType

variable {D : Type} [DocumentType D]

/-- What lies under a key to which a value was written. -/
def stored? (t : SettingType D) (x : t.Carrier) : Option SettingValue :=
  match t.write x with
  | .put v => some v
  | .remove | .refuse => none

/-- Whether a value, once it is kept, is read as one that counts as unchanged. -/
def Settles (t : SettingType D) (default x : t.Carrier) : Prop :=
  t.unchanged (t.read (t.stored? x) default) x = true

/-- The document that a value is kept as, where it is kept as one. -/
def document? : (t : SettingType D) → t.Carrier → Option Json
  | .native _, _ | .optionalNative _, _ => none
  | .document t, x => DocumentType.encode? t x
  | .optionalDocument t, x => DocumentType.encodeOptional? t x

/-- The value that a sorted document stands for. -/
def decode? : (t : SettingType D) → Json → Option t.Carrier
  | .native _, _ | .optionalNative _, _ => none
  | .document t, j => DocumentType.decode? t j
  | .optionalDocument t, j => (DocumentType.decode? t j).map some

/-- The value that the text of a document is decoded to, where it is decoded. -/
def decoded? : (t : SettingType D) → Json → Option t.Carrier
  | .native _, _ | .optionalNative _, _ => none
  | .document t, j => readDocument? t (.ofString j.render)
  | .optionalDocument t, j => (readDocument? t (.ofString j.render)).map some

section

variable {t : SettingType D} {default x : t.Carrier}

theorem find?_setSetting_self (s : Storage) (key : String) (kept : t.write x ≠ .refuse) :
    (s.setSetting t key x).find? key = t.stored? x := by
  unfold Storage.setSetting stored?
  cases change : t.write x with
  | put v => simp [Storage.apply, Storage.find?_set]
  | remove => simp [Storage.apply, Storage.find?_remove]
  | refuse => exact absurd change kept

/-! ## Native values -/

/-- A native value is settled unless it is absent and hides behind a default that is present. -/
theorem settles_native {k : NativeKind} (kind : t = .native k ∨ t = .optionalNative k) :
    t.Settles default x ↔ (t.isAbsent x = true → t.isAbsent default = true) := by
  have read : t.read (t.stored? x) default = if t.isAbsent x then default else x := by
    have kept : t.write x ≠ .refuse := by
      rcases kind with rfl | rfl
      · exact fun refused => nomatch refused
      · change Option k.Carrier at x
        cases x <;> exact fun refused => nomatch refused
    have found := find?_setSetting_self (.memory .empty) "" kept
    rw [← found]
    exact read_setSetting kind _ _ _ _
  unfold Settles
  rw [read]
  cases absent : t.isAbsent x with
  | false =>
    have same := unchanged_refl kind x
    simp [same]
  | true =>
    simp only [if_true, true_implies]
    constructor
    · intro same
      rw [isAbsent_of_unchanged kind same, absent]
    · intro hidden
      exact unchanged_of_isAbsent kind hidden absent

/-! ## Documents -/

/-- What is read after a value was kept as a document. -/
theorem read_stored {j : Json} (written : t.document? x = some j) :
    t.read (t.stored? x) default = (t.decoded? j).getD default := by
  cases t with
  | native k => cases written
  | optionalNative k => cases written
  | document u =>
    have written : DocumentType.encode? u x = some j := written
    simp only [stored?, write, putDocument, written, read, Option.bind_some, decoded?]
  | optionalDocument u =>
    have written : DocumentType.encodeOptional? u x = some j := written
    simp only [stored?, write, putDocument, written, read, Option.bind_some, decoded?]
    cases readDocument? u (.ofString j.render) <;> rfl

/-- What is kept as a document is settled if the value that its text is decoded to, or the default if it is not
decoded, counts as unchanged from it. -/
theorem settles_iff_decoded {j : Json} (written : t.document? x = some j) :
    t.Settles default x ↔ t.unchanged ((t.decoded? j).getD default) x = true := by
  rw [Settles, read_stored written]

/-- A document that is null or nested too deep is not decoded. -/
theorem decoded?_hidden {j : Json} (hidden : j = .null ∨ Json.depthLimit ≤ j.depth) : t.decoded? j = none := by
  have read (u : D) : readDocument? u (.ofString j.render) = none := by
    rcases hidden with rfl | deep
    · exact readDocument?_null u
    · exact readDocument?_deep u deep
  cases t with
  | native k | optionalNative k => rfl
  | document u => exact read u
  | optionalDocument u => exact congrArg (Option.map some) (read u)

/-- Of any other document the type makes the value. -/
theorem decoded?_of_sorted {j k : Json} (shallow : j.depth < Json.depthLimit) (sorted : j.reread.sorted? = some k)
    (present : k ≠ .null) : t.decoded? j = t.decode? k := by
  cases t with
  | native k | optionalNative k => rfl
  | document u => exact readDocument?_render u shallow sorted present
  | optionalDocument u => exact congrArg (Option.map some) (readDocument?_render u shallow sorted present)

end

/-- Drafts: a text, and how often it was edited, which is not written. -/
inductive DraftType where
  | draft

instance : DocumentType DraftType where
  Carrier _ := String × Nat
  encode? _ x := some (.text x.1)
  decode? _ j := j.text?.map (·, 0)
  equal _ x y := x == y

-- an edited draft equals itself, but not what its text is decoded to
example :
    let t : SettingType DraftType := .document .draft
    let edited : String × Nat := ("report", 2)
    t.document? edited = some (.text "report") ∧ t.decoded? (.text "report") = some ("report", 0) ∧
      t.unchanged edited edited = true ∧ t.unchanged ("report", (0 : Nat)) edited = false := by
  refine ⟨rfl, ?_, by decide, by decide⟩
  exact decoded?_of_sorted (by decide : (Json.text "report").depth < Json.depthLimit) rfl nofun

/-! ## Documents of common types -/

/-- Whether the text of the document of a value gives the value back. -/
def Survives : (t : SettingType JsonType) → t.Carrier → Prop
  | .native _, _ | .optionalNative _, _ => True
  | .document t, x => t.Survives x
  | .optionalDocument t, x => JsonType.Survives (.option t) x

/-- A value that survives is what its text is decoded to. -/
theorem decoded?_of_survives {t : SettingType JsonType} {x : t.Carrier} {j : Json} (survives : t.Survives x)
    (written : t.document? x = some j) (present : j ≠ .null) (shallow : j.depth < Json.depthLimit) :
    t.decoded? j = some x := by
  cases t with
  | native k | optionalNative k => cases written
  | document u => exact readDocument?_of_survives survives written present shallow
  | optionalDocument u =>
    change Option u.Carrier at x
    cases x with
    | none => exact absurd (Option.some.inj written).symm present
    | some y =>
      have read := readDocument?_of_survives (survives y rfl).1 written present shallow
      exact congrArg (Option.map some) read

end SettingType

/-- What is kept as a document has one, unless it is refused. -/
theorem Setting.exists_document {D : Type} [DocumentType D] {x : Setting D} (json : x.strategy = .json)
    {new : x.type.Carrier} (kept : x.type.write new ≠ .refuse) : ∃ j, x.type.document? new = some j := by
  have written {document : Option Json} (kept : SettingType.putDocument document ≠ .refuse) :
      ∃ j, document = some j := by
    cases document with
    | some j => exact ⟨j, rfl⟩
    | none => exact absurd rfl kept
  obtain ⟨name, key, raisesEvent, type, valueType, default⟩ := x
  cases type with
  | native k | optionalNative k => cases json
  | document u | optionalDocument u => exact written kept

namespace Session

variable {D : Type} [DocumentType D] {H : Type}

/-- Whether setting a value does nothing but read: whatever handlers would do, none is called, and nothing is
written. -/
def Silent (i : Nat) (x : Setting D) (new : x.type.Carrier) (s : Session D H) : Prop :=
  ∀ {m : Type → Type} [Monad m] [LawfulMonad m] (call : H → Notice D → StateT (Session D H) m Unit),
    set i call x new s = pure ((), s.note (x.type.readReport x.key (s.storage.find? x.key)))

theorem silent_of_unchanged (i : Nat) {x : Setting D} {new : x.type.Carrier} {s : Session D H}
    (same : x.type.unchanged (s.value x) new = true) : s.Silent i x new := by
  intro m _ _ call
  rw [set_eq, if_pos same]
  rfl

variable {call : H → Notice D → StateT (Session D H) Id Unit}

/-- What a setting reads after a setter that wrote its value. -/
theorem value_set (spares : Spares call) (i : Nat) {x : Setting D} {new : x.type.Carrier} {s : Session D H}
    (kept : x.type.write new ≠ .refuse) (changed : x.type.unchanged (s.value x) new = false) :
    ((set i call x new).run s).2.value x = x.type.read (x.type.stored? new) x.default := by
  obtain ⟨report, entries⟩ := entries_set spares i x new s
  rw [if_neg (by simp [changed])] at entries
  rw [value_eq, Storage.find?, entries, ← Storage.find?, SettingType.find?_setSetting_self _ _ kept]

/-- A setter that found its value unchanged leaves what the setting reads. -/
theorem value_set_unchanged (spares : Spares call) (i : Nat) {x : Setting D} {new : x.type.Carrier}
    {s : Session D H} (same : x.type.unchanged (s.value x) new = true) :
    ((set i call x new).run s).2.value x = s.value x := by
  obtain ⟨report, entries⟩ := entries_set spares i x new s
  rw [if_pos same] at entries
  rw [value_eq, Storage.find?, entries, ← Storage.find?, value_eq]

/-- Where a value is set twice, the second call finds it unchanged just if the first one did or the value is
settled, and is then silent. A native value is settled unless it is absent and the default is present. What is
kept as a document is settled if the value that its text is decoded to counts as unchanged from it; the default
takes the place of that value where the document is null, nested deeper than it may be read, or none of the type.
So a value that its own text gives back is settled if it counts as unchanged from itself. -/
theorem set_again (spares : Spares call) (i : Nat) (x : Setting D) (new : x.type.Carrier) (s : Session D H)
    (kept : x.type.write new ≠ .refuse) :
    let s' := ((set i call x new).run s).2
    (x.type.unchanged (s'.value x) new = true ↔
      x.type.unchanged (s.value x) new = true ∨ x.type.Settles x.default new) ∧
    (x.type.unchanged (s'.value x) new = true → s'.Silent i x new) ∧
    (x.strategy = .native →
      (x.type.Settles x.default new ↔ (x.type.isAbsent new = true → x.type.isAbsent x.default = true))) ∧
    (x.strategy = .json → ∃ j, x.type.document? new = some j ∧
      (x.type.Settles x.default new ↔ x.type.unchanged ((x.type.decoded? j).getD x.default) new = true) ∧
      (j = .null ∨ Json.depthLimit ≤ j.depth → x.type.decoded? j = none) ∧
      (j.depth < Json.depthLimit → ∀ k, j.reread.sorted? = some k → k ≠ .null →
        x.type.decoded? j = x.type.decode? k) ∧
      (x.type.decoded? j = some new → (x.type.Settles x.default new ↔ x.type.unchanged new new = true))) := by
  intro s'
  refine ⟨?_, silent_of_unchanged i, ?_, ?_⟩
  · cases first : x.type.unchanged (s.value x) new with
    | true =>
      have reads : s'.value x = s.value x := value_set_unchanged spares i first
      simp [reads, first]
    | false =>
      have reads : s'.value x = x.type.read (x.type.stored? new) x.default := value_set spares i kept first
      rw [reads]
      simp [SettingType.Settles]
  · intro native
    obtain ⟨k, kind⟩ := Setting.exists_kind native
    exact SettingType.settles_native kind
  · intro json
    obtain ⟨j, written⟩ := Setting.exists_document json kept
    have settles : x.type.Settles x.default new ↔ _ := SettingType.settles_iff_decoded written
    refine ⟨j, written, settles, SettingType.decoded?_hidden, ?_, fun back => ?_⟩
    · exact fun shallow k sorted present => SettingType.decoded?_of_sorted shallow sorted present
    · rw [settles, back, Option.getD_some]

/-- A list of names over a default and over a number that lies under its key: set again, it is told to
nobody. -/
theorem set_again_layout :
    let x : Setting JsonType := ⟨"Layout", "layout", true, .optionalDocument (.list .string), "Vec<String>", some ["main"]⟩
    let s : Session JsonType Nat := .new (.memory (.ofList [("layout", ⟨.i32, 3⟩)])) 1 [x] false
    let call : Nat → Notice JsonType → StateT (Session JsonType Nat) Id Unit := fun _ _ => pure ()
    let new : Option (List String) := some ["left", "right"]
    Spares call ∧ x.type.write new ≠ .refuse ∧ x.type.unchanged (s.value x) new = false ∧
      ((set 0 call x new).run s).2.Silent 0 x new := by
  intro x s call new
  have spares : Spares call := fun _ _ _ => rfl
  have kept : x.type.write new ≠ .refuse := fun refused => nomatch refused
  obtain ⟨rule, silent, -, documents⟩ := set_again spares 0 x new s kept
  obtain ⟨j, written, -, -, -, settled⟩ := documents rfl
  cases written
  have survives : x.type.Survives new := by
    intro b present
    cases (show b = ["left", "right"] from (Option.some.inj present).symm)
    exact ⟨fun _ _ => trivial, fun null => nomatch null⟩
  have back := SettingType.decoded?_of_survives survives rfl (fun null => nomatch null) (by decide)
  have settles := (settled back).2 (by decide)
  exact ⟨spares, kept, by decide +kernel, silent (rule.2 (.inr settles))⟩

/-- Values that are told to a handler of the general event on the second call as well: an absent number and an
absent list over defaults that are present, a number that is none, a null, and a finite number whose text is
read as its neighbour. A value that a handler takes back is changed on the second call too. -/
theorem set_again_heard :
    let again (t : SettingType JsonType) (default v : t.Carrier) : List Nat :=
      let x : Setting JsonType := ⟨"Property", "property", false, t, "", default⟩
      let s : Session JsonType Nat := ((new (.memory .empty) 1 [x] false).subscribe 0 .changed 7).1
      let set : Recorded JsonType Nat Unit := set 0 (observer fun _ _ _ => []) x v
      (set (set s []).1.2 []).2.map (·.handler)
    again (.optionalNative .f32) (some (Binary.zero .single)) none = [7] ∧
      again (.optionalDocument (.list .string)) (some ["main"]) none = [7] ∧
      again (.document .f32) (Binary.zero .single) .nan = [7] ∧
      again (.document .value) (.bool true) .null = [7] ∧
      again (.document .value) .null ((Json.ofText? "9.8029527347567465e71").getD .null) = [7] ∧
      (let muted : Setting JsonType := ⟨"Muted", "muted", true, .native .bool, "bool", false⟩
      let s : Session JsonType Nat := ((new (.memory .empty) 1 [muted] false).subscribe 0 .changed 7).1
      let takesBack : Nat → Notice JsonType → StateT (Session JsonType Nat) Id Unit :=
        fun _ _ s => ((), { s with storage := .memory .empty })
      muted.type.unchanged (((set 0 takesBack muted true).run s).2.value muted) true = false) := by
  decide +kernel

end Session

end LiveSettings
