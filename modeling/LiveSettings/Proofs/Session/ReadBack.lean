import LiveSettings.Access.JsonType
import LiveSettings.Proofs.Session.Observer

/-!
# Settings read what was set

Results:
* `SettingType.read_setSetting`: what a native setting reads from a store in which it was just written.
* `Session.read_your_writes`: after a native setting is set, it reads the value, and no other key is touched.

Handlers may do what they like but change what lies in the store. An absent value is kept as an absent key, so
it does not hide a default that is present; in that case alone the setting reads something else than it was
set to.
-/

namespace LiveSettings

namespace SettingType

variable {D : Type} [DocumentType D]

/-- Whether a value of a setting that may be absent is. -/
def isAbsent : (t : SettingType D) → t.Carrier → Bool
  | .native _, _ => false
  | .optionalNative k, x => (x : Option k.Carrier).isNone
  | .document _, _ => false
  | .optionalDocument t, x => (x : Option (DocumentType.Carrier t)).isNone

variable {t : SettingType D} {k : NativeKind}

theorem unchanged_refl (h : t = .native k ∨ t = .optionalNative k) (x : t.Carrier) :
    t.unchanged x x = true := by
  rcases h with rfl | rfl
  · exact k.same_refl x
  · cases (x : Option k.Carrier) with
    | none => rfl
    | some y => exact k.same_refl y

theorem isAbsent_of_unchanged (h : t = .native k ∨ t = .optionalNative k) {x y : t.Carrier}
    (hu : t.unchanged x y = true) : t.isAbsent x = t.isAbsent y := by
  rcases h with rfl | rfl
  · rfl
  · change Option k.Carrier at x y
    cases x with
    | none =>
      cases y with
      | none => rfl
      | some _ => cases hu
    | some _ =>
      cases y with
      | none => cases hu
      | some _ => rfl

theorem unchanged_of_isAbsent (h : t = .native k ∨ t = .optionalNative k) {x y : t.Carrier}
    (hx : t.isAbsent x = true) (hy : t.isAbsent y = true) : t.unchanged x y = true := by
  rcases h with rfl | rfl
  · cases hx
  · change Option k.Carrier at x y
    cases x with
    | some _ => cases hx
    | none =>
      cases y with
      | some _ => cases hy
      | none => rfl

/-- A default that is present is read where nothing else is. -/
theorem isAbsent_read (h : t = .native k ∨ t = .optionalNative k) {default : t.Carrier}
    (hd : t.isAbsent default = false) (stored : Option SettingValue) :
    t.isAbsent (t.read stored default) = false := by
  rcases h with rfl | rfl
  · rfl
  · simp only [read]
    split
    · rfl
    · exact hd

/-- A native setting that was just written reads its value, or its default if the value is absent. -/
theorem read_setSetting (h : t = .native k ∨ t = .optionalNative k) (s : Storage) (key : String)
    (x default : t.Carrier) :
    t.read ((s.setSetting t key x).find? key) default = if t.isAbsent x then default else x := by
  rcases h with rfl | rfl
  · simp [Storage.setSetting, write, Storage.apply, Storage.find?_set, read, isAbsent]
  · change Option k.Carrier at x
    cases x with
    | none => simp [Storage.setSetting, write, Storage.apply, Storage.find?_remove, read, isAbsent]
    | some y => simp [Storage.setSetting, write, Storage.apply, Storage.find?_set, read, isAbsent]

/-- An absent value takes its key away. -/
theorem find?_setSetting_absent (h : t = .native k ∨ t = .optionalNative k) (s : Storage) (key : String)
    {x : t.Carrier} (hx : t.isAbsent x = true) : (s.setSetting t key x).find? key = none := by
  rcases h with rfl | rfl
  · cases hx
  · change Option k.Carrier at x
    cases x with
    | none => simp [Storage.setSetting, write, Storage.apply, Storage.find?_remove]
    | some y => cases hx

end SettingType

theorem Setting.exists_kind {D : Type} [DocumentType D] {x : Setting D} (h : x.strategy = .native) :
    ∃ k, x.type = .native k ∨ x.type = .optionalNative k := by
  obtain ⟨name, key, raisesEvent, type, valueType, default⟩ := x
  cases type with
  | native k => exact ⟨k, .inl rfl⟩
  | optionalNative k => exact ⟨k, .inr rfl⟩
  | document t => cases h
  | optionalDocument t => cases h

namespace Session

variable {D : Type} [DocumentType D] {H : Type}

/-! ## Handlers that leave the store alone -/

/-- Whether handlers leave what lies in the store as it is, whatever else they do. -/
def Spares (call : H → Notice D → StateT (Session D H) Id Unit) : Prop :=
  ∀ h n s, ((call h n).run s).2.storage.entries = s.storage.entries

variable {call : H → Notice D → StateT (Session D H) Id Unit}

theorem entries_notify (spares : Spares call) (e : Event H) (n : Notice D) (s : Session D H) :
    ((notify e call n).run s).2.storage.entries = s.storage.entries := by
  unfold notify Event.raise
  induction e.snapshot generalizing s with
  | nil => rfl
  | cons h hs ih => exact (ih ((call h n).run s).2).trans (spares h n s)

theorem entries_raiseChanged (spares : Spares call) (i : Nat) (x : Setting D) (s : Session D H) :
    ((raiseChanged i call x).run s).2.storage.entries = s.storage.entries := by
  simp only [StateT.run]
  cases found : s.objects[i]? with
  | none => rw [raiseChanged_none call x found]; rfl
  | some o =>
    rw [raiseChanged_some call x found]
    exact entries_notify spares o.changed _ s

theorem entries_raiseValue (spares : Spares call) (i : Nat) (x : Setting D) (old new : x.type.Carrier)
    (s : Session D H) : ((raiseValue i call x old new).run s).2.storage.entries = s.storage.entries := by
  simp only [StateT.run]
  cases found : s.objects[i]? with
  | none => rw [raiseValue_none call x found]; rfl
  | some o =>
    rw [raiseValue_some call x found]
    exact entries_notify spares _ _ (s.withObject i fun _ => (o.valueChanged x).1)

theorem entries_announce (spares : Spares call) (i : Nat) (x : Setting D) (old new : x.type.Carrier)
    (s : Session D H) : ((announce i call x old new).run s).2.storage.entries = s.storage.entries := by
  have step : (announce i call x old new).run s =
      (if x.raisesEvent then raiseValue i call x old new else pure () : StateT (Session D H) Id Unit).run
        ((raiseChanged i call x).run s).2 := rfl
  rw [step]
  split
  · exact (entries_raiseValue spares i x old new _).trans (entries_raiseChanged spares i x s)
  · exact entries_raiseChanged spares i x s

/-- A setter writes its value, or nothing where the value counts as unchanged. -/
theorem entries_set (spares : Spares call) (i : Nat) (x : Setting D) (new : x.type.Carrier) (s : Session D H) :
    ∃ report, ((set i call x new).run s).2.storage.entries =
      if x.type.unchanged (s.value x) new then s.storage.entries
      else ((s.storage.note report).setSetting x.type x.key new).entries := by
  refine ⟨x.type.readReport x.key (s.storage.find? x.key), ?_⟩
  rw [StateT.run, set_eq]
  split
  · rfl
  · exact entries_announce spares i x _ new { s with storage := (s.storage.note _).setSetting x.type x.key new }

/-! ## Reading after a setter -/

/-- After a native setting is set it reads a value that counts as unchanged from the one it was set to, and
every other key is as before. Only an absent value over a default that is present leaves the default. -/
theorem read_your_writes (spares : Spares call) (i : Nat) (x : Setting D) (native : x.strategy = .native)
    (new : x.type.Carrier) (s : Session D H) :
    let s' := ((set i call x new).run s).2
    (∀ other, other ≠ x.key → s'.storage.find? other = s.storage.find? other) ∧
      if x.type.isAbsent new ∧ x.type.isAbsent x.default = false then
        s'.storage.find? x.key = none ∧ s'.value x = x.default
      else x.type.unchanged (s'.value x) new = true := by
  intro s'
  obtain ⟨k, kind⟩ := Setting.exists_kind native
  obtain ⟨report, entries⟩ := entries_set spares i x new s
  change s'.storage.entries = _ at entries
  cases same : x.type.unchanged (s.value x) new with
  | true =>
    rw [if_pos same] at entries
    have found (key : String) : s'.storage.find? key = s.storage.find? key := by
      rw [Storage.find?, entries, Storage.find?]
    have reads : s'.value x = s.value x := by rw [value_eq, found, value_eq]
    refine ⟨fun other _ => found other, ?_⟩
    -- a setting with a default that is present never reads as absent
    rw [if_neg, reads]
    · exact same
    · rintro ⟨absent, present⟩
      have never := SettingType.isAbsent_read kind present (s.storage.find? x.key)
      rw [← value_eq, SettingType.isAbsent_of_unchanged kind same, absent] at never
      cases never
  | false =>
    rw [if_neg (by simp [same])] at entries
    have found (key : String) : s'.storage.find? key =
        ((s.storage.note report).setSetting x.type x.key new).find? key := by
      rw [Storage.find?, entries, Storage.find?]
    have reads : s'.value x = if x.type.isAbsent new then x.default else new := by
      rw [value_eq, found, SettingType.read_setSetting kind]
    refine ⟨fun other apart => ?_, ?_⟩
    · rw [found, Storage.find?_setSetting _ _ apart, Storage.find?_note]
    · split
      · rename_i exception
        obtain ⟨absent, present⟩ := exception
        refine ⟨?_, by rw [reads, if_pos absent]⟩
        rw [found]
        exact SettingType.find?_setSetting_absent kind _ _ absent
      · rename_i rule
        rw [reads]
        cases absent : x.type.isAbsent new with
        | false => exact SettingType.unchanged_refl kind new
        | true =>
          have missing : x.type.isAbsent x.default = true := by simpa [absent] using rule
          exact SettingType.unchanged_of_isAbsent kind missing absent

/-- A setting that may be absent, with a default that is present and a number under its key: it reads the text
it is set to, and its default once it is set to nothing. -/
theorem read_your_writes_optionalText :
    let x : Setting JsonType := ⟨"Title", "title", true, .optionalNative .string, "String", some "untitled"⟩
    let s : Session JsonType Nat := .new (.memory (.ofList [("title", ⟨.i32, 3⟩), ("other", ⟨.bool, true⟩)])) 1 [x] false
    let call : Nat → Notice JsonType → StateT (Session JsonType Nat) Id Unit := fun _ _ => pure ()
    let set₁ := ((set 0 call x (some "report")).run s).2
    let set₂ := ((set 0 call x none).run set₁).2
    Spares call ∧ x.strategy = .native ∧ x.type.unchanged (set₁.value x) (some "report") = true ∧
      set₂.storage.find? "title" = none ∧ set₂.value x = some "untitled" := by
  intro x s call set₁ set₂
  have spares : Spares call := fun _ _ _ => rfl
  have first := read_your_writes spares 0 x rfl (some "report") s
  have second := read_your_writes spares 0 x rfl none set₁
  exact ⟨spares, rfl, first.2, second.2⟩

end Session

end LiveSettings
