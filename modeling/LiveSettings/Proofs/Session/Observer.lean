import LiveSettings.Session

/-!
# Setters and handlers that only observe

A handler that only observes may read settings, which at most adds to the journal; what else it does lies
outside the session. Such handlers are told of a change one after the other, and the session stays as the
setter left it.

Results:
* `set_eq`: a setter reads, compares, and only then writes and announces the change.
* `set_unchanged_observed`: a value that the setting has already changes nothing and is told to nobody.
* `set_changed_observed`: any other value is written once, and then told to the handlers of the object.
-/

namespace LiveSettings

namespace Storage

/-- The storage with more reports. -/
def note (s : Storage) (es : Journal) : Storage := { s with journal := s.journal ++ es }

@[simp]
theorem find?_note (s : Storage) (es : Journal) (key : String) : (s.note es).find? key = s.find? key := rfl

@[simp]
theorem note_nil (s : Storage) : s.note [] = s := by simp [note]

@[simp]
theorem note_note (s : Storage) (es fs : Journal) : (s.note es).note fs = s.note (es ++ fs) := by
  simp [note]

variable {D : Type} [DocumentType D]

/-- Writing a setting touches its own key alone. -/
theorem find?_setSetting (s : Storage) (t : SettingType D) {key other : String} (h : other ≠ key)
    (x : t.Carrier) : (s.setSetting t key x).find? other = s.find? other :=
  find?_apply s key other _ (by simp [h.symm])

end Storage

namespace Session

variable {D : Type} [DocumentType D] {H : Type}

/-- The session with more reports. -/
def note (s : Session D H) (es : Journal) : Session D H := { s with storage := s.storage.note es }

@[simp]
theorem storage_note (s : Session D H) (es : Journal) : (s.note es).storage = s.storage.note es := rfl

@[simp]
theorem objects_note (s : Session D H) (es : Journal) : (s.note es).objects = s.objects := rfl

@[simp]
theorem note_note (s : Session D H) (es fs : Journal) : (s.note es).note fs = s.note (es ++ fs) := by
  simp [note]

@[simp]
theorem note_nil (s : Session D H) : s.note [] = s := by simp [note]

/-- What reading a setting gives. -/
def value (s : Session D H) (x : Setting D) : x.type.Carrier := ((get x : StateT (Session D H) Id _).run s).1

theorem value_eq (s : Session D H) (x : Setting D) :
    s.value x = x.type.read (s.storage.find? x.key) x.default := rfl

/-! ## The steps of a setter -/

section

variable {m : Type → Type} [Monad m]

/-- The notices of a change: the general one and, if the setting raises it, that of the values. -/
def announce (i : Nat) (call : H → Notice D → StateT (Session D H) m Unit) (x : Setting D)
    (old new : x.type.Carrier) : StateT (Session D H) m Unit := do
  raiseChanged i call x
  if x.raisesEvent then raiseValue i call x old new

/-- A setter reads, compares, and only then writes and announces the change. -/
theorem set_eq [LawfulMonad m] (i : Nat) (call : H → Notice D → StateT (Session D H) m Unit) (x : Setting D)
    (new : x.type.Carrier) (s : Session D H) :
    set i call x new s =
      (if x.type.unchanged (s.value x) new then pure ()
        else do
          modify fun s => { s with storage := s.storage.setSetting x.type x.key new }
          announce i call x (s.value x) new : StateT (Session D H) m Unit)
        (s.note (x.type.readReport x.key (s.storage.find? x.key))) := by
  have read : (get x : StateT (Session D H) m _) s =
      pure (s.value x, s.note (x.type.readReport x.key (s.storage.find? x.key))) := by
    simp only [get, bind, StateT.bind, StateT.get, pure_bind]
    exact pure_bind _ _
  unfold set
  simp only [bind, StateT.bind, read, pure_bind]
  rfl

/-! The handlers that an object has at the moment are called. -/

variable [LawfulMonad m] {i : Nat} {s : Session D H} {o : SettingsObject D H}
variable (call : H → Notice D → StateT (Session D H) m Unit) (x : Setting D)

theorem raiseChanged_some (found : s.objects[i]? = some o) :
    raiseChanged i call x s = notify o.changed call (.changed x.name) s := by
  simp only [raiseChanged, bind, StateT.bind, StateT.get, pure_bind, found]

theorem raiseChanged_none (found : s.objects[i]? = none) : raiseChanged i call x s = pure ((), s) := by
  simp only [raiseChanged, bind, StateT.bind, StateT.get, pure_bind, found]
  rfl

theorem raiseValue_some (found : s.objects[i]? = some o) (old new : x.type.Carrier) :
    raiseValue i call x old new s =
      notify (o.valueChanged x).2 call (.value x old new) (s.withObject i fun _ => (o.valueChanged x).1) := by
  simp only [raiseValue, bind, StateT.bind, StateT.get, pure_bind, found]
  exact pure_bind _ _

theorem raiseValue_none (found : s.objects[i]? = none) (old new : x.type.Carrier) :
    raiseValue i call x old new s = pure ((), s) := by
  simp only [raiseValue, bind, StateT.bind, StateT.get, pure_bind, found]
  rfl

end

/-! ## Who is told -/

/-- The handlers of a channel of an object. -/
def hears (s : Session D H) (i : Nat) (c : Channel D) : List H := (s.event i c).2.snapshot

theorem hears_congr {s s' : Session D H} (h : s'.objects = s.objects) (i : Nat) (c : Channel D) :
    s'.hears i c = s.hears i c := by
  cases c with
  | changed => simp [hears, event, h]
  | value x =>
    simp only [hears, event, h]
    cases s.objects[i]? <;> rfl

/-- What a handler is told, and the session at that moment. -/
structure Raised (D : Type) [DocumentType D] (H : Type) where
  handler : H
  notice : Notice D
  session : Session D H

/-- Actions on a session in which what handlers are told is recorded. -/
abbrev Recorded (D : Type) [DocumentType D] (H : Type) : Type → Type := StateT (Session D H) (StateM (List (Raised D H)))

/-- Handlers that only observe: each may add reports, and what it was told is recorded. -/
def observer (notes : H → Notice D → Session D H → Journal) (h : H) (n : Notice D) :
    Recorded D H Unit :=
  fun s log => (((), s.note (notes h n s)), log ++ [⟨h, n, s⟩])

/-- What was told while a session changed by reports alone. -/
structure Told (s s' : Session D H) (seen : List (Raised D H)) (told : List (H × Notice D)) : Prop where
  notices : seen.map (fun r => (r.handler, r.notice)) = told
  sessions : ∀ r ∈ seen, ∃ es, r.session = s.note es
  after : ∃ es, s' = s.note es

theorem Told.nothing (s : Session D H) : Told s s [] [] :=
  ⟨rfl, fun _ hr => absurd hr List.not_mem_nil, [], (note_nil s).symm⟩

theorem Told.append {s s' s'' : Session D H} {seen more : List (Raised D H)} {told others : List (H × Notice D)}
    (h : Told s s' seen told) (k : Told s' s'' more others) : Told s s'' (seen ++ more) (told ++ others) := by
  obtain ⟨es, rfl⟩ := h.after
  refine ⟨by rw [List.map_append, h.notices, k.notices], fun r hr => ?_, ?_⟩
  · rcases List.mem_append.1 hr with hr | hr
    · exact h.sessions r hr
    · obtain ⟨fs, same⟩ := k.sessions r hr
      exact ⟨es ++ fs, by rw [same, note_note]⟩
  · obtain ⟨fs, same⟩ := k.after
    exact ⟨es ++ fs, by rw [same, note_note]⟩

variable (notes : H → Notice D → Session D H → Journal)

theorem notify_observed (e : Event H) (n : Notice D) (s : Session D H) (log : List (Raised D H)) :
    ∃ s' seen, notify e (observer notes) n s log = (((), s'), log ++ seen) ∧
      Told s s' seen (e.snapshot.map (·, n)) := by
  unfold notify Event.raise
  induction e.snapshot generalizing s log with
  | nil => exact ⟨s, [], by simp only [List.append_nil]; rfl, .nothing s⟩
  | cons h hs ih =>
    obtain ⟨s', seen, ran, told⟩ := ih (s.note (notes h n s)) (log ++ [⟨h, n, s⟩])
    refine ⟨s', ⟨h, n, s⟩ :: seen, ?_, ?_⟩
    · rw [← List.append_cons] at ran
      exact ran
    · have first : Told s (s.note (notes h n s)) [⟨h, n, s⟩] [(h, n)] :=
        ⟨rfl, fun r hr => ⟨[], by rw [List.mem_singleton.1 hr, note_nil]⟩, _, rfl⟩
      exact first.append told

theorem raiseChanged_observed (i : Nat) (x : Setting D) (s : Session D H) (log : List (Raised D H)) :
    ∃ s' seen, raiseChanged i (observer notes) x s log = (((), s'), log ++ seen) ∧
      Told s s' seen ((s.hears i .changed).map (·, .changed x.name)) := by
  cases found : s.objects[i]? with
  | none =>
    have nobody : s.hears i .changed = [] := by simp [hears, event, found, Event.snapshot, Event.empty]
    refine ⟨s, [], ?_, by rw [nobody]; exact .nothing s⟩
    rw [raiseChanged_none _ _ found, List.append_nil]
    rfl
  | some o =>
    have those : s.hears i .changed = o.changed.snapshot := by simp [hears, event, found]
    rw [raiseChanged_some _ _ found, those]
    exact notify_observed notes o.changed (.changed x.name) s log

theorem raiseValue_observed (i : Nat) (x : Setting D) (old new : x.type.Carrier) (s : Session D H)
    (log : List (Raised D H)) :
    ∃ s' seen, raiseValue i (observer notes) x old new s log = (((), s'), log ++ seen) ∧
      Told (s.event i (.value x)).1 s' seen ((s.hears i (.value x)).map (·, .value x old new)) := by
  cases found : s.objects[i]? with
  | none =>
    have made : s.event i (.value x) = (s, .empty) := by simp [event, found]
    have nobody : s.hears i (.value x) = [] := by rw [hears, made]; rfl
    refine ⟨s, [], ?_, by rw [nobody, made]; exact .nothing s⟩
    rw [raiseValue_none _ _ found, List.append_nil]
    rfl
  | some o =>
    have made : s.event i (.value x) = (s.withObject i fun _ => (o.valueChanged x).1, (o.valueChanged x).2) := by
      simp [event, found]
    rw [raiseValue_some _ _ found, hears, made]
    exact notify_observed notes (o.valueChanged x).2 (.value x old new)
      (s.withObject i fun _ => (o.valueChanged x).1) log

/-! ## Setters -/

@[simp]
theorem storage_event (s : Session D H) (i : Nat) (c : Channel D) : (s.event i c).1.storage = s.storage := by
  cases c with
  | changed => rfl
  | value x =>
    simp only [event]
    cases s.objects[i]? <;> rfl

theorem objects_event_congr {s s' : Session D H} (h : s'.objects = s.objects) (i : Nat) (c : Channel D) :
    (s'.event i c).1.objects = (s.event i c).1.objects := by
  cases c with
  | changed => exact h
  | value x =>
    simp only [event, h]
    cases s.objects[i]? <;> simp [withObject, h]

/-- First the general notice and then, if the setting raises one, that of the values; neither changes what
lies in the store. -/
theorem announce_observed (i : Nat) (x : Setting D) (old new : x.type.Carrier) (s : Session D H)
    (log : List (Raised D H)) :
    ∃ s' seen, announce i (observer notes) x old new s log = (((), s'), log ++ seen) ∧
      seen.map (fun r => (r.handler, r.notice)) =
        (s.hears i .changed).map (·, .changed x.name) ++
          (if x.raisesEvent then (s.hears i (.value x)).map (·, .value x old new) else []) ∧
      (∀ r ∈ seen, ∃ es, r.session.storage = s.storage.note es) ∧
      (∃ es, s'.storage = s.storage.note es) ∧
      s'.objects = if x.raisesEvent then (s.event i (.value x)).1.objects else s.objects := by
  obtain ⟨s₁, seen₁, ran₁, told₁⟩ := raiseChanged_observed notes i x s log
  obtain ⟨es₁, after₁⟩ := told₁.after
  have objects₁ : s₁.objects = s.objects := by rw [after₁, objects_note]
  have storage₁ : s₁.storage = s.storage.note es₁ := by rw [after₁, storage_note]
  have sessions₁ : ∀ r ∈ seen₁, ∃ es, r.session.storage = s.storage.note es := by
    intro r hr
    obtain ⟨es, same⟩ := told₁.sessions r hr
    exact ⟨es, by rw [same, storage_note]⟩
  have step : announce i (observer notes) x old new s log =
      (if x.raisesEvent then raiseValue i (observer notes) x old new else pure () : Recorded D H Unit)
        (raiseChanged i (observer notes) x s log).1.2 (raiseChanged i (observer notes) x s log).2 := rfl
  rw [step, ran₁]
  cases raises : x.raisesEvent with
  | false =>
    exact ⟨s₁, seen₁, rfl, by simp [told₁.notices], sessions₁, ⟨es₁, storage₁⟩, by simp [objects₁]⟩
  | true =>
    obtain ⟨s₂, seen₂, ran₂, told₂⟩ := raiseValue_observed notes i x old new s₁ (log ++ seen₁)
    obtain ⟨es₂, after₂⟩ := told₂.after
    refine ⟨s₂, seen₁ ++ seen₂, by rw [← List.append_assoc]; exact ran₂, ?_, ?_, ⟨es₁ ++ es₂, ?_⟩, ?_⟩
    · rw [List.map_append, told₁.notices, told₂.notices, hears_congr objects₁]
      rfl
    · intro r hr
      rcases List.mem_append.1 hr with hr | hr
      · exact sessions₁ r hr
      · obtain ⟨es, same⟩ := told₂.sessions r hr
        exact ⟨es₁ ++ es, by rw [same, storage_note, storage_event, storage₁, Storage.note_note]⟩
    · rw [after₂, storage_note, storage_event, storage₁, Storage.note_note]
    · rw [after₂, objects_note, objects_event_congr objects₁]
      rfl

/-- A value that the setting has already changes nothing and is told to nobody. -/
theorem set_unchanged_observed (i : Nat) {x : Setting D} {new : x.type.Carrier} {s : Session D H}
    (h : x.type.unchanged (s.value x) new = true) (log : List (Raised D H)) :
    ∃ es, set i (observer notes) x new s log = (((), s.note es), log) := by
  refine ⟨x.type.readReport x.key (s.storage.find? x.key), ?_⟩
  rw [set_eq, if_pos h]
  rfl

/-- What a setter leaves behind that has written a value and told the handlers. -/
structure Written (s : Session D H) (i : Nat) (x : Setting D) (new : x.type.Carrier) (s' : Session D H)
    (seen : List (Raised D H)) : Prop where
  notices : seen.map (fun r => (r.handler, r.notice)) =
    (s.hears i .changed).map (·, .changed x.name) ++
      (if x.raisesEvent then (s.hears i (.value x)).map (·, .value x (s.value x) new) else [])
  storage : ∃ report, (∀ r ∈ seen, ∃ es,
      r.session.storage = ((s.storage.note report).setSetting x.type x.key new).note es) ∧
    ∃ es, s'.storage = ((s.storage.note report).setSetting x.type x.key new).note es
  objects : s'.objects = if x.raisesEvent then (s.event i (.value x)).1.objects else s.objects

/-- Any other value is written once, and then told to the handlers of the object. -/
theorem set_changed_observed (i : Nat) {x : Setting D} {new : x.type.Carrier} {s : Session D H}
    (h : x.type.unchanged (s.value x) new = false) (log : List (Raised D H)) :
    ∃ s' seen, set i (observer notes) x new s log = (((), s'), log ++ seen) ∧ s.Written i x new s' seen := by
  let report := x.type.readReport x.key (s.storage.find? x.key)
  let w : Session D H := { s with storage := (s.storage.note report).setSetting x.type x.key new }
  obtain ⟨s', seen, ran, notices, sessions, after, objects⟩ :=
    announce_observed notes i x (s.value x) new w log
  refine ⟨s', seen, ?_, ?_, ⟨report, sessions, after⟩, ?_⟩
  · rw [set_eq, if_neg (by simp [h])]
    exact ran
  · rw [notices, hears_congr (show w.objects = s.objects from rfl),
      hears_congr (show w.objects = s.objects from rfl)]
  · rw [objects, objects_event_congr (show w.objects = s.objects from rfl)]

end Session

end LiveSettings
