import LiveSettings.Access.JsonType
import LiveSettings.Proofs.Session.Observer
import Mathlib.Data.List.Chain
import Mathlib.Data.List.Nodup

/-!
# Runs of setters of several objects

Objects share a store, and setters of native settings are called through them in any order. Every call is an
`Episode`: the session before it, what handlers were told, the session after it.

Results:
* `Context.request_of_request`: asking for one event does not change another.
* `hears_set`: no setter changes who is told.
* `episode_law`: what one call does, to the store and to the handlers.
* `setters_run`: every call of a run obeys the law with the handlers of the start, and the values told of a
  setting that is set through one object form a chain.
-/

namespace LiveSettings

namespace Context

variable {τ H : Type} [DecidableEq τ]

theorem find?_put_of_ne (c : Context τ H) {name other : String} {type kind : τ} (e : Event H)
    (h : (other, kind) ≠ (name, type)) : (c.put name type e).find? other kind = c.find? other kind := by
  have entries : entry? (c.put name type e) other kind = entry? c other kind := by
    unfold entry? put
    congr 1
    split
    · rw [List.find?_map]
      have skip : ((fun r : (String × τ) × TypedEvent τ H => decide (r.1 = (other, kind))) ∘
          fun r => if r.1 = (name, type) then (r.1, (⟨type, e⟩ : TypedEvent τ H)) else r) =
          fun r => decide (r.1 = (other, kind)) := by
        funext r
        by_cases hr : r.1 = (name, type) <;> simp [hr]
      rw [skip]
      cases found : c.registry.find? fun r => decide (r.1 = (other, kind)) with
      | none => rfl
      | some r =>
        have there : r.1 = (other, kind) := by simpa using List.find?_some found
        have apart : r.1 ≠ (name, type) := there ▸ h
        simp [apart]
    · simp [List.find?_append, h.symm]
  simp only [find?, entries]

/-- Asking for one event does not change another. -/
theorem request_of_request (c : Context τ H) (name other : String) (type kind : τ) :
    ((c.request name type).1.request other kind).2 = (c.request other kind).2 := by
  by_cases same : (other, kind) = (name, type)
  · obtain ⟨rfl, rfl⟩ := Prod.mk.inj same
    rw [request_request]
  · cases found : c.find? name type with
    | some e => simp only [request, found]
    | none =>
      have kept := find?_put_of_ne c .empty same
      simp only [request, found, kept]
      cases c.find? other kind <;> rfl

end Context

namespace Session

variable {D : Type} [DocumentType D] {H : Type}

/-! ## Subscriptions -/

/-- Making the event of one channel does not change who is told on another. -/
theorem hears_event (s : Session D H) (i j : Nat) (x : Setting D) (c : Channel D) :
    (s.event i (.value x)).1.hears j c = s.hears j c := by
  cases found : s.objects[i]? with
  | none => simp [event, found]
  | some o =>
    have made : (s.event i (.value x)).1 = s.withObject i fun _ => (o.valueChanged x).1 := by
      simp [event, found]
    rw [made]
    by_cases same : i = j
    · subst same
      have there : (s.withObject i fun _ => (o.valueChanged x).1).objects[i]? = some (o.valueChanged x).1 := by
        simp [withObject, found]
      cases c with
      | changed =>
        have general : (o.valueChanged x).1.changed = o.changed := by
          simp only [SettingsObject.valueChanged, SettingsObject.changed, Context.request]
          split <;> rfl
        simp [hears, event, found, there, general]
      | value y =>
        have other : ((o.valueChanged x).1.valueChanged y).2 = (o.valueChanged y).2 :=
          o.context.request_of_request x.name y.name x.valueType y.valueType
        simp [hears, event, found, there, other]
    · have there : (s.withObject i fun _ => (o.valueChanged x).1).objects[j]? = s.objects[j]? := by
        simp [withObject, same]
      cases c with
      | changed => simp [hears, event, there]
      | value y =>
        simp only [hears, event, there]
        cases s.objects[j]? <;> rfl

end Session

/-! ## Episodes -/

/-- A setting of a native type that is never absent. -/
structure NativeProperty where
  name : String
  key : String
  raisesEvent : Bool
  kind : NativeKind
  /-- The identity of the type of its values. -/
  valueType : String
  default : kind.Carrier

namespace NativeProperty

variable {D : Type} [DocumentType D]

def setting (p : NativeProperty) : Setting D :=
  ⟨p.name, p.key, p.raisesEvent, .native p.kind, p.valueType, p.default⟩

theorem setting_injective {p q : NativeProperty} (h : (p.setting : Setting D) = q.setting) : p = q := by
  obtain ⟨name, key, raisesEvent, kind, valueType, default⟩ := p
  obtain ⟨name', key', raisesEvent', kind', valueType', default'⟩ := q
  simp only [setting, Setting.mk.injEq, SettingType.native.injEq] at h
  obtain ⟨rfl, rfl, rfl, rfl, rfl, same⟩ := h
  cases same
  rfl

end NativeProperty

/-- A call of the setter of a property through an object. -/
structure SetCall where
  object : Nat
  property : NativeProperty
  value : property.kind.Carrier

/-- A call with the session before it, what handlers were told, and the session after it. -/
structure Episode (D : Type) [DocumentType D] (H : Type) where
  call : SetCall
  before : Session D H
  seen : List (Session.Raised D H)
  after : Session D H

namespace Session

variable {D : Type} [DocumentType D] {H : Type}

/-- What the getter of a property gives. -/
def read (s : Session D H) (p : NativeProperty) : p.kind.Carrier := s.value p.setting

def perform (notes : H → Notice D → Session D H → Journal) (s : Session D H) (c : SetCall) : Episode D H :=
  let r := set c.object (observer notes) c.property.setting c.value s []
  ⟨c, s, r.2, r.1.2⟩

/-- The episodes of a run. -/
def episodes (notes : H → Notice D → Session D H → Journal) (s : Session D H) : List SetCall → List (Episode D H)
  | [] => []
  | c :: cs => s.perform notes c :: (s.perform notes c).after.episodes notes cs

end Session

namespace Episode

variable {D : Type} [DocumentType D] {H : Type} (e : Episode D H)

/-- What the getter of the property gives just before the call. -/
def old : e.call.property.kind.Carrier := e.before.read e.call.property

/-- Whether the value counts as unchanged. -/
def unchanged : Bool := e.call.property.kind.same e.old e.call.value

/-- The notice of the values, if there is one. -/
def valueNotice? : Option (Notice D) :=
  if !e.unchanged && e.call.property.raisesEvent then
    some (.value e.call.property.setting e.old e.call.value)
  else none

/-- Nothing is written and nobody is told. -/
structure Quiet : Prop where
  told : e.seen = []
  after : ∃ es, e.after = e.before.note es

/-- One value is written. Then the handlers of the object are told, first that the property changed and then,
if it raises an event, from what to what; all of them read the new value. -/
structure Loud : Prop where
  told : e.seen.map (fun r => (r.handler, r.notice)) =
    (e.before.hears e.call.object .changed).map (·, .changed e.call.property.name) ++
      if e.call.property.raisesEvent then
        (e.before.hears e.call.object (.value e.call.property.setting)).map
          (·, .value e.call.property.setting e.old e.call.value)
      else []
  written : ∃ report,
    (∀ r ∈ e.seen, ∃ es, r.session.storage =
      ((e.before.storage.note report).set e.call.property.key (.toValue e.call.value)).note es) ∧
    ∃ es, e.after.storage =
      ((e.before.storage.note report).set e.call.property.key (.toValue e.call.value)).note es
  reads : ∀ r ∈ e.seen, r.session.read e.call.property = e.call.value

/-- What a call of a setter does. -/
def Lawful : Prop := if e.unchanged then e.Quiet else e.Loud

end Episode

namespace Session

variable {D : Type} [DocumentType D] {H : Type} (notes : H → Notice D → Session D H → Journal)

/-- A property reads what was written under its key. -/
theorem read_of_written {p : NativeProperty} {s : Session D H} {t : Storage} {es : Journal}
    {v : p.kind.Carrier} (h : s.storage = (t.set p.key (.toValue v)).note es) : s.read p = v := by
  have found : s.storage.find? p.key = some (.toValue v) := by
    rw [h, Storage.find?_note, Storage.find?_set]
    simp
  show ((s.storage.find? p.key).bind (SettingValue.ofValue? p.kind)).getD p.default = v
  simp [found]

/-- A property does not read what was written under another key. -/
theorem read_of_written_ne {p : NativeProperty} {s s' : Session D H} {report es : Journal} {key : String}
    {v : SettingValue} (h : s'.storage = ((s.storage.note report).set key v).note es) (apart : key ≠ p.key) :
    s'.read p = s.read p := by
  have found : s'.storage.find? p.key = s.storage.find? p.key := by
    rw [h, Storage.find?_note, Storage.find?_set, Storage.find?_note]
    simp [apart]
  show ((s'.storage.find? p.key).bind (SettingValue.ofValue? p.kind)).getD p.default = _
  rw [found]
  rfl

/-- A call leaves the session but for reports, or it writes and tells. -/
theorem perform_cases (s : Session D H) (c : SetCall) :
    ((s.perform notes c).unchanged = true ∧ ∃ es, s.perform notes c = ⟨c, s, [], s.note es⟩) ∨
      ((s.perform notes c).unchanged = false ∧ ∃ s' seen, s.perform notes c = ⟨c, s, seen, s'⟩ ∧
        s.Written c.object c.property.setting c.value s' seen) := by
  cases same : (s.perform notes c).unchanged with
  | true =>
    have equal : c.property.setting.type.unchanged (s.value c.property.setting) c.value = true := same
    obtain ⟨es, ran⟩ := set_unchanged_observed notes c.object equal []
    exact .inl ⟨rfl, es, by simp only [perform, ran]⟩
  | false =>
    have equal : c.property.setting.type.unchanged (s.value c.property.setting) c.value = false := same
    obtain ⟨s', seen, ran, written⟩ := set_changed_observed notes c.object equal []
    exact .inr ⟨rfl, s', seen, by simp only [perform, ran, List.nil_append], written⟩

/-- What one call does, to the store and to the handlers. -/
theorem episode_law (s : Session D H) (c : SetCall) : (s.perform notes c).Lawful := by
  rcases perform_cases notes s c with ⟨same, es, made⟩ | ⟨changed, s', seen, made, written⟩
  · rw [Episode.Lawful, if_pos same, made]
    exact ⟨rfl, es, rfl⟩
  · rw [Episode.Lawful, if_neg (by simp [changed]), made]
    obtain ⟨report, during, after⟩ := written.storage
    refine ⟨written.notices, ⟨report, during, after⟩, fun r hr => ?_⟩
    obtain ⟨es, storage⟩ := during r hr
    exact read_of_written storage

/-- No setter changes who is told. -/
theorem hears_set (s : Session D H) (c : SetCall) (i : Nat) (ch : Channel D) :
    (s.perform notes c).after.hears i ch = s.hears i ch := by
  rcases perform_cases notes s c with ⟨-, es, made⟩ | ⟨-, s', seen, made, written⟩
  · rw [made]
    exact hears_congr (objects_note s es) i ch
  · have objects := written.objects
    rw [made]
    split at objects
    · exact (hears_congr objects i ch).trans (hears_event s c.object i c.property.setting ch)
    · exact hears_congr objects i ch

/-- What a property reads after a call of its own setter. -/
theorem read_perform_self (s : Session D H) (c : SetCall) :
    (s.perform notes c).after.read c.property =
      if (s.perform notes c).unchanged then s.read c.property else c.value := by
  rcases perform_cases notes s c with ⟨same, es, made⟩ | ⟨changed, s', seen, made, written⟩
  · rw [if_pos same, made]
    rfl
  · rw [if_neg (by simp [changed]), made]
    obtain ⟨report, -, es, storage⟩ := written.storage
    exact read_of_written storage

/-- A property reads the same after a call under another key. -/
theorem read_perform_of_ne (s : Session D H) (c : SetCall) {p : NativeProperty} (apart : c.property.key ≠ p.key) :
    (s.perform notes c).after.read p = s.read p := by
  rcases perform_cases notes s c with ⟨-, es, made⟩ | ⟨-, s', seen, made, written⟩
  · rw [made]
    rfl
  · rw [made]
    obtain ⟨report, -, es, storage⟩ := written.storage
    exact read_of_written_ne storage apart

/-! ## Runs -/

theorem hears_episodes {s : Session D H} {cs : List SetCall} {e : Episode D H} (he : e ∈ s.episodes notes cs)
    (i : Nat) (ch : Channel D) : e.before.hears i ch = s.hears i ch := by
  induction cs generalizing s with
  | nil => cases he
  | cons c cs ih =>
    rcases List.mem_cons.1 he with rfl | he
    · rfl
    · exact (ih he).trans (hears_set notes s c i ch)

theorem lawful_episodes {s : Session D H} {cs : List SetCall} {e : Episode D H} (he : e ∈ s.episodes notes cs) :
    e.Lawful := by
  induction cs generalizing s with
  | nil => cases he
  | cons c cs ih =>
    rcases List.mem_cons.1 he with rfl | he
    · exact episode_law notes s c
    · exact ih he

theorem call_episodes (s : Session D H) (cs : List SetCall) : (s.episodes notes cs).map (·.call) = cs := by
  induction cs generalizing s with
  | nil => rfl
  | cons c cs ih => exact congrArg (c :: ·) (ih _)

end Session

section

variable {D : Type} [DocumentType D] {H : Type}

/-- Whether a notice of values starts where another ends. -/
def Notice.Continues (n n' : Notice D) : Prop :=
  ∃ (x : Setting D) (a b c : x.type.Carrier), n = .value x a b ∧ n' = .value x b c

/-- The notices of values that a run raises under a key. -/
def Episode.notices (key : String) (es : List (Episode D H)) : List (Notice D) :=
  (es.filter (·.call.property.key == key)).filterMap valueNotice?

end

namespace Session

variable {D : Type} [DocumentType D] {H : Type} (notes : H → Notice D → Session D H → Journal)

theorem valueNotice?_perform (s : Session D H) (c : SetCall) : (s.perform notes c).valueNotice? =
    if !(s.perform notes c).unchanged && c.property.raisesEvent then
      some (.value c.property.setting (s.read c.property) c.value)
    else none := rfl

theorem notices_cons (key : String) (s : Session D H) (c : SetCall) (cs : List SetCall) :
    Episode.notices key (s.episodes notes (c :: cs)) =
      (if c.property.key == key then (s.perform notes c).valueNotice?.toList else []) ++
        Episode.notices key ((s.perform notes c).after.episodes notes cs) := by
  have call : (s.perform notes c).call = c := rfl
  simp only [Episode.notices, episodes, List.filter_cons, call]
  split
  · cases h : (s.perform notes c).valueNotice? <;> simp [h]
  · rfl

/-- The notices of a property whose key no other property writes, behind one that ends with what it reads. -/
theorem isChain_notices {p : NativeProperty} {cs : List SetCall}
    (only : ∀ c ∈ cs, c.property.key = p.key → c.property = p) {s : Session D H} (last : Option (Notice D))
    (reads : ∀ n ∈ last, p.raisesEvent = true ∧ ∃ a, n = .value p.setting a (s.read p)) :
    List.IsChain Notice.Continues (last.toList ++ Episode.notices p.key (s.episodes notes cs)) := by
  induction cs generalizing s last with
  | nil => cases last <;> simp [episodes, Episode.notices]
  | cons c cs ih =>
    have rest := fun d hd => only d (List.mem_cons_of_mem c hd)
    rw [notices_cons]
    by_cases key : c.property.key = p.key
    · obtain rfl := only c List.mem_cons_self key
      have after := read_perform_self notes s c
      rw [if_pos (by simp), valueNotice?_perform]
      cases same : (s.perform notes c).unchanged with
      | true =>
        -- nothing was raised, and the property reads what it read before
        rw [if_pos same] at after
        exact ih rest last fun n hn => after ▸ reads n hn
      | false =>
        rw [if_neg (by simp [same])] at after
        cases raises : c.property.raisesEvent with
        | false =>
          obtain rfl : last = none := Option.eq_none_iff_forall_not_mem.2 fun n hn => by
            simpa [raises] using (reads n hn).1
          exact ih rest none fun n hn => nomatch hn
        | true =>
          -- the new notice starts with what the property read, and ends with what it reads now
          have tail := ih rest (some (.value c.property.setting (s.read c.property) c.value))
            fun n hn => ⟨raises, s.read c.property, by rw [after]; cases hn; rfl⟩
          cases last with
          | none => exact tail
          | some m =>
            obtain ⟨-, a, ends⟩ := reads m rfl
            exact .cons_cons ⟨_, a, _, _, ends, rfl⟩ tail
    · rw [if_neg (by simpa using key)]
      exact ih rest last fun n hn => read_perform_of_ne notes s c key ▸ reads n hn

/-- In a table with distinct keys, a property that is set through one object is the only one with its key. -/
theorem property_eq_of_key {s : Session D H} {cs : List SetCall}
    (own : ∀ c ∈ cs, ∃ o, s.objects[c.object]? = some o ∧ c.property.setting ∈ o.settings)
    (distinct : ∀ o ∈ s.objects, (o.settings.map (·.key)).Nodup) {c d : SetCall} (hc : c ∈ cs) (hd : d ∈ cs)
    (object : c.object = d.object) (key : c.property.key = d.property.key) : c.property = d.property := by
  obtain ⟨o, ho, there⟩ := own c hc
  obtain ⟨o', ho', there'⟩ := own d hd
  obtain rfl : o = o' := Option.some.inj (ho.symm.trans (object ▸ ho'))
  have same := List.inj_on_of_nodup_map (distinct o (List.mem_of_getElem? ho)) there there' key
  exact NativeProperty.setting_injective same

/-- Every call of a run of setters obeys the law, with the handlers that the objects have at the start. The
notices of values under a key that is written through one object only form a chain. -/
theorem setters_run (s : Session D H) (calls : List SetCall)
    (own : ∀ c ∈ calls, ∃ o, s.objects[c.object]? = some o ∧ c.property.setting ∈ o.settings)
    (distinct : ∀ o ∈ s.objects, (o.settings.map (·.key)).Nodup) :
    (s.episodes notes calls).map (·.call) = calls ∧
      (∀ e ∈ s.episodes notes calls, e.Lawful ∧ ∀ i ch, e.before.hears i ch = s.hears i ch) ∧
      ∀ i key, (∀ c ∈ calls, c.property.key = key → c.object = i) →
        List.IsChain Notice.Continues (Episode.notices key (s.episodes notes calls)) := by
  refine ⟨call_episodes notes s calls, fun e he => ⟨lawful_episodes notes he, hears_episodes notes he⟩, ?_⟩
  intro i key single
  by_cases written : ∃ c ∈ calls, c.property.key = key
  · obtain ⟨c, hc, rfl⟩ := written
    refine isChain_notices notes (fun d hd same => ?_) none (fun n hn => nomatch hn)
    have object : d.object = c.object := (single d hd same).trans (single c hc rfl).symm
    exact property_eq_of_key own distinct hd hc object same
  · have silent : Episode.notices key (s.episodes notes calls) = [] := by
      have unwritten : ∀ e ∈ s.episodes notes calls, ¬(e.call.property.key == key) = true := by
        intro e he same
        have call : e.call ∈ calls := call_episodes notes s calls ▸ List.mem_map_of_mem he
        exact written ⟨e.call, call, by simpa using same⟩
      rw [Episode.notices, List.filter_eq_nil_iff.2 unwritten]
      rfl
    rw [silent]
    exact .nil

/-- Two objects with a volume and a title: the volume is set through the first, the second time to what it is
already, and the title through the second. -/
theorem setters_run_twoObjects :
    let volume : NativeProperty := ⟨"Volume", "volume", true, .i32, "i32", (3 : Int32)⟩
    let title : NativeProperty := ⟨"Title", "title", false, .string, "String", "untitled"⟩
    let s : Session JsonType Nat := .new (.memory .empty) 2 [volume.setting, title.setting] false
    let s' := ((s.subscribe 0 .changed 1).1.subscribe 0 (.value volume.setting) 2).1
    let es := s'.episodes (fun _ _ _ => [])
      [⟨0, volume, (5 : Int32)⟩, ⟨1, title, "report"⟩, ⟨0, volume, (5 : Int32)⟩, ⟨0, volume, (9 : Int32)⟩]
    (∀ e ∈ es, e.Lawful) ∧ List.IsChain Notice.Continues (Episode.notices "volume" es) ∧
      es.map (fun e => e.seen.map (·.handler)) = [[1, 2], [], [], [1, 2]] := by
  intro volume title s s' es
  have run := setters_run (fun _ _ _ => []) s'
    [⟨0, volume, (5 : Int32)⟩, ⟨1, title, "report"⟩, ⟨0, volume, (5 : Int32)⟩, ⟨0, volume, (9 : Int32)⟩] ?_ ?_
  · obtain ⟨-, laws, chains⟩ := run
    refine ⟨fun e he => (laws e he).1, chains 0 "volume" ?_, by decide +kernel⟩
    simp [volume, title]
  · have first : (volume.setting : Setting JsonType) ∈ [volume.setting, title.setting] := by simp
    have second : (title.setting : Setting JsonType) ∈ [volume.setting, title.setting] := by simp
    simp only [List.mem_cons, List.not_mem_nil, or_false, forall_eq_or_imp, forall_eq]
    exact ⟨⟨_, rfl, first⟩, ⟨_, rfl, second⟩, ⟨_, rfl, first⟩, ⟨_, rfl, first⟩⟩
  · intro o ho
    have settings : o.settings = [volume.setting, title.setting] := by
      have both : s'.objects.map (·.settings) =
          [[volume.setting, title.setting], [volume.setting, title.setting]] := rfl
      have there := both ▸ List.mem_map_of_mem ho
      simpa using there
    rw [settings]
    decide

end Session

end LiveSettings
