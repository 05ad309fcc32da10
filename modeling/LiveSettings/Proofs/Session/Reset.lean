import LiveSettings.Access.JsonType
import LiveSettings.Proofs.Accessors.UnitNames
import LiveSettings.Proofs.Session.Observer

/-!
# Settings that were reset

The accessors that are written for a type read the keys that the table of the type lists. A reset goes through the
table and takes these keys away, so each getter then gives the default. What else lies in the store stays, and no
handler is told.

Results:
* `keys_rows`: the table lists the keys of the accessors.
* `served_of_describes`: the accessors of a type serve the settings of its properties.
* `Storage.entries_removeAll`: what is left in a store.
* `reset_gives_defaults`: a reset of an object with the accessors of a type.
-/

namespace LiveSettings

/-! ## Keys -/

namespace Storage

/-- Takes keys away, one after the other. -/
def removeAll (s : Storage) (keys : List String) : Storage := keys.foldl remove s

theorem entries_remove (s : Storage) (key : String) : (s.remove key).entries = s.entries.erase key := by
  unfold remove
  split
  · rw [entries_persist, entries_withEntries]
  · rename_i missing
    have absent : s.entries.contains key = false := Bool.not_eq_true _ ▸ missing
    exact (KeyMap.erase_of_not_contains absent).symm

/-- All other entries stay, in their order. -/
theorem entries_removeAll (s : Storage) (keys : List String) :
    (s.removeAll keys).entries.entries = s.entries.entries.filter (·.1 ∉ keys) := by
  induction keys generalizing s with
  | nil => simp [removeAll]
  | cons key keys ih =>
    have later := ih (s.remove key)
    rw [entries_remove, KeyMap.erase, List.filter_filter] at later
    refine later.trans (List.filter_congr fun e _ => ?_)
    rw [Bool.eq_iff_iff]
    simp [and_comm]

theorem find?_removeAll (s : Storage) (keys : List String) (key : String) :
    (s.removeAll keys).find? key = if key ∈ keys then none else s.find? key := by
  induction keys generalizing s with
  | nil => simp [removeAll]
  | cons first keys ih =>
    have later := ih (s.remove first)
    rw [find?_remove] at later
    refine later.trans ?_
    by_cases same : first = key
    · simp [same]
    · simp [same, Ne.symm same]

end Storage

namespace Accessors

variable {D : Type} [DocumentType D]

/-- A setting that the accessors of a property read and write. -/
structure Group.Serves (g : Group) (x : Setting D) : Prop where
  name : x.name = g.name
  key : x.key = g.key
  raisesEvent : x.raisesEvent = g.raisesEvent
  access : accessFor x.strategy x.isNullable = g.access

/-- The table lists the keys of the accessors. -/
theorem keys_rows {e : Emitted} {ps : List Property} (described : e.Describes ps) :
    e.rows.map (·.key) = e.groups.map (·.key) := by
  have keys (ps : List Property) (gs : List Group) (groups : ps.map groupOf = gs.map .ok) :
      ps.map (·.storageKey) = gs.map (·.key) := by
    induction ps generalizing gs with
    | nil =>
      obtain rfl := List.map_eq_nil_iff.1 groups.symm
      rfl
    | cons p ps ih =>
      obtain - | ⟨g, gs⟩ := gs
      · cases groups
      obtain ⟨first, rest⟩ := List.cons.inj groups
      obtain ⟨-, -, -, -, same⟩ := groupOf_ok first
      rw [List.map_cons, List.map_cons, ih gs rest, same.key]
  rw [described.rows, List.map_map]
  exact keys ps e.groups described.groups

/-- A setting with the name, key, event, strategy and optionality of a property. -/
def SameSetting (p : Property) (x : Setting D) : Prop :=
  (x.name, x.key, x.raisesEvent, x.strategy, x.isNullable) =
    (p.name, p.storageKey, p.raiseEvent, p.strategy, p.type.nullable)

instance (p : Property) (x : Setting D) : Decidable (SameSetting p x) := inferInstanceAs (Decidable (_ = _))

theorem serves_of_groupOf {p : Property} {g : Group} (h : groupOf p = .ok g) {x : Setting D} (same : SameSetting p x) :
    g.Serves x := by
  obtain ⟨-, -, -, access, those⟩ := groupOf_ok h
  simp only [SameSetting, Prod.mk.injEq] at same
  obtain ⟨name, key, raisesEvent, strategy, nullable⟩ := same
  exact ⟨name.trans those.name.symm, key.trans those.key.symm, raisesEvent.trans those.raisesEvent.symm,
    by rw [strategy, nullable, access]⟩

/-- The accessors of a type serve the settings of its properties. -/
theorem served_of_describes {e : Emitted} {ps : List Property} {xs : List (Setting D)} (described : e.Describes ps)
    (same : List.Forall₂ SameSetting ps xs) : List.Forall₂ Group.Serves e.groups xs := by
  obtain ⟨-, groups⟩ := described
  generalize e.groups = gs at groups ⊢
  induction same generalizing gs with
  | nil =>
    obtain rfl := List.map_eq_nil_iff.1 groups.symm
    exact .nil
  | cons first _ ih =>
    obtain - | ⟨g, gs⟩ := gs
    · cases groups
    obtain ⟨made, rest⟩ := List.cons.inj groups
    exact .cons (serves_of_groupOf made first) (ih gs rest)

theorem keys_served {gs : List Group} {xs : List (Setting D)} (served : List.Forall₂ Group.Serves gs xs) :
    gs.map (·.key) = xs.map (·.key) := by
  induction served with
  | nil => rfl
  | cons first _ ih => rw [List.map_cons, List.map_cons, ih, first.key]

end Accessors

namespace Session

open Accessors

variable {D : Type} [DocumentType D] {H : Type} {m : Type → Type} [Monad m]

/-- Goes through a table and takes away each of its keys. -/
def resetRows (rows : List Row) : StateT (Session D H) m Unit :=
  forM rows fun r => modify fun s => { s with storage := s.storage.remove r.key }

theorem resetRows_eq [LawfulMonad m] (rows : List Row) (s : Session D H) :
    (resetRows rows : StateT (Session D H) m Unit) s =
      pure ((), { s with storage := s.storage.removeAll (rows.map (·.key)) }) := by
  induction rows generalizing s with
  | nil => rfl
  | cons r rows ih =>
    have later := ih { s with storage := s.storage.remove r.key }
    rw [resetRows, List.forM_cons]
    exact (pure_bind _ _).trans later

/-- A reset goes through the keys of the accessors. -/
theorem reset_eq {s : Session D H} {i : Nat} {o : SettingsObject D H} (own : s.objects[i]? = some o) :
    s.reset i = { s with storage := s.storage.removeAll (o.settings.map (·.key)) } := by
  simp only [reset, own, Storage.removeAll, List.foldl_map]

/-- An object with the accessors that are written for a type is reset by going through the table. -/
theorem reset_gives_defaults {t : Target} {ps : List Property} {e : Emitted} (written : emit t ps = .ok (some e))
    {s : Session D H} {i : Nat} {o : SettingsObject D H} (own : s.objects[i]? = some o)
    (served : List.Forall₂ Group.Serves e.groups o.settings) :
    (s.reset i).storage.entries.entries = s.storage.entries.entries.filter (·.1 ∉ e.rows.map (·.key)) ∧
      (∀ x ∈ o.settings, (s.reset i).value x = x.default) ∧
      (s.reset i).objects = s.objects ∧
      ∀ log, (resetRows e.rows : Recorded D H Unit) s log = (((), s.reset i), log) := by
  obtain ⟨-, -, -, -, -, described⟩ := emit_ok written
  have keys : e.rows.map (·.key) = o.settings.map (·.key) := (keys_rows described).trans (keys_served served)
  have after := reset_eq own
  rw [← keys] at after
  refine ⟨?_, fun x mem => ?_, ?_, fun log => ?_⟩
  · rw [after]
    exact Storage.entries_removeAll _ _
  · have missing : (s.reset i).storage.find? x.key = none := by
      rw [after, Storage.find?_removeAll, keys, if_pos (List.mem_map_of_mem mem)]
    rw [value_eq, missing, SettingType.read_missing]
  · rw [after]
  · rw [resetRows_eq, after]
    rfl

/-- Two settings, one of which may be absent and is kept under a key of its own, in a store with other content. -/
theorem reset_gives_defaults_window :
    let window : Target := ⟨⟨["app"], "Window"⟩, "Window", ⟨[], false, []⟩, [], .module, some "context"⟩
    let width : Property := ⟨"width", ⟨.named ["i32"], .named ["i32"], false⟩, window.id, none, none, true, none⟩
    let title : Property := ⟨"title", ⟨.path false [.mk "Option" (.angle false [.ty (.named ["String"])] false)],
      .named ["String"], true⟩, window.id, none, some "caption", false, some .json⟩
    let x : Setting JsonType := ⟨"Width", "Width", true, .native .i32, "i32", (640 : Int32)⟩
    let y : Setting JsonType := ⟨"Title", "caption", false, .optionalDocument .string, "Option<String>", none⟩
    let s : Session JsonType Nat := .new (.memory (.ofList [("Width", ⟨.i32, (800 : Int32)⟩),
      ("caption", ⟨.string, "null"⟩), ("other", ⟨.bool, true⟩)])) 1 [x, y] false
    ∃ e, emit window [width, title] = .ok (some e) ∧
      (s.reset 0).storage.entries.keys = ["other"] ∧ (s.reset 0).value x = (640 : Int32) ∧
      ∀ log, (resetRows e.rows : Recorded JsonType Nat Unit) s log = (((), s.reset 0), log) := by
  intro window width title x y s
  have usable : ∀ p ∈ [width, title], Usable p := by decide +kernel
  obtain ⟨e, emitted⟩ := exists_emit (t := window) rfl rfl usable
  obtain ⟨-, -, -, -, -, described⟩ := emit_ok emitted
  have served : List.Forall₂ Group.Serves e.groups [x, y] := by
    have same : List.Forall₂ SameSetting [width, title] [x, y] := by decide +kernel
    exact served_of_describes described same
  obtain ⟨left, defaults, -, silent⟩ := reset_gives_defaults emitted (s := s) (i := 0) rfl served
  refine ⟨e, emitted, ?_, defaults x List.mem_cons_self, silent⟩
  rw [KeyMap.keys, left, keys_rows described, keys_served served]
  rfl

end Session

end LiveSettings
