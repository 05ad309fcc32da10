import LiveSettings.Proofs.Store.Document
import Mathlib.Data.List.Forall2

/-!
# A store of a file answers like one in memory

A store is used by calls, one of which drops it and opens its path again. A store of a file that saves every
change is `Kept` if opening its path would give its entries; every call keeps it so, whether it saves or not.

Results:
* `Storage.kept_persist`: a change whose save succeeds is on the disk.
* `Storage.call_kept`: one call of a kept store and of one in memory with the same entries.
* `Storage.run_agrees`: from a path where nothing is, a run of calls is answered as in memory, and every
  opening succeeds.

Limitations: a save that fails is only reported, so a run in which one fails is not covered.
-/

namespace LiveSettings

/-- A use of a store by its owner. -/
inductive StoreCall where
  | tryGet (key : String)
  | containsKey (key : String)
  | keys
  | set (key : String) (value : SettingValue)
  | remove (key : String)
  | clear
  /-- Drops the store and opens its path again, for a document in one of the two layouts. -/
  | reopen (pretty : Bool)

/-- What a use of a store returns. -/
inductive StoreAnswer where
  | done
  | value (v : Option SettingValue)
  | flag (b : Bool)
  | keys (ks : List String)

/-- Equal values, the same flag, the same set of keys. -/
def StoreAnswer.Agrees : StoreAnswer → StoreAnswer → Prop
  | .done, .done => True
  | .value none, .value none => True
  | .value (some v), .value (some w) => v.same w = true
  | .flag a, .flag b => a = b
  | .keys ks, .keys ls => ∀ key, key ∈ ks ↔ key ∈ ls
  | _, _ => False

theorem StoreAnswer.Agrees.refl (a : StoreAnswer) : a.Agrees a := by
  cases a with
  | value v =>
    cases v with
    | none => trivial
    | some v => exact v.same_refl
  | done => trivial
  | flag b => rfl
  | keys ks => exact fun _ => Iff.rfl

namespace Storage

/-! ## Calls and runs -/

/-- Drops the store and opens its path again, saving every change. A store in memory stays. -/
def reopenAs (s : Storage) (pretty : Bool) : Except StoreError Storage :=
  match s.store with
  | .memory _ => .ok s
  | .file f =>
    reopen { s with store := .file { f with config := (FileConfig.new f.config.path).withPretty pretty } }

def call (s : Storage) : StoreCall → Except StoreError (Storage × StoreAnswer)
  | .tryGet key => .ok (s, .value (s.find? key))
  | .containsKey key => .ok (s, .flag (s.contains key))
  | .keys => .ok (s, .keys s.keys)
  | .set key v => .ok (s.set key v, .done)
  | .remove key => .ok (s.remove key, .value (s.find? key))
  | .clear => .ok (s.clear, .done)
  | .reopen pretty => (s.reopenAs pretty).map fun s => (s, .done)

/-- The answers to calls; a run ends with the first opening that fails. -/
def run (s : Storage) : List StoreCall → Except StoreError (List StoreAnswer)
  | [] => .ok []
  | c :: cs =>
    match s.call c with
    | .ok (s, a) => (s.run cs).map (a :: ·)
    | .error e => .error e

/-- The entries that a call has to save, if it changes any. -/
def changes? (s : Storage) : StoreCall → Option (KeyMap SettingValue)
  | .set key v => some (s.entries.insert key v)
  | .remove key => if s.contains key then some (s.entries.erase key) else none
  | .clear => some .empty
  | _ => none

/-- Whether every save of a run succeeds. -/
def savesSucceed (s : Storage) : List StoreCall → Bool
  | [] => true
  | c :: cs =>
    ((s.changes? c).all fun es => (s.withEntries es).save.2.isOk) &&
      match s.call c with
      | .ok (s, _) => s.savesSucceed cs
      | .error _ => true

/-! ## One call -/

/-- A store of a file with some entries that opening its path would give. -/
structure Kept (path : FilePath) (s : Storage) (entries : KeyMap SettingValue) : Prop where
  store : ∃ pretty, s.store = .file ⟨(FileConfig.new path).withPretty pretty, entries⟩
  sorted : entries.Sorted
  survive : FileStore.Survive entries
  onDisk : ∀ config, config.path = path → FileStore.openOn config s.disk = .ok ⟨config, entries⟩

variable {path : FilePath} {s m : Storage} {es new : KeyMap SettingValue}

theorem Kept.entries_eq (h : Kept path s es) : s.entries = es := by
  obtain ⟨pretty, store⟩ := h.store
  rw [entries, store]
  rfl

/-- A change whose save succeeds is on the disk. -/
theorem kept_persist (h : Kept path s es) (sorted : new.Sorted) (survive : FileStore.Survive new)
    (saved : (s.withEntries new).save.2.isOk = true) : Kept path (s.withEntries new).persist new := by
  obtain ⟨pretty, store⟩ := h.store
  have changed : (s.withEntries new).store = .file ⟨(FileConfig.new path).withPretty pretty, new⟩ := by
    simp [withEntries, store, Store.withEntries]
  simp only [save, changed] at saved
  simp only [persist, save, changed]
  rw [if_pos (by rfl)]
  split at saved
  · rename_i disk wrote
    refine ⟨⟨pretty, rfl⟩, sorted, survive, fun config hp => ?_⟩
    exact FileStore.openOn_of_save sorted survive wrote hp
  · cases saved

theorem reopenAs_kept (h : Kept path s es) (pretty : Bool) :
    ∃ s', s.reopenAs pretty = .ok s' ∧ Kept path s' es := by
  obtain ⟨before, store⟩ := h.store
  have opened := h.onDisk ((FileConfig.new path).withPretty pretty) rfl
  refine ⟨{ s with store := .file ⟨(FileConfig.new path).withPretty pretty, es⟩ }.report
      (FileStore.openedEntry ⟨(FileConfig.new path).withPretty pretty, es⟩), ?_,
    ⟨pretty, rfl⟩, h.sorted, h.survive, h.onDisk⟩
  simp only [reopenAs, store, reopen]
  rw [show ((FileConfig.new path).withPretty before).path = path from rfl, opened]
  rfl

theorem set_memory (hm : m.store = .memory es) (key : String) (v : SettingValue) :
    (m.set key v).store = .memory (es.insert key v) := by
  simp [set, hm, report, withEntries, persist, Store.withEntries, entries, Store.entries]

theorem remove_memory (hm : m.store = .memory es) (key : String) :
    (m.remove key).store = .memory (if es.contains key then es.erase key else es) := by
  have inside : m.contains key = es.contains key := by simp [contains, entries, hm, Store.entries]
  unfold remove
  split
  · rename_i there
    rw [inside] at there
    simp [there, withEntries, persist, hm, Store.withEntries, entries, Store.entries]
  · rename_i missing
    rw [inside] at missing
    simp [missing, hm]

theorem clear_memory (hm : m.store = .memory es) : m.clear.store = .memory .empty := by
  simp [clear, withEntries, persist, hm, Store.withEntries]

/-- One call of a kept store and of one in memory with the same entries: both give the same answer and have
the same entries again. -/
theorem call_kept (h : Kept path s es) (hm : m.store = .memory es) {c : StoreCall}
    (survives : ∀ key v, c = .set key v → v.Survives)
    (saved : ((s.changes? c).all fun es => (s.withEntries es).save.2.isOk) = true) :
    ∃ s' m' a es', s.call c = .ok (s', a) ∧ m.call c = .ok (m', a) ∧ Kept path s' es' ∧
      m'.store = .memory es' := by
  have here := h.entries_eq
  have there : m.entries = es := by simp [entries, hm, Store.entries]
  cases c with
  | tryGet key => exact ⟨s, m, _, es, rfl, by simp [call, find?, here, there], h, hm⟩
  | containsKey key => exact ⟨s, m, _, es, rfl, by simp [call, contains, here, there], h, hm⟩
  | keys => exact ⟨s, m, _, es, rfl, by simp [call, keys, here, there], h, hm⟩
  | set key v =>
    obtain ⟨pretty, store⟩ := h.store
    have stored : s.set key v = (s.withEntries (es.insert key v)).persist := by
      simp only [set, store, here]
    simp only [changes?, here, Option.all_some] at saved
    refine ⟨_, _, .done, es.insert key v, rfl, rfl, ?_, set_memory hm key v⟩
    rw [stored]
    exact kept_persist h (KeyMap.sorted_insert key v h.sorted)
      (FileStore.survive_insert h.survive key (survives key v rfl)) saved
  | remove key =>
    have answer : m.find? key = s.find? key := by simp [find?, here, there]
    refine ⟨_, _, .value (s.find? key), _, rfl, by simp only [call, answer], ?_, remove_memory hm key⟩
    have inside : s.contains key = es.contains key := by rw [contains, here]
    unfold remove
    cases found : es.contains key with
    | true =>
      rw [found] at inside
      simp only [changes?, inside, here, if_true, Option.all_some] at saved
      simp only [inside, here, if_true]
      exact kept_persist h (KeyMap.sorted_erase key h.sorted) (FileStore.survive_erase h.survive key) saved
    | false =>
      rw [found] at inside
      simp only [inside, Bool.false_eq_true, if_false]
      exact h
  | clear =>
    simp only [changes?, Option.all_some] at saved
    exact ⟨_, _, .done, .empty, rfl, rfl, kept_persist h KeyMap.sorted_empty FileStore.survive_empty saved,
      clear_memory hm⟩
  | reopen pretty =>
    obtain ⟨s', opened, kept⟩ := reopenAs_kept h pretty
    refine ⟨s', m, .done, es, ?_, ?_, kept, hm⟩
    · simp only [call, opened, Except.map]
    · simp only [call, reopenAs, hm, Except.map]

/-! ## Whole runs -/

theorem run_kept {cs : List StoreCall} (h : Kept path s es) (hm : m.store = .memory es)
    (survive : ∀ key v, .set key v ∈ cs → v.Survives) (saved : s.savesSucceed cs = true) :
    ∃ as, s.run cs = .ok as ∧ m.run cs = .ok as := by
  induction cs generalizing s m es with
  | nil => exact ⟨[], rfl, rfl⟩
  | cons c cs ih =>
    simp only [savesSucceed, Bool.and_eq_true] at saved
    obtain ⟨now, later⟩ := saved
    have survives : ∀ key v, c = .set key v → v.Survives := fun key v e =>
      survive key v (e ▸ List.mem_cons_self)
    obtain ⟨s', m', a, es', called, called', kept, hm'⟩ := call_kept h hm survives now
    rw [called] at later
    obtain ⟨as, ran, ran'⟩ := ih kept hm' (fun key v hv => survive key v (List.mem_cons_of_mem _ hv)) later
    refine ⟨a :: as, ?_, ?_⟩
    · simp only [run, called, ran, Except.map]
    · simp only [run, called', ran', Except.map]

theorem openFile_missing {config : FileConfig} {d : Disk} (missing : d.readText config.path = .error .notFound) :
    openFile config d = .ok ⟨.file ⟨config, .empty⟩, d, [FileStore.openedEntry ⟨config, .empty⟩]⟩ := by
  rw [openFile, FileStore.openOn_of_missing missing]
  rfl

/-- From a path where nothing is, calls of a store of the file are answered as those of an empty store in
memory, and the path can be opened again at any time. -/
theorem run_agrees (path : FilePath) (pretty : Bool) (d : Disk) (cs : List StoreCall)
    (missing : d.readText path = .error .notFound) (survive : ∀ key v, .set key v ∈ cs → v.Survives)
    (saved : ∀ s, openFile ((FileConfig.new path).withPretty pretty) d = .ok s → s.savesSucceed cs = true) :
    ∃ s as bs, openFile ((FileConfig.new path).withPretty pretty) d = .ok s ∧ s.run cs = .ok as ∧
      (memory .empty).run cs = .ok bs ∧ List.Forall₂ StoreAnswer.Agrees as bs := by
  have opened := @openFile_missing ((FileConfig.new path).withPretty pretty) d missing
  have kept : Kept path ⟨.file ⟨(FileConfig.new path).withPretty pretty, .empty⟩, d,
      [FileStore.openedEntry ⟨(FileConfig.new path).withPretty pretty, .empty⟩]⟩ .empty := by
    refine ⟨⟨pretty, rfl⟩, KeyMap.sorted_empty, FileStore.survive_empty, fun config hp => ?_⟩
    exact FileStore.openOn_of_missing (hp ▸ missing)
  obtain ⟨as, ran, ran'⟩ := run_kept kept (m := memory .empty) rfl survive (saved _ opened)
  exact ⟨_, as, as, opened, ran, ran', List.forall₂_same.2 fun a _ => StoreAnswer.Agrees.refl a⟩

/-- A text is set, kept over an opening, and taken away, with nothing left for the next opening. -/
theorem run_agrees_removed :
    ∃ s as bs, openFile ((FileConfig.new ⟨"a/settings.json"⟩).withPretty true) .empty = .ok s ∧
      s.run [.set "k" (.ofString "x"), .reopen false, .tryGet "k", .remove "j", .remove "k", .reopen true, .keys]
        = .ok as ∧
      (memory .empty).run
        [.set "k" (.ofString "x"), .reopen false, .tryGet "k", .remove "j", .remove "k", .reopen true, .keys]
        = .ok bs ∧ List.Forall₂ StoreAnswer.Agrees as bs := by
  refine run_agrees ⟨"a/settings.json"⟩ true .empty _ (by decide +kernel) ?_ ?_
  · intro key v hv
    simp only [List.mem_cons, StoreCall.set.injEq, reduceCtorEq, List.not_mem_nil, or_false] at hv
    obtain ⟨-, rfl⟩ := hv
    trivial
  · intro s opened
    cases opened
    decide +kernel

end Storage

end LiveSettings
