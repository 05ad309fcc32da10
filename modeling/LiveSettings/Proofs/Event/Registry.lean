import LiveSettings.Context
import Mathlib.Data.List.Induction
import Mathlib.Data.List.Nodup

/-!
# Events that are found again

Events of values are found again by a name and a type. Each lies in a cell of its own, with the type of its values
forgotten by the table and checked again at every request; where the check fails a new event takes the place of the
old one. Here requests are mixed with subscriptions, cancellations and raises at the events that earlier requests
gave, also by handlers while they run: a raise leaves its calls pending, and between two calls anything may be done.

Results:
* `Registry.request_of_sound`: no check ever fails, so a request finds what is there or makes what is not.
* `EventWork.lawful_step`: what one act keeps.
* `EventWork.Mirrors.step`: a context, which keeps its events by value, is used and answers alike.
* `EventWork.registry_run`: what holds over every run, of all events.
-/

namespace LiveSettings

variable {τ H : Type}

/-! ## Events in cells -/

/-- The events of an object as they lie in memory: the general one, those of values in their cells, and the table
that finds the cell of a name and a type. -/
structure Registry (τ H : Type) where
  changed : Event H
  cells : List (TypedEvent τ H)
  table : List ((String × τ) × Nat)

/-- What is held of an event. -/
inductive EventRef where
  | changed
  | cell (n : Nat)
  deriving DecidableEq, Repr

namespace Registry

def empty : Registry τ H := ⟨.empty, [], []⟩

def event (r : Registry τ H) : EventRef → Event H
  | .changed => r.changed
  | .cell n => ((r.cells[n]?).map (·.event)).getD .empty

def change (r : Registry τ H) : EventRef → Event H → Registry τ H
  | .changed, e => { r with changed := e }
  | .cell n, e => { r with cells := r.cells.modify n fun c => { c with event := e } }

/-- Whether every entry leads to a cell of its own, with an event of its type. -/
structure Sound (r : Registry τ H) : Prop where
  typed : ∀ e ∈ r.table, ∃ c, r.cells[e.2]? = some c ∧ c.type = e.1.2
  keys : (r.table.map (·.1)).Nodup
  numbers : (r.table.map (·.2)).Nodup

variable {r : Registry τ H} {key : String × τ} {n : Nat}

theorem sound_empty : (empty : Registry τ H).Sound := ⟨nofun, List.nodup_nil, List.nodup_nil⟩

theorem lt_length (h : r.Sound) {e : (String × τ) × Nat} (mem : e ∈ r.table) : e.2 < r.cells.length := by
  obtain ⟨c, there, -⟩ := h.typed e mem
  exact (List.getElem?_eq_some_iff.1 there).1

/-! Changing one event. -/

theorem table_change (r : Registry τ H) (ref : EventRef) (e : Event H) : (r.change ref e).table = r.table := by
  cases ref <;> rfl

theorem sound_change (h : r.Sound) (ref : EventRef) (e : Event H) : (r.change ref e).Sound := by
  refine ⟨fun entry mem => ?_, by rw [table_change]; exact h.keys, by rw [table_change]; exact h.numbers⟩
  rw [table_change] at mem
  obtain ⟨c, there, typed⟩ := h.typed entry mem
  cases ref with
  | changed => exact ⟨c, there, typed⟩
  | cell n =>
    by_cases same : n = entry.2
    · exact ⟨{ c with event := e }, by simp [change, same, there], typed⟩
    · exact ⟨c, by simp [change, same, there], typed⟩

theorem event_change_self (h : r.Sound) {ref : EventRef} (e : Event H)
    (there : ref = .changed ∨ ∃ entry ∈ r.table, ref = .cell entry.2) : (r.change ref e).event ref = e := by
  rcases there with rfl | ⟨entry, mem, rfl⟩
  · rfl
  · obtain ⟨c, there, -⟩ := h.typed entry mem
    simp [change, event, there]

theorem event_change_other (r : Registry τ H) {ref other : EventRef} (e : Event H) (apart : ref ≠ other) :
    (r.change ref e).event other = r.event other := by
  cases ref with
  | changed =>
    cases other with
    | changed => exact absurd rfl apart
    | cell n => rfl
  | cell n =>
    cases other with
    | changed => rfl
    | cell m =>
      have apart : n ≠ m := fun same => apart (congrArg EventRef.cell same)
      simp [change, event, apart]

/-- Whether an event is the general one, or that of a name and a type. -/
def Finds (r : Registry τ H) : Option (String × τ) → EventRef → Prop
  | none, ref => ref = .changed
  | some key, ref => ∃ n, (key, n) ∈ r.table ∧ ref = .cell n

/-- Events are the same exactly if they are found in the same way. -/
theorem eq_iff_of_finds (h : r.Sound) {through through' : Option (String × τ)} {ref ref' : EventRef}
    (finds : r.Finds through ref) (finds' : r.Finds through' ref') : ref = ref' ↔ through = through' := by
  cases through with
  | none =>
    obtain rfl : ref = .changed := finds
    cases through' with
    | none => exact ⟨fun _ => rfl, fun _ => finds'.symm⟩
    | some key =>
      obtain ⟨n, -, rfl⟩ := finds'
      exact ⟨nofun, nofun⟩
  | some key =>
    obtain ⟨n, mem, rfl⟩ := finds
    cases through' with
    | none =>
      obtain rfl : ref' = .changed := finds'
      exact ⟨nofun, nofun⟩
    | some key' =>
      obtain ⟨m, mem', rfl⟩ := finds'
      constructor
      · intro same
        have entries := List.inj_on_of_nodup_map h.numbers mem mem' (EventRef.cell.inj same)
        exact congrArg some (Prod.mk.inj entries).1
      · intro same
        have entries := List.inj_on_of_nodup_map h.keys mem mem' (Option.some.inj same)
        exact congrArg EventRef.cell (Prod.mk.inj entries).2

/-! ## Requests -/

section

variable [DecidableEq τ]

def lookup (r : Registry τ H) (key : String × τ) : Option Nat := (r.table.find? (·.1 = key)).map (·.2)

/-- Whether a cell holds an event of a type. -/
def holds (r : Registry τ H) (n : Nat) (type : τ) : Bool := (r.cells[n]?).any (·.type = type)

/-- A new event under a key that has none. -/
def enter (r : Registry τ H) (key : String × τ) : Registry τ H × Nat :=
  ({ r with cells := r.cells ++ [⟨key.2, .empty⟩], table := r.table ++ [(key, r.cells.length)] }, r.cells.length)

/-- A new event in the place of that of a key. -/
def replace (r : Registry τ H) (key : String × τ) : Registry τ H × Nat :=
  ({ r with
      cells := r.cells ++ [⟨key.2, .empty⟩]
      table := r.table.map fun e => if e.1 = key then (key, r.cells.length) else e }, r.cells.length)

/-- The event of a name and a type, made on first use. The type is checked when an entry is found, and again of the
entry that there is then. -/
def request (r : Registry τ H) (name : String) (type : τ) : Registry τ H × Nat :=
  match (r.lookup (name, type)).filter (r.holds · type) with
  | some n => (r, n)
  | none =>
    let (r, n) := match r.lookup (name, type) with
      | some n => (r, n)
      | none => r.enter (name, type)
    if r.holds n type then (r, n) else r.replace (name, type)

theorem lookup_eq_some_iff (h : r.Sound) : r.lookup key = some n ↔ (key, n) ∈ r.table := by
  constructor
  · intro found
    obtain ⟨e, there, rfl⟩ := Option.map_eq_some_iff.1 found
    have same : e.1 = key := by simpa using List.find?_some there
    exact same ▸ List.mem_of_find?_eq_some there
  · intro mem
    obtain ⟨e, there⟩ : ∃ e, r.table.find? (·.1 = key) = some e := by
      rw [← Option.isSome_iff_exists, List.find?_isSome]
      exact ⟨_, mem, by simp⟩
    have same : e.1 = key := by simpa using List.find?_some there
    have unique := List.inj_on_of_nodup_map h.keys (List.mem_of_find?_eq_some there) mem same
    rw [lookup, there, unique]
    rfl

theorem holds_of_mem (h : r.Sound) (mem : (key, n) ∈ r.table) : r.holds n key.2 = true := by
  obtain ⟨c, there, typed⟩ := h.typed _ mem
  rw [holds, there]
  simpa using typed

/-- Where every entry leads to an event of its type no check fails: a request gives the event that is there and
changes nothing, or makes one. -/
theorem request_of_sound (h : r.Sound) (name : String) (type : τ) :
    r.request name type = match r.lookup (name, type) with
      | some n => (r, n)
      | none => r.enter (name, type) := by
  unfold request
  cases found : r.lookup (name, type) with
  | some n =>
    have holds := holds_of_mem h ((lookup_eq_some_iff h).1 found)
    simp only [Option.filter_some, holds, if_true]
  | none =>
    have holds : (r.enter (name, type)).1.holds (r.enter (name, type)).2 type = true := by simp [enter, Registry.holds]
    simp only [Option.filter_none, holds, if_true]

theorem not_mem_keys (h : r.Sound) (missing : r.lookup key = none) : key ∉ r.table.map (·.1) := by
  rintro mem
  obtain ⟨e, there, rfl⟩ := List.mem_map.1 mem
  rw [(lookup_eq_some_iff h).2 there] at missing
  cases missing

theorem sound_enter (h : r.Sound) (missing : r.lookup key = none) : (r.enter key).1.Sound := by
  refine ⟨fun e mem => ?_, ?_, ?_⟩
  · rcases List.mem_append.1 mem with old | new
    · obtain ⟨c, there, typed⟩ := h.typed e old
      exact ⟨c, (List.getElem?_append_left (lt_length h old)).trans there, typed⟩
    · rw [List.mem_singleton.1 new]
      exact ⟨⟨key.2, .empty⟩, by simp [enter], rfl⟩
  · simp only [enter, List.map_append, List.map_cons, List.map_nil]
    rw [← List.concat_eq_append, List.nodup_concat]
    exact ⟨not_mem_keys h missing, h.keys⟩
  · simp only [enter, List.map_append, List.map_cons, List.map_nil]
    rw [← List.concat_eq_append, List.nodup_concat]
    refine ⟨fun mem => ?_, h.numbers⟩
    obtain ⟨e, there, same⟩ := List.mem_map.1 mem
    exact absurd same (Nat.ne_of_lt (lt_length h there))

/-- What a request does to a sound registry: nothing, or a new entry with a new event behind the others. -/
theorem request_cases (h : r.Sound) (name : String) (type : τ) :
    ((name, type), (r.request name type).2) ∈ (r.request name type).1.table ∧ (r.request name type).1.Sound ∧
      ((r.request name type).1 = r ∨ r.lookup (name, type) = none ∧ r.request name type = r.enter (name, type)) := by
  rw [request_of_sound h]
  cases found : r.lookup (name, type) with
  | some n => exact ⟨(lookup_eq_some_iff h).1 found, h, .inl rfl⟩
  | none => exact ⟨List.mem_append_right _ (List.mem_singleton.2 rfl), sound_enter h found, .inr ⟨rfl, rfl⟩⟩

/-- A request changes no event. -/
theorem event_request (h : r.Sound) (name : String) (type : τ) (ref : EventRef) :
    (r.request name type).1.event ref = r.event ref := by
  obtain ⟨-, -, same | ⟨-, entered⟩⟩ := request_cases h name type
  · rw [same]
  · rw [entered]
    cases ref with
    | changed => rfl
    | cell n =>
      simp only [event, enter]
      rcases Nat.lt_trichotomy n r.cells.length with old | rfl | beyond
      · rw [List.getElem?_append_left old]
      · simp
      · rw [List.getElem?_eq_none (Nat.le_of_lt beyond), List.getElem?_eq_none (by rw [List.length_append]; exact beyond)]

/-- No entry is taken away or replaced by a request. -/
theorem table_request (h : r.Sound) (name : String) (type : τ) : r.table <+: (r.request name type).1.table := by
  obtain ⟨-, -, same | ⟨-, entered⟩⟩ := request_cases h name type
  · simp [same]
  · rw [entered]
    exact List.prefix_append _ _

end

end Registry

/-! ## Acts -/

/-- A way of keeping the events of an object. -/
structure Keeping (σ ρ τ H : Type) where
  start : σ
  request : σ → String → τ → σ × ρ
  general : ρ
  event : σ → ρ → Event H
  change : σ → ρ → Event H → σ

/-- What is done to the events of an object: one is asked for, or something is done to one that was given by an
earlier request, or to the general one; or the next call is made that a raise has left. -/
inductive Act (τ H : Type) where
  | request (name : String) (type : τ)
  | subscribe (on : Option Nat) (h : H)
  | unsubscribe (on : Option Nat) (id : SubscriptionId)
  | raise (on : Option Nat)
  | call

/-- A call of a handler: the name and type of the event, the subscription, and the handler. -/
structure HandlerCall (τ H : Type) where
  through : Option (String × τ)
  id : SubscriptionId
  handler : H

/-- What happened at the events. -/
inductive Happening (τ H : Type) where
  | requested (key : String × τ)
  | subscribed (c : HandlerCall τ H)
  | unsubscribed (through : Option (String × τ)) (id : SubscriptionId) (found : Bool)
  | raised (through : Option (String × τ))
  | called (c : HandlerCall τ H)

/-- Events at work: what requests gave, the calls that raises have left, the innermost first, and all that
happened. -/
structure EventWork (σ ρ τ H : Type) where
  state : σ
  given : List ((String × τ) × ρ)
  pending : List (HandlerCall τ H)
  past : List (Happening τ H)

namespace EventWork

section

variable {σ ρ : Type} (k : Keeping σ ρ τ H)

def start : EventWork σ ρ τ H := ⟨k.start, [], [], []⟩

/-- The event that is meant, with its name and type. -/
def find? (w : EventWork σ ρ τ H) : Option Nat → Option (Option (String × τ) × ρ)
  | none => some (none, k.general)
  | some n => w.given[n]?.map fun g => (some g.1, g.2)

def step (w : EventWork σ ρ τ H) : Act τ H → EventWork σ ρ τ H
  | .request name type =>
    let (state, ref) := k.request w.state name type
    { w with state, given := w.given ++ [((name, type), ref)], past := w.past ++ [.requested (name, type)] }
  | .subscribe on h =>
    match w.find? k on with
    | none => w
    | some (through, ref) =>
      let (e, id) := (k.event w.state ref).subscribe h
      { w with state := k.change w.state ref e, past := w.past ++ [.subscribed ⟨through, id, h⟩] }
  | .unsubscribe on id =>
    match w.find? k on with
    | none => w
    | some (through, ref) =>
      let (e, found) := (k.event w.state ref).unsubscribe id
      { w with state := k.change w.state ref e, past := w.past ++ [.unsubscribed through id found] }
  | .raise on =>
    match w.find? k on with
    | none => w
    | some (through, ref) =>
      let calls := (k.event w.state ref).handlers.map fun s => ⟨through, s.1, s.2⟩
      { w with pending := calls ++ w.pending, past := w.past ++ [.raised through] }
  | .call =>
    match w.pending with
    | [] => w
    | c :: rest => { w with pending := rest, past := w.past ++ [.called c] }

def run (acts : List (Act τ H)) : EventWork σ ρ τ H := acts.foldl (step k) (start k)

theorem run_concat (acts : List (Act τ H)) (a : Act τ H) : run k (acts ++ [a]) = (run k acts).step k a := by
  rw [run, List.foldl_append]
  rfl

end

/-- Whether a call was left by a raise of the event that its handler was subscribed through. -/
def Due (past : List (Happening τ H)) (c : HandlerCall τ H) : Prop :=
  ∃ before after, past = before ++ .raised c.through :: after ∧ .subscribed c ∈ before

theorem Due.concat {past : List (Happening τ H)} {c : HandlerCall τ H} (h : Due past c) (d : Happening τ H) :
    Due (past ++ [d]) c := by
  obtain ⟨before, after, rfl, mem⟩ := h
  exact ⟨before, after ++ [d], by simp, mem⟩

/-- The calls so far, after one more thing that is no call. -/
theorem calls_concat {past : List (Happening τ H)} {d : Happening τ H}
    (calls : ∀ earlier c later, past = earlier ++ .called c :: later → Due earlier c)
    (last : ∀ c, d = .called c → Due past c) :
    ∀ earlier c later, past ++ [d] = earlier ++ .called c :: later → Due earlier c := by
  intro earlier c later split
  rcases List.eq_nil_or_concat later with rfl | ⟨rest, final, rfl⟩
  · obtain ⟨rfl, same⟩ := List.append_inj' split rfl
    exact last c (List.singleton_inj.1 same)
  · rw [List.concat_eq_append, ← List.cons_append, ← List.append_assoc] at split
    exact calls earlier c rest (List.append_inj' split rfl).1

end EventWork

/-! ## What is kept -/

variable [DecidableEq τ]

/-- The events in cells. -/
def Registry.keeping : Keeping (Registry τ H) EventRef τ H where
  start := .empty
  request r name type := ((r.request name type).1, .cell (r.request name type).2)
  general := .changed
  event := Registry.event
  change := Registry.change

/-- The handlers of an event after something happened. -/
def Happening.apply (d : Happening τ H) (through : Option (String × τ)) (hs : List (SubscriptionId × H)) :
    List (SubscriptionId × H) :=
  match d with
  | .subscribed c => if c.through = through then hs ++ [(c.id, c.handler)] else hs
  | .unsubscribed other id _ => if other = through then hs.filter (·.1 != id) else hs
  | _ => hs

/-- The handlers that were subscribed through an event, in order, without those that were cancelled through it. -/
def replay (through : Option (String × τ)) (past : List (Happening τ H)) : List (SubscriptionId × H) :=
  past.foldl (fun hs d => d.apply through hs) []

theorem replay_concat (through : Option (String × τ)) (past : List (Happening τ H)) (d : Happening τ H) :
    replay through (past ++ [d]) = d.apply through (replay through past) := by
  rw [replay, List.foldl_append]
  rfl

namespace EventWork

/-- What is known of events at work. -/
structure Lawful (w : EventWork (Registry τ H) EventRef τ H) : Prop where
  sound : w.state.Sound
  given : ∀ g ∈ w.given, w.state.Finds (some g.1) g.2
  handlers : ∀ through ref, w.state.Finds through ref → (w.state.event ref).handlers = replay through w.past
  fresh : ∀ key, key ∉ w.state.table.map (·.1) → replay (some key) w.past = []
  pending : ∀ c ∈ w.pending, Due w.past c
  calls : ∀ earlier c later, w.past = earlier ++ .called c :: later → Due earlier c

theorem lawful_start : Lawful (start (Registry.keeping : Keeping _ _ τ H)) := by
  refine ⟨Registry.sound_empty, nofun, ?_, fun _ _ => rfl, nofun, ?_⟩
  · rintro (- | key) ref finds
    · obtain rfl : ref = .changed := finds
      rfl
    · obtain ⟨n, mem, -⟩ := finds
      cases mem
  · intro earlier c later split
    cases earlier <;> cases split

section

variable {w : EventWork (Registry τ H) EventRef τ H}

theorem finds_of_find? (h : Lawful w) {on : Option Nat} {through : Option (String × τ)} {ref : EventRef}
    (found : w.find? Registry.keeping on = some (through, ref)) : w.state.Finds through ref := by
  cases on with
  | none =>
    cases found
    rfl
  | some n =>
    obtain ⟨g, there, same⟩ := Option.map_eq_some_iff.1 found
    cases same
    exact h.given g (List.mem_of_getElem? there)

/-- The live handlers of an event were subscribed through it. -/
theorem subscribed_of_mem_replay {through : Option (String × τ)} {past : List (Happening τ H)}
    {s : SubscriptionId × H} (mem : s ∈ replay through past) : .subscribed ⟨through, s.1, s.2⟩ ∈ past := by
  induction past using List.reverseRecOn with
  | nil => cases mem
  | append_singleton past d ih =>
    rw [replay_concat] at mem
    have earlier (old : s ∈ replay through past) : .subscribed ⟨through, s.1, s.2⟩ ∈ past ++ [d] :=
      List.mem_append_left _ (ih old)
    cases d with
    | subscribed c =>
      simp only [Happening.apply] at mem
      split at mem
      · rename_i same
        rcases List.mem_append.1 mem with old | new
        · exact earlier old
        · rw [List.mem_singleton.1 new, ← same]
          exact List.mem_append_right _ List.mem_cons_self
      · exact earlier mem
    | unsubscribed other id found =>
      simp only [Happening.apply] at mem
      split at mem
      · exact earlier (List.mem_filter.1 mem).1
      · exact earlier mem
    | requested key => exact earlier mem
    | raised other => exact earlier mem
    | called c => exact earlier mem

/-- Changing one event, in the way that it is recorded. -/
theorem lawful_change (h : Lawful w) {through : Option (String × τ)} {ref : EventRef} {e : Event H}
    {d : Happening τ H} (finds : w.state.Finds through ref)
    (mine : e.handlers = d.apply through (w.state.event ref).handlers)
    (others : ∀ other hs, other ≠ through → d.apply other hs = hs) (quiet : ∀ c, d ≠ .called c) :
    Lawful { w with state := w.state.change ref e, past := w.past ++ [d] } := by
  have table := w.state.table_change ref e
  have same {other : Option (String × τ)} {ref' : EventRef} :
      (w.state.change ref e).Finds other ref' ↔ w.state.Finds other ref' := by
    cases other <;> simp only [Registry.Finds, table]
  refine ⟨Registry.sound_change h.sound ref e, fun g mem => same.2 (h.given g mem), fun other ref' there => ?_,
    fun key missing => ?_, fun c mem => (h.pending c mem).concat d,
    calls_concat h.calls fun c called => absurd called (quiet c)⟩
  · have there := same.1 there
    rw [replay_concat, ← h.handlers other ref' there]
    by_cases here : other = through
    · subst here
      obtain rfl := (Registry.eq_iff_of_finds h.sound there finds).2 rfl
      have known : ref' = .changed ∨ ∃ entry ∈ w.state.table, ref' = .cell entry.2 := by
        cases other with
        | none => exact .inl there
        | some key =>
          obtain ⟨n, mem, rfl⟩ := there
          exact .inr ⟨_, mem, rfl⟩
      simp only [Registry.event_change_self h.sound e known, mine]
    · have apart : ref ≠ ref' := fun equal =>
        here ((Registry.eq_iff_of_finds h.sound finds there).1 equal).symm
      simp only [Registry.event_change_other w.state e apart, others other _ here]
  · rw [table] at missing
    have apart : some key ≠ through := by
      rintro rfl
      obtain ⟨n, mem, -⟩ := finds
      exact missing (List.mem_map_of_mem mem)
    rw [replay_concat, h.fresh key missing, others _ _ apart]

/-- Something that changes no event. -/
theorem lawful_quiet (h : Lawful w) {d : Happening τ H} (leaves : ∀ through hs, d.apply through hs = hs)
    {pending : List (HandlerCall τ H)} (due : ∀ c ∈ pending, Due (w.past ++ [d]) c)
    (last : ∀ c, d = .called c → Due w.past c) :
    Lawful { w with pending, past := w.past ++ [d] } := by
  refine ⟨h.sound, h.given, fun through ref finds => ?_, fun key missing => ?_, due, calls_concat h.calls last⟩
  · rw [replay_concat, leaves]
    exact h.handlers through ref finds
  · rw [replay_concat, leaves]
    exact h.fresh key missing

theorem lawful_request (h : Lawful w) (name : String) (type : τ) :
    Lawful (w.step Registry.keeping (.request name type)) := by
  obtain ⟨there, sound, cases⟩ := Registry.request_cases h.sound name type
  have kept := (Registry.table_request h.sound name type).subset
  have leaves (through : Option (String × τ)) :
      replay through (w.step Registry.keeping (.request name type)).past = replay through w.past := replay_concat ..
  refine ⟨sound, fun g mem => ?_, fun through ref finds => ?_, fun key missing => ?_,
    fun c mem => (h.pending c mem).concat _, calls_concat h.calls nofun⟩
  · rcases List.mem_append.1 mem with old | new
    · obtain ⟨n, mem, ref⟩ := h.given g old
      exact ⟨n, kept mem, ref⟩
    · rw [List.mem_singleton.1 new]
      exact ⟨_, there, rfl⟩
  · change (w.state.request name type).1.Finds through ref at finds
    rw [leaves]
    change ((w.state.request name type).1.event ref).handlers = _
    rw [Registry.event_request h.sound]
    rcases cases with same | ⟨missing, entered⟩
    · exact h.handlers through ref (same ▸ finds)
    · rw [entered] at finds
      cases through with
      | none => exact h.handlers none ref finds
      | some key =>
        obtain ⟨n, mem, rfl⟩ := finds
        rcases List.mem_append.1 mem with old | new
        · exact h.handlers (some key) (.cell n) ⟨n, old, rfl⟩
        · obtain ⟨rfl, rfl⟩ := Prod.mk.inj (List.mem_singleton.1 new)
          rw [h.fresh _ (Registry.not_mem_keys h.sound missing)]
          simp [Registry.event, Event.empty]
  · change key ∉ (w.state.request name type).1.table.map (·.1) at missing
    rw [leaves]
    exact h.fresh key fun mem => missing (List.map_subset _ kept mem)

/-- One act keeps what is known. -/
theorem lawful_step (h : Lawful w) (a : Act τ H) : Lawful (w.step Registry.keeping a) := by
  cases a with
  | request name type => exact lawful_request h name type
  | subscribe on handler | unsubscribe on id =>
    simp only [step]
    cases found : w.find? Registry.keeping on with
    | none => exact h
    | some target =>
      refine lawful_change h (finds_of_find? h found) (if_pos rfl).symm (fun other hs apart => ?_) nofun
      exact if_neg apart.symm
  | raise on =>
    simp only [step]
    cases found : w.find? Registry.keeping on with
    | none => exact h
    | some target =>
      refine lawful_quiet h (fun _ _ => rfl) (fun c mem => ?_) nofun
      rcases List.mem_append.1 mem with new | old
      · obtain ⟨s, live, rfl⟩ := List.mem_map.1 new
        have live : s ∈ replay target.1 w.past := h.handlers _ _ (finds_of_find? h found) ▸ live
        exact ⟨w.past, [], rfl, subscribed_of_mem_replay live⟩
      · exact (h.pending c old).concat _
  | call =>
    simp only [step]
    cases waiting : w.pending with
    | nil => exact h
    | cons c rest =>
      have due := h.pending
      rw [waiting] at due
      refine lawful_quiet h (fun _ _ => rfl) (fun c mem => (due c (List.mem_cons_of_mem _ mem)).concat _) ?_
      intro c' same
      cases same
      exact due c List.mem_cons_self

end

theorem lawful_run (acts : List (Act τ H)) : Lawful (run Registry.keeping acts) := by
  induction acts using List.reverseRecOn with
  | nil => exact lawful_start
  | append_singleton acts a ih =>
    rw [run_concat]
    exact lawful_step ih a

/-- No act takes away or replaces an entry. -/
theorem table_step {w : EventWork (Registry τ H) EventRef τ H} (h : Lawful w) (a : Act τ H) :
    w.state.table <+: (w.step Registry.keeping a).state.table := by
  cases a with
  | request name type => exact Registry.table_request h.sound name type
  | subscribe on handler | unsubscribe on id =>
    simp only [step]
    split
    · exact List.prefix_refl _
    · simp only [Registry.keeping, Registry.table_change]
      exact List.prefix_refl _
  | raise on | call =>
    simp only [step]
    split <;> exact List.prefix_refl _

theorem table_run (earlier later : List (Act τ H)) :
    (run Registry.keeping earlier).state.table <+: (run Registry.keeping (earlier ++ later)).state.table := by
  induction later using List.reverseRecOn with
  | nil => simp
  | append_singleton later a ih =>
    rw [← List.append_assoc, run_concat]
    exact ih.trans (table_step (lawful_run _) a)

end EventWork

/-! ## Events by value -/

/-- The events of a context, asked for anew at each use. -/
def Context.keeping : Keeping (Context τ H) (Option (String × τ)) τ H where
  start := .empty
  request c name type := ((c.request name type).1, some (name, type))
  general := none
  event c
    | none => c.changed
    | some key => (c.request key.1 key.2).2
  change c
    | none, e => { c with changed := e }
    | some key, e => c.put key.1 key.2 e

namespace Registry

/-- The events by value. -/
def context (r : Registry τ H) : Context τ H :=
  ⟨r.changed, r.table.map fun e => (e.1, ⟨e.1.2, r.event (.cell e.2)⟩)⟩

variable {r : Registry τ H} {key : String × τ}

theorem entry?_context (r : Registry τ H) (name : String) (type : τ) :
    r.context.entry? name type = (r.lookup (name, type)).map fun n => ⟨type, r.event (.cell n)⟩ := by
  unfold Context.entry? lookup context
  rw [List.find?_map, Option.map_map, Option.map_map]
  change Option.map _ (r.table.find? fun e => decide (e.1 = (name, type))) = _
  cases found : r.table.find? fun e => decide (e.1 = (name, type)) with
  | none => rfl
  | some e =>
    have same : e.1 = (name, type) := by simpa using List.find?_some found
    simp [same]

theorem find?_context (r : Registry τ H) (name : String) (type : τ) :
    r.context.find? name type = (r.lookup (name, type)).map fun n => r.event (.cell n) := by
  rw [Context.find?, entry?_context]
  cases r.lookup (name, type) <;> simp

theorem any_context (h : r.Sound) : r.context.registry.any (·.1 = key) = (r.lookup key).isSome := by
  rw [Bool.eq_iff_iff, List.any_eq_true, Option.isSome_iff_exists]
  simp only [context, List.mem_map, decide_eq_true_eq, lookup_eq_some_iff h]
  constructor
  · rintro ⟨_, ⟨e, mem, rfl⟩, rfl⟩
    exact ⟨e.2, mem⟩
  · rintro ⟨n, mem⟩
    exact ⟨_, ⟨(key, n), mem, rfl⟩, rfl⟩

/-- A request is answered alike. -/
theorem context_request (h : r.Sound) (name : String) (type : τ) :
    (r.request name type).1.context = (r.context.request name type).1 := by
  have events := event_request h name type
  have made := request_of_sound h name type
  unfold Context.request
  rw [find?_context]
  cases found : r.lookup (name, type) with
  | some n => simp only [made, found, Option.map_some]
  | none =>
    have none : r.context.registry.any (·.1 = (name, type)) = false := by rw [any_context h, found]; rfl
    have behind : r.event (.cell r.cells.length) = .empty := by simp [event]
    simp only [Option.map_none, Context.put, none, Bool.false_eq_true, if_false]
    unfold context
    simp only [events]
    simp [made, found, enter, behind]

/-- The event of an entry is the event that a request gives. -/
theorem event_of_mem (h : r.Sound) {n : Nat} (mem : (key, n) ∈ r.table) :
    (r.context.request key.1 key.2).2 = r.event (.cell n) := by
  have found : r.lookup (key.1, key.2) = some n := (lookup_eq_some_iff h).2 mem
  simp only [Context.request, find?_context, found, Option.map_some]

/-- Changing the event of an entry puts it under the name and type. -/
theorem context_change (h : r.Sound) {n : Nat} (mem : (key, n) ∈ r.table) (e : Event H) :
    (r.change (.cell n) e).context = r.context.put key.1 key.2 e := by
  have there : r.context.registry.any (·.1 = (key.1, key.2)) = true := by
    rw [any_context h, (lookup_eq_some_iff h).2 mem]
    rfl
  simp only [Context.put, there, if_true]
  simp only [context, List.map_map]
  congr 1
  rw [table_change]
  refine List.map_congr_left fun entry other => ?_
  simp only [Function.comp_apply]
  by_cases same : entry.1 = key
  · obtain rfl : entry = (key, n) := List.inj_on_of_nodup_map h.keys other mem same
    rw [if_pos rfl, event_change_self h e (.inr ⟨_, mem, rfl⟩)]
  · have apart : EventRef.cell n ≠ .cell entry.2 := fun equal =>
      same (congrArg Prod.fst (List.inj_on_of_nodup_map h.numbers mem other (EventRef.cell.inj equal))).symm
    rw [if_neg same, event_change_other r e apart]

end Registry

namespace EventWork

/-- How work with a context goes beside work with events in cells. -/
structure Mirrors (w : EventWork (Registry τ H) EventRef τ H)
    (v : EventWork (Context τ H) (Option (String × τ)) τ H) : Prop where
  state : v.state = w.state.context
  given : v.given = w.given.map fun g => (g.1, some g.1)
  pending : v.pending = w.pending
  past : v.past = w.past

section

variable {w : EventWork (Registry τ H) EventRef τ H} {v : EventWork (Context τ H) (Option (String × τ)) τ H}

theorem Mirrors.find? (m : Mirrors w v) (on : Option Nat) :
    v.find? Context.keeping on = (w.find? Registry.keeping on).map fun f => (f.1, f.1) := by
  cases on with
  | none => rfl
  | some n =>
    simp only [EventWork.find?, m.given, List.getElem?_map, Option.map_map]
    rfl

/-- An event is the same by value. -/
theorem Mirrors.event (m : Mirrors w v) (h : Lawful w) {through : Option (String × τ)} {ref : EventRef}
    (finds : w.state.Finds through ref) : Context.keeping.event v.state through = w.state.event ref := by
  rw [m.state]
  cases through with
  | none =>
    obtain rfl : ref = .changed := finds
    rfl
  | some key =>
    obtain ⟨n, mem, rfl⟩ := finds
    exact Registry.event_of_mem h.sound mem

theorem Mirrors.change (m : Mirrors w v) (h : Lawful w) {through : Option (String × τ)} {ref : EventRef}
    (finds : w.state.Finds through ref) (e : Event H) :
    Context.keeping.change v.state through e = (w.state.change ref e).context := by
  rw [m.state]
  cases through with
  | none =>
    obtain rfl : ref = .changed := finds
    rfl
  | some key =>
    obtain ⟨n, mem, rfl⟩ := finds
    exact (Registry.context_change h.sound mem e).symm

/-- One act is answered alike. -/
theorem Mirrors.step (m : Mirrors w v) (h : Lawful w) (a : Act τ H) :
    Mirrors (w.step Registry.keeping a) (v.step Context.keeping a) := by
  cases a with
  | request name type =>
    refine ⟨?_, ?_, m.pending, by simp only [EventWork.step, m.past]⟩
    · simp only [EventWork.step, Context.keeping, Registry.keeping, m.state]
      exact (Registry.context_request h.sound name type).symm
    · simp only [EventWork.step, Context.keeping, m.given, List.map_append, List.map_cons, List.map_nil]
  | subscribe on handler | unsubscribe on id =>
    simp only [EventWork.step, m.find?]
    cases found : w.find? Registry.keeping on with
    | none => exact m
    | some target =>
      have finds := finds_of_find? h found
      simp only [Option.map_some, m.event h finds, m.past]
      exact ⟨m.change h finds _, m.given, m.pending, rfl⟩
  | raise on =>
    simp only [EventWork.step, m.find?]
    cases found : w.find? Registry.keeping on with
    | none => exact m
    | some target =>
      have finds := finds_of_find? h found
      simp only [Option.map_some, m.event h finds, m.past, m.pending]
      exact ⟨m.state, m.given, rfl, rfl⟩
  | call =>
    simp only [EventWork.step, m.pending]
    cases w.pending with
    | nil => exact m
    | cons c rest => exact ⟨m.state, m.given, rfl, by simp only [m.past]⟩

end

theorem mirrors_run (acts : List (Act τ H)) : Mirrors (run Registry.keeping acts) (run Context.keeping acts) := by
  induction acts using List.reverseRecOn with
  | nil => exact ⟨rfl, rfl, rfl, rfl⟩
  | append_singleton acts a ih =>
    rw [run_concat, run_concat]
    exact ih.step (lawful_run acts) a

/-- What holds over every run of requests, subscriptions, cancellations and raises, also those of handlers that
run. Two requests give the same event exactly if name and type agree, and none gives the general event. Every entry
leads to an event of its type, and a request of it gives that and changes nothing; no entry is ever replaced. A
request changes no event, and the handlers of an event are those that were subscribed through it and not cancelled
through it. A call goes to a handler that was subscribed through the event that was raised, before the raise. And
the same happens at the events of a context. -/
theorem registry_run (acts : List (Act τ H)) :
    let w := run Registry.keeping acts
    (∀ g ∈ w.given, g.2 ≠ .changed ∧ ∀ g' ∈ w.given, g.2 = g'.2 ↔ g.1 = g'.1) ∧
      (∀ e ∈ w.state.table, (∃ c, w.state.cells[e.2]? = some c ∧ c.type = e.1.2) ∧
        w.state.request e.1.1 e.1.2 = (w.state, e.2)) ∧
      (∀ earlier later, acts = earlier ++ later → (run Registry.keeping earlier).state.table <+: w.state.table) ∧
      (∀ name type ref, (w.state.request name type).1.event ref = w.state.event ref) ∧
      (∀ g ∈ w.given, (w.state.event g.2).handlers = replay (some g.1) w.past) ∧
      w.state.changed.handlers = replay none w.past ∧
      (∀ earlier c later, w.past = earlier ++ .called c :: later → Due earlier c) ∧
      (run Context.keeping acts).past = w.past ∧ (run Context.keeping acts).state = w.state.context := by
  intro w
  have h : Lawful w := lawful_run acts
  have mirrors := mirrors_run acts
  refine ⟨fun g mem => ⟨?_, fun g' mem' => ?_⟩, fun e mem => ⟨h.sound.typed e mem, ?_⟩, ?_,
    Registry.event_request h.sound, fun g mem => h.handlers _ _ (h.given g mem), h.handlers none .changed rfl, h.calls,
    mirrors.past, mirrors.state⟩
  · obtain ⟨n, -, cell⟩ := h.given g mem
    rw [cell]
    exact nofun
  · rw [Registry.eq_iff_of_finds h.sound (h.given g mem) (h.given g' mem'), Option.some.injEq]
  · rw [Registry.request_of_sound h.sound, (Registry.lookup_eq_some_iff h.sound).2 mem]
  · rintro earlier later rfl
    exact table_run earlier later

example : (run Registry.keeping [.request "Volume" 64, .request "Volume" 32, .request "Gain" 64,
    .subscribe (some 0) "handler", .request "Volume" 64] : EventWork (Registry Nat String) EventRef Nat String).given.map
      (·.2) = [.cell 0, .cell 1, .cell 2, .cell 0] := by
  decide

end EventWork

end LiveSettings
