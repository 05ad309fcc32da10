import LiveSettings.Property.Record
import Mathlib.Data.List.Perm.Basic
import Mathlib.Data.List.Nodup

/-!
# The language of markers

The arguments of a marker fill three slots: the key, whether changes raise an event, and the strategy. Arguments by
position come first, a text for the key and then a truth value for the event. The others bear the name of their
slot, or are a bare word for the strategy, and their order does not matter. No slot is filled twice. `Denotes` says
this of arguments, and `Spells` says which tokens spell them; a marker is read just if it is of that language.

Results:
* `Slots.take_eq_ok_iff`, `Slots.takeAll_eq_ok_iff`: what one argument, and a list of them, does to the slots.
* `settingsOf_eq_ok_iff`: the arguments that are accepted, and the settings that they give.
* `args_eq_ok_iff`: the tokens that are read as arguments.
* `reads_language`: the whole language, with its different spellings.
-/

namespace LiveSettings

/-- The word for a strategy, in markers and in names of the library. -/
def Strategy.word : Strategy → String
  | .native => "native"
  | .json => "json"

namespace Marker

/-! ## The language -/

inductive Slot where
  | key
  | raiseEvent
  | strategy
  deriving DecidableEq

/-- The name of an argument that fills the slot. -/
def Slot.word : Slot → String
  | .key => "key"
  | .raiseEvent => "raise_event"
  | .strategy => "strategy"

theorem Slot.word_injective {a b : Slot} (h : a.word = b.word) : a = b := by
  cases a <;> cases b <;> simp [word] at h ⊢

/-- A slot with its content. -/
inductive Filling where
  | key (text : String)
  | raiseEvent (value : Bool)
  | strategy (chosen : Strategy)
  deriving DecidableEq

namespace Filling

def slot : Filling → Slot
  | .key _ => .key
  | .raiseEvent _ => .raiseEvent
  | .strategy _ => .strategy

/-- The literal that gives the content. -/
def value : Filling → Value
  | .key k => .text k
  | .raiseEvent b => .truth b
  | .strategy c => .text c.word

end Filling

/-- Arguments that fill the slots of their positions. -/
inductive Placed : List MarkerArg → List Filling → Prop where
  | none : Placed [] []
  | key (k : String) : Placed [.positional (.text k)] [.key k]
  | keyAndEvent (k : String) (b : Bool) :
    Placed [.positional (.text k), .positional (.truth b)] [.key k, .raiseEvent b]

/-- An argument that fills the slot of its name, or the strategy by a bare word. -/
inductive Names : MarkerArg → Filling → Prop where
  | named (f : Filling) : Names (.named f.slot.word f.value) f
  | flag (c : Strategy) : Names (.flag c.word) (.strategy c)

theorem names_named_iff {name : String} {v : Value} {f : Filling} :
    Names (.named name v) f ↔ name = f.slot.word ∧ v = f.value := by
  constructor
  · rintro ⟨⟩
    exact ⟨rfl, rfl⟩
  · rintro ⟨rfl, rfl⟩
    exact .named f

/-- The arguments of the language, with what they fill the slots with. -/
structure Denotes (as : List MarkerArg) (fs : List Filling) : Prop where
  parts : ∃ front back placed named,
    as = front ++ back ∧ fs = placed ++ named ∧ Placed front placed ∧ List.Forall₂ Names back named
  once : (fs.map Filling.slot).Nodup

/-- The settings with these slots filled: an event is raised unless that slot holds the contrary. -/
structure Settings.Holds (x : Settings) (fs : List Filling) : Prop where
  key : ∀ k, x.key = some k ↔ .key k ∈ fs
  raiseEvent : x.raiseEvent = false ↔ .raiseEvent false ∈ fs
  strategy : ∀ c, x.strategy = some c ↔ .strategy c ∈ fs

theorem Settings.eq_of_holds {x y : Settings} {fs : List Filling} (hx : x.Holds fs) (hy : y.Holds fs) : x = y := by
  obtain ⟨key, raiseEvent, strategy⟩ := x
  obtain ⟨key', raiseEvent', strategy'⟩ := y
  have keys : key = key' := Option.ext fun k => (hx.key k).trans (hy.key k).symm
  have events : raiseEvent = raiseEvent' := Bool.eq_iff_iff.2 (by
    have same := hx.raiseEvent.trans hy.raiseEvent.symm
    rw [← Bool.not_eq_false, ← Bool.not_eq_false, not_iff_not]
    exact same)
  have strategies : strategy = strategy' := Option.ext fun c => (hx.strategy c).trans (hy.strategy c).symm
  rw [keys, events, strategies]

theorem bind_eq_ok_iff {ε α β : Type} {x : Except ε α} {f : α → Except ε β} {b : β} :
    (x >>= f) = .ok b ↔ ∃ a, x = .ok a ∧ f a = .ok b := by
  cases x <;> simp [bind, Except.bind]

theorem pure_eq_ok_iff {ε α : Type} {a b : α} : (pure a : Except ε α) = .ok b ↔ a = b :=
  ⟨Except.ok.inj, congrArg Except.ok⟩

/-! ## Slots -/

namespace Slots

/-- Whether the slots hold a filling. -/
def Has (s : Slots) : Filling → Prop
  | .key k => s.key = some k
  | .raiseEvent b => s.raiseEvent = some b
  | .strategy c => s.strategy = some c

def isFree (s : Slots) : Slot → Bool
  | .key => s.key.isNone
  | .raiseEvent => s.raiseEvent.isNone
  | .strategy => s.strategy.isNone

/-- Fills a slot by its name. -/
def put (s : Slots) : Filling → Slots
  | .key k => { s with key := some k, named := true }
  | .raiseEvent b => { s with raiseEvent := some b, named := true }
  | .strategy c => { s with strategy := some c, named := true }

theorem has_put {s : Slots} {f : Filling} (free : s.isFree f.slot = true) (g : Filling) :
    (s.put f).Has g ↔ s.Has g ∨ g = f := by
  cases f <;> cases g <;> simp_all [put, Has, isFree, Filling.slot]
  all_goals exact eq_comm

theorem isFree_put (s : Slots) (f : Filling) (slot : Slot) :
    (s.put f).isFree slot = true ↔ s.isFree slot = true ∧ slot ≠ f.slot := by
  cases f <;> cases slot <;> simp [put, isFree, Filling.slot]

@[simp]
theorem named_put (s : Slots) (f : Filling) : (s.put f).named = true := by cases f <;> rfl

/-- Fillings for different slots, which are all free. -/
def Fits (s : Slots) (fs : List Filling) : Prop :=
  (fs.map Filling.slot).Nodup ∧ ∀ f ∈ fs, s.isFree f.slot = true

theorem fits_cons {s : Slots} {f : Filling} {fs : List Filling} :
    s.Fits (f :: fs) ↔ s.isFree f.slot = true ∧ (s.put f).Fits fs := by
  simp only [Fits, List.map_cons, List.nodup_cons, List.forall_mem_cons, isFree_put, List.mem_map, not_exists, not_and]
  constructor
  · rintro ⟨⟨apart, nodup⟩, free, others⟩
    exact ⟨free, nodup, fun g mem => ⟨others g mem, apart g mem⟩⟩
  · rintro ⟨free, nodup, others⟩
    exact ⟨⟨fun g mem => (others g mem).2, nodup⟩, free, fun g mem => (others g mem).1⟩

theorem has_foldl_put {s : Slots} {fs : List Filling} (fits : s.Fits fs) (g : Filling) :
    (fs.foldl put s).Has g ↔ s.Has g ∨ g ∈ fs := by
  induction fs generalizing s with
  | nil => simp
  | cons f fs ih =>
    obtain ⟨free, later⟩ := fits_cons.1 fits
    rw [List.foldl_cons, ih later, has_put free, or_assoc, List.mem_cons]

/-- What the slots hold is what the settings hold. -/
theorem holds_settings {s : Slots} {fs : List Filling} (has : ∀ g, s.Has g ↔ g ∈ fs) : s.settings.Holds fs := by
  refine ⟨fun k => has (.key k), ?_, fun c => has (.strategy c)⟩
  rw [← has (.raiseEvent false)]
  cases raises : s.raiseEvent <;> simp [settings, Has, raises]

/-! ## One argument -/

theorem setKey_eq_ok_iff {s s' : Slots} {v : Value} :
    s.setKey v = .ok s' ↔ s.isFree .key = true ∧ ∃ k, v = .text k ∧ s' = { s with key := some k } := by
  unfold setKey isFree
  cases s.key <;> cases v <;> simp [eq_comm]

theorem setRaiseEvent_eq_ok_iff {s s' : Slots} {v : Value} : s.setRaiseEvent v = .ok s' ↔
    s.isFree .raiseEvent = true ∧ ∃ b, v = .truth b ∧ s' = { s with raiseEvent := some b } := by
  unfold setRaiseEvent isFree
  cases s.raiseEvent <;> cases v <;> simp [eq_comm]

theorem strategyOf_eq_ok_iff {name : String} {c : Strategy} : strategyOf name = .ok c ↔ name = c.word := by
  unfold strategyOf
  split
  · cases c <;> simp [Strategy.word]
  · cases c <;> simp [Strategy.word]
  · cases c <;> simp_all [Strategy.word]

theorem setFlag_eq_ok_iff {s s' : Slots} {name : String} : s.setFlag name = .ok s' ↔
    s.isFree .strategy = true ∧ ∃ c : Strategy, name = c.word ∧ s' = { s with strategy := some c } := by
  unfold setFlag isFree
  cases s.strategy with
  | some c => simp
  | none =>
    simp only [← strategyOf_eq_ok_iff, Option.isSome_none, Option.isNone_none, if_false, true_and, bind_eq_ok_iff,
      pure_eq_ok_iff, Bool.false_eq_true, @eq_comm Slots]

theorem setStrategy_eq_ok_iff {s s' : Slots} {v : Value} : s.setStrategy v = .ok s' ↔
    s.isFree .strategy = true ∧ ∃ c : Strategy, v = .text c.word ∧ s' = { s with strategy := some c } := by
  cases v with
  | text name =>
    have same : s.setStrategy (.text name) = s.setFlag name := rfl
    simp only [same, setFlag_eq_ok_iff, Value.text.injEq]
  | truth b | other =>
    unfold setStrategy
    cases s.strategy <;> simp

theorem take_named_eq_ok_iff {s s' : Slots} {n : Nat} {slot : Slot} {v : Value} :
    s.take n (.named slot.word v) = .ok s' ↔
      s.isFree slot = true ∧ ∃ f : Filling, f.slot = slot ∧ v = f.value ∧ s' = s.put f := by
  cases slot with
  | key =>
    refine setKey_eq_ok_iff.trans (and_congr_right fun _ => ⟨?_, ?_⟩)
    · rintro ⟨k, rfl, rfl⟩
      exact ⟨.key k, rfl, rfl, rfl⟩
    · rintro ⟨_ | _ | _, own, rfl, rfl⟩ <;> cases own
      exact ⟨_, rfl, rfl⟩
  | raiseEvent =>
    refine setRaiseEvent_eq_ok_iff.trans (and_congr_right fun _ => ⟨?_, ?_⟩)
    · rintro ⟨b, rfl, rfl⟩
      exact ⟨.raiseEvent b, rfl, rfl, rfl⟩
    · rintro ⟨_ | _ | _, own, rfl, rfl⟩ <;> cases own
      exact ⟨_, rfl, rfl⟩
  | strategy =>
    refine setStrategy_eq_ok_iff.trans (and_congr_right fun _ => ⟨?_, ?_⟩)
    · rintro ⟨c, rfl, rfl⟩
      exact ⟨.strategy c, rfl, rfl, rfl⟩
    · rintro ⟨_ | _ | _, own, rfl, rfl⟩ <;> cases own
      exact ⟨_, rfl, rfl⟩

theorem take_unknown {s : Slots} {n : Nat} {name : String} {v : Value} (unknown : ∀ slot : Slot, name ≠ slot.word) :
    s.take n (.named name v) = .error .unknownArgument := by
  have key := unknown .key
  have raiseEvent := unknown .raiseEvent
  have strategy := unknown .strategy
  unfold take
  split <;> simp_all [Slot.word]

/-- Where no argument by position may stand any more, an argument is taken just if it fills a free slot by name. -/
theorem take_eq_ok_iff {s s' : Slots} {n : Nat} {a : MarkerArg}
    (late : s.named = true ∨ 2 ≤ n ∨ ∀ v, a ≠ .positional v) :
    s.take n a = .ok s' ↔ ∃ f, Names a f ∧ s.isFree f.slot = true ∧ s' = s.put f := by
  cases a with
  | positional v =>
    have refused : s.take n (.positional v) ≠ .ok s' := by
      rcases late with named | behind | other
      · simp [take, named]
      · obtain ⟨n, rfl⟩ := Nat.exists_eq_add_of_le' behind
        cases named : s.named <;> simp [take, named]
      · exact absurd rfl (other v)
    exact ⟨fun taken => absurd taken refused, fun ⟨f, names, _⟩ => nomatch names⟩
  | flag name =>
    refine setFlag_eq_ok_iff.trans ⟨?_, ?_⟩
    · rintro ⟨free, c, rfl, rfl⟩
      exact ⟨.strategy c, .flag c, free, rfl⟩
    · rintro ⟨f, names, free, rfl⟩
      cases names with
      | flag c => exact ⟨free, c, rfl, rfl⟩
  | named name v =>
    simp only [names_named_iff]
    by_cases known : ∃ slot : Slot, name = slot.word
    · obtain ⟨slot, rfl⟩ := known
      refine take_named_eq_ok_iff.trans ⟨?_, ?_⟩
      · rintro ⟨free, f, rfl, rfl, rfl⟩
        exact ⟨f, ⟨rfl, rfl⟩, free, rfl⟩
      · rintro ⟨f, ⟨word, rfl⟩, free, rfl⟩
        obtain rfl := Slot.word_injective word
        exact ⟨free, f, rfl, rfl, rfl⟩
    · have unknown : ∀ slot : Slot, name ≠ slot.word := fun slot same => known ⟨slot, same⟩
      rw [take_unknown unknown]
      constructor
      · intro taken
        cases taken
      · rintro ⟨f, ⟨word, -⟩, -⟩
        exact absurd word (unknown f.slot)

/-- Where no argument by position may stand any more, arguments are taken just if they fill free slots by name, each
once. -/
theorem takeAll_eq_ok_iff {s s' : Slots} {n : Nat} {as : List MarkerArg}
    (late : s.named = true ∨ 2 ≤ n ∨ ∀ v, as.head? ≠ some (.positional v)) :
    s.takeAll n as = .ok s' ↔ ∃ fs, List.Forall₂ Names as fs ∧ s.Fits fs ∧ s' = fs.foldl put s := by
  induction as generalizing s n with
  | nil =>
    constructor
    · intro taken
      cases taken
      exact ⟨[], .nil, ⟨List.nodup_nil, nofun⟩, rfl⟩
    · rintro ⟨fs, all, -, rfl⟩
      cases all
      rfl
  | cons a as ih =>
    have first : s.named = true ∨ 2 ≤ n ∨ ∀ v, a ≠ .positional v := by simpa using late
    rw [takeAll, bind_eq_ok_iff]
    constructor
    · rintro ⟨t, taken, later⟩
      obtain ⟨f, names, free, rfl⟩ := (take_eq_ok_iff first).1 taken
      obtain ⟨fs, all, fits, rfl⟩ := (ih (.inl (named_put s f))).1 later
      exact ⟨f :: fs, .cons names all, fits_cons.2 ⟨free, fits⟩, rfl⟩
    · rintro ⟨_, all, fits, rfl⟩
      obtain ⟨f, fs, names, later, rfl⟩ := List.forall₂_cons_left_iff.1 all
      obtain ⟨free, fits⟩ := fits_cons.1 fits
      exact ⟨s.put f, (take_eq_ok_iff first).2 ⟨f, names, free, rfl⟩,
        (ih (.inl (named_put s f))).2 ⟨fs, later, fits, rfl⟩⟩

end Slots

/-! ## All arguments -/

theorem not_positional_of_names {as : List MarkerArg} {fs : List Filling} (names : List.Forall₂ Names as fs)
    (v : Value) : as.head? ≠ some (.positional v) := by
  cases names with
  | nil => exact nofun
  | cons first _ =>
    intro same
    cases first <;> cases same

/-- The slots after the arguments by position. -/
def placedSlots : List Filling → Slots
  | .key k :: .raiseEvent b :: _ => ⟨some k, some b, none, false⟩
  | .key k :: _ => ⟨some k, none, none, false⟩
  | _ => .empty

/-- The arguments by position are taken in front. -/
theorem takeAll_placed {front : List MarkerArg} {placed : List Filling} (h : Placed front placed)
    (back : List MarkerArg) :
    Slots.empty.takeAll 0 (front ++ back) = (placedSlots placed).takeAll front.length back := by
  cases h <;> rfl

theorem has_placedSlots {front : List MarkerArg} {placed : List Filling} (h : Placed front placed) (g : Filling) :
    (placedSlots placed).Has g ↔ g ∈ placed := by
  cases h <;> cases g <;> simp [placedSlots, Slots.Has, Slots.empty, eq_comm]

theorem fits_placedSlots {front : List MarkerArg} {placed : List Filling} (h : Placed front placed)
    (named : List Filling) :
    (placedSlots placed).Fits named ↔ ((placed ++ named).map Filling.slot).Nodup := by
  have free (f : Filling) : (placedSlots placed).isFree f.slot = true ↔ f.slot ∉ placed.map Filling.slot := by
    cases h <;> cases f <;> simp [placedSlots, Slots.isFree, Slots.empty, Filling.slot]
  have nodup : (placed.map Filling.slot).Nodup := by
    cases h <;> simp [Filling.slot]
  simp only [Slots.Fits, free, List.map_append, List.nodup_append', nodup, true_and]
  refine and_congr_right fun _ => ⟨fun apart slot mem other => ?_, fun apart f mem other => ?_⟩
  · obtain ⟨f, mem', rfl⟩ := List.mem_map.1 other
    exact apart f mem' mem
  · exact apart other (List.mem_map_of_mem mem)

/-- Arguments that are accepted start with those by position. -/
theorem exists_placed {as : List MarkerArg} {s : Slots} (h : Slots.empty.takeAll 0 as = .ok s) :
    ∃ front back placed, as = front ++ back ∧ Placed front placed ∧
      (2 ≤ front.length ∨ ∀ v, back.head? ≠ some (.positional v)) := by
  match as, h with
  | .positional v :: .positional w :: rest, h =>
    cases v with
    | text k =>
      cases w with
      | truth b => exact ⟨_, rest, _, rfl, .keyAndEvent k b, .inl (Nat.le_refl 2)⟩
      | text _ | other => cases h
    | truth _ | other => cases h
  | .positional v :: [], h =>
    cases v with
    | text k => exact ⟨_, [], _, rfl, .key k, .inr nofun⟩
    | truth _ | other => cases h
  | .positional v :: .named n w :: rest, h =>
    cases v with
    | text k => exact ⟨_, .named n w :: rest, _, rfl, .key k, .inr nofun⟩
    | truth _ | other => cases h
  | .positional v :: .flag n :: rest, h =>
    cases v with
    | text k => exact ⟨_, .flag n :: rest, _, rfl, .key k, .inr nofun⟩
    | truth _ | other => cases h
  | .named n w :: rest, _ => exact ⟨[], .named n w :: rest, _, rfl, .none, .inr nofun⟩
  | .flag n :: rest, _ => exact ⟨[], .flag n :: rest, _, rfl, .none, .inr nofun⟩
  | [], _ => exact ⟨[], [], _, rfl, .none, .inr nofun⟩

/-- Arguments are accepted just if they are of the language, and then give the settings that hold what they fill the
slots with. -/
theorem settingsOf_eq_ok_iff {as : List MarkerArg} {x : Settings} :
    settingsOf as = .ok x ↔ ∃ fs, Denotes as fs ∧ x.Holds fs := by
  have holds {front : List MarkerArg} {placed named : List Filling} (places : Placed front placed)
      (fits : (placedSlots placed).Fits named) :
      (named.foldl Slots.put (placedSlots placed)).settings.Holds (placed ++ named) := by
    refine Slots.holds_settings fun g => ?_
    rw [Slots.has_foldl_put fits, has_placedSlots places, List.mem_append]
  simp only [settingsOf, bind_eq_ok_iff, pure_eq_ok_iff]
  constructor
  · rintro ⟨s, all, rfl⟩
    obtain ⟨front, back, placed, rfl, places, late⟩ := exists_placed all
    rw [takeAll_placed places] at all
    obtain ⟨named, names, fits, rfl⟩ := (Slots.takeAll_eq_ok_iff (.inr late)).1 all
    exact ⟨placed ++ named, ⟨⟨front, back, placed, named, rfl, rfl, places, names⟩,
      (fits_placedSlots places named).1 fits⟩, holds places fits⟩
  · rintro ⟨fs, ⟨⟨front, back, placed, named, rfl, rfl, places, names⟩, once⟩, its⟩
    have fits := (fits_placedSlots places named).2 once
    refine ⟨_, ?_, Settings.eq_of_holds (holds places fits) its⟩
    rw [takeAll_placed places]
    exact (Slots.takeAll_eq_ok_iff (.inr (.inr (not_positional_of_names names)))).2 ⟨named, names, fits, rfl⟩

/-! ## Other orders -/

/-- The value of an argument by position. -/
def MarkerArg.positional? : MarkerArg → Option Value
  | .positional v => some v
  | .named _ _ | .flag _ => none

theorem Settings.Holds.perm {x : Settings} {fs gs : List Filling} (h : x.Holds fs) (perm : fs.Perm gs) : x.Holds gs :=
  ⟨fun k => (h.key k).trans perm.mem_iff, h.raiseEvent.trans perm.mem_iff, fun c => (h.strategy c).trans perm.mem_iff⟩

theorem eq_of_positional? {vs : List Value} {as : List MarkerArg}
    (h : as.map MarkerArg.positional? = vs.map some) : as = vs.map .positional := by
  induction as generalizing vs with
  | nil =>
    cases vs with
    | nil => rfl
    | cons v vs => cases h
  | cons a as ih =>
    cases vs with
    | nil => cases h
    | cons v vs =>
      obtain ⟨first, later⟩ := List.cons.inj h
      cases a with
      | positional w =>
        cases first
        rw [ih later]
        rfl
      | named _ _ | flag _ => cases first

theorem exists_values {front : List MarkerArg} {placed : List Filling} (h : Placed front placed) :
    ∃ vs : List Value, front = vs.map .positional := by
  cases h with
  | none => exact ⟨[], rfl⟩
  | key k => exact ⟨[.text k], rfl⟩
  | keyAndEvent k b => exact ⟨[.text k, .truth b], rfl⟩

/-- The arguments that are not by position may change places. -/
theorem denotes_perm {as bs : List MarkerArg} {fs : List Filling} (perm : as.Perm bs)
    (places : as.map MarkerArg.positional? = bs.map MarkerArg.positional?) (h : Denotes as fs) :
    ∃ gs, Denotes bs gs ∧ fs.Perm gs := by
  obtain ⟨⟨front, back, placed, named, rfl, rfl, placing, names⟩, once⟩ := h
  obtain ⟨vs, rfl⟩ := exists_values placing
  -- the arguments by position are in front of both lists
  obtain ⟨front', back', rfl, fronts, -⟩ := List.map_eq_append_iff.1 ((List.map_append ..).symm.trans places).symm
  have values : front'.map MarkerArg.positional? = vs.map some := by
    rw [fronts, List.map_map]
    rfl
  obtain rfl := eq_of_positional? values
  have moved : back'.Perm back := ((List.perm_append_left_iff _).1 perm).symm
  obtain ⟨named', names', perm'⟩ := List.perm_comp_forall₂ moved names
  have all : (placed ++ named).Perm (placed ++ named') := perm'.symm.append_left placed
  exact ⟨placed ++ named', ⟨⟨_, back', placed, named', rfl, rfl, placing, names'⟩,
    (all.map Filling.slot).nodup_iff.1 once⟩, all⟩

theorem settingsOf_perm {as bs : List MarkerArg} {x : Settings} (perm : as.Perm bs)
    (places : as.map MarkerArg.positional? = bs.map MarkerArg.positional?) (h : settingsOf as = .ok x) :
    settingsOf bs = .ok x := by
  obtain ⟨fs, denotes, holds⟩ := settingsOf_eq_ok_iff.1 h
  obtain ⟨gs, denotes', moved⟩ := denotes_perm perm places denotes
  exact settingsOf_eq_ok_iff.2 ⟨gs, denotes', holds.perm moved⟩

/-! ## Tokens -/

/-- The tokens of a literal. -/
inductive SpellsValue : Value → List Token → Prop where
  | literal (text : String) : SpellsValue (valueOf [.literal text]) [.literal text]
  | truth (b : Bool) : SpellsValue (.truth b) [.ident (if b then "true" else "false")]
  | negative (joint : Bool) {text : String} (number : Parser.isNumber text = true) :
    SpellsValue .other [.mark '-' joint, .literal text]

/-- The tokens of an argument. -/
inductive SpellsArg : MarkerArg → List Token → Prop where
  | positional {v : Value} {ts : List Token} (value : SpellsValue v ts) : SpellsArg (.positional v) ts
  | named {name : String} (plain : name ∉ Parser.keywords) (joint : Bool) {v : Value} {ts : List Token}
    (value : SpellsValue v ts) : SpellsArg (.named name v) (.ident name :: .mark '=' joint :: ts)
  | flag {name : String} (plain : name ∉ Parser.keywords) : SpellsArg (.flag name) [.ident name]

/-- The tokens of arguments, with commas between them; one may follow the last. -/
inductive Spells : List MarkerArg → List Token → Prop where
  | none : Spells [] []
  | last {a : MarkerArg} {ts : List Token} (arg : SpellsArg a ts) : Spells [a] ts
  | more {a : MarkerArg} {ts : List Token} (arg : SpellsArg a ts) (joint : Bool) {as : List MarkerArg} {us : List Token}
    (later : Spells as us) : Spells (a :: as) (ts ++ .mark ',' joint :: us)

theorem spelled_of_literal {ts rest : List Token} {v : Value} (h : literal ts = .ok (v, rest)) :
    ∃ spelled, ts = spelled ++ rest ∧ SpellsValue v spelled := by
  obtain - | ⟨t, ts⟩ := ts
  · cases h
  have begins : Parser.isLiteral (t :: ts) = true := by
    by_contra other
    simp [literal, other] at h
  simp only [literal, if_pos begins] at h
  cases t with
  | literal text =>
    cases h
    exact ⟨[.literal text], rfl, .literal text⟩
  | ident name =>
    cases h
    have truth : name = "true" ∨ name = "false" := by simpa [Parser.isLiteral] using begins
    rcases truth with rfl | rfl
    · exact ⟨_, rfl, .truth true⟩
    · exact ⟨_, rfl, .truth false⟩
  | mark c joint =>
    -- only a negative number starts with a mark
    unfold Parser.isLiteral at begins
    split at begins
    · simp_all
    · rename_i text rest' same
      cases same
      cases h
      exact ⟨[.mark '-' joint, .literal text], rfl, .negative joint begins⟩
    · simp_all
    · cases begins
  | opening d | closing d => cases begins

theorem literal_of_spelled {ts : List Token} {v : Value} (spelled : SpellsValue v ts) (rest : List Token) :
    literal (ts ++ rest) = .ok (v, rest) := by
  cases spelled with
  | literal text => rfl
  | truth b => cases b <;> rfl
  | negative joint number => simp [literal, Parser.isLiteral, number]

theorem isIdent_iff {name : String} {ts : List Token} :
    Parser.isIdent (.ident name :: ts) = true ↔ name ∉ Parser.keywords := by
  simp [Parser.isIdent]

/-- What is read as a literal is an argument by position. -/
theorem spelled_of_positional {ts rest : List Token} {a : MarkerArg}
    (h : (do let (v, rest) ← literal ts; return (MarkerArg.positional v, rest)) = .ok (a, rest)) :
    ∃ spelled, ts = spelled ++ rest ∧ SpellsArg a spelled := by
  obtain ⟨⟨v, us⟩, read, same⟩ := bind_eq_ok_iff.1 h
  cases same
  obtain ⟨spelled, rfl, value⟩ := spelled_of_literal read
  exact ⟨spelled, rfl, .positional value⟩

theorem spelled_of_arg {ts rest : List Token} {a : MarkerArg} (h : arg ts = .ok (a, rest)) :
    ∃ spelled, ts = spelled ++ rest ∧ SpellsArg a spelled := by
  unfold arg at h
  split at h
  · rename_i name us
    split at h
    · rename_i plain
      split at h
      · rename_i joint us
        obtain ⟨⟨v, us⟩, read, same⟩ := bind_eq_ok_iff.1 h
        cases same
        obtain ⟨spelled, rfl, value⟩ := spelled_of_literal read
        exact ⟨_, rfl, .named (isIdent_iff.1 plain) joint value⟩
      · cases h
        exact ⟨_, rfl, .flag (isIdent_iff.1 plain)⟩
    · exact spelled_of_positional h
  · exact spelled_of_positional h

theorem arg_of_spelled {ts rest : List Token} {a : MarkerArg} (spelled : SpellsArg a ts)
    (behind : ∀ joint us, rest ≠ .mark '=' joint :: us) : arg (ts ++ rest) = .ok (a, rest) := by
  cases spelled with
  | positional value =>
    have read := literal_of_spelled value rest
    cases value with
    | literal text => rfl
    | truth b => cases b <;> rfl
    | negative joint number =>
      simp only [List.cons_append, List.nil_append] at read ⊢
      simp [arg, read]
  | named plain joint value =>
    simp [arg, isIdent_iff.2 plain, literal_of_spelled value rest]
  | flag plain =>
    simp [arg, isIdent_iff.2 plain]

theorem SpellsArg.ne_nil {ts : List Token} {a : MarkerArg} (spelled : SpellsArg a ts) : ts ≠ [] := by
  cases spelled with
  | positional value => cases value <;> exact List.cons_ne_nil _ _
  | named _ _ _ | flag _ => exact List.cons_ne_nil _ _

/-! ## Lists of arguments -/

theorem argsLoop_succ {fuel : Nat} {t : Token} {ts : List Token} :
    argsLoop (fuel + 1) (t :: ts) = (do
      let (a, rest) ← arg (t :: ts)
      match rest with
      | [] => return [a]
      | .mark ',' _ :: rest => return a :: (← argsLoop fuel rest)
      | _ => throw .expectedComma) := rfl

theorem spells_of_argsLoop {fuel : Nat} {ts : List Token} (enough : ts.length < fuel) {as : List MarkerArg}
    (h : argsLoop fuel ts = .ok as) : Spells as ts := by
  induction fuel generalizing ts as with
  | zero => cases enough
  | succ fuel ih =>
    obtain - | ⟨t, ts⟩ := ts
    · cases h
      exact .none
    · rw [argsLoop_succ] at h
      obtain ⟨⟨a, rest⟩, read, h⟩ := bind_eq_ok_iff.1 h
      obtain ⟨spelled, all, first⟩ := spelled_of_arg read
      rw [all]
      dsimp only at h
      split at h
      · cases h
        rw [List.append_nil]
        exact .last first
      · rename_i joint rest
        have shorter : rest.length < fuel := by
          have total := congrArg List.length all
          have some := List.length_pos_iff.2 first.ne_nil
          simp only [List.length_cons, List.length_append] at total enough
          omega
        obtain ⟨as, later, same⟩ := bind_eq_ok_iff.1 h
        cases same
        exact .more first joint (ih shorter later)
      · cases h

theorem argsLoop_of_spells {as : List MarkerArg} {ts : List Token} (spells : Spells as ts) {fuel : Nat}
    (enough : ts.length < fuel) : argsLoop fuel ts = .ok as := by
  obtain - | fuel := fuel
  · cases enough
  induction spells generalizing fuel with
  | none => rfl
  | @last a ts first =>
    have read : arg (ts ++ []) = .ok (a, []) := arg_of_spelled first fun _ _ => nofun
    rw [List.append_nil] at read
    obtain - | ⟨t, ts⟩ := ts
    · exact absurd rfl first.ne_nil
    · rw [argsLoop_succ, read]
      rfl
  | @more a ts first joint as us _ ih =>
    have read : arg (ts ++ .mark ',' joint :: us) = .ok (a, .mark ',' joint :: us) :=
      arg_of_spelled first fun _ _ => by simp
    obtain - | ⟨t, ts⟩ := ts
    · exact absurd rfl first.ne_nil
    · rw [List.cons_append, argsLoop_succ, ← List.cons_append, read]
      simp only [List.length_append, List.length_cons] at enough
      obtain - | fuel := fuel
      · omega
      · have later := ih fuel (by omega)
        simp [bind_eq_ok_iff, later]

/-- The tokens are read as arguments just if they spell them. -/
theorem args_eq_ok_iff {ts : List Token} {as : List MarkerArg} : args ts = .ok as ↔ Spells as ts :=
  ⟨spells_of_argsLoop (Nat.lt_succ_self _), fun spells => argsLoop_of_spells spells (Nat.lt_succ_self _)⟩

/-! ## Markers -/

theorem find_eq_ok_some_iff {attrs : List Attr} {x : Settings} :
    find attrs = .ok (some x) ↔ ∃ a, attrs.filter (·.path.isName markerName) = [a] ∧ ofAttr a = .ok x := by
  unfold find
  split
  · rename_i none
    simp [none]
  · rename_i a one
    simp only [one, List.cons.injEq, and_true, exists_eq_left']
    cases ofAttr a <;> simp [Functor.map, Except.map]
  · rename_i _ several
    constructor
    · intro found
      cases found
    · rintro ⟨a, one, -⟩
      exact absurd one (several a)

/-- Several markers are refused, whatever they are. -/
theorem find_of_several {attrs : List Attr} (several : 2 ≤ (attrs.filter (·.path.isName markerName)).length) :
    find attrs = .error .duplicateMarker := by
  match markers : attrs.filter (·.path.isName markerName) with
  | [] => simp [markers] at several
  | [a] => simp [markers] at several
  | a :: b :: rest => exact find_of_two markers

theorem ofAttr_list_eq_ok_iff {path : NamePath} {d : Delimiter} {ts : List Token} {x : Settings} :
    ofAttr ⟨path, .list d ts⟩ = .ok x ↔ ∃ as, Spells as ts ∧ settingsOf as = .ok x := by
  simp only [ofAttr, bind_eq_ok_iff, args_eq_ok_iff]

/-- A key alone may be the value, the argument by position, or the argument by name. -/
theorem ofAttr_key {path : NamePath} {d : Delimiter} {joint : Bool} {literal : String} {e : Expr}
    (spelled : Part.sourceTokens e.code = [.literal literal]) (args : AttrArgs)
    (only : args = .value e ∨ args = .list d [.literal literal] ∨
      args = .list d [.ident "key", .mark '=' joint, .literal literal]) :
    (ofAttr ⟨path, args⟩).toOption =
      (Literal.stringValue? literal).map fun key => ⟨some key, true, none⟩ := by
  rcases only with rfl | rfl | rfl
  · simp only [ofAttr, spelled, valueOf]
    cases Literal.stringValue? literal <;> rfl
  · have same : ofAttr ⟨path, .list d [.literal literal]⟩ = settingsOf [.positional (valueOf [.literal literal])] := rfl
    rw [same, valueOf]
    cases Literal.stringValue? literal <;> rfl
  · have same : ofAttr ⟨path, .list d [.ident "key", .mark '=' joint, .literal literal]⟩ =
        settingsOf [.named "key" (valueOf [.literal literal])] := rfl
    rw [same, valueOf]
    cases Literal.stringValue? literal <;> rfl

/-- Markers are the language: arguments are accepted just if they denote fillings of different slots, and then the
settings hold these; the arguments are spelled by tokens; those that are not by position may change places; a key
alone may be written in three ways; and a field has one marker. -/
theorem reads_language :
    (∀ as x, settingsOf as = .ok x ↔ ∃ fs, Denotes as fs ∧ x.Holds fs) ∧
    (∀ path d ts x, ofAttr ⟨path, .list d ts⟩ = .ok x ↔ ∃ as, Spells as ts ∧ settingsOf as = .ok x) ∧
    (∀ path x, ofAttr ⟨path, .none⟩ = .ok x ↔ x.Holds []) ∧
    (∀ as bs : List MarkerArg, as.Perm bs → as.map MarkerArg.positional? = bs.map MarkerArg.positional? →
      ∀ x, settingsOf as = .ok x ↔ settingsOf bs = .ok x) ∧
    (∀ path d joint literal e args, Part.sourceTokens e.code = [.literal literal] →
      args = .value e ∨ args = .list d [.literal literal] ∨
        args = .list d [.ident "key", .mark '=' joint, .literal literal] →
      (ofAttr ⟨path, args⟩).toOption = (Literal.stringValue? literal).map fun key => ⟨some key, true, none⟩) ∧
    (∀ attrs x, find attrs = .ok (some x) ↔
      ∃ a, attrs.filter (·.path.isName markerName) = [a] ∧ ofAttr a = .ok x) ∧
    ∀ attrs : List Attr, 2 ≤ (attrs.filter (·.path.isName markerName)).length →
      find attrs = .error .duplicateMarker := by
  refine ⟨fun as x => settingsOf_eq_ok_iff, fun path d ts x => ofAttr_list_eq_ok_iff, fun path x => ?bare,
    fun as bs perm places x => ?order, fun path d joint literal e args spelled only => ofAttr_key spelled args only,
    fun attrs x => find_eq_ok_some_iff, fun attrs several => find_of_several several⟩
  case bare =>
    have holds : Slots.empty.settings.Holds [] :=
      Slots.holds_settings fun g => by cases g <;> simp [Slots.Has, Slots.empty]
    constructor
    · intro read
      cases read
      exact holds
    · intro its
      exact congrArg Except.ok (Settings.eq_of_holds holds its)
  case order =>
    exact ⟨settingsOf_perm perm places, settingsOf_perm perm.symm places.symm⟩

/-- `"Shutter", json, raise_event = false` in both orders, as a text, and twice on one field. -/
theorem reads_language_shutter :
    Denotes [.positional (.text "Shutter"), .flag "json", .named "raise_event" (.truth false)]
      [.key "Shutter", .strategy .json, .raiseEvent false] ∧
    settingsOf [.positional (.text "Shutter"), .flag "json", .named "raise_event" (.truth false)] =
      .ok ⟨some "Shutter", false, some .json⟩ ∧
    settingsOf [.positional (.text "Shutter"), .named "raise_event" (.truth false), .flag "json"] =
      .ok ⟨some "Shutter", false, some .json⟩ ∧
    (ofAttr ⟨⟨false, [markerName]⟩, .value ⟨[.token (.literal "\"Shutter\"")], .literal⟩⟩).toOption =
      some ⟨some "Shutter", true, none⟩ ∧
    find [⟨⟨false, [markerName]⟩, .none⟩, ⟨⟨false, [markerName]⟩, .list .paren [.ident "json"]⟩] =
      .error .duplicateMarker := by
  obtain ⟨accepts, -, -, order, key, -, several⟩ := reads_language
  have denotes : Denotes [.positional (.text "Shutter"), .flag "json", .named "raise_event" (.truth false)]
      [.key "Shutter", .strategy .json, .raiseEvent false] :=
    ⟨⟨_, _, _, _, rfl, rfl, .key "Shutter", .cons (.flag .json) (.cons (.named (.raiseEvent false)) .nil)⟩, by decide⟩
  have accepted := (accepts _ ⟨some "Shutter", false, some .json⟩).2
    ⟨_, denotes, ⟨by simp [eq_comm], by simp, by simp [eq_comm]⟩⟩
  have moved : @List.Perm MarkerArg
      [.positional (.text "Shutter"), .flag "json", .named "raise_event" (.truth false)]
      [.positional (.text "Shutter"), .named "raise_event" (.truth false), .flag "json"] := .cons _ (.swap _ _ [])
  exact ⟨denotes, accepted, (order _ _ moved rfl _).1 accepted,
    key ⟨false, [markerName]⟩ .paren false "\"Shutter\"" _ _ rfl (.inl rfl), several _ (by decide)⟩

end Marker

end LiveSettings
