/-!
# Events

An event keeps handlers in the order in which they were subscribed. Raising it calls the handlers that were
subscribed at that moment, whatever they do to the event meanwhile.

Results: `subscribe_live`, `unsubscribe_live` (what a change does to the live subscriptions),
`unsubscribe_eq_true` (a subscription is cancelled once).
-/

namespace LiveSettings

/-- What identifies a subscription of one event. -/
structure SubscriptionId where
  number : UInt64
  deriving DecidableEq, Repr, Inhabited

/-- Handlers in order of subscription, and the number of the next one, which starts over after the last. -/
structure Event (H : Type) where
  handlers : List (SubscriptionId × H)
  next : UInt64
  deriving Repr

namespace Event

variable {H : Type}

def empty : Event H := ⟨[], 0⟩

instance : Inhabited (Event H) := ⟨empty⟩

/-- The live subscriptions in their order. -/
def live (e : Event H) : List SubscriptionId := e.handlers.map (·.1)

def count (e : Event H) : Nat := e.handlers.length

def isEmpty (e : Event H) : Bool := e.handlers.isEmpty

def subscribe (e : Event H) (h : H) : Event H × SubscriptionId :=
  (⟨e.handlers ++ [(⟨e.next⟩, h)], e.next + 1⟩, ⟨e.next⟩)

/-- Cancels a subscription; tells whether there was one. -/
def unsubscribe (e : Event H) (id : SubscriptionId) : Event H × Bool :=
  let handlers := e.handlers.filter (·.1 != id)
  ({ e with handlers }, handlers.length != e.handlers.length)

/-- The handlers that a raise calls. -/
def snapshot (e : Event H) : List H := e.handlers.map (·.2)

/-- Calls the handlers of the event as it is now, one after the other. -/
def raise {m : Type → Type} [Monad m] (e : Event H) (call : H → m Unit) : m Unit := e.snapshot.forM call

/-- The event for people. -/
def debug (e : Event H) : String :=
  "Event \x7b handlers: " ++ toString e.count ++ " \x7d"

/-! ## Laws -/

@[simp]
theorem live_empty : (empty : Event H).live = [] := rfl

theorem subscribe_live (e : Event H) (h : H) : (e.subscribe h).1.live = e.live ++ [⟨e.next⟩] := by
  simp [subscribe, live]

theorem unsubscribe_live (e : Event H) (id : SubscriptionId) :
    (e.unsubscribe id).1.live = e.live.filter (· != id) := by
  simp [unsubscribe, live, List.filter_map, Function.comp_def]

theorem unsubscribe_eq_true (e : Event H) (id : SubscriptionId) :
    (e.unsubscribe id).2 = true ↔ id ∈ e.live := by
  have h := List.length_filter_le (fun x : SubscriptionId × H => x.1 != id) e.handlers
  have k := @List.length_filter_eq_length_iff _ (fun x : SubscriptionId × H => x.1 != id) e.handlers
  simp only [unsubscribe, bne_iff_ne, ne_eq, live, List.mem_map]
  grind

end Event

end LiveSettings
