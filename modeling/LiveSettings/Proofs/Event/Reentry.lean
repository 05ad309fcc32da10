import LiveSettings.Event

/-!
# Handlers that change the event that calls them

A handler may subscribe and unsubscribe while it runs: itself, handlers before it and handlers after it. Here
an event is at work: it is subscribed to, unsubscribed from and raised any number of times, each handler runs a
routine of its own, and all that happens is recorded with the event before and after. What a handler does may
depend on all that happened before.

Subscriptions are numbered by a counter of 64 bits, so what follows holds while that has not started over.

Results:
* `leads_raiseNow`: a raise calls the handlers that were live when it began, in their order.
* `Work.sound_subscribe`, `Work.sound_unsubscribe_live`, `Work.sound_unsubscribe_gone`, `Work.sound_called`: what
  each deed keeps.
* `run_law`: what holds over a run.
-/

namespace LiveSettings.Event

variable {H : Type}

/-! ## What happens at an event -/

/-- One thing that happens at an event. -/
inductive Deed (H : Type) where
  | subscribed (h : H) (id : SubscriptionId)
  | unsubscribed (id : SubscriptionId) (found : Bool)
  | called (h : H)

/-- A deed with the event before and after it. -/
structure Moment (H : Type) where
  deed : Deed H
  before : Event H
  after : Event H

namespace Moment

def issued? (m : Moment H) : Option (SubscriptionId × H) :=
  match m.deed with
  | .subscribed h id => some (id, h)
  | _ => none

def cancelled? (m : Moment H) : Option SubscriptionId :=
  match m.deed with
  | .unsubscribed id true => some id
  | _ => none

def called? (m : Moment H) : Option H :=
  match m.deed with
  | .called h => some h
  | _ => none

end Moment

/-- The subscriptions that were made, in order. -/
def issued (past : List (Moment H)) : List (SubscriptionId × H) := past.filterMap Moment.issued?

/-- The subscriptions that were cancelled. -/
def cancelled (past : List (Moment H)) : List SubscriptionId := past.filterMap Moment.cancelled?

/-- The handlers that were called, in order. -/
def called (past : List (Moment H)) : List H := past.filterMap Moment.called?

/-- An event at work, and all that happened at it. -/
structure Work (H : Type) where
  event : Event H
  past : List (Moment H)

namespace Work

def start : Work H := ⟨.empty, []⟩

def record (w : Work H) (d : Deed H) (e : Event H) : Work H := ⟨e, w.past ++ [⟨d, w.event, e⟩]⟩

def subscribe (h : H) : StateM (Work H) SubscriptionId := fun w =>
  let (e, id) := w.event.subscribe h
  (id, w.record (.subscribed h id) e)

def unsubscribe (id : SubscriptionId) : StateM (Work H) Bool := fun w =>
  let (e, found) := w.event.unsubscribe id
  (found, w.record (.unsubscribed id found) e)

end Work

/-- What a handler does while it runs; it sees the answers that it gets. -/
inductive Routine (H : Type) where
  | done
  | subscribe (h : H) (next : SubscriptionId → Routine H)
  | unsubscribe (id : SubscriptionId) (next : Bool → Routine H)

def Routine.perform : Routine H → StateM (Work H) Unit
  | done => pure ()
  | subscribe h next => do (next (← Work.subscribe h)).perform
  | unsubscribe id next => do (next (← Work.unsubscribe id)).perform

/-- What is asked of an event from outside. -/
inductive Request (H : Type) where
  | subscribe (h : H)
  | unsubscribe (id : SubscriptionId)
  | raise

section

variable (behave : H → Work H → Routine H)

/-- Runs one handler. -/
def call (h : H) : StateM (Work H) Unit := fun w =>
  let w := w.record (.called h) w.event
  (behave h w).perform w

/-- Raises the event as it is now. -/
def raiseNow : StateM (Work H) Unit := fun w => w.event.raise (call behave) w

def serve : Request H → StateM (Work H) Unit
  | .subscribe h => discard (Work.subscribe h)
  | .unsubscribe id => discard (Work.unsubscribe id)
  | .raise => raiseNow behave

/-- Serves requests one after the other. -/
def run : List (Request H) → StateM (Work H) Unit
  | [] => pure ()
  | r :: requests => do
    serve behave r
    run requests

end

/-! ## What is kept -/

/-- How an event stands after what happened: the live handlers are those that were subscribed and not
cancelled, in the order of subscription. -/
structure Standing (past : List (Moment H)) (e : Event H) : Prop where
  handlers : e.handlers = (issued past).filter fun s => s.1 ∉ cancelled past
  count : e.count + (cancelled past).length = (issued past).length

/-- The subscriptions are numbered in order, and only some of them were cancelled. -/
structure Numbered (past : List (Moment H)) (e : Event H) : Prop where
  ids : (issued past).map (·.1) = (List.range (issued past).length).map fun n => ⟨UInt64.ofNat n⟩
  next : e.next = UInt64.ofNat (issued past).length
  cancelled : ∀ id ∈ cancelled past, id ∈ (issued past).map (·.1)

/-- What a deed does to the event, after what happened earlier: a new subscription is like no other and comes
last; cancelling one that is live takes away that one alone, and any other none; calls change nothing. -/
def Moment.Lawful (earlier : List (Moment H)) (m : Moment H) : Prop :=
  match m.deed with
  | .subscribed h id =>
    id ∉ (issued earlier).map (·.1) ∧ m.after.handlers = m.before.handlers ++ [(id, h)]
  | .unsubscribed id found =>
    (found = true ↔ id ∈ m.before.live) ∧
      if found then
        ∃ front h back, m.before.handlers = front ++ (id, h) :: back ∧ m.after.handlers = front ++ back
      else m.after.handlers = m.before.handlers
  | .called _ => m.after = m.before

section
variable {past : List (Moment H)} {e : Event H}

theorem ofNat_injective {n k : Nat} (hn : n < UInt64.size) (hk : k < UInt64.size)
    (same : UInt64.ofNat n = UInt64.ofNat k) : n = k := by
  have values := congrArg UInt64.toNat same
  rwa [UInt64.toNat_ofNat_of_lt' hn, UInt64.toNat_ofNat_of_lt' hk] at values

/-- While the counter has not started over, its numbers differ. -/
theorem Numbered.nodup (h : Numbered past e) (few : (issued past).length ≤ UInt64.size) :
    ((issued past).map (·.1)).Nodup := by
  rw [h.ids, List.Nodup, List.pairwise_map]
  refine List.Pairwise.imp_of_mem ?_ List.nodup_range
  intro n k hn hk differ same
  rw [List.mem_range] at hn hk
  exact differ (ofNat_injective (by omega) (by omega) (congrArg SubscriptionId.number same))

/-- The number of the next subscription is new. -/
theorem Numbered.fresh (h : Numbered past e) (few : (issued past).length < UInt64.size) :
    (⟨e.next⟩ : SubscriptionId) ∉ (issued past).map (·.1) := by
  rw [h.ids, List.mem_map]
  rintro ⟨n, hn, same⟩
  rw [List.mem_range] at hn
  have numbers : UInt64.ofNat n = e.next := congrArg SubscriptionId.number same
  rw [h.next] at numbers
  have equal := ofNat_injective (by omega) few numbers
  omega

theorem Standing.sublist (h : Standing past e) : e.live.Sublist ((issued past).map (·.1)) := by
  unfold live
  rw [h.handlers]
  exact List.filter_sublist.map _

/-- Of handlers with numbers of their own, a number takes away one. -/
theorem exists_split {hs : List (SubscriptionId × H)} {id : SubscriptionId} (nodup : (hs.map (·.1)).Nodup)
    (mem : id ∈ hs.map (·.1)) :
    ∃ front h back, hs = front ++ (id, h) :: back ∧ hs.filter (·.1 != id) = front ++ back := by
  obtain ⟨⟨id', h⟩, found, rfl⟩ := List.mem_map.1 mem
  obtain ⟨front, back, rfl⟩ := List.append_of_mem found
  refine ⟨front, h, back, rfl, ?_⟩
  rw [List.map_append, List.map_cons, List.nodup_append] at nodup
  obtain ⟨-, later, apart⟩ := nodup
  have before : ∀ s ∈ front, (s.1 != id') = true := by
    intro s hs
    simpa using apart s.1 (List.mem_map_of_mem hs) id' List.mem_cons_self
  have after : ∀ s ∈ back, (s.1 != id') = true := by
    intro s hs
    have other : id' ∉ back.map (·.1) := (List.nodup_cons.1 later).1
    have mem : s.1 ∈ back.map (·.1) := List.mem_map_of_mem hs
    simp only [bne_iff_ne, ne_eq]
    intro same
    exact other (same ▸ mem)
  rw [List.filter_append, List.filter_cons_of_neg (by simp), List.filter_eq_self.2 before,
    List.filter_eq_self.2 after]

end

/-! ## Steps -/

namespace Work

/-- Whether an event can come to this work, deed by deed. -/
inductive Reached : Work H → Prop where
  | start : Reached .start
  | subscribed {w : Work H} (h : H) : Reached w → Reached (subscribe h w).2
  | unsubscribed {w : Work H} (id : SubscriptionId) : Reached w → Reached (unsubscribe id w).2
  | called {w : Work H} (h : H) : Reached w → Reached (w.record (.called h) w.event)

/-- Work that goes on from other work, by way of calls of some handlers. -/
structure Leads (w w' : Work H) (calls : List H) : Prop where
  reached : w.Reached → w'.Reached
  past : ∃ seen, w'.past = w.past ++ seen ∧ Event.called seen = calls

theorem Leads.nothing (w : Work H) : Leads w w [] :=
  ⟨id, [], (List.append_nil w.past).symm, rfl⟩

theorem Leads.append {w w' w'' : Work H} {calls more : List H} (first : Leads w w' calls)
    (second : Leads w' w'' more) : Leads w w'' (calls ++ more) := by
  obtain ⟨seen, past, those⟩ := first.past
  obtain ⟨next, past', others⟩ := second.past
  refine ⟨fun reached => second.reached (first.reached reached), seen ++ next, ?_, ?_⟩
  · rw [past', past, List.append_assoc]
  · rw [← those, ← others]
    exact List.filterMap_append

theorem leads_subscribe (h : H) (w : Work H) : Leads w (subscribe h w).2 [] :=
  ⟨.subscribed h, [_], rfl, rfl⟩

theorem leads_unsubscribe (id : SubscriptionId) (w : Work H) : Leads w (unsubscribe id w).2 [] :=
  ⟨.unsubscribed id, [_], rfl, rfl⟩

theorem leads_called (h : H) (w : Work H) : Leads w (w.record (.called h) w.event) [h] :=
  ⟨.called h, [_], rfl, rfl⟩

end Work

open Work

theorem leads_perform (r : Routine H) (w : Work H) : Leads w (r.perform w).2 [] := by
  induction r generalizing w with
  | done => exact .nothing w
  | subscribe h next ih => exact (leads_subscribe h w).append (ih _ _)
  | unsubscribe id next ih => exact (leads_unsubscribe id w).append (ih _ _)

section

variable (behave : H → Work H → Routine H)

theorem leads_call (h : H) (w : Work H) : Leads w (call behave h w).2 [h] :=
  (leads_called h w).append (leads_perform _ _)

/-- The handlers to call are fixed before the first one runs. -/
theorem leads_raiseNow (w : Work H) : Leads w (raiseNow behave w).2 w.event.snapshot := by
  unfold raiseNow Event.raise
  induction w.event.snapshot generalizing w with
  | nil => exact .nothing w
  | cons h hs ih => exact (leads_call behave h w).append (ih _)

theorem leads_serve (r : Request H) (w : Work H) :
    Leads w (serve behave r w).2 (match r with | .raise => w.event.snapshot | _ => []) := by
  cases r with
  | subscribe h => exact leads_subscribe h w
  | unsubscribe id => exact leads_unsubscribe id w
  | raise => exact leads_raiseNow behave w

theorem run_append (first second : List (Request H)) (w : Work H) :
    (run behave (first ++ second) w).2 = (run behave second (run behave first w).2).2 := by
  induction first generalizing w with
  | nil => rfl
  | cons r first ih => exact ih _

theorem leads_run (requests : List (Request H)) (w : Work H) :
    ∃ calls, Leads w (run behave requests w).2 calls := by
  induction requests generalizing w with
  | nil => exact ⟨[], .nothing w⟩
  | cons r requests ih =>
    obtain ⟨calls, rest⟩ := ih (serve behave r w).2
    exact ⟨_, (leads_serve behave r w).append rest⟩

end

/-! ## Invariants -/

namespace Work

variable {w : Work H}

/-- What is known of work on the way, as long as the counter has not started over. -/
structure Sound (w : Work H) : Prop where
  numbered : Numbered w.past w.event
  standing : Standing w.past w.event
  lawful : ∀ earlier m later, w.past = earlier ++ m :: later → Standing earlier m.before ∧ m.Lawful earlier

theorem sound_start : Sound (start : Work H) :=
  ⟨⟨rfl, rfl, fun _ h => nomatch h⟩, ⟨rfl, rfl⟩, fun earlier _ _ h => by cases earlier <;> cases h⟩

/-- The laws of the deeds so far and of one more. -/
theorem lawful_record (sound : Sound w) {d : Deed H} {e : Event H}
    (law : Moment.Lawful w.past ⟨d, w.event, e⟩) (earlier : List (Moment H)) (m : Moment H)
    (later : List (Moment H)) (split : (w.record d e).past = earlier ++ m :: later) :
    Standing earlier m.before ∧ m.Lawful earlier := by
  have split : w.past ++ [⟨d, w.event, e⟩] = earlier ++ m :: later := split
  rcases List.eq_nil_or_concat later with rfl | ⟨rest, last, rfl⟩
  · obtain ⟨rfl, same⟩ := List.append_inj' split rfl
    cases same
    exact ⟨sound.standing, law⟩
  · rw [List.concat_eq_append, ← List.cons_append, ← List.append_assoc] at split
    exact sound.lawful earlier m rest (List.append_inj' split rfl).1

theorem issued_subscribe (h : H) (w : Work H) :
    issued (subscribe h w).2.past = issued w.past ++ [(⟨w.event.next⟩, h)] := List.filterMap_append

theorem cancelled_subscribe (h : H) (w : Work H) :
    cancelled (subscribe h w).2.past = cancelled w.past := by
  refine List.filterMap_append.trans ?_
  exact List.append_nil _

theorem issued_unsubscribe (id : SubscriptionId) (w : Work H) :
    issued (unsubscribe id w).2.past = issued w.past := by
  refine List.filterMap_append.trans ?_
  exact List.append_nil _

theorem cancelled_unsubscribe (id : SubscriptionId) (w : Work H) :
    cancelled (unsubscribe id w).2.past =
      cancelled w.past ++ if (w.event.unsubscribe id).2 then [id] else [] := by
  refine List.filterMap_append.trans ?_
  congr 1
  change List.filterMap Moment.cancelled?
    [⟨.unsubscribed id (w.event.unsubscribe id).2, w.event, (w.event.unsubscribe id).1⟩] = _
  cases (w.event.unsubscribe id).2 <;> rfl

theorem issued_called (h : H) (w : Work H) :
    issued (w.record (.called h) w.event).past = issued w.past := by
  refine List.filterMap_append.trans ?_
  exact List.append_nil _

theorem cancelled_called (h : H) (w : Work H) :
    cancelled (w.record (.called h) w.event).past = cancelled w.past := by
  refine List.filterMap_append.trans ?_
  exact List.append_nil _

theorem sound_subscribe (sound : Sound w) (h : H) (few : (issued w.past).length < UInt64.size) :
    Sound (subscribe h w).2 := by
  have fresh : (⟨w.event.next⟩ : SubscriptionId) ∉ (issued w.past).map (·.1) := sound.numbered.fresh few
  have kept : (⟨w.event.next⟩ : SubscriptionId) ∉ cancelled w.past :=
    fun mem => fresh (sound.numbered.cancelled _ mem)
  refine ⟨⟨?_, ?_, ?_⟩, ⟨?_, ?_⟩, lawful_record sound ⟨fresh, rfl⟩⟩
  · rw [issued_subscribe, List.map_append, sound.numbered.ids, List.length_append, List.length_singleton,
      List.range_succ, List.map_append, sound.numbered.next]
    rfl
  · have next : (subscribe h w).2.event.next = w.event.next + 1 := rfl
    rw [next, issued_subscribe, sound.numbered.next, List.length_append, List.length_singleton,
      UInt64.ofNat_add]
    rfl
  · intro id mem
    rw [cancelled_subscribe] at mem
    rw [issued_subscribe, List.map_append]
    exact List.mem_append_left _ (sound.numbered.cancelled id mem)
  · have handlers : (subscribe h w).2.event.handlers = w.event.handlers ++ [(⟨w.event.next⟩, h)] := rfl
    rw [handlers, issued_subscribe, cancelled_subscribe, sound.standing.handlers, List.filter_append]
    congr 1
    rw [List.filter_cons_of_pos (by simpa using kept), List.filter_nil]
  · have count : (subscribe h w).2.event.count = w.event.count + 1 := List.length_append
    have before := sound.standing.count
    rw [count, issued_subscribe, cancelled_subscribe, List.length_append, List.length_singleton]
    omega

/-- A subscription that is live is cancelled, and no other. -/
theorem sound_unsubscribe_live (sound : Sound w) {id : SubscriptionId} (live : id ∈ w.event.live)
    (few : (issued w.past).length ≤ UInt64.size) : Sound (unsubscribe id w).2 := by
  have found : (w.event.unsubscribe id).2 = true := (w.event.unsubscribe_eq_true id).2 live
  have nodup : w.event.live.Nodup := (sound.numbered.nodup few).sublist sound.standing.sublist
  obtain ⟨front, h, back, split, rest⟩ := exists_split nodup live
  have after : (unsubscribe id w).2.event.handlers = front ++ back := rest
  have those : cancelled (unsubscribe id w).2.past = cancelled w.past ++ [id] := by
    rw [cancelled_unsubscribe, if_pos found]
  have step : (unsubscribe id w).2 = w.record (.unsubscribed id true) (w.event.unsubscribe id).1 := by
    rw [← found]
    rfl
  refine ⟨⟨?_, ?_, ?_⟩, ⟨?_, ?_⟩, ?_⟩
  · rw [issued_unsubscribe]
    exact sound.numbered.ids
  · rw [issued_unsubscribe]
    exact sound.numbered.next
  · intro other mem
    rw [those] at mem
    rw [issued_unsubscribe]
    rcases List.mem_append.1 mem with mem | mem
    · exact sound.numbered.cancelled other mem
    · rw [List.mem_singleton.1 mem]
      exact sound.standing.sublist.subset live
  · have handlers : (unsubscribe id w).2.event.handlers = w.event.handlers.filter (·.1 != id) := rfl
    rw [handlers, issued_unsubscribe, those, sound.standing.handlers, List.filter_filter]
    refine List.filter_congr fun s _ => ?_
    rw [Bool.eq_iff_iff]
    simp [and_comm]
  · have before := sound.standing.count
    simp only [count, split, List.length_append, List.length_cons] at before
    rw [count, after, issued_unsubscribe, those, List.length_append, List.length_append, List.length_singleton]
    omega
  · rw [step]
    exact lawful_record sound ⟨by simp [live], front, h, back, split, rest⟩

/-- A deed that is no subscription, cancels nothing and leaves the event alone. -/
theorem sound_record (sound : Sound w) {d : Deed H} (issues : issued (w.record d w.event).past = issued w.past)
    (cancels : cancelled (w.record d w.event).past = cancelled w.past)
    (law : Moment.Lawful w.past ⟨d, w.event, w.event⟩) : Sound (w.record d w.event) := by
  refine ⟨⟨?_, ?_, ?_⟩, ⟨?_, ?_⟩, lawful_record sound law⟩
  · rw [issues]
    exact sound.numbered.ids
  · rw [issues]
    exact sound.numbered.next
  · rw [issues, cancels]
    exact sound.numbered.cancelled
  · rw [issues, cancels]
    exact sound.standing.handlers
  · rw [issues, cancels]
    exact sound.standing.count

/-- Cancelling a subscription that is not live changes nothing. -/
theorem sound_unsubscribe_gone (sound : Sound w) {id : SubscriptionId} (gone : id ∉ w.event.live) :
    Sound (unsubscribe id w).2 := by
  have missing : (w.event.unsubscribe id).2 = false :=
    Bool.eq_false_iff.2 fun found => gone ((w.event.unsubscribe_eq_true id).1 found)
  have same : (w.event.unsubscribe id).1 = w.event := by
    have handlers : w.event.handlers.filter (·.1 != id) = w.event.handlers := by
      refine List.filter_eq_self.2 fun s hs => ?_
      have mem : s.1 ∈ w.event.live := List.mem_map_of_mem hs
      simp only [bne_iff_ne, ne_eq]
      intro equal
      exact gone (equal ▸ mem)
    simp only [Event.unsubscribe, handlers]
  have issues := issued_unsubscribe id w
  have cancels : cancelled (unsubscribe id w).2.past = cancelled w.past := by
    rw [cancelled_unsubscribe, missing]
    exact List.append_nil _
  have step : (unsubscribe id w).2 = w.record (.unsubscribed id false) w.event := by
    rw [← missing]
    conv => rhs; arg 3; rw [← same]
    rfl
  rw [step] at issues cancels ⊢
  exact sound_record sound issues cancels ⟨by simp [gone], rfl⟩

theorem sound_called (sound : Sound w) (h : H) : Sound (w.record (.called h) w.event) :=
  sound_record sound (issued_called h w) (cancelled_called h w) rfl

/-- All work that an event can come to is sound, as long as the counter has not started over. -/
theorem Reached.sound (reached : w.Reached) (few : (issued w.past).length ≤ UInt64.size) : w.Sound := by
  induction reached with
  | start => exact sound_start
  | subscribed h _ ih =>
    rw [issued_subscribe, List.length_append, List.length_singleton] at few
    exact sound_subscribe (ih (by omega)) h few
  | @unsubscribed w id _ ih =>
    rw [issued_unsubscribe] at few
    by_cases live : id ∈ w.event.live
    · exact sound_unsubscribe_live (ih few) live few
    · exact sound_unsubscribe_gone (ih few) live
  | called h _ ih =>
    rw [issued_called] at few
    exact sound_called (ih few) h

end Work

/-! ## Runs -/

/-- A run of requests, with handlers that subscribe and unsubscribe while they run: as long as the counter has
not started over, no subscription is like another, at every moment the live handlers are those subscribed and
not cancelled, in order, each deed does to the event what it should, and each raise calls the handlers that
were live when it began. -/
theorem run_law (behave : H → Work H → Routine H) (requests : List (Request H))
    (few : (issued (run behave requests .start).2.past).length ≤ UInt64.size) :
    let w := (run behave requests .start).2
    ((issued w.past).map (·.1)).Nodup ∧ Standing w.past w.event ∧
      (∀ earlier m later, w.past = earlier ++ m :: later → Standing earlier m.before ∧ m.Lawful earlier) ∧
      ∀ earlier later, requests = earlier ++ .raise :: later →
        let before := (run behave earlier .start).2
        let after := (run behave (earlier ++ [.raise]) .start).2
        ∃ seen rest, after.past = before.past ++ seen ∧ w.past = after.past ++ rest ∧
          called seen = before.event.snapshot := by
  intro w
  obtain ⟨calls, leads⟩ := leads_run behave requests .start
  have sound : w.Sound := (leads.reached .start).sound few
  refine ⟨sound.numbered.nodup few, sound.standing, sound.lawful, ?_⟩
  intro earlier later split before after
  have raised : after = (raiseNow behave before).2 := run_append behave earlier [.raise] .start
  obtain ⟨seen, past, those⟩ := (leads_raiseNow behave before).past
  obtain ⟨calls, onward⟩ := leads_run behave later after
  obtain ⟨rest, past', -⟩ := onward.past
  refine ⟨seen, rest, by rw [raised, past], ?_, those⟩
  have whole : w = (run behave later after).2 := by
    have requests : requests = (earlier ++ [.raise]) ++ later := by simp [split]
    simp only [w, after]
    rw [requests, run_append]
  rw [whole, past']

/-- Three handlers: the first one cancels itself and the last one and subscribes a fourth, which is called from
the next raise on. The last one is called once more. -/
theorem run_law_cancelledWhileRaised :
    let behave : Nat → Work Nat → Routine Nat := fun h _ =>
      if h = 0 then .unsubscribe ⟨0⟩ fun _ => .unsubscribe ⟨2⟩ fun _ => .subscribe 3 fun _ => .done else .done
    let subscribed : List (Request Nat) := [.subscribe 0, .subscribe 1, .subscribe 2]
    let requests : List (Request Nat) := subscribed ++ [.raise, .raise]
    let before := (run behave subscribed .start).2
    let after := (run behave (subscribed ++ [.raise]) .start).2
    let w := (run behave requests .start).2
    (issued w.past).length ≤ UInt64.size ∧ after.event.snapshot = [1, 3] ∧
      ∃ seen rest, after.past = before.past ++ seen ∧ w.past = after.past ++ rest ∧ called seen = [0, 1, 2] := by
  intro behave subscribed requests before after w
  have few : (issued w.past).length ≤ UInt64.size := by decide +kernel
  have live : after.event.snapshot = [1, 3] := by decide +kernel
  have snapshot : before.event.snapshot = [0, 1, 2] := by decide +kernel
  have law := run_law behave requests few
  rw [← snapshot]
  exact ⟨few, live, law.2.2.2 subscribed [.raise] rfl⟩

end LiveSettings.Event
