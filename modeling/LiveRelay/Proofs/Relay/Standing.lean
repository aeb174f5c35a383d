import LiveRelay.Proofs.Relay.Placed

/-! # Where a connection stands

A connection gives its seat back in one of two ways: it stops and says so, or the room takes the seat
away and orders it to stop, and then it says nothing. The two may cross on their way. `Standing`
lists every combination of a connection, its seat, its commands that are still in the channel and an
order that is still on its way to it.
-/

namespace LiveRelay

/-- Whether an event orders its connection to stop. -/
def Event.Dismisses : Event → Prop
  | .dismissal _ => True
  | .message _ => False

instance : DecidablePred Event.Dismisses
  | .dismissal _ => .isTrue trivial
  | .message _ => .isFalse id

/-- Whether a command seats or unseats a connection on its own behalf. -/
def Command.moves (h : Handle) : Command → Bool
  | .connect k _ | .disconnect k => k == h
  | .message _ _ | .listParticipants | .kick _ => false

/-- The commands of a connection in the channel that seat or unseat it. -/
def calls (h : Handle) (commands : List Command) : List Command := commands.filter (·.moves h)

/-- Whether a connection was ever ordered to stop. -/
def Told (offers : List Offer) (h : Handle) : Prop :=
  ∃ o ∈ offers, o.handle = h ∧ o.event.Dismisses

instance (offers : List Offer) (h : Handle) : Decidable (Told offers h) :=
  inferInstanceAs (Decidable (∃ o ∈ offers, o.handle = h ∧ o.event.Dismisses))

/-- What is sent out to stop a connection is for one that is refused, or whose seat is taken away. -/
theorem Room.order_of_dispatch {r : Room} {d : Deed} {e : Dispatch} (sent : e ∈ r.dispatches d)
    (order : e.event.Dismisses) :
    (∃ box, d = .refused e.handle box) ∨ ∃ s, d = .dismissed e.handle s ∧ s.outbox = e.outbox := by
  have quiet {recipients : Recipients} {m : ServerMessage} {seats : List (Handle × Seat)} :
      e ∉ news recipients m seats := by
    intro member
    rw [event_of_news member] at order
    exact order
  cases d with
  | refused k box =>
    rw [List.mem_singleton.mp sent]
    exact .inl ⟨box, rfl⟩
  | dismissed k s =>
    rcases List.mem_append.mp sent with news | order
    · exact absurd news quiet
    · rw [List.mem_singleton.mp order]
      exact .inr ⟨s, rfl, rfl⟩
  | admitted k s => rcases List.mem_append.mp sent with news | news <;> exact absurd news quiet
  | left k s => exact absurd sent quiet
  | changed k s c => exact absurd sent quiet
  | restarted k => exact absurd sent quiet
  | clashed k => cases sent
  | nothing => cases sent

namespace Outboxes

/-- An outbox that takes events. -/
def Opened (b : Outboxes) (box : OutboxId) : Prop :=
  ∃ o, b.get? box = some o ∧ o.reception = .opened

/-- An outbox that holds an order to stop. -/
def Orders (b : Outboxes) (box : OutboxId) : Prop :=
  ∃ o, b.get? box = some o ∧ ∃ e ∈ o.events, e.Dismisses

variable {b : Outboxes} {box : OutboxId}

theorem opened_offer (h : Handle) (i : OutboxId) (e : Event) :
    (b.offer h i e).1.Opened box ↔ b.Opened box := by
  simp only [Opened, offer, get?_modify]
  split
  · simp [Option.map_eq_some_iff, Outbox.reception_offer]
  · rfl

theorem orders_offer {i : OutboxId} {e : Event} (other : i = box → ¬ e.Dismisses) (h : Handle) :
    (b.offer h i e).1.Orders box ↔ b.Orders box := by
  simp only [Orders, offer, get?_modify]
  split
  · next same =>
    have news := other same
    have kept (o : Outbox) :
        (∃ d ∈ (o.offer e).events, d.Dismisses) ↔ ∃ d ∈ o.events, d.Dismisses := by
      rw [Outbox.events_offer]
      split
      · simp [or_and_right, exists_or, news]
      · rfl
    simp [Option.map_eq_some_iff, kept]
  · rfl

/-- An order is not lost by what is offered later. -/
theorem orders_of_orders (ordered : b.Orders box) (h : Handle) (i : OutboxId) (e : Event) :
    (b.offer h i e).1.Orders box := by
  obtain ⟨o, found, d, member, order⟩ := ordered
  simp only [Orders, offer, get?_modify]
  split
  · refine ⟨o.offer e, by rw [found, Option.map_some], d, ?_, order⟩
    rw [Outbox.events_offer]
    split
    · exact List.mem_append_left _ member
    · exact member
  · exact ⟨o, found, d, member, order⟩

/-- An order that is not too much for an open outbox is in it then. -/
theorem orders_of_offer {h : Handle} {e : Event} (opened : b.Opened box) (order : e.Dismisses)
    (kept : (b.offer h box e).2.verdict ≠ .full) : (b.offer h box e).1.Orders box := by
  obtain ⟨o, found, reception⟩ := opened
  have verdict : o.verdict = .accepted := by
    simp only [offer, found, Option.map_some, Option.getD_some, Outbox.verdict] at kept ⊢
    split at kept
    · next closed => exact absurd reception closed
    · split at kept
      · exact absurd rfl kept
      · next room => simp [reception, room]
  refine ⟨o.offer e, ?_, e, ?_, order⟩
  · simp [offer, get?_modify, found]
  · simp [Outbox.events_offer, verdict]

theorem opened_dispatch (ds : List Dispatch) :
    (b.dispatch ds).1.Opened box ↔ b.Opened box := by
  induction ds generalizing b with
  | nil => rfl
  | cons d ds ih => exact ih.trans (opened_offer d.handle d.outbox d.event)

theorem orders_dispatch_of_orders (ordered : b.Orders box) (ds : List Dispatch) :
    (b.dispatch ds).1.Orders box := by
  induction ds generalizing b with
  | nil => exact ordered
  | cons d ds ih => exact ih (orders_of_orders ordered d.handle d.outbox d.event)

theorem orders_dispatch {ds : List Dispatch}
    (other : ∀ d ∈ ds, d.outbox = box → ¬ d.event.Dismisses) :
    (b.dispatch ds).1.Orders box ↔ b.Orders box := by
  induction ds generalizing b with
  | nil => rfl
  | cons d ds ih =>
    have here := orders_offer (b := b) (other d List.mem_cons_self) d.handle
    exact (ih fun e member => other e (List.mem_cons_of_mem d member)).trans here

end Outboxes

namespace Connection

/-- A connection that runs, with an outbox that takes events. -/
structure Runs (b : Outboxes) (c : Connection) (box : OutboxId) : Prop where
  running : c.phase = .running
  kept : c.dismissed = false
  own : c.outbox = some box
  opened : b.Opened box

/-- An order to stop is on its way to a connection. -/
def Awaits (b : Outboxes) (c : Connection) : Prop :=
  (∃ e, c.inFlight = some e ∧ e.Dismisses) ∨ ∃ box, c.outbox = some box ∧ b.Orders box

/-- Whether a connection runs, and whether an order is on its way to it, depends on its own outbox
alone. -/
theorem Runs.congr {b after : Outboxes} {c : Connection} {box : OutboxId} (runs : c.Runs b box)
    (same : after.Opened box ↔ b.Opened box) : c.Runs after box :=
  ⟨runs.running, runs.kept, runs.own, same.mpr runs.opened⟩

theorem awaits_congr {b after : Outboxes} {c : Connection}
    (same : ∀ box, c.outbox = some box → (after.Orders box ↔ b.Orders box)) :
    c.Awaits after ↔ c.Awaits b := by
  apply or_congr Iff.rfl
  apply exists_congr
  intro box
  exact and_congr_right fun own => same box own

/-- Where a connection stands: the connection, whether it was ever told to stop, its seat, and its
commands in the channel. -/
inductive Standing (b : Outboxes) (told : Prop) (c : Connection) :
    Option Seat → List Command → Prop
  | upgraded (fresh : c = .upgraded c.handle c.heardAt) (untold : ¬ told) : Standing b told c none []
  | asking {box : OutboxId} (runs : c.Runs b box) (unordered : ¬ c.Awaits b) (untold : ¬ told) :
      Standing b told c none [.connect c.handle box]
  | seated {seat : Seat} (runs : c.Runs b seat.outbox) (unordered : ¬ c.Awaits b)
      (untold : ¬ told) : Standing b told c (some seat) []
  | unseated {box : OutboxId} (runs : c.Runs b box) (ordered : c.Awaits b) :
      Standing b told c none []
  | hasty {box : OutboxId} (stopped : c.phase = .stopped) (own : c.outbox = some box)
      (untold : ¬ told) :
      Standing b told c none [.connect c.handle box, .disconnect c.handle]
  | leaving {seat : Option Seat} (stopped : c.phase = .stopped)
      (own : ∀ s ∈ seat, c.outbox = some s.outbox) (untold : seat.isSome → ¬ told) :
      Standing b told c seat [.disconnect c.handle]
  | gone (stopped : c.phase = .stopped) : Standing b told c none []

namespace Standing

variable {b after : Outboxes} {told toldAfter : Prop} {c : Connection} {seat : Option Seat}
  {s : Seat} {commands rest : List Command} {k : Handle} {box : OutboxId}

/-- Where a connection stands depends on its own outbox alone. -/
theorem congr (standing : Standing b told c seat commands)
    (alike : ∀ box, c.outbox = some box →
      (after.Opened box ↔ b.Opened box) ∧ (after.Orders box ↔ b.Orders box))
    (same : toldAfter ↔ told) : Standing after toldAfter c seat commands := by
  have runs {box : OutboxId} (runs : c.Runs b box) : c.Runs after box :=
    runs.congr (alike box runs.own).1
  have awaits : c.Awaits after ↔ c.Awaits b := awaits_congr fun box own => (alike box own).2
  cases standing with
  | upgraded fresh untold => exact .upgraded fresh (untold ∘ same.mp)
  | asking ran unordered untold =>
    exact .asking (runs ran) (unordered ∘ awaits.mp) (untold ∘ same.mp)
  | seated ran unordered untold =>
    exact .seated (runs ran) (unordered ∘ awaits.mp) (untold ∘ same.mp)
  | unseated ran ordered => exact .unseated (runs ran) (awaits.mpr ordered)
  | hasty stopped own untold => exact .hasty stopped own (untold ∘ same.mp)
  | leaving stopped own untold =>
    exact .leaving stopped own fun seated => untold seated ∘ same.mp
  | gone stopped => exact .gone stopped

/-- A connection whose request for a seat is next has none, and gets one with its own outbox. -/
theorem admitted (standing : Standing b told c seat (.connect k box :: rest)) :
    seat = none ∧ c.outbox = some box ∧
      ∀ s : Seat, s.outbox = box → Standing b told c (some s) rest := by
  cases standing with
  | asking runs unordered untold =>
    refine ⟨rfl, runs.own, ?_⟩
    rintro s rfl
    exact .seated runs unordered untold
  | hasty stopped own untold =>
    refine ⟨rfl, own, ?_⟩
    rintro s rfl
    refine .leaving stopped ?_ fun _ => untold
    rintro _ ⟨⟩
    exact own

/-- A connection that takes its leave has stopped, and has no seat and nothing to say then. -/
theorem excused (standing : Standing b told c seat (.disconnect k :: rest)) :
    Standing b told c none rest := by
  cases standing with
  | leaving stopped own untold => exact .gone stopped

/-- A seat has the outbox of its connection, and a seated connection was not told to stop. -/
theorem of_seat (standing : Standing b told c (some s) commands) :
    c.outbox = some s.outbox ∧ ¬ told := by
  cases standing with
  | seated runs unordered untold => exact ⟨runs.own, untold⟩
  | leaving stopped own untold => exact ⟨own s rfl, untold rfl⟩

/-- What a participant says does not move its seat. -/
theorem moved (standing : Standing b told c (some s) commands) {other : Seat}
    (same : other.outbox = s.outbox) : Standing b told c (some other) commands := by
  cases standing with
  | seated runs unordered untold => exact .seated (same ▸ runs) unordered untold
  | leaving stopped own untold =>
    refine .leaving stopped ?_ fun _ => untold rfl
    rintro _ ⟨⟩
    exact same ▸ own s rfl

/-- A connection whose seat is taken away is ordered to stop, or stops already. -/
theorem removed (standing : Standing b told c (some s) commands)
    (opened : b.Opened s.outbox → after.Opened s.outbox)
    (ordered : b.Opened s.outbox → after.Orders s.outbox) :
    Standing after toldAfter c none commands := by
  cases standing with
  | seated runs unordered untold =>
    have still : c.Runs after s.outbox :=
      ⟨runs.running, runs.kept, runs.own, opened runs.opened⟩
    exact .unseated still (.inr ⟨s.outbox, runs.own, ordered runs.opened⟩)
  | leaving stopped own untold => exact .leaving stopped nofun nofun

/-- A connection that runs waits for a seat, has one, or has lost it and is ordered to stop. -/
theorem of_running (standing : Standing b told c seat commands) (running : c.phase = .running) :
    ∃ box, c.Runs b box ∧
      (¬ c.Awaits b ∧ ¬ told ∧ seat = none ∧ commands = [.connect c.handle box] ∨
        ¬ c.Awaits b ∧ ¬ told ∧ (∃ s, seat = some s ∧ s.outbox = box) ∧ commands = [] ∨
        c.Awaits b ∧ seat = none ∧ commands = []) := by
  cases standing with
  | upgraded fresh untold => rw [fresh] at running; cases running
  | asking runs unordered untold => exact ⟨_, runs, .inl ⟨unordered, untold, rfl, rfl⟩⟩
  | seated runs unordered untold =>
    exact ⟨_, runs, .inr (.inl ⟨unordered, untold, ⟨_, rfl, rfl⟩, rfl⟩)⟩
  | unseated runs ordered => exact ⟨_, runs, .inr (.inr ⟨ordered, rfl, rfl⟩)⟩
  | hasty stopped own untold => cases running.symm.trans stopped
  | leaving stopped own untold => cases running.symm.trans stopped
  | gone stopped => cases running.symm.trans stopped

end Standing

namespace Acts

variable {b after : Outboxes} {now i : Nat} {c next : Connection} {a : Action}
  {commands sent : List Command} {told : Prop} {seat : Option Seat}

/-- What a connection sends concerns no other one. -/
theorem calls_other (acts : c.Acts b now i a next sent after) {h : Handle} (other : h ≠ c.handle) :
    calls h sent = [] := by
  have apart : ¬ c.handle = h := fun same => other same.symm
  cases acts with
  | started phase => simp [calls, Command.moves, apart]
  | quit | timedOut => cases c.dismissed <;> simp [calls, Command.moves, apart]
  | said running read => rfl
  | heard | pinged | took | wrote | obeyed | dropped | lost => rfl

/-- A connection that starts asks for a seat. -/
theorem standing_start (standing : c.Standing b told seat commands) (phase : c.phase = .upgraded)
    (capacity : Capacity) :
    ({ c with phase := .running, outbox := some b.next } : Connection).Standing
      (b.add (.empty capacity)) told seat (commands ++ [.connect c.handle b.next]) := by
  have found : (b.add (.empty capacity)).get? b.next = some (.empty capacity) := by
    rw [Outboxes.get?_add, if_pos rfl]
  cases standing with
  | upgraded fresh untold =>
    have kept : c.dismissed = false := by rw [fresh]; rfl
    have free : c.inFlight = none := by rw [fresh]; rfl
    refine .asking ⟨rfl, kept, rfl, _, found, rfl⟩ ?_ untold
    rintro (⟨e, flying, -⟩ | ⟨box, own, o, held, e, member, -⟩)
    · cases free.symm.trans flying
    · obtain rfl : b.next = box := Option.some.inj own
      cases found.symm.trans held
      cases member
  | asking runs unordered untold => cases phase.symm.trans runs.running
  | seated runs unordered untold => cases phase.symm.trans runs.running
  | unseated runs ordered => cases phase.symm.trans runs.running
  | hasty stopped own untold => cases phase.symm.trans stopped
  | leaving stopped own untold => cases phase.symm.trans stopped
  | gone stopped => cases phase.symm.trans stopped

/-- A connection that stops on its own takes its leave. -/
theorem standing_quit (standing : c.Standing b told seat commands) (running : c.phase = .running)
    (written : List Outgoing) :
    ({ c with phase := .stopped, written := written } : Connection).Standing b told seat
      (commands ++ [.disconnect c.handle]) := by
  obtain ⟨box, runs, ⟨-, untold, rfl, rfl⟩ | ⟨-, untold, ⟨s, rfl, rfl⟩, rfl⟩ | ⟨-, rfl, rfl⟩⟩ :=
    standing.of_running running
  · exact .hasty rfl runs.own untold
  · refine .leaving rfl ?_ fun _ => untold
    rintro _ ⟨⟩
    exact runs.own
  · exact .leaving rfl nofun nofun

/-- A connection that is ordered to stop has no seat any more, and says nothing. -/
theorem standing_obey (standing : c.Standing b told seat commands) (running : c.phase = .running)
    (ordered : c.Awaits b) (stopped : next.phase = .stopped) :
    next.Standing b told seat commands := by
  obtain ⟨box, runs, ⟨unordered, -⟩ | ⟨unordered, -⟩ | ⟨-, rfl, rfl⟩⟩ :=
    standing.of_running running
  · exact absurd ordered unordered
  · exact absurd ordered unordered
  · exact .gone stopped

/-- A connection that runs on, with its orders where they were or on their way, stands where it
stood. -/
theorem standing_run (standing : c.Standing b told seat commands) (running : c.phase = .running)
    (runs : ∀ box, c.Runs b box → next.Runs after box ∧ (next.Awaits after ↔ c.Awaits b))
    (handle : next.handle = c.handle) : next.Standing after told seat commands := by
  obtain ⟨box, ran, waits⟩ := standing.of_running running
  obtain ⟨still, awaits⟩ := runs box ran
  rcases waits with ⟨unordered, untold, rfl, rfl⟩ | ⟨unordered, untold, ⟨s, rfl, rfl⟩, rfl⟩ |
    ⟨ordered, rfl, rfl⟩
  · exact handle ▸ .asking still (unordered ∘ awaits.mp) untold
  · exact .seated still (unordered ∘ awaits.mp) untold
  · exact .unseated still (awaits.mpr ordered)

/-- A connection that does not run stands where it stood whatever becomes of its outbox. -/
theorem standing_off (standing : c.Standing b told seat commands) (off : c.phase ≠ .running)
    (handle : next.handle = c.handle) (phase : next.phase = c.phase)
    (outbox : next.outbox = c.outbox) (unstarted : c = .upgraded c.handle c.heardAt → next = c) :
    next.Standing after told seat commands := by
  cases standing with
  | upgraded fresh untold => exact .upgraded (by rw [unstarted fresh]; exact fresh) untold
  | asking runs unordered untold => exact absurd runs.running off
  | seated runs unordered untold => exact absurd runs.running off
  | unseated runs ordered => exact absurd runs.running off
  | hasty stopped own untold =>
    exact handle ▸ .hasty (phase.trans stopped) (outbox.trans own) untold
  | leaving stopped own untold =>
    exact handle ▸ .leaving (phase.trans stopped) (fun s held => outbox.trans (own s held)) untold
  | gone stopped => exact .gone (phase.trans stopped)

/-- An event that is taken out of an outbox is on its way. -/
theorem runs_took {box : OutboxId} {o : Outbox} {e : Event} {rest : List Event}
    (runs : c.Runs b box) (free : c.inFlight = none) (found : b.get? box = some o)
    (first : o.events = e :: rest) :
    let after := b.modify box fun o => (o.take 1).2
    let next := { c with inFlight := some e }
    next.Runs after box ∧ (next.Awaits after ↔ c.Awaits b) := by
  intro after next
  have held : after.get? box = some { o with events := rest } := by
    simp [after, Outboxes.get?_modify, found, Outbox.take, first]
  have opened : o.reception = .opened := by
    obtain ⟨other, same, reception⟩ := runs.opened
    cases found.symm.trans same
    exact reception
  refine ⟨⟨runs.running, runs.kept, runs.own, _, held, opened⟩, ?_⟩
  simp [Awaits, Outboxes.Orders, next, free, runs.own, held, found, first]

/-- As long as a connection runs on, no order to it gets lost and none comes up. -/
theorem runs_on (acts : c.Acts b now i a next sent after) (running : c.phase = .running)
    (still : next.phase = .running) {box : OutboxId} (runs : c.Runs b box) :
    next.Runs after box ∧ (next.Awaits after ↔ c.Awaits b) := by
  cases acts with
  | started phase => cases running.symm.trans phase
  | heard | said | pinged => exact ⟨⟨runs.running, runs.kept, runs.own, runs.opened⟩, Iff.rfl⟩
  | quit | timedOut => cases still
  | took _ own free found first =>
    obtain rfl := Option.some.inj (own.symm.trans runs.own)
    exact runs_took runs free found first
  | wrote written _ flying =>
    refine ⟨⟨runs.running, runs.kept, runs.own, runs.opened⟩, ?_⟩
    simp [Awaits, flying, Event.Dismisses]
  | obeyed => cases still
  | dropped off => exact absurd running off
  | lost off => exact absurd running off

/-- What a connection does moves it from one standing to another. -/
theorem standing_acts (standing : c.Standing b told seat commands)
    (acts : c.Acts b now i a next sent after) :
    next.Standing after told seat (commands ++ calls c.handle sent) := by
  have silent (standing : next.Standing after told seat commands) :
      next.Standing after told seat (commands ++ calls c.handle []) := by
    rwa [calls, List.filter_nil, List.append_nil]
  have on (running : c.phase = .running) (still : next.phase = .running) {box : OutboxId}
      (runs : c.Runs b box) := acts.runs_on running still runs
  cases acts with
  | started phase =>
    have asked := standing_start standing phase Outbox.usualCapacity
    simpa [calls, Command.moves] using asked
  | heard _ _ running | pinged _ running =>
    exact silent (standing_run standing running (fun box => on running running) rfl)
  | said running read =>
    have still := standing_run standing running (fun box => on running running) rfl
    simpa [calls, Command.moves] using still
  | quit written running | timedOut written running =>
    -- Whoever runs was not dismissed yet, so the leave is sent in any case.
    obtain ⟨box, runs, -⟩ := standing.of_running running
    have left := standing_quit standing running written
    simpa [calls, Command.moves, runs.kept] using left
  | took running own free found first =>
    exact silent (standing_run standing running (fun box => on running running) rfl)
  | wrote written running flying =>
    exact silent (standing_run standing running (fun box => on running running) rfl)
  | obeyed written running flying =>
    apply silent
    exact standing_obey standing running (.inl ⟨_, flying, trivial⟩) rfl
  | dropped off own =>
    apply silent
    exact standing_off standing off rfl rfl rfl fun _ => rfl
  | lost off =>
    apply silent
    refine standing_off standing off rfl rfl rfl fun fresh => ?_
    rw [fresh]
    rfl

end Acts

end Connection

end LiveRelay
