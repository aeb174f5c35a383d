import LiveRelay.Proofs.Relay.Steady
import LiveRelay.Proofs.Relay.Wired
import LiveRelay.Proofs.Session.Seclusion

/-! # Participants who are removed

Whoever is removed loses the seat first, and is ordered to stop then. The order goes to the end of
the outbox like any other event, so it is lost if the outbox is full. A connection whose order got
lost runs on without a seat, and there is no other way to come to that.
-/

namespace LiveRelay

namespace Session

variable {s : Session} {x : Happening} {h : Handle} {seat : Seat} {taken : List OutboxId}

/-- The outbox of whoever is seated holds no order to stop. -/
def Unordered (s : Session) : Prop :=
  ∀ h seat, s.room.seating.seat? h = some seat →
    ∀ e ∈ s.outboxes.contents seat.outbox, ¬ e.Dismisses

theorem unordered_step (unordered : s.Unordered) (housed : s.Housed taken)
    (allowed : s.Allows taken x) : (s.step x).session.Unordered := by
  intro h seat found e member
  have told := housed.told_step allowed found
  have sent := (Prod.mk.inj (s.step_deed x).2.2).1
  have grown := (s.prepared x).contents_dispatch_sublist (s.room.dispatches (s.deed x)) seat.outbox
  rw [← sent, ← events_step, told] at grown
  rcases List.mem_append.mp (grown.mem member) with old | new
  · have held := ((List.sublist_append_right _ _).trans (s.taken_sublist x seat.outbox)).mem old
    rcases seat_after found with happened | ⟨before, sat, same, -⟩
    · -- The outbox of a newcomer was empty before.
      have blank := housed.blank _ (housed.outbox_of_admitted allowed happened).2
      unfold Outboxes.contents at held
      cases there : s.outboxes.get? seat.outbox with
      | none =>
        rw [there] at held
        cases held
      | some o =>
        rw [there, Option.map_some, Option.getD_some, blank o there] at held
        cases held
    · exact unordered h before sat e (same ▸ held)
  · obtain ⟨m, -, rfl⟩ := List.mem_map.mp new
    exact id

theorem unordered_run {xs : List Happening} (orderly : Orderly xs) :
    (start.run xs).Unordered := by
  induction xs using List.reverseRecOn with
  | nil =>
    intro h seat found
    cases found
  | append_singleton xs x ih =>
    rw [run_concat]
    exact unordered_step (ih orderly.before) (housed_run orderly.before) orderly.allows

/-- A kick takes the seat away, and then offers the order to stop to the outbox of the seat and
nothing else. -/
theorem kick_step (housed : s.Housed taken) (found : s.room.seating.seat? h = some seat) :
    let out := s.step (.command (.kick seat.participant.id))
    out.reply = .kicked true ∧ out.room.seating.seat? h = none ∧
      out.outboxes.get? seat.outbox =
        (s.outboxes.get? seat.outbox).map (·.offer (.dismissal Room.kickReason)) := by
  intro out
  have deed : s.deed (.command (.kick seat.participant.id)) = .dismissed h seat :=
    Room.deed_kick_of_seat housed.consistent found
  have fits := s.fits_deed (.command (.kick seat.participant.id))
  obtain ⟨seating, -, sent⟩ := s.step_deed (.command (.kick seat.participant.id))
  have sits (k : Handle) : out.room.seating.seat? k =
      if k = h then none else s.room.seating.seat? k := by
    rw [seating, Room.seat?_does fits, deed, Deed.reseat]
  refine ⟨?_, by rw [sits, if_pos rfl], ?_⟩
  · have known := housed.consistent.handleOf?_eq_some_iff.mpr ⟨seat, found, rfl⟩
    rw [s.reply_step _ rfl, Room.answer, known]
    rfl
  · have unseated : ¬ out.room.seating.HasOutbox seat.outbox := by
      rintro ⟨k, other, there, same⟩
      rw [sits] at there
      split at there
      · cases there
      · next apart => exact apart (housed.apart k h other seat there found same)
    have offered := housed.lastWord_step unseated
    rw [deed, Deed.lastWord, if_pos rfl, events_step] at offered
    rw [(Prod.mk.inj sent).1, Outboxes.get?_dispatch, offered]
    rfl

end Session

/-- An order to stop got lost, because the outbox of its connection was full. -/
def Lost (offers : List Offer) (h : Handle) : Prop :=
  ∃ o ∈ offers, o.handle = h ∧ o.event.Dismisses ∧ o.verdict = .full

instance (offers : List Offer) (h : Handle) : Decidable (Lost offers h) :=
  inferInstanceAs (Decidable (∃ o ∈ offers, o.handle = h ∧ o.event.Dismisses ∧ o.verdict = .full))

theorem Lost.told {offers : List Offer} {h : Handle} (lost : Lost offers h) : Told offers h := by
  obtain ⟨o, offered, same, order, -⟩ := lost
  exact ⟨o, offered, same, order⟩

theorem Lost.append {offers : List Offer} {h : Handle} (lost : Lost offers h) (more : List Offer) :
    Lost (offers ++ more) h := by
  obtain ⟨o, offered, same⟩ := lost
  exact ⟨o, List.mem_append_left _ offered, same⟩

namespace Connection.Acts

variable {b after : Outboxes} {now i : Nat} {c next : Connection} {a : Action} {sent : List Command}
  {h : Handle}

/-- A connection starts with a new outbox, and asks for a seat. -/
theorem opens (acts : c.Acts b now i a next sent after) (phase : c.phase = .upgraded)
    (running : next.phase = .running) :
    next = { c with phase := .running, outbox := some b.next } ∧
      sent = [.connect c.handle b.next] ∧ after = b.add (.empty Outbox.usualCapacity) := by
  cases acts with
  | started => exact ⟨rfl, rfl, rfl⟩
  | heard _ _ ran | said ran | pinged _ ran | took ran | wrote _ ran => cases phase.symm.trans ran
  | quit | timedOut | obeyed => cases running
  | dropped | lost => cases phase.symm.trans running

/-- A connection takes its leave when it stops. -/
theorem stopped_of_leave (acts : c.Acts b now i a next sent after) (left : .disconnect h ∈ sent) :
    h = c.handle ∧ next.phase = .stopped := by
  cases acts with
  | started => simp at left
  | said => simp at left
  | quit | timedOut =>
    split at left
    · cases left
    · cases List.mem_singleton.mp left
      exact ⟨rfl, rfl⟩
  | heard | pinged | took | wrote | obeyed | dropped | lost => cases left

/-- A connection is dismissed only when it stops. -/
theorem dismissed_eq (acts : c.Acts b now i a next sent after) (on : next.phase ≠ .stopped) :
    next.dismissed = c.dismissed := by
  cases acts with
  | obeyed => exact absurd rfl on
  | started | heard | said | quit | pinged | timedOut | took | wrote | dropped | lost => rfl

end Connection.Acts

namespace Relay

/-- What a connection that runs has: a seat, a request for one, or an order to stop that is on its
way or got lost. -/
structure Attends (r : Relay) (offers : List Offer) (c : Connection) : Prop where
  runs : ∃ box, c.Runs r.outboxes box
  word : (∃ s, r.room.seating.seat? c.handle = some s) ∨ requests c.handle r.commands ≠ [] ∨
    c.Awaits r.outboxes ∨ Lost offers c.handle

/-- A relay in which every connection that runs has a seat, waits for something, or was let down. -/
structure Attended (r : Relay) (offers : List Offer) : Prop where
  wired : r.Wired
  kept : ∀ c ∈ r.connections, c.phase ≠ .stopped → c.dismissed = false
  leaves : ∀ h, .disconnect h ∈ r.commands → ∃ c ∈ r.connections, c.handle = h ∧ c.phase = .stopped
  attends : ∀ c ∈ r.connections, c.phase = .running → r.Attends offers c
  unseated : ∀ h, Told offers h → r.Spent h ∧ r.room.seating.seat? h = none

theorem attended_start : (start .live).Attended [] where
  wired := wired_start
  kept c member := by cases member
  leaves h member := by cases member
  attends c member := by cases member
  unseated h told := by
    obtain ⟨o, member, -⟩ := told
    cases member

variable {r next : Relay} {a : Action} {offers more : List Offer} {h : Handle} {x : Command}
  {rest : List Command}

/-- Requests stay in the channel when more commands come. -/
theorem requests_append (h : Handle) (xs ys : List Command) :
    requests h (xs ++ ys) = requests h xs ++ requests h ys :=
  List.filter_append ..

/-- A relay whose connections are wired refuses nobody. -/
theorem Wired.not_refused (wired : r.Wired) (first : r.commands = x :: rest) {box : OutboxId} :
    r.room.deed x ≠ .refused h box := by
  intro refused
  have fits := r.room.fits_deed x
  have answers := Room.answers_deed wired.consistent x
  rw [refused] at fits answers
  obtain ⟨seat, found⟩ := fits
  obtain rfl : x = .connect h box := answers
  obtain ⟨c, present, rfl, -, -, served⟩ := wired.connection_of_seat found
  have asks : (Command.connect c.handle box).requests c.handle = true := beq_self_eq_true c.handle
  rw [first, requests_cons, if_pos asks] at served
  cases served

/-- A connection that is told to stop has had a seat, and has it no more. -/
theorem Wired.unseated_of_ordered (wired : r.Wired) (first : r.commands = x :: rest)
    {o : Offer} (offered : o ∈ (r.room.apply r.outboxes x).offers) (order : o.event.Dismisses) :
    r.Spent o.handle ∧ (r.room.apply r.outboxes x).room.seating.seat? o.handle = none := by
  rcases Room.order_of_dispatch (dispatched_of_offered offered) order with
    ⟨box, refused⟩ | ⟨s, dismissed, -⟩
  · exact absurd refused (wired.not_refused first)
  · have found := r.room.fits_deed x
    rw [dismissed] at found
    obtain ⟨c, present, handle, -, started, served⟩ := wired.connection_of_seat found
    obtain ⟨j, there⟩ := List.getElem?_of_mem present
    refine ⟨⟨⟨j, c, there, handle, started⟩, served⟩, ?_⟩
    rw [seat?_apply, dismissed]
    exact if_pos rfl

namespace Attended

/-- Whoever was told to stop has no seat, and never gets one again. -/
theorem unseated_step (attended : r.Attended offers) (steps : r.Steps a next more)
    (allowed : r.Allows a) (told : Told (offers ++ more) h) :
    next.Spent h ∧ next.room.seating.seat? h = none := by
  have wired := attended.wired
  obtain ⟨o, member, rfl, order⟩ := told
  rcases List.mem_append.mp member with old | new
  · obtain ⟨spent, free⟩ := attended.unseated o.handle ⟨o, old, rfl, order⟩
    refine ⟨spent.step wired.placed steps allowed, ?_⟩
    rw [Option.eq_none_iff_forall_ne_some]
    intro s found
    obtain ⟨before, sat, -⟩ := spent.seat_kept wired steps found
    cases free.symm.trans sat
  · cases steps with
    | served first =>
      obtain ⟨spent, free⟩ := wired.unseated_of_ordered first new order
      exact ⟨spent.step wired.placed (.served first) allowed, free⟩
    | idle | upgraded | acted | asked | passed => cases new

section Acts

variable {i : Nat} {c after : Connection} {sent : List Command} {b : Outboxes}

/-- A connection that acts, and runs on, still has what it had. -/
theorem attends_acting (attended : r.Attended offers) (here : r.connections[i]? = some c)
    (acts : c.Acts r.outboxes r.now i a after sent b) (running : after.phase = .running) :
    ({ r with
      outboxes := b
      commands := r.commands ++ sent
      connections := r.connections.set i after } : Relay).Attends offers after := by
  have present := List.mem_of_getElem? here
  by_cases phase : c.phase = .upgraded
  · -- The connection starts, with a request for a seat.
    obtain ⟨rfl, rfl, rfl⟩ := acts.opens phase running
    have kept := attended.kept c present (by simp [phase])
    refine ⟨⟨r.outboxes.next, rfl, kept, rfl, ?_⟩, .inr (.inl ?_)⟩
    · exact ⟨.empty Outbox.usualCapacity, by rw [Outboxes.get?_add, if_pos rfl], rfl⟩
    · simp [requests, Command.requests]
  · have stays := acts.starts_or_stays.resolve_left fun starts => phase starts.1
    have ran : c.phase = .running := by
      cases now : c.phase with
      | running => rfl
      | upgraded => exact absurd now phase
      | stopped => simp [acts.stays_stopped now] at running
    obtain ⟨⟨box, runs⟩, word⟩ := attended.attends c present ran
    obtain ⟨runs, awaits⟩ := acts.runs_on ran running runs
    refine ⟨⟨box, runs⟩, ?_⟩
    rw [awaits, acts.handle_eq, requests_append, stays.quiet, List.append_nil]
    exact word

/-- Another connection has what it had. -/
theorem attends_other (attended : r.Attended offers) (here : r.connections[i]? = some c)
    (acts : c.Acts r.outboxes r.now i a after sent b) {d : Connection} (there : d ∈ r.connections)
    (other : d.handle ≠ c.handle) (running : d.phase = .running) :
    ({ r with
      outboxes := b
      commands := r.commands ++ sent
      connections := r.connections.set i after } : Relay).Attends offers d := by
  have placed := attended.wired.placed
  have same {box : OutboxId} (own : d.outbox = some box) : b.get? box = r.outboxes.get? box :=
    acts.get?_other (placed.made d there box own) (placed.other_outbox here acts there other own).1
  obtain ⟨⟨box, runs⟩, word⟩ := attended.attends d there running
  refine ⟨⟨box, runs.congr ?_⟩, ?_⟩
  · rw [Outboxes.Opened, Outboxes.Opened, same runs.own]
  · have awaits : d.Awaits b ↔ d.Awaits r.outboxes := by
      apply Connection.awaits_congr
      intro box own
      rw [Outboxes.Orders, Outboxes.Orders, same own]
    rw [awaits, requests_append, acts.requests_other other, List.append_nil]
    exact word

theorem leaves_acted (attended : r.Attended offers) (here : r.connections[i]? = some c)
    (acts : c.Acts r.outboxes r.now i a after sent b) (left : .disconnect h ∈ r.commands ++ sent) :
    ∃ d ∈ r.connections.set i after, d.handle = h ∧ d.phase = .stopped := by
  have below := (List.getElem?_eq_some_iff.mp here).1
  have mine : after ∈ r.connections.set i after :=
    List.mem_of_getElem? (List.getElem?_set_self below)
  rcases List.mem_append.mp left with old | new
  · obtain ⟨d, present, rfl, stopped⟩ := attended.leaves h old
    obtain ⟨j, there⟩ := List.getElem?_of_mem present
    by_cases same : i = j
    · subst same
      cases here.symm.trans there
      exact ⟨after, mine, acts.handle_eq, acts.stays_stopped stopped⟩
    · exact ⟨d, List.mem_of_getElem? ((List.getElem?_set_ne same).trans there), rfl, stopped⟩
  · obtain ⟨rfl, stopped⟩ := acts.stopped_of_leave new
    exact ⟨after, mine, acts.handle_eq, stopped⟩

theorem kept_acted (attended : r.Attended offers) (here : r.connections[i]? = some c)
    (acts : c.Acts r.outboxes r.now i a after sent b) {d : Connection}
    (member : d ∈ r.connections.set i after) (on : d.phase ≠ .stopped) : d.dismissed = false := by
  rcases attended.wired.placed.mem_set here member with rfl | ⟨there, -⟩
  · rw [acts.dismissed_eq on]
    exact attended.kept c (List.mem_of_getElem? here) (mt acts.stays_stopped on)
  · exact attended.kept d there on

end Acts

section Serve

/-- A connection that runs is not unseated by its own leave. -/
theorem not_left (attended : r.Attended offers) (first : r.commands = x :: rest) {c : Connection}
    (present : c ∈ r.connections) (running : c.phase = .running) (s : Seat) :
    r.room.deed x ≠ .left c.handle s := by
  intro left
  have answers := Room.answers_deed attended.wired.consistent x
  rw [left] at answers
  obtain rfl : x = .disconnect c.handle := answers
  obtain ⟨d, there, same, stopped⟩ := attended.leaves c.handle (by simp [first])
  obtain rfl := attended.wired.placed.unique there present same
  cases running.symm.trans stopped

/-- A connection that loses its seat is ordered to stop, or the order gets lost. -/
theorem word_of_seat (attended : r.Attended offers) (first : r.commands = x :: rest)
    {c : Connection} (present : c ∈ r.connections) (running : c.phase = .running) {s : Seat}
    (found : r.room.seating.seat? c.handle = some s) :
    (∃ s, (r.room.apply r.outboxes x).room.seating.seat? c.handle = some s) ∨
      c.Awaits (r.room.apply r.outboxes x).outboxes ∨
      Lost (offers ++ (r.room.apply r.outboxes x).offers) c.handle := by
  obtain ⟨⟨box, runs⟩, -⟩ := attended.attends c present running
  cases after : (r.room.deed x).reseat c.handle (some s) with
  | some t => exact .inl ⟨t, by rw [seat?_apply, found, after]⟩
  | none =>
    have dismissed : r.room.deed x = .dismissed c.handle s := by
      have fits := r.room.fits_deed x
      rcases Deed.reseat_eq_none after with ⟨t, left⟩ | ⟨t, dismissed⟩
      · exact absurd left (attended.not_left first present running t)
      · rw [dismissed] at fits
        rw [dismissed, Option.some.inj (found.symm.trans fits)]
    refine .inr ?_
    obtain ⟨d, there, same, own, -⟩ := attended.wired.connection_of_seat found
    obtain rfl := attended.wired.placed.unique present there same.symm
    obtain rfl : box = s.outbox := Option.some.inj (runs.own.symm.trans own)
    rcases Steady.ordered_or_lost dismissed runs.opened with ordered | ⟨o, offered, lost⟩
    · exact .inl (.inr ⟨s.outbox, own, ordered⟩)
    · exact .inr ⟨o, List.mem_append_right _ offered, lost⟩

/-- When a command is served, a connection that runs still has what it had, or an order to stop. -/
theorem attends_served (attended : r.Attended offers) (first : r.commands = x :: rest)
    {c : Connection} (present : c ∈ r.connections) (running : c.phase = .running) :
    ({ r with
      room := (r.room.apply r.outboxes x).room
      outboxes := (r.room.apply r.outboxes x).outboxes
      commands := rest } : Relay).Attends (offers ++ (r.room.apply r.outboxes x).offers) c := by
  have wired := attended.wired
  obtain ⟨⟨box, runs⟩, word⟩ := attended.attends c present running
  refine ⟨⟨box, runs.congr (Steady.opened_apply r x box)⟩, ?_⟩
  rcases word with ⟨s, found⟩ | asks | ordered | lost
  · rcases attended.word_of_seat first present running found with sits | ordered | lost
    · exact .inl sits
    · exact .inr (.inr (.inl ordered))
    · exact .inr (.inr (.inr lost))
  · have bound := wired.bound c present
    rw [first, requests_cons] at asks bound
    by_cases mine : x.requests c.handle = true
    · rw [if_pos mine] at bound
      generalize unseated : r.room.seating.seat? c.handle = seat,
        requests c.handle rest = later at bound
      cases bound with
      | asking => exact .inl ⟨_, wired.seat_of_connect unseated _⟩
    · rw [if_neg mine] at asks
      exact .inr (.inl asks)
  · refine .inr (.inr (.inl ?_))
    rcases ordered with flying | ⟨own, mine, held⟩
    · exact .inl flying
    · refine .inr ⟨own, mine, ?_⟩
      rw [(Prod.mk.inj (sent_apply r x)).1]
      exact Outboxes.orders_dispatch_of_orders held _
  · exact .inr (.inr (.inr (lost.append _)))

end Serve

theorem step (attended : r.Attended offers) (steps : r.Steps a next more)
    (allowed : r.Allows a) : next.Attended (offers ++ more) := by
  have wired := attended.wired.step steps allowed
  have unseated (h : Handle) (told : Told (offers ++ more) h) :=
    attended.unseated_step steps allowed told
  cases steps with
  | idle =>
    rw [List.append_nil] at unseated ⊢
    exact attended
  | upgraded k =>
    rw [List.append_nil] at unseated ⊢
    refine ⟨wired, ?_, ?_, ?_, unseated⟩
    · intro c member on
      rcases List.mem_append.mp member with old | new
      · exact attended.kept c old on
      · rw [List.mem_singleton.mp new]
        rfl
    · intro h left
      obtain ⟨c, present, stopped⟩ := attended.leaves h left
      exact ⟨c, List.mem_append_left _ present, stopped⟩
    · intro c member running
      rcases List.mem_append.mp member with old | new
      · obtain ⟨runs, word⟩ := attended.attends c old running
        exact ⟨runs, word⟩
      · rw [List.mem_singleton.mp new] at running
        cases running
  | acted here acts =>
    rw [List.append_nil] at unseated ⊢
    refine ⟨wired, ?_, ?_, ?_, unseated⟩
    · intro c member on
      exact attended.kept_acted here acts member on
    · intro h left
      exact attended.leaves_acted here acts left
    · intro d member running
      rcases attended.wired.placed.mem_set here member with rfl | ⟨there, other⟩
      · exact attended.attends_acting here acts running
      · exact attended.attends_other here acts there other running
  | passed n =>
    rw [List.append_nil] at unseated ⊢
    refine ⟨wired, attended.kept, attended.leaves, fun c present running => ?_, unseated⟩
    obtain ⟨runs, word⟩ := attended.attends c present running
    exact ⟨runs, word⟩
  | asked x =>
    rw [List.append_nil] at unseated ⊢
    have outside := allowed.outside x rfl
    refine ⟨wired, attended.kept, ?_, ?_, unseated⟩
    · intro h left
      rcases List.mem_append.mp left with old | new
      · exact attended.leaves h old
      · cases List.mem_singleton.mp new
        cases outside
    · intro c present running
      obtain ⟨runs, word⟩ := attended.attends c present running
      refine ⟨runs, ?_⟩
      have silent : requests c.handle [x] = [] := by cases x <;> first | rfl | cases outside
      rw [requests_append, silent, List.append_nil]
      exact word
  | served first =>
    refine ⟨wired, attended.kept, ?_, ?_, unseated⟩
    · intro h left
      exact attended.leaves h (by rw [first]; exact List.mem_cons_of_mem _ left)
    · intro c present running
      exact attended.attends_served first present running

end Attended

theorem attended_run {actions : List Action} (regular : Regular actions) :
    ((start .live).run actions).relay.Attended ((start .live).run actions).offers := by
  refine run_invariant (P := fun r offers => r.Attended offers) ?_ [] actions regular attended_start
  intro r a next offers more attended steps allowed
  exact attended.step steps allowed

/-- Among the connections that run and wait for nothing, those without a seat are those whose order
to stop got lost. -/
theorem Attended.unseated_iff_lost (attended : r.Attended offers) {c : Connection}
    (present : c ∈ r.connections) (running : c.phase = .running)
    (served : requests c.handle r.commands = []) (unordered : ¬ c.Awaits r.outboxes) :
    r.room.seating.seat? c.handle = none ↔ Lost offers c.handle := by
  constructor
  · intro unseated
    rcases (attended.attends c present running).word with ⟨s, sits⟩ | asks | ordered | lost
    · cases unseated.symm.trans sits
    · exact absurd served asks
    · exact absurd ordered unordered
    · exact lost
  · intro lost
    exact (attended.unseated c.handle lost.told).2

/-- A kick of whoever is seated is answered with yes and takes the seat away. If the outbox is still
open, the order to stop becomes its last event exactly if there is room in it; a full outbox stays
as it was. In a regular run of the relay, among the connections that run, have been served and wait
for no order, those without a seat are exactly those to which an order was lost in that way. -/
theorem kick_reaches_unless_full (xs : List Happening) (h : Handle) (seat : Seat) (o : Outbox)
    (orderly : Session.Orderly xs) (found : (Session.start.run xs).room.seating.seat? h = some seat)
    (there : (Session.start.run xs).outboxes.get? seat.outbox = some o)
    (opened : o.reception = .opened) :
    let out := (Session.start.run xs).step (.command (.kick seat.participant.id))
    (out.reply = .kicked true ∧ out.room.seating.seat? h = none ∧
      ∃ after, out.outboxes.get? seat.outbox = some after ∧
        after.events = (if o.events.length < o.capacity.value then
          o.events ++ [.dismissal Room.kickReason] else o.events) ∧
        (after.events.getLast? = some (.dismissal Room.kickReason) ↔
          o.events.length < o.capacity.value)) ∧
    ∀ (actions : List Action) (c : Connection), Regular actions →
      let e := (start .live).run actions
      c ∈ e.relay.connections → c.phase = .running → requests c.handle e.relay.commands = [] →
      ¬ c.Awaits e.relay.outboxes →
      (e.relay.room.seating.seat? c.handle = none ↔ Lost e.offers c.handle) := by
  constructor
  · obtain ⟨answer, unseated, after⟩ := Session.kick_step (Session.housed_run orderly) found
    refine ⟨answer, unseated, o.offer (.dismissal Room.kickReason), by rw [after, there]; rfl, ?_⟩
    rw [Outbox.events_offer]
    simp only [Outbox.verdict_eq_accepted_iff, opened, true_and]
    split
    · next room => simp [room]
    · next full =>
      refine iff_of_false ?_ full
      intro last
      have held : Event.dismissal Room.kickReason ∈
          (Session.start.run xs).outboxes.contents seat.outbox := by
        rw [Outboxes.contents, there]
        exact List.mem_of_getLast? last
      exact Session.unordered_run orderly h seat found _ held trivial
  · intro actions c regular e present running served unordered
    exact (attended_run regular).unseated_iff_lost present running served unordered

/-- A connection that has not taken its greeting out of its outbox yet. -/
def greetedRun (capacity : Capacity) : List Happening := [.connect 7 capacity]

/-- Two connections of a relay. The first one is stalled while the client of the second one starts
the clock again so many times, and then it is removed. What is in its outbox is handled afterwards.
-/
def stalledRun (times : Nat) : List Action :=
  [.upgrade 0, .start 0, .serve, .upgrade 1, .start 1, .serve] ++
    (List.replicate times
      [Action.receive 1 (.text "\x7b\"event\":\"reset\"\x7d"), .serve]).flatten ++
    [.ask (.kick 0), .serve] ++ (List.replicate 64 [Action.forward 0, .deliver 0]).flatten

theorem kick_of_asked {times : Nat} {c : Command} (asked : .ask c ∈ stalledRun times) :
    c = .kick 0 := by
  simpa [stalledRun, List.mem_replicate] using asked

theorem regular_stalledRun : Regular (stalledRun 62) where
  distinct := by decide +kernel
  few := by decide +kernel
  outside c asked := by
    rw [kick_of_asked asked]
    trivial

/-- The first connection after that: it runs, and nothing is on its way to it. -/
theorem connection_stalledRun : ∃ c,
    c ∈ ((start .live).run (stalledRun 62)).relay.connections ∧ c.handle = 0 ∧
      c.phase = .running ∧ requests 0 ((start .live).run (stalledRun 62)).relay.commands = [] ∧
      ¬ c.Awaits ((start .live).run (stalledRun 62)).relay.outboxes := by
  have found : (((start .live).run (stalledRun 62)).relay.connections[0]?.map fun c =>
      (c.handle, c.phase, c.inFlight.isNone, c.outbox)) = some (0, .running, true, some 0) := by
    decide +kernel
  have empty : (((start .live).run (stalledRun 62)).relay.outboxes.get? 0).map
      (·.events.isEmpty) = some true := by decide +kernel
  have served : ((start .live).run (stalledRun 62)).relay.commands.isEmpty = true := by
    decide +kernel
  obtain ⟨c, there, same⟩ := Option.map_eq_some_iff.mp found
  simp only [Prod.mk.injEq, Option.isNone_iff_eq_none] at same
  obtain ⟨handle, phase, free, own⟩ := same
  refine ⟨c, List.mem_of_getElem? there, handle, phase, by rw [List.isEmpty_iff.mp served]; rfl, ?_⟩
  rintro (⟨e, flying, -⟩ | ⟨box, mine, o, held, e, member, -⟩)
  · cases free.symm.trans flying
  · cases own.symm.trans mine
    rw [held, Option.map_some, Option.some.injEq, List.isEmpty_iff] at empty
    rw [empty] at member
    cases member

/-- With room for two events the order is taken after the greeting. With a full outbox it is lost,
and the connection runs on without a seat. -/
theorem kick_reaches_unless_full_stalled :
    (∃ after, ((Session.start.run (greetedRun ⟨2, by decide, by decide⟩)).step
        (.command (.kick 0))).outboxes.get? 0 = some after ∧ after.events.length = 2 ∧
      after.events.getLast? = some (.dismissal Room.kickReason)) ∧
    ((start .live).run (stalledRun 62)).relay.room.seating.seat? 0 = none ∧
    Lost ((start .live).run (stalledRun 62)).offers 0 := by
  have lost : Lost ((start .live).run (stalledRun 62)).offers 0 := by decide +kernel
  obtain ⟨c, present, handle, running, served, unordered⟩ := connection_stalledRun
  obtain ⟨⟨-, -, after, there, events, last⟩, whole⟩ := kick_reaches_unless_full
    (greetedRun ⟨2, by decide, by decide⟩) 7 ⟨.fresh 0, 0⟩ _ (by decide +kernel) rfl rfl rfl
  refine ⟨⟨after, there, ?_, last.mpr (by decide)⟩, ?_, lost⟩
  · rw [events]
    rfl
  · rw [← handle] at served lost ⊢
    exact (whole _ c regular_stalledRun present running served unordered).mpr lost

/-- Whoever is removed while the outbox is full is never told: the order is not in the outbox then,
and the connection runs on without a seat when everything that was in it has been handled. -/
theorem kick_lost_when_full :
    (¬ ∀ (xs : List Happening) (h : Handle) (seat : Seat) (o : Outbox), Session.Orderly xs →
      (Session.start.run xs).room.seating.seat? h = some seat →
      (Session.start.run xs).outboxes.get? seat.outbox = some o → o.reception = .opened →
      ∃ after, ((Session.start.run xs).step
          (.command (.kick seat.participant.id))).outboxes.get? seat.outbox = some after ∧
        after.events.getLast? = some (.dismissal Room.kickReason)) ∧
    ∃ actions c, Regular actions ∧ c ∈ ((start .live).run actions).relay.connections ∧
      c.phase = .running ∧ requests c.handle ((start .live).run actions).relay.commands = [] ∧
      ¬ c.Awaits ((start .live).run actions).relay.outboxes ∧
      ((start .live).run actions).relay.room.seating.seat? c.handle = none := by
  constructor
  · intro reached
    obtain ⟨after, there, last⟩ := reached (greetedRun ⟨1, by decide, by decide⟩) 7 ⟨.fresh 0, 0⟩ _
      (by decide +kernel) rfl rfl rfl
    cases there
    cases last
  · obtain ⟨c, present, handle, running, served, unordered⟩ := connection_stalledRun
    have unseated : (((start .live).run (stalledRun 62)).relay.room.seating.seat? 0).isNone =
        true := by decide +kernel
    rw [← handle] at served unseated
    exact ⟨_, c, regular_stalledRun, present, running, served, unordered,
      Option.isNone_iff_eq_none.mp unseated⟩

end Relay

end LiveRelay
