import LiveRelay.Proofs.Relay.Placed

/-! # Connections, seats and numbers

Every connection asks for a seat at most once, so it has at most one number in a whole run, and no
other connection ever has this number. Unlike where a connection stands, this does not depend on
whether orders to stop get lost.
-/

namespace LiveRelay

/-- Whether a command asks for a seat for a connection. -/
def Command.requests (h : Handle) : Command → Bool
  | .connect k _ => k == h
  | .disconnect _ | .message _ _ | .listParticipants | .kick _ => false

/-- The commands in the channel that ask for a seat for a connection. -/
def requests (h : Handle) (commands : List Command) : List Command :=
  commands.filter (·.requests h)

namespace Connection

/-- How a connection is bound to its seat and to its request for one. -/
inductive Bound (c : Connection) : Option Seat → List Command → Prop
  | fresh (phase : c.phase = .upgraded) (unmade : c.outbox = none) (free : c.inFlight = none) :
      Bound c none []
  | asking {box : OutboxId} (started : c.phase ≠ .upgraded) (own : c.outbox = some box) :
      Bound c none [.connect c.handle box]
  | seated {s : Seat} (started : c.phase ≠ .upgraded) (own : c.outbox = some s.outbox) :
      Bound c (some s) []
  | gone (started : c.phase ≠ .upgraded) : Bound c none []

/-- A connection has not started by what it did, has its outbox, and requests nothing. -/
structure Stays (c next : Connection) (sent : List Command) : Prop where
  outbox : next.outbox = c.outbox
  phase : next.phase = .upgraded ↔ c.phase = .upgraded
  free : c.phase = .upgraded → c.inFlight = none → next.inFlight = none
  quiet : ∀ h, requests h sent = []

variable {c next : Connection} {seat : Option Seat} {commands sent : List Command}
  {b after : Outboxes} {now i : Nat} {a : Action} {h : Handle}

/-- A connection that has not started has no outbox and waits for nothing. -/
theorem Bound.of_upgraded (bound : c.Bound seat commands) (phase : c.phase = .upgraded) :
    c.outbox = none ∧ c.inFlight = none := by
  cases bound with
  | fresh _ unmade free => exact ⟨unmade, free⟩
  | asking started => exact absurd phase started
  | seated started => exact absurd phase started
  | gone started => exact absurd phase started

/-- A connection is bound as it was as long as nothing happens to its outbox. -/
theorem Bound.stays (bound : c.Bound seat commands) (handle : next.handle = c.handle)
    (stays : c.Stays next sent) : next.Bound seat commands := by
  obtain ⟨outbox, phase, free, -⟩ := stays
  cases bound with
  | fresh fresh unmade idle =>
    exact .fresh (phase.mpr fresh) (outbox.trans unmade) (free fresh idle)
  | asking started own => exact handle ▸ .asking (mt phase.mp started) (outbox.trans own)
  | seated started own => exact .seated (mt phase.mp started) (outbox.trans own)
  | gone started => exact .gone (mt phase.mp started)

namespace Acts

/-- A connection starts, with a request for a seat and a new outbox, or it stays as it is. -/
theorem starts_or_stays (acts : c.Acts b now i a next sent after) :
    c.phase = .upgraded ∧ next.phase = .running ∧ next.outbox = some b.next ∧
        sent = [.connect c.handle b.next] ∨
      c.Stays next sent := by
  cases acts with
  | started phase => exact .inl ⟨phase, rfl, rfl, rfl⟩
  | quit _ running | timedOut _ running =>
    refine .inr ⟨rfl, by simp [running], fun _ free => free, ?_⟩
    intro
    cases c.dismissed <;> rfl
  | obeyed written running => exact .inr ⟨rfl, by simp [running], fun _ _ => rfl, fun _ => rfl⟩
  | said running read => exact .inr ⟨rfl, Iff.rfl, fun _ free => free, fun _ => rfl⟩
  | took running =>
    refine .inr ⟨rfl, Iff.rfl, fun phase _ => ?_, fun _ => rfl⟩
    cases phase.symm.trans running
  | heard | pinged | dropped => exact .inr ⟨rfl, Iff.rfl, fun _ free => free, fun _ => rfl⟩
  | wrote | lost => exact .inr ⟨rfl, Iff.rfl, fun _ _ => rfl, fun _ => rfl⟩

/-- A connection requests nothing for another one. -/
theorem requests_other (acts : c.Acts b now i a next sent after) (other : h ≠ c.handle) :
    requests h sent = [] := by
  rcases acts.starts_or_stays with ⟨-, -, -, rfl⟩ | stays
  · have apart : ¬ c.handle = h := fun same => other same.symm
    simp [requests, Command.requests, apart]
  · exact stays.quiet h

/-- What a connection does keeps it bound. -/
theorem bound_acts (acts : c.Acts b now i a next sent after) (bound : c.Bound seat commands) :
    next.Bound seat (commands ++ requests c.handle sent) := by
  rcases acts.starts_or_stays with ⟨phase, running, outbox, rfl⟩ | stays
  · have request : requests c.handle [.connect c.handle b.next] = [.connect next.handle b.next] := by
      simp [requests, Command.requests, acts.handle_eq]
    rw [request]
    cases bound with
    | fresh => exact .asking (by simp [running]) outbox
    | asking started => exact absurd phase started
    | seated started => exact absurd phase started
    | gone started => exact absurd phase started
  · rw [stays.quiet, List.append_nil]
    exact bound.stays acts.handle_eq stays

end Acts

end Connection

namespace Relay

/-- A relay in which every connection is bound to its seat and its request for one. -/
structure Wired (r : Relay) : Prop where
  placed : r.Placed
  bound : ∀ c ∈ r.connections,
    c.Bound (r.room.seating.seat? c.handle) (requests c.handle r.commands)
  absent : ∀ h ∉ r.handles, r.room.seating.seat? h = none ∧ requests h r.commands = []

theorem wired_start : (start .live).Wired where
  placed := placed_start
  bound := nofun
  absent _ _ := ⟨rfl, rfl⟩

variable {r next : Relay} {a : Action} {offers : List Offer} {h k : Handle} {s : Seat}
  {x : Command} {rest : List Command} {i : ParticipantId}

theorem requests_cons (h : Handle) (x : Command) (rest : List Command) :
    requests h (x :: rest) = if x.requests h then x :: requests h rest else requests h rest := by
  rw [requests, List.filter_cons]
  rfl

namespace Wired

theorem consistent (wired : r.Wired) : r.room.seating.Consistent := by
  obtain ⟨admitted, numbered, -⟩ := wired.placed.numbered
  exact numbered.consistent

/-- A seat is that of a connection with the same outbox. -/
theorem connection_of_seat (wired : r.Wired) (found : r.room.seating.seat? k = some s) :
    ∃ c ∈ r.connections, c.handle = k ∧ c.outbox = some s.outbox ∧ c.phase ≠ .upgraded ∧
      requests k r.commands = [] := by
  by_cases member : k ∈ r.handles
  · obtain ⟨c, present, rfl⟩ := List.mem_map.mp member
    have bound := wired.bound c present
    rw [found] at bound
    generalize requests c.handle r.commands = asked at bound ⊢
    cases bound with
    | seated started own => exact ⟨c, present, rfl, own, started, rfl⟩
  · cases found.symm.trans (wired.absent k member).1

/-- No two seats have one outbox. -/
theorem seats_apart (wired : r.Wired) : r.room.seating.Apart := by
  intro h k a b here there same
  obtain ⟨c, present, rfl, mine, -⟩ := wired.connection_of_seat here
  obtain ⟨d, member, rfl, yours, -⟩ := wired.connection_of_seat there
  exact wired.placed.apart c present d member b.outbox (same ▸ mine) yours

/-- Who sits somewhere after a command asked for the seat, or had it before, with the same number
and the same outbox. -/
theorem seat_served (wired : r.Wired)
    (found : (r.room.apply r.outboxes x).room.seating.seat? k = some s) :
    x = .connect k s.outbox ∧ s.participant.id = r.room.nextId ∨
      ∃ before, r.room.seating.seat? k = some before ∧ before.outbox = s.outbox ∧
        before.participant.id = s.participant.id := by
  have fits := r.room.fits_deed x
  rw [(r.room.performs_apply r.outboxes x).room] at found
  rcases Room.seat_after_does fits found with happened | before
  · have answers := Room.answers_deed wired.consistent x
    rw [happened] at fits answers
    exact .inl ⟨answers, by rw [fits.2.2, Participant.id_fresh]⟩
  · exact .inr before

/-- Whoever asks for a seat without having one gets one. -/
theorem seat_of_connect (wired : r.Wired) (free : r.room.seating.seat? k = none) (box : OutboxId) :
    (r.room.apply r.outboxes (.connect k box)).room.seating.seat? k =
      some ⟨.fresh r.room.nextId, box⟩ := by
  obtain ⟨admitted, numbered, -⟩ := wired.placed.numbered
  have unseated := Seating.contains_eq_false_iff.mpr free
  rw [seat?_apply, numbered.deed_connect unseated, Deed.reseat, if_pos rfl]

/-- A command keeps connections bound. -/
theorem bound_served (wired : r.Wired) (first : r.commands = x :: rest) {c : Connection}
    (present : c ∈ r.connections) :
    c.Bound ((r.room.apply r.outboxes x).room.seating.seat? c.handle) (requests c.handle rest) := by
  have bound := wired.bound c present
  rw [first, requests_cons] at bound
  by_cases asks : x.requests c.handle = true
  · rw [if_pos asks] at bound
    generalize unseated : r.room.seating.seat? c.handle = seat,
      requests c.handle rest = more at bound
    cases bound with
    | @asking box started own =>
      rw [wired.seat_of_connect unseated]
      exact .seated started own
  · rw [if_neg asks] at bound
    cases after : (r.room.apply r.outboxes x).room.seating.seat? c.handle with
    | some s =>
      rcases wired.seat_served after with ⟨rfl, -⟩ | ⟨before, sat, outbox, -⟩
      · exact absurd (beq_self_eq_true c.handle) asks
      · rw [sat] at bound
        generalize requests c.handle rest = more at bound ⊢
        cases bound with
        | seated started own => exact .seated started (outbox ▸ own)
    | none =>
      generalize r.room.seating.seat? c.handle = seat, requests c.handle rest = more at bound ⊢
      cases bound with
      | fresh phase unmade free => exact .fresh phase unmade free
      | asking started own => exact .asking started own
      | seated started own => exact .gone started
      | gone started => exact .gone started

theorem absent_served (wired : r.Wired) (first : r.commands = x :: rest) (other : h ∉ r.handles) :
    (r.room.apply r.outboxes x).room.seating.seat? h = none ∧ requests h rest = [] := by
  obtain ⟨unseated, silent⟩ := wired.absent h other
  rw [first, requests_cons] at silent
  by_cases asks : x.requests h = true
  · rw [if_pos asks] at silent
    cases silent
  · rw [if_neg asks] at silent
    refine ⟨?_, silent⟩
    rw [Option.eq_none_iff_forall_ne_some]
    intro s after
    rcases wired.seat_served after with ⟨rfl, -⟩ | ⟨before, sat, -⟩
    · exact asks (beq_self_eq_true h)
    · cases unseated.symm.trans sat

theorem upgrade (wired : r.Wired) (fresh : h ∉ r.handles) :
    ({ r with connections := r.connections ++ [.upgraded h r.now] } : Relay).Wired where
  placed := wired.placed.upgrade fresh
  bound c member := by
    rcases List.mem_append.mp member with old | new
    · exact wired.bound c old
    · obtain rfl := List.mem_singleton.mp new
      obtain ⟨unseated, silent⟩ := wired.absent h fresh
      simp only [Connection.upgraded, unseated, silent]
      exact .fresh rfl rfl rfl
  absent k other := by
    apply wired.absent k
    intro member
    apply other
    rw [handles, List.map_append]
    exact List.mem_append_left _ member

theorem acted (wired : r.Wired) {j : Nat} {c after : Connection} {sent : List Command}
    {b : Outboxes} (here : r.connections[j]? = some c)
    (acts : c.Acts r.outboxes r.now j a after sent b) :
    ({ r with
      outboxes := b
      commands := r.commands ++ sent
      connections := r.connections.set j after } : Relay).Wired where
  placed := wired.placed.acted here acts
  bound d member := by
    dsimp only
    rw [requests, List.filter_append]
    rcases wired.placed.mem_set here member with rfl | ⟨there, other⟩
    · rw [acts.handle_eq]
      exact acts.bound_acts (wired.bound c (List.mem_of_getElem? here))
    · have silent := acts.requests_other other
      rw [requests] at silent
      rw [silent, List.append_nil]
      exact wired.bound d there
  absent h other := by
    rw [handles, handles_set here acts.handle_eq] at other
    obtain ⟨unseated, silent⟩ := wired.absent h other
    have stranger : h ≠ c.handle := by
      rintro rfl
      exact other (List.mem_map_of_mem (List.mem_of_getElem? here))
    have quiet := acts.requests_other stranger
    rw [requests] at silent quiet
    refine ⟨unseated, ?_⟩
    rw [requests, List.filter_append, silent, quiet, List.append_nil]

theorem asked (wired : r.Wired) {c : Command} (outside : c.Outside) :
    ({ r with commands := r.commands ++ [c] } : Relay).Wired := by
  have silent (h : Handle) : requests h (r.commands ++ [c]) = requests h r.commands := by
    have still : c.requests h = false := by cases c <;> first | rfl | cases outside
    simp [requests, still]
  exact {
    placed := wired.placed.asked outside
    bound := fun d member => silent d.handle ▸ wired.bound d member
    absent := fun h other => silent h ▸ wired.absent h other }

/-- Every step keeps connections bound. -/
theorem step (wired : r.Wired) (steps : r.Steps a next offers) (allowed : r.Allows a) :
    next.Wired := by
  cases steps with
  | idle => exact wired
  | upgraded h => exact wired.upgrade (allowed.fresh h rfl)
  | acted here acts => exact wired.acted here acts
  | asked c => exact wired.asked (allowed.outside c rfl)
  | passed n => exact ⟨wired.placed.passed n, wired.bound, wired.absent⟩
  | served first =>
    exact {
      placed := wired.placed.served first allowed.few
      bound := fun c present => wired.bound_served first present
      absent := fun h other => wired.absent_served first other }

end Wired

theorem wired_run {actions : List Action} (regular : Regular actions) :
    ((start .live).run actions).relay.Wired := by
  refine run_invariant (P := fun r _ => r.Wired) ?_ [] actions regular wired_start
  intro r a next offers more wired steps allowed
  exact wired.step steps allowed

/-- A connection has started, and its request for a seat is not in the channel any more. -/
structure Spent (r : Relay) (h : Handle) : Prop where
  started : ∃ (j : Nat) (c : Connection), r.connections[j]? = some c ∧ c.handle = h ∧
    c.phase ≠ .upgraded
  served : requests h r.commands = []

namespace Spent

/-- A connection that has asked for a seat never asks again. -/
theorem step (spent : r.Spent h) (placed : r.Placed) (steps : r.Steps a next offers)
    (allowed : r.Allows a) : next.Spent h := by
  obtain ⟨⟨j, c, there, rfl, started⟩, silent⟩ := spent
  cases steps with
  | idle => exact ⟨⟨j, c, there, rfl, started⟩, silent⟩
  | upgraded k =>
    refine ⟨⟨j, c, ?_, rfl, started⟩, silent⟩
    exact List.getElem?_append_left (List.getElem?_eq_some_iff.mp there).1 ▸ there
  | @acted m d after _ sent b here acts =>
    have quiet : requests c.handle sent = [] := by
      by_cases same : c.handle = d.handle
      · have one := placed.unique (List.mem_of_getElem? there) (List.mem_of_getElem? here) same
        rcases acts.starts_or_stays with ⟨phase, -⟩ | stays
        · exact absurd phase (one ▸ started)
        · exact stays.quiet _
      · exact acts.requests_other same
    rw [requests] at silent quiet
    refine ⟨?_, by rw [requests, List.filter_append, silent, quiet, List.append_nil]⟩
    by_cases same : m = j
    · subst same
      cases here.symm.trans there
      refine ⟨m, after, ?_, acts.handle_eq, ?_⟩
      · exact List.getElem?_set_self (List.getElem?_eq_some_iff.mp here).1
      · rcases acts.starts_or_stays with ⟨phase, -⟩ | stays
        · exact absurd phase started
        · exact mt stays.phase.mp started
    · exact ⟨j, c, (List.getElem?_set_ne same).trans there, rfl, started⟩
  | passed n => exact ⟨⟨j, c, there, rfl, started⟩, silent⟩
  | asked x =>
    have still : x.requests c.handle = false := by
      have outside := allowed.outside x rfl
      cases x <;> first | rfl | cases outside
    refine ⟨⟨j, c, there, rfl, started⟩, ?_⟩
    rw [requests] at silent
    simp [requests, silent, still]
  | @served x rest first =>
    refine ⟨⟨j, c, there, rfl, started⟩, ?_⟩
    rw [first, requests_cons] at silent
    split at silent
    · cases silent
    · exact silent

/-- So its seat has the number and the outbox that it had. -/
theorem seat_kept (spent : r.Spent h) (wired : r.Wired) (steps : r.Steps a next offers)
    (found : next.room.seating.seat? h = some s) : ∃ before,
      r.room.seating.seat? h = some before ∧ before.participant.id = s.participant.id := by
  cases steps with
  | @served x rest first =>
    rcases wired.seat_served found with ⟨rfl, -⟩ | ⟨before, sat, -, number⟩
    · have silent := spent.served
      have asks : (Command.connect h s.outbox).requests h = true := beq_self_eq_true h
      rw [first, requests_cons, if_pos asks] at silent
      cases silent
    · exact ⟨before, sat, number⟩
  | idle | upgraded | acted | asked | passed => exact ⟨s, found, rfl⟩

end Spent

/-- A connection that has a seat has no other number later. -/
theorem number_kept {actions more : List Action} (regular : Regular (actions ++ more))
    (found : ((start .live).run actions).relay.room.seating.seat? h = some s) {later : Seat}
    (still : ((start .live).run (actions ++ more)).relay.room.seating.seat? h = some later) :
    later.participant.id = s.participant.id := by
  have kept := run_invariant (P := fun r _ => r.Wired ∧ r.Spent h ∧
    ∀ t, r.room.seating.seat? h = some t → t.participant.id = s.participant.id) ?_ actions more
    regular ?_
  · exact kept.2.2 later still
  · rintro r a next offers more ⟨wired, spent, same⟩ steps allowed
    refine ⟨wired.step steps allowed, spent.step wired.placed steps allowed, fun t after => ?_⟩
    obtain ⟨before, sat, number⟩ := spent.seat_kept wired steps after
    rw [← number, same before sat]
  · have wired := wired_run regular.before
    obtain ⟨c, present, handle, -, started, served⟩ := wired.connection_of_seat found
    obtain ⟨j, here⟩ := List.getElem?_of_mem present
    refine ⟨wired, ⟨⟨j, c, here, handle, started⟩, served⟩, fun t sat => ?_⟩
    rw [Option.some.inj (sat.symm.trans found)]

/-- Whoever has an old number had it all the time. -/
theorem bearer_before {actions more : List Action} (regular : Regular (actions ++ more))
    (old : i.toNat < ((start .live).run actions).relay.room.nextId.toNat)
    (found : ((start .live).run (actions ++ more)).relay.room.seating.seat? k = some s)
    (number : s.participant.id = i) : ∃ before,
      ((start .live).run actions).relay.room.seating.seat? k = some before ∧
        before.participant.id = i := by
  have kept := run_invariant (P := fun r _ => r.Wired ∧ i.toNat < r.room.nextId.toNat ∧
    ∀ k t, r.room.seating.seat? k = some t → t.participant.id = i → ∃ before,
      ((start .live).run actions).relay.room.seating.seat? k = some before ∧
        before.participant.id = i) ?_ actions more regular ?_
  · exact kept.2.2 k s found number
  · rintro r a next offers more ⟨wired, old, before⟩ steps allowed
    refine ⟨wired.step steps allowed, ?_⟩
    cases steps with
    | @served x rest first =>
      obtain ⟨admitted, here, after, -⟩ := wired.placed.numbered_served first allowed.few
      rw [here.counted] at old
      refine ⟨?_, fun k t sat same => ?_⟩
      · rw [after.counted]
        omega
      · rcases wired.seat_served sat with ⟨-, next⟩ | ⟨former, sat, -, alike⟩
        · rw [← same, next, here.counted] at old
          exact absurd old (Nat.lt_irrefl _)
        · exact before k former sat (alike.trans same)
    | idle | upgraded | acted | asked | passed => exact ⟨old, before⟩
  · exact ⟨wired_run regular.before, old, fun k t sat same => ⟨t, sat, same⟩⟩

/-- A connection had a seat with a number at some time of a run. -/
def Bears (actions : List Action) (h : Handle) (i : ParticipantId) : Prop :=
  ∃ earlier later s, actions = earlier ++ later ∧
    ((start .live).run earlier).relay.room.seating.seat? h = some s ∧ s.participant.id = i

/-- A connection has no other number, and no other connection has its number. -/
structure Sole (r : Relay) (h : Handle) (i : ParticipantId) : Prop where
  own : ∀ s, r.room.seating.seat? h = some s → s.participant.id = i
  alone : ∀ k s, r.room.seating.seat? k = some s → s.participant.id = i → k = h

/-- A number is that of one connection through a whole run. -/
theorem sole_of_bears {actions earlier later : List Action} (regular : Regular actions)
    (bears : Bears actions h i) (cut : actions = earlier ++ later) :
    ((start .live).run earlier).relay.Sole h i := by
  obtain ⟨first, rest, s, split, seated, rfl⟩ := bears
  have young {before : List Action} {k : Handle} {t : Seat} (some : Regular before)
      (sat : ((start .live).run before).relay.room.seating.seat? k = .some t) :
      t.participant.id.toNat < ((start .live).run before).relay.room.nextId.toNat := by
    obtain ⟨admitted, numbered, -⟩ := (placed_run some).numbered
    rw [numbered.counted]
    exact numbered.young k t sat
  -- The connection got the number before the moment in question, or it gets it later.
  rcases List.append_eq_append_iff.mp (split.symm.trans cut) with ⟨between, rfl, -⟩ | ⟨between, rfl, -⟩
  · have here := (cut ▸ regular).before
    constructor
    · intro t sat
      exact number_kept here seated sat
    · intro k t sat number
      obtain ⟨before, former, same⟩ := bearer_before here (young here.before seated) sat number
      exact (wired_run here.before).consistent.handle_unique seated former same
  · have here := (split ▸ regular).before
    constructor
    · intro t sat
      exact (number_kept here sat seated).symm
    · intro k t sat number
      obtain ⟨before, former, same⟩ :=
        bearer_before here (young here.before sat) seated number.symm
      exact (wired_run here.before).consistent.handle_unique former sat same.symm

end Relay

end LiveRelay
