import LiveRelay.Proofs.Relay.Silence
import LiveRelay.Proofs.Wire.ClientFrame

/-! # Changes arrive in order

What a connection reads goes through the channel, the room, an outbox and the way to another
connection, and none of them changes the order or tells anything twice. A change gets lost only if
the outbox of the listener does not take it, or if the listener has stopped while it waits. A text
that cannot be read is nothing but a sign of life.
-/

namespace LiveRelay

namespace Connection

/-- The changes of a participant that an outbox took are written by its connection, in their order,
except for those that were thrown away or still wait. -/
structure Conveys (c : Connection) (b : Outboxes) (i : ParticipantId) (took : List Change)
    (lost : List Event) : Prop where
  whole : took = c.written.filterMap (Outgoing.change? i) ++ lost.filterMap (Event.change? i) ++
    (c.waiting b).filterMap (Event.change? i)
  shut : lost ≠ [] → c.Shut b

namespace Conveys

variable {b after : Outboxes} {c next : Connection} {a : Action} {sent : List Command} {now j : Nat}
  {i : ParticipantId} {took more : List Change} {lost : List Event}

theorem upgraded (h : Handle) (now : Nat) (b : Outboxes) (i : ParticipantId) :
    (Connection.upgraded h now).Conveys b i [] [] where
  whole := rfl
  shut := absurd rfl

/-- What a connection does moves changes on, and none overtakes another one. -/
theorem acts (conveys : c.Conveys b i took lost) (acts : c.Acts b now j a next sent after)
    (fresh : c.phase = .upgraded → c.outbox = none ∧ c.inFlight = none)
    (made : ∀ box, c.outbox = some box → box < b.next) :
    next.Conveys after i took (lost ++ if c.abandons j a then c.waiting b else []) where
  whole := by
    have passage := acts.passage i fresh
    by_cases none : lost = []
    · rw [conveys.whole, none, List.filterMap_nil, List.append_nil, passage, List.nil_append]
    · -- Nothing waits once something was thrown away, so nothing is written behind what was lost.
      have shut := conveys.shut none
      rw [shut.waiting, ite_self, (acts.shut shut).waiting] at passage
      have written : c.written.filterMap (Outgoing.change? i) =
          next.written.filterMap (Outgoing.change? i) := by
        simpa using passage
      rw [conveys.whole, shut.waiting, ite_self, (acts.shut shut).waiting, List.append_nil, written]
  shut some := by
    by_cases none : lost = []
    · cases abandons : c.abandons j a with
      | false => simp [none, abandons] at some
      | true => exact acts.shut_of_abandons fresh made abandons
    · exact acts.shut (conveys.shut none)

/-- What an outbox takes waits behind what it took before. -/
theorem takes (conveys : c.Conveys b i took lost)
    (waits : (c.waiting after).filterMap (Event.change? i) =
      (c.waiting b).filterMap (Event.change? i) ++ more)
    (shut : c.Shut b → c.Shut after) : c.Conveys after i (took ++ more) lost where
  whole := by rw [conveys.whole, waits, List.append_assoc]
  shut some := shut (conveys.shut some)

end Conveys

end Connection

namespace Relay

/-- The changes of a participant that the outbox of the connection at a place took have come to it
so far, except for those that were thrown away or still wait. -/
structure Conveyed (r : Relay) (j : Nat) (i : ParticipantId) (took : List Change)
    (lost : List Event) : Prop where
  present : ∀ c, r.connections[j]? = some c → c.Conveys r.outboxes i took lost
  absent : r.connections[j]? = none → took = [] ∧ lost = []

variable {r next : Relay} {a : Action} {offers : List Offer} {h k : Handle} {i : ParticipantId}
  {j : Nat} {took : List Change} {lost : List Event}

section Step

/-- A change is passed on only when the room takes it out of the channel. -/
theorem passed?_of_unhandled (unhandled : r.handled? h a = none) : r.passed? h k a = none := by
  rw [passed?, unhandled]

theorem passed?_of_unseated (unseated : r.room.seating.seat? k = none) :
    r.passed? h k a = none := by
  rw [passed?]
  split
  · next seated =>
    cases unseated.symm.trans seated
  · rfl

theorem discarded_of_calm (calm : ∀ c : Connection, c.abandons j a = false) :
    r.discarded j a = [] := by
  rw [discarded]
  cases r.connections[j]? with
  | none => rfl
  | some c => simp [calm c]

/-- A step of another connection throws nothing away. -/
theorem discarded_of_acts {m : Nat} {c after : Connection} {sent : List Command} {b : Outboxes}
    (acts : c.Acts r.outboxes r.now m a after sent b) (other : m ≠ j) : r.discarded j a = [] := by
  apply discarded_of_calm
  intro d
  cases acts <;> simp [Connection.abandons, other]

/-- Nothing is thrown away if nothing waits. -/
theorem discarded_of_still (still : r.Still a) : r.discarded j a = [] := by
  rw [discarded]
  split
  · next c here =>
    split
    · next abandons =>
      cases a with
      | forward m =>
        obtain ⟨⟨rfl, off⟩, free⟩ : (m = j ∧ c.phase ≠ .running) ∧ c.inFlight = none := by
          simpa [Connection.abandons] using abandons
        rw [Connection.waiting, free]
        cases own : c.outbox with
        | none => rfl
        | some box =>
          cases found : r.outboxes.get? box with
          | none => simp [Outboxes.contents, found]
          | some o => simp [Outboxes.contents, found, still c box o here own found free]
      | deliver m =>
        obtain ⟨⟨rfl, off⟩, flies⟩ : (m = j ∧ c.phase ≠ .running) ∧ c.inFlight.isSome := by
          simpa [Connection.abandons] using abandons
        rw [still c here] at flies
        cases flies
      | upgrade | start | receive | beat | serve | ask | pass => cases abandons
    · rfl
  · rfl

/-- The listener hears from the room through its own outbox alone. -/
theorem waiting_served (wired : r.Wired) {x : Command} {rest : List Command}
    (after : (r.room.apply r.outboxes x).room.seating.Apart) (sole : r.Sole h i) (other : h ≠ k)
    (first : r.commands = x :: rest) {c : Connection} (member : c ∈ r.connections)
    (mine : c.handle = k) :
    (c.waiting (r.room.apply r.outboxes x).outboxes).filterMap (Event.change? i) =
      (c.waiting r.outboxes).filterMap (Event.change? i) ++
        taken (r.passed? h k .serve).toList := by
  cases own : c.outbox with
  | none =>
    have unseated : r.room.seating.seat? k = none := by
      rw [Option.eq_none_iff_forall_ne_some]
      intro s found
      obtain ⟨d, there, yours, outbox, -⟩ := wired.connection_of_seat found
      cases wired.placed.unique there member (yours.trans mine.symm)
      cases own.symm.trans outbox
    rw [passed?_of_unseated unseated]
    simp [Connection.waiting, own, taken]
  | some box =>
    have alone (l : Handle) (s : Seat) (found : r.room.seating.seat? l = some s) :
        s.outbox = box ↔ l = k := by
      obtain ⟨d, there, rfl, outbox, -⟩ := wired.connection_of_seat found
      constructor
      · rintro rfl
        rw [← mine]
        exact wired.placed.apart d there c member s.outbox outbox own
      · intro yours
        cases wired.placed.unique there member (yours.trans mine.symm)
        exact Option.some.inj (outbox.symm.trans own)
    rw [(r.room.performs_apply r.outboxes x).room] at after
    have contents := contents_served wired sole other first after alone
    simp [Connection.waiting, own, contents]

namespace Conveyed

variable (conveyed : r.Conveyed j i took lost)
include conveyed

theorem upgrade (l : Handle) :
    ({ r with connections := r.connections ++ [.upgraded l r.now] } : Relay).Conveyed j i took lost := by
  obtain ⟨present, absent⟩ := conveyed
  rcases Nat.lt_trichotomy j r.connections.length with below | rfl | above
  · have same : (r.connections ++ [.upgraded l r.now])[j]? = r.connections[j]? :=
      List.getElem?_append_left below
    exact ⟨same ▸ present, same ▸ absent⟩
  · obtain ⟨rfl, rfl⟩ := absent (List.getElem?_eq_none le_rfl)
    refine ⟨fun c here => ?_, fun _ => ⟨rfl, rfl⟩⟩
    rw [List.getElem?_append_right le_rfl, Nat.sub_self] at here
    cases here
    exact .upgraded l r.now r.outboxes i
  · have missing : (r.connections ++ [.upgraded l r.now])[j]? = none := by
      apply List.getElem?_eq_none
      rw [List.length_append]
      exact above
    refine ⟨fun c here => ?_, fun _ => absent (List.getElem?_eq_none above.le)⟩
    cases missing.symm.trans here

theorem acted (wired : r.Wired) {m : Nat} {d new : Connection} {sent : List Command} {b : Outboxes}
    (here : r.connections[m]? = some d) (acts : d.Acts r.outboxes r.now m a new sent b) :
    ({ r with
      outboxes := b
      commands := r.commands ++ sent
      connections := r.connections.set m new } : Relay).Conveyed j i took
        (lost ++ r.discarded j a) := by
  have present := List.mem_of_getElem? here
  by_cases same : m = j
  · subst same
    have after : (r.connections.set m new)[m]? = some new :=
      List.getElem?_set_self (List.getElem?_eq_some_iff.mp here).1
    refine ⟨fun c there => ?_, fun none => by cases none.symm.trans after⟩
    cases there.symm.trans after
    rw [discarded, here]
    exact (conveyed.present d here).acts acts (wired.bound d present).of_upgraded
      (wired.placed.made d present)
  · have after : (r.connections.set m new)[j]? = r.connections[j]? := List.getElem?_set_ne same
    rw [discarded_of_acts acts same, List.append_nil]
    refine ⟨fun c there => ?_, after ▸ conveyed.absent⟩
    have there := there.symm.trans after |>.symm
    have member := List.mem_of_getElem? there
    have stranger : c.handle ≠ d.handle := by
      intro alike
      have one := wired.placed.unique member present alike
      have distinct : r.connections.Nodup := wired.placed.distinct.of_map
      exact same ((List.getElem?_inj (List.getElem?_eq_some_iff.mp here).1 distinct).mp
        (here.trans (one ▸ there.symm)))
    have alike (box : OutboxId) (own : c.outbox = some box) : b.get? box = r.outboxes.get? box :=
      acts.get?_other (wired.placed.made c member box own)
        (wired.placed.other_outbox here acts member stranger own).1
    have waits : (c.waiting b).filterMap (Event.change? i) =
        (c.waiting r.outboxes).filterMap (Event.change? i) ++ [] := by
      rw [List.append_nil, Connection.waiting, Connection.waiting]
      cases own : c.outbox with
      | none => rfl
      | some box => simp [Outboxes.contents, alike box own]
    exact List.append_nil took ▸ (conveyed.present c there).takes waits fun shut => shut.congr alike

theorem served (wired : r.Wired) (sole : r.Sole h i) (other : h ≠ k) (places : r.Places k j)
    {x : Command} {rest : List Command} (first : r.commands = x :: rest)
    (after : (r.room.apply r.outboxes x).room.seating.Apart) :
    ({ r with
      room := (r.room.apply r.outboxes x).room
      outboxes := (r.room.apply r.outboxes x).outboxes
      commands := rest } : Relay).Conveyed j i
        (took ++ taken (r.passed? h k .serve).toList) lost := by
  refine ⟨fun c here => ?_, fun missing => ?_⟩
  · have member := List.mem_of_getElem? here
    have mine := (places j c here).mpr rfl
    apply (conveyed.present c here).takes
    · exact waiting_served wired after sole other first member mine
    · intro shut
      have dispatched := shut.dispatch (r.room.dispatches (r.room.deed x))
      rwa [← (Prod.mk.inj (sent_apply r x)).1] at dispatched
  · have unseated : r.room.seating.seat? k = none := by
      rw [Option.eq_none_iff_forall_ne_some]
      intro s found
      obtain ⟨c, there, handle, -⟩ := wired.connection_of_seat found
      obtain ⟨m, here⟩ := List.getElem?_of_mem there
      rw [(places m c here).mp handle] at here
      cases missing.symm.trans here
    rw [passed?_of_unseated unseated]
    simpa [taken] using conveyed.absent missing

/-- Every step conveys changes in their order. -/
theorem step (wired : r.Wired) (sole : r.Sole h i) (other : h ≠ k) (places : r.Places k j)
    (steps : r.Steps a next offers) (allowed : r.Allows a) :
    next.Conveyed j i (took ++ taken (r.passed? h k a).toList) (lost ++ r.discarded j a) := by
  have unpassed (unhandled : r.handled? h a = none) :
      took ++ taken (r.passed? h k a).toList = took := by
    rw [passed?_of_unhandled unhandled]
    exact List.append_nil took
  have after := wired.step steps allowed
  cases steps with
  | idle still =>
    rw [unpassed (handled?_of_still still), discarded_of_still still, List.append_nil]
    exact conveyed
  | upgraded l =>
    rw [unpassed rfl, discarded_of_calm fun _ => rfl, List.append_nil]
    exact conveyed.upgrade l
  | acted here acts =>
    rw [unpassed (by cases acts <;> rfl)]
    exact conveyed.acted wired here acts
  | asked x =>
    rw [unpassed rfl, discarded_of_calm fun _ => rfl, List.append_nil]
    exact ⟨conveyed.present, conveyed.absent⟩
  | passed n =>
    rw [unpassed rfl, discarded_of_calm fun _ => rfl, List.append_nil]
    exact ⟨conveyed.present, conveyed.absent⟩
  | served first =>
    rw [discarded_of_calm fun _ => rfl, List.append_nil]
    exact conveyed.served wired sole other places first after.seats_apart

end Conveyed

end Step

section Run

/-- What holds at the start of a regular run and is kept by each of its steps holds at its end. The
step may depend on what comes later. -/
theorem cut_induction {P : List Action → Prop} {actions : List Action} (regular : Regular actions)
    (nil : P [])
    (step : ∀ earlier a later offers, actions = earlier ++ ([a] ++ later) →
      ((start .live).run earlier).relay.Wired → ((start .live).run earlier).relay.Allows a →
      ((start .live).run earlier).relay.Steps a ((start .live).run (earlier ++ [a])).relay offers →
      P earlier → P (earlier ++ [a])) : P actions := by
  -- The induction is on how far the run has come; the rest of it is whatever is left.
  have every (earlier later : List Action) (cut : actions = earlier ++ later) : P earlier := by
    induction earlier using List.reverseRecOn generalizing later with
    | nil => exact nil
    | append_singleton earlier a ih =>
      have longer : actions = earlier ++ ([a] ++ later) := by rw [cut, List.append_assoc]
      obtain ⟨offers, steps, -⟩ := steps_concat earlier a
      exact step earlier a later offers longer (wired_run (longer ▸ regular).before)
        (cut ▸ regular).before.allows steps (ih _ longer)
  exact every actions [] (List.append_nil actions).symm

/-- What a connection tells of is handled in the order in which it was read. -/
theorem channel_run {actions : List Action} (regular : Regular actions) {c : Connection}
    (here : ((start .live).run actions).relay.connections[j]? = some c) :
    handled c.handle actions ++
        ((start .live).run actions).relay.commands.filterMap (Command.change? c.handle) =
      spoken j actions := by
  apply cut_induction (P := fun earlier => handled c.handle earlier ++
    ((start .live).run earlier).relay.commands.filterMap (Command.change? c.handle) =
      spoken j earlier) regular rfl
  intro earlier a later offers cut _ allowed steps ih
  have places := places_run (cut ▸ regular) (cut ▸ here)
  rw [handled_concat, spoken_concat, ← ih, List.append_assoc, channel_step steps allowed places,
    List.append_assoc]

/-- What was passed on to a connection has come to it in the order in which it was handled. -/
theorem conveyed_run {actions : List Action} (regular : Regular actions)
    (bears : Bears actions h i) {c : Connection}
    (here : ((start .live).run actions).relay.connections[j]? = some c) (other : h ≠ c.handle) :
    ((start .live).run actions).relay.Conveyed j i (taken (passed h c.handle actions))
      (thrownAway j actions) := by
  apply cut_induction (P := fun earlier => ((start .live).run earlier).relay.Conveyed j i
    (taken (passed h c.handle earlier)) (thrownAway j earlier)) regular
  · exact ⟨nofun, fun _ => ⟨rfl, rfl⟩⟩
  · intro earlier a later offers cut wired allowed steps ih
    have sole := sole_of_bears regular bears cut
    have places := places_run (cut ▸ regular) (cut ▸ here)
    rw [passed_concat, taken_append, thrownAway_concat]
    exact ih.step wired sole other places steps allowed

theorem handled_of_passed {p : Change × Verdict} (passes : r.passed? h k a = some p) :
    r.handled? h a = some p.1 := by
  rw [passed?] at passes
  split at passes
  · next handles _ _ =>
    cases passes
    exact handles
  · cases passes

/-- Only what is handled is passed on. -/
theorem passed_sublist (h k : Handle) (actions : List Action) :
    ((passed h k actions).map (·.1)).Sublist (handled h actions) := by
  induction actions using List.reverseRecOn with
  | nil => exact .slnil
  | append_singleton actions a ih =>
    rw [passed_concat, handled_concat, List.map_append]
    apply ih.append
    cases passes : ((start .live).run actions).relay.passed? h k a with
    | none => exact List.nil_sublist _
    | some p =>
      rw [handled_of_passed passes]
      exact .refl _

theorem taken_sublist (passed : List (Change × Verdict)) :
    (taken passed).Sublist (passed.map (·.1)) :=
  List.filter_sublist.map _

/-- A text that cannot be read is worth as much as a pong. -/
theorem step_unreadable {text : String} (unreadable : ∀ m, ClientMessage.read text ≠ .ok (some m))
    (r : Relay) (j : Nat) :
    (r.step (.receive j (.text text))).relay = (r.step (.receive j .pong)).relay := by
  rw [step, step]
  cases r.connections[j]? with
  | none => rfl
  | some c =>
    obtain ⟨same, silent⟩ : let taken := c.react r.takesCommands r.now (.client (.text text))
        taken.connection = (c.react r.takesCommands r.now (.client .pong)).connection ∧
          taken.commands = [] := by
      rw [Connection.react, Connection.react]
      split
      · rw [Connection.receive]
        split
        · next m read => exact absurd read (unreadable m)
        · exact ⟨rfl, rfl⟩
        · exact ⟨rfl, rfl⟩
      · exact ⟨rfl, rfl⟩
    have pong : (c.react r.takesCommands r.now (.client .pong)).commands = [] := by
      rw [Connection.react]
      split <;> rfl
    simp only [react, same, silent, pong]

/-- A pong of a client changes when the client was heard last, or nothing. -/
theorem step_pong (earlier : List Action) (j : Nat) :
    let r := ((start .live).run earlier).relay
    (r.step (.receive j .pong)).relay = r ∨
      r.HeardBy j r.now ∧ (r.step (.receive j .pong)).relay = r.hearAt j r.now := by
  intro r
  rw [step]
  cases here : r.connections[j]? with
  | none => exact .inl rfl
  | some c =>
    simp only [react, Connection.react]
    split
    · refine .inr ⟨⟨c, here, heardAt_le_now (List.mem_of_getElem? here)⟩, ?_⟩
      have put := List.modify_eq_set_getElem? (·.hear r.now) j r.connections
      simp only [here, Option.map_eq_map, Option.map_some, Option.getD_some] at put
      simp only [Connection.receive, Connection.idle, List.append_nil, hearAt, put]
    · exact .inl (by simp only [Connection.idle, List.append_nil, set_self here])

/-- A run is the same with a pong in the place of a text that cannot be read. -/
theorem run_unreadable {text : String} (unreadable : ∀ m, ClientMessage.read text ≠ .ok (some m))
    (earlier later : List Action) (j : Nat) :
    ((start .live).run (earlier ++ .receive j (.text text) :: later)).relay =
        ((start .live).run (earlier ++ .receive j .pong :: later)).relay ∧
      spoken j (earlier ++ .receive j (.text text) :: later) =
        spoken j (earlier ++ .receive j .pong :: later) := by
  have unsaid : (Inbound.text text).speech? = none := by
    rw [Inbound.speech?]
    cases read : ClientMessage.read text with
    | error e => rfl
    | ok m =>
      cases m with
      | none => rfl
      | some m => exact absurd read (unreadable m)
  constructor
  · rw [run_append, run_cons, step_unreadable unreadable, run_append, run_cons]
  · rw [spoken_append, spoken_append, speaks_cons, speaks_cons, step_unreadable unreadable,
      spoken?_of_unsaid unsaid, spoken?_of_unsaid rfl]

/-- Without a pong, a client that is not missed for it does the same; one that is missed says less,
but in the same order. -/
theorem run_pong (earlier later : List Action) (j : Nat) :
    spoken j (earlier ++ later) <+: spoken j (earlier ++ .receive j .pong :: later) ∧
      ((∀ before a after, later = before ++ a :: after →
        ¬ ((start .live).run (earlier ++ before)).relay.TimesOut j a) →
      spoken j (earlier ++ .receive j .pong :: later) = spoken j (earlier ++ later) ∧
        ∃ time, ((start .live).run (earlier ++ .receive j .pong :: later)).relay =
          ((start .live).run (earlier ++ later)).relay.hearAt j time) := by
  have live := service_run (r := start .live) rfl earlier
  have unsaid : ((start .live).run earlier).relay.spoken? j (.receive j .pong) = none :=
    spoken?_of_unsaid rfl
  rw [spoken_append, spoken_append, speaks_cons, unsaid, run_append, run_append, run_cons,
    Option.toList_none, List.nil_append, List.prefix_append_right_inj]
  rcases step_pong earlier j with same | ⟨heard, same⟩
  · rw [same]
    exact ⟨List.prefix_rfl, fun _ => ⟨rfl, exists_eq_hearAt _ j⟩⟩
  · rw [same]
    refine ⟨speaks_hearAt live heard later, fun intime => ?_⟩
    obtain ⟨speaks, runs⟩ := run_hearAt heard later fun before a after cut => by
      rw [← run_append]
      exact intime before a after cut
    exact ⟨by rw [speaks], runs⟩

/-- A running connection passes what it reads on to the room. -/
theorem step_said {c : Connection} {text : String} {m : ClientMessage} (live : r.service = .live)
    (here : r.connections[j]? = some c) (running : c.phase = .running)
    (read : ClientMessage.read text = .ok (some m)) :
    (r.step (.receive j (.text text))).relay = { r with
      connections := r.connections.set j (c.hear r.now)
      commands := r.commands ++ [.message c.handle m] } := by
  have alive : r.takesCommands = true := by simp [takesCommands, live]
  rw [step, here]
  simp only [react, alive, Connection.react, running, Connection.receive, read, if_true]
  rfl

end Run

section Order

/-- What becomes of the changes of the participant of one connection on their way to another one, if
some events for the other one were thrown away. -/
structure InOrder (actions : List Action) (ia ib : Nat) (a b : Connection) (i : ParticipantId)
    (lost : List Event) : Prop where
  /-- What is written was read, in this order, and is written once. -/
  read : (b.written.filterMap (Outgoing.change? i)).Sublist (spoken ia actions)
  /-- What was read is handled in this order, or is still in the channel. -/
  told : spoken ia actions = handled a.handle actions ++
    ((start .live).run actions).relay.commands.filterMap (Command.change? a.handle)
  /-- What was handled while both had seats and there was room for it is written, is lost, or still
  waits. -/
  whole : taken (passed a.handle b.handle actions) =
    b.written.filterMap (Outgoing.change? i) ++ lost.filterMap (Event.change? i) ++
      (b.waiting ((start .live).run actions).relay.outboxes).filterMap (Event.change? i)
  /-- A text that cannot be read is worth as much as a pong. -/
  unread : ∀ earlier later text, actions = earlier ++ .receive ia (.text text) :: later →
    (∀ m, ClientMessage.read text ≠ .ok (some m)) →
    ((start .live).run actions).relay =
        ((start .live).run (earlier ++ .receive ia .pong :: later)).relay ∧
      spoken ia actions = spoken ia (earlier ++ .receive ia .pong :: later)
  /-- Without it the others come in the same order, up to where the client is missed. If it is not
  missed, everything is as it is with the text, but for when the client was heard last. -/
  unmissed : ∀ earlier later text, actions = earlier ++ .receive ia (.text text) :: later →
    (∀ m, ClientMessage.read text ≠ .ok (some m)) →
    spoken ia (earlier ++ later) <+: spoken ia actions ∧
      ((∀ before a after, later = before ++ a :: after →
        ¬ ((start .live).run (earlier ++ before)).relay.TimesOut ia a) →
      spoken ia actions = spoken ia (earlier ++ later) ∧
        ∃ time, ((start .live).run actions).relay =
          ((start .live).run (earlier ++ later)).relay.hearAt ia time)

/-- Changes come to another connection in the order in which they were read. On the way from its
outbox to its socket, none are lost but those that are thrown away because it has stopped. -/
theorem changes_in_order {actions : List Action} (regular : Regular actions) {ia ib : Nat}
    (other : ia ≠ ib) {a b : Connection} {i : ParticipantId}
    (speaker : ((start .live).run actions).relay.connections[ia]? = some a)
    (listener : ((start .live).run actions).relay.connections[ib]? = some b)
    (bears : Bears actions a.handle i) :
    InOrder actions ia ib a b i (thrownAway ib actions) := by
  have apart : a.handle ≠ b.handle := by
    intro same
    have uncut : actions = actions ++ [] := (List.append_nil actions).symm
    have places := places_run (uncut ▸ regular) (uncut ▸ listener)
    exact other ((places ia a speaker).mp same)
  have told := channel_run regular speaker
  have whole := ((conveyed_run regular bears listener apart).present b listener).whole
  refine ⟨?_, told.symm, whole, ?_, ?_⟩
  · have written : (b.written.filterMap (Outgoing.change? i)).Sublist
        (taken (passed a.handle b.handle actions)) := by
      rw [whole, List.append_assoc]
      exact List.sublist_append_left _ _
    have handled : (taken (passed a.handle b.handle actions)).Sublist (handled a.handle actions) :=
      (taken_sublist _).trans (passed_sublist _ _ _)
    rw [← told]
    exact (written.trans handled).trans (List.sublist_append_left _ _)
  · rintro earlier later text rfl unreadable
    exact run_unreadable unreadable earlier later ia
  · rintro earlier later text rfl unreadable
    obtain ⟨relay, speaks⟩ := run_unreadable unreadable earlier later ia
    rw [relay, speaks]
    exact run_pong earlier later ia

/-- What a client writes to share an editor. -/
def shares (b : Bool) : String :=
  (Json.Value.object [("event", .string "editor"), ("data", .boolean b)]).text

theorem read_shares (b : Bool) :
    ClientMessage.read (shares b) = .ok (some (.change (.editor (.boolean b)))) :=
  ClientMessage.read_editor nofun (.boolean b) (.boolean b) (Nat.zero_le _)

/-- Two connections get their seats. -/
def opening : List Action := [.upgrade 0, .upgrade 1, .start 0, .start 1, .serve, .serve]

/-- The first one shares its editor twice. -/
def sharing : List Action := [.receive 0 (.text (shares true)), .receive 0 (.text (shares false))]

/-- The second one writes its greeting and the first editor, and stops before the other one. -/
def parting : List Action :=
  [.serve, .serve, .forward 1, .deliver 1, .forward 1, .deliver 1, .receive 1 .ended, .forward 1]

def partingRun : List Action := opening ++ (sharing ++ parting)

def shared : Relay :=
  { ((start .live).run opening).relay with
    commands := [.message 0 (.change (.editor (.boolean true))),
      .message 0 (.change (.editor (.boolean false)))] }

theorem run_sharing : (((start .live).run opening).relay.run sharing).relay = shared := by
  rw [sharing, run_cons, step_said rfl rfl rfl (read_shares true), run_cons,
    step_said rfl rfl rfl (read_shares false)]
  rfl

theorem run_parting : ((start .live).run partingRun).relay = (shared.run parting).relay := by
  rw [partingRun, run_append, run_append, run_sharing]

theorem moments_parting : (start .live).moments partingRun =
    (start .live).moments opening ++ (((start .live).run opening).relay.moments sharing ++
      shared.moments parting) := by
  rw [partingRun, moments_append, moments_append, run_sharing]

/-- The outbox of the second one takes both editors. -/
theorem taken_parting : taken (passed 0 1 partingRun) =
    [.editor (.boolean true), .editor (.boolean false)] := by
  rw [passed, moments_parting]
  rfl

theorem thrownAway_parting : (thrownAway 1 partingRun).filterMap (Event.change? 0) =
    [.editor (.boolean false)] := by
  rw [thrownAway, moments_parting]
  rfl

theorem regular_parting : Regular partingRun where
  distinct := by decide
  few := by decide
  outside c asked := by simp [partingRun, opening, sharing, parting] at asked

theorem bears_parting : Bears partingRun 0 0 :=
  ⟨opening, sharing ++ parting, ⟨.fresh 0, 0⟩, rfl, rfl, rfl⟩

theorem connections_parting : ∃ a b,
    ((start .live).run partingRun).relay.connections = [a, b] ∧ a.handle = 0 ∧ b.handle = 1 ∧
      b.written.filterMap (Outgoing.change? 0) = [.editor (.boolean true)] ∧
      b.waiting ((start .live).run partingRun).relay.outboxes = [] := by
  rw [run_parting]
  exact ⟨_, _, rfl, rfl, rfl, rfl, rfl⟩

/-- One of two editors is written in time, and the other one is thrown away. -/
theorem changes_in_order_parting : ∃ a b,
    ((start .live).run partingRun).relay.connections = [a, b] ∧ Bears partingRun a.handle 0 ∧
      InOrder partingRun 0 1 a b 0 (thrownAway 1 partingRun) ∧
      b.written.filterMap (Outgoing.change? 0) = [.editor (.boolean true)] ∧
      (thrownAway 1 partingRun).filterMap (Event.change? 0) = [.editor (.boolean false)] := by
  obtain ⟨a, b, both, mine, -, written, -⟩ := connections_parting
  have bears : Bears partingRun a.handle 0 := mine ▸ bears_parting
  have inOrder := changes_in_order regular_parting Nat.zero_ne_one (congrArg (·[0]?) both)
    (congrArg (·[1]?) both) bears
  exact ⟨a, b, both, bears, inOrder, written, thrownAway_parting⟩

/-- So what an outbox took and holds no more need not be written. -/
theorem stopped_listener_misses_changes :
    ¬ ∀ (actions : List Action) (ia ib : Nat) (a b : Connection) (i : ParticipantId),
      Regular actions → ia ≠ ib →
      ((start .live).run actions).relay.connections[ia]? = some a →
      ((start .live).run actions).relay.connections[ib]? = some b →
      Bears actions a.handle i → InOrder actions ia ib a b i [] := by
  intro every
  obtain ⟨a, b, both, mine, yours, written, waiting⟩ := connections_parting
  have bears : Bears partingRun a.handle 0 := mine ▸ bears_parting
  have whole := (every partingRun 0 1 a b 0 regular_parting Nat.zero_ne_one
    (congrArg (·[0]?) both) (congrArg (·[1]?) both) bears).whole
  rw [mine, yours, taken_parting, written, waiting] at whole
  cases whole

end Order

end Relay

end LiveRelay
