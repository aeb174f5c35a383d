import LiveRelay.Proofs.Relay.Wired

/-! # How a change passes through the relay

A change is spoken when a connection reads it from a text frame, handled when the room takes it out
of the channel, and passed on if both the speaker and the listener have a seat then. Of the changes
that are passed on, the outbox of the listener takes those for which it has room. They wait in the
outbox and on the way to the connection, until they are written to its socket, or are thrown away
because the connection has stopped.
-/

namespace LiveRelay

/-- The change that a client tells of. -/
def ClientMessage.change? : ClientMessage → Option Change
  | .change c => some c
  | .reset => none

/-- The change that a command of a connection tells of. -/
def Command.change? (h : Handle) : Command → Option Change
  | .message k (.change c) => if k = h then some c else none
  | .message _ .reset | .connect _ _ | .disconnect _ | .listParticipants | .kick _ => none

/-- The change of a participant that a message tells of. -/
def ServerMessage.change? (i : ParticipantId) : ServerMessage → Option Change
  | .changed c j => if j = i then some c else none
  | .hello _ _ _ | .join _ | .leave _ | .reset => none

/-- The change of a participant that an event tells of. -/
def Event.change? (i : ParticipantId) : Event → Option Change
  | .message m => m.change? i
  | .dismissal _ => none

/-- The change of a participant that is written to a socket. -/
def Outgoing.change? (i : ParticipantId) (o : Outgoing) : Option Change :=
  o.message?.bind (ServerMessage.change? i)

namespace Connection

/-- The events on their way to a connection: one in flight, and those in its outbox. -/
def waiting (c : Connection) (b : Outboxes) : List Event :=
  c.inFlight.toList ++ (c.outbox.map b.contents).getD []

/-- Whether a step finds that a connection has stopped, and throws away what waits for it. -/
def abandons (c : Connection) (j : Nat) : Action → Bool
  | .forward i => i == j && c.phase ≠ .running && c.inFlight.isNone
  | .deliver i => i == j && c.phase ≠ .running && c.inFlight.isSome
  | _ => false

/-- Who writes the same messages tells of the same changes. -/
theorem changes_of_messages {i : ParticipantId} {some other : List Outgoing}
    (same : some.filterMap Outgoing.message? = other.filterMap Outgoing.message?) :
    some.filterMap (Outgoing.change? i) = other.filterMap (Outgoing.change? i) := by
  have both := congrArg (List.filterMap (ServerMessage.change? i)) same
  rwa [List.filterMap_filterMap, List.filterMap_filterMap] at both

/-- Nothing waits for a connection, and nothing ever will: its outbox is empty and closed. -/
structure Shut (c : Connection) (b : Outboxes) : Prop where
  started : c.phase ≠ .upgraded
  free : c.inFlight = none
  closed : ∀ box, c.outbox = some box →
    ∃ o, b.get? box = some o ∧ o.events = [] ∧ o.reception ≠ .opened

namespace Shut

variable {b after : Outboxes} {c : Connection}

theorem waiting (shut : c.Shut b) : c.waiting b = [] := by
  rw [Connection.waiting, shut.free]
  cases own : c.outbox with
  | none => rfl
  | some box =>
    obtain ⟨o, found, empty, -⟩ := shut.closed box own
    simp [Outboxes.contents, found, empty]

/-- It depends on its own outbox alone. -/
theorem congr (shut : c.Shut b)
    (alike : ∀ box, c.outbox = some box → after.get? box = b.get? box) : c.Shut after where
  started := shut.started
  free := shut.free
  closed box own := alike box own ▸ shut.closed box own

theorem dispatch (shut : c.Shut b) (ds : List Dispatch) : c.Shut (b.dispatch ds).1 where
  started := shut.started
  free := shut.free
  closed box own := by
    obtain ⟨o, found, empty, closed⟩ := shut.closed box own
    refine ⟨o, ?_, empty, closed⟩
    rw [Outboxes.get?_dispatch, found, Option.map_some, Outbox.foldl_offer_of_closed closed]

end Shut

namespace Acts

variable {b after : Outboxes} {now j : Nat} {c next : Connection} {a : Action} {sent : List Command}

/-- What waits for a connection is written to its socket in this order, or is thrown away. -/
theorem passage (acts : c.Acts b now j a next sent after) (i : ParticipantId)
    (fresh : c.phase = .upgraded → c.outbox = none ∧ c.inFlight = none) :
    c.written.filterMap (Outgoing.change? i) ++ (c.waiting b).filterMap (Event.change? i) =
      next.written.filterMap (Outgoing.change? i) ++
        (if c.abandons j a then c.waiting b else []).filterMap (Event.change? i) ++
        (next.waiting after).filterMap (Event.change? i) := by
  cases acts with
  | started phase =>
    obtain ⟨unmade, free⟩ := fresh phase
    have empty : b.contents b.next = [] := by simp [Outboxes.contents, Outboxes.get?, Outboxes.next]
    simp [waiting, abandons, unmade, free, Outboxes.contents_add, empty]
  | heard _ _ _ _ same | quit _ _ _ same | pinged _ _ same | timedOut _ _ _ same =>
    simp [waiting, abandons, changes_of_messages same]
  | said running read => simp [waiting, hear, abandons]
  | @took box o e rest running own free found first =>
    have held : b.contents box = e :: rest := by simp [Outboxes.contents, found, first]
    have left : (b.modify box fun o => (o.take 1).2).contents box = rest := by
      simp [Outboxes.contents_modify, found, Outbox.take, first]
    simp [waiting, abandons, running, own, free, held, left]
  | @wrote m written running flying last =>
    cases told : m.change? i <;> simp [waiting, abandons, running, flying, last, Outgoing.change?,
      Outgoing.message?, Event.change?, told]
  | obeyed written running flying same =>
    simp [waiting, abandons, running, flying, changes_of_messages same, Event.change?,
      List.filterMap_cons]
  | @dropped box off own free =>
    have left : (b.modify box Outbox.drop).contents box = [] := by
      rw [Outboxes.contents_modify, if_pos rfl]
      cases b.get? box <;> rfl
    simp [waiting, abandons, off, own, free, left]
  | @lost e off flying =>
    have left (box : OutboxId) : (b.modify box Outbox.drop).contents box = [] := by
      rw [Outboxes.contents_modify, if_pos rfl]
      cases b.get? box <;> rfl
    cases own : c.outbox <;> simp [waiting, abandons, off, own, flying, left]

/-- A connection for which nothing ever waits stays so. -/
theorem shut (acts : c.Acts b now j a next sent after) (shut : c.Shut b) : next.Shut after := by
  obtain ⟨started, free, closed⟩ := shut
  have dropped {box : OutboxId} (own : c.outbox = some box) :
      ∃ o, (b.modify box Outbox.drop).get? box = some o ∧ o.events = [] ∧
        o.reception ≠ .opened := by
    obtain ⟨o, found, -⟩ := closed box own
    exact ⟨o.drop, by simp [Outboxes.get?_modify, found], rfl, nofun⟩
  cases acts with
  | started phase => exact absurd phase started
  | heard | said | pinged => exact ⟨started, free, closed⟩
  | quit | timedOut => exact ⟨nofun, free, closed⟩
  | took running own idle found first =>
    obtain ⟨o, held, empty, -⟩ := closed _ own
    cases found.symm.trans held
    cases first.symm.trans empty
  | wrote written running flying => cases free.symm.trans flying
  | obeyed written running flying => cases free.symm.trans flying
  | @dropped box off own =>
    refine ⟨started, free, fun other same => ?_⟩
    cases own.symm.trans same
    exact dropped own
  | lost off flying => cases free.symm.trans flying

/-- Once something is thrown away, nothing ever waits for a connection again. -/
theorem shut_of_abandons (acts : c.Acts b now j a next sent after)
    (fresh : c.phase = .upgraded → c.outbox = none ∧ c.inFlight = none)
    (made : ∀ box, c.outbox = some box → box < b.next) (abandons : c.abandons j a = true) :
    next.Shut after := by
  have dropped {box : OutboxId} (own : c.outbox = some box) :
      ∃ o, (b.modify box Outbox.drop).get? box = some o ∧ o.events = [] ∧
        o.reception ≠ .opened := by
    obtain ⟨o, found⟩ : ∃ o, b.get? box = some o := ⟨_, List.getElem?_eq_getElem (made box own)⟩
    exact ⟨o.drop, by simp [Outboxes.get?_modify, found], rfl, nofun⟩
  cases acts with
  | @dropped box off own free =>
    refine ⟨fun phase => ?_, free, fun other same => ?_⟩
    · cases own.symm.trans (fresh phase).1
    · cases own.symm.trans same
      exact dropped own
  | lost off flying =>
    refine ⟨fun phase => ?_, rfl, fun box own => ?_⟩
    · cases flying.symm.trans (fresh phase).2
    · have own : c.outbox = some box := own
      rw [own]
      exact dropped own
  | took running => simp [Connection.abandons, running] at abandons
  | wrote written running => simp [Connection.abandons, running] at abandons
  | obeyed written running => simp [Connection.abandons, running] at abandons
  | started | heard | said | quit | pinged | timedOut => cases abandons

end Acts

end Connection

namespace Relay

/-- The moments of a run: the relay at each time, and what happens then. -/
def moments (r : Relay) : List Action → List (Relay × Action)
  | [] => []
  | a :: more => (r, a) :: (r.step a).relay.moments more

/-- The change that the connection at a place reads from a frame while it runs. -/
def spoken? (r : Relay) (j : Nat) : Action → Option Change
  | .receive i x =>
    if i = j ∧ (r.connections[j]?).any (·.phase = .running) then x.speech?.bind ClientMessage.change?
    else none
  | _ => none

/-- The change of a connection that the room takes out of the channel. -/
def handled? (r : Relay) (h : Handle) : Action → Option Change
  | .serve => r.commands.head?.bind (Command.change? h)
  | _ => none

/-- The change of one connection that is handled while it and another one have seats, and what the
outbox of the other one makes of it. -/
def passed? (r : Relay) (h k : Handle) (a : Action) : Option (Change × Verdict) :=
  match r.handled? h a, r.room.seating.seat? h, r.room.seating.seat? k with
  | some c, some _, some s => some (c, ((r.outboxes.get? s.outbox).map Outbox.verdict).getD .closed)
  | _, _, _ => none

/-- The events for the connection at a place that a step throws away. -/
def discarded (r : Relay) (j : Nat) (a : Action) : List Event :=
  match r.connections[j]? with
  | some c => if c.abandons j a then c.waiting r.outboxes else []
  | none => []

/-- The changes that the connection at a place reads in a run, in order. -/
def spoken (j : Nat) (actions : List Action) : List Change :=
  ((start .live).moments actions).filterMap fun m => m.1.spoken? j m.2

/-- The changes of a connection that the room handles in a run, in order. -/
def handled (h : Handle) (actions : List Action) : List Change :=
  ((start .live).moments actions).filterMap fun m => m.1.handled? h m.2

/-- The changes of one connection that are passed on to another one in a run, in order. -/
def passed (h k : Handle) (actions : List Action) : List (Change × Verdict) :=
  ((start .live).moments actions).filterMap fun m => m.1.passed? h k m.2

/-- The events for the connection at a place that are thrown away in a run. -/
def thrownAway (j : Nat) (actions : List Action) : List Event :=
  ((start .live).moments actions).flatMap fun m => m.1.discarded j m.2

/-- The changes that an outbox took. -/
def taken (passed : List (Change × Verdict)) : List Change :=
  (passed.filter (·.2 == .accepted)).map (·.1)

theorem run_cons (r : Relay) (a : Action) (more : List Action) :
    (r.run (a :: more)).relay = ((r.step a).relay.run more).relay := by
  induction more using List.reverseRecOn with
  | nil => rfl
  | append_singleton more b ih =>
    rw [← List.cons_append, (r.run_concat _ b).1, ((r.step a).relay.run_concat more b).1, ih]

theorem run_append (r : Relay) (actions more : List Action) :
    (r.run (actions ++ more)).relay = ((r.run actions).relay.run more).relay := by
  induction actions generalizing r with
  | nil => rfl
  | cons a actions ih => rw [List.cons_append, run_cons, ih, run_cons]

theorem moments_append (r : Relay) (actions more : List Action) :
    r.moments (actions ++ more) = r.moments actions ++ (r.run actions).relay.moments more := by
  induction actions generalizing r with
  | nil => rfl
  | cons a actions ih => rw [List.cons_append, moments, ih, run_cons, moments, List.cons_append]

section Concat

variable (actions : List Action) (a : Action)

theorem spoken_concat (j : Nat) : spoken j (actions ++ [a]) =
    spoken j actions ++ (((start .live).run actions).relay.spoken? j a).toList := by
  rw [spoken, moments_append, List.filterMap_append]
  rfl

theorem handled_concat (h : Handle) : handled h (actions ++ [a]) =
    handled h actions ++ (((start .live).run actions).relay.handled? h a).toList := by
  rw [handled, moments_append, List.filterMap_append]
  rfl

theorem passed_concat (h k : Handle) : passed h k (actions ++ [a]) =
    passed h k actions ++ (((start .live).run actions).relay.passed? h k a).toList := by
  rw [passed, moments_append, List.filterMap_append]
  rfl

theorem thrownAway_concat (j : Nat) : thrownAway j (actions ++ [a]) =
    thrownAway j actions ++ ((start .live).run actions).relay.discarded j a := by
  simp [thrownAway, moments_append, moments]

theorem taken_append (ps qs : List (Change × Verdict)) :
    taken (ps ++ qs) = taken ps ++ taken qs := by
  simp [taken]

end Concat

variable {r next : Relay} {a : Action} {offers : List Offer} {h k : Handle} {i : ParticipantId}
  {j : Nat} {x : Command} {rest : List Command}

section Speaking

theorem spoken?_of_unsaid {m : Nat} {y : Inbound} (unsaid : y.speech? = none) :
    r.spoken? j (.receive m y) = none := by
  rw [spoken?, unsaid]
  split <;> rfl

theorem handled?_of_still (still : r.Still a) : r.handled? h a = none := by
  cases a with
  | serve =>
    have empty : r.commands = [] := still
    rw [handled?, empty]
    rfl
  | _ => rfl

/-- What is spoken goes to the end of the channel, and what is handled comes from its front. -/
theorem channel_step (steps : r.Steps a next offers) (allowed : r.Allows a)
    (places : r.Places h j) :
    (r.handled? h a).toList ++ next.commands.filterMap (Command.change? h) =
      r.commands.filterMap (Command.change? h) ++ (r.spoken? j a).toList := by
  cases steps with
  | idle still =>
    have unspoken : r.spoken? j a = none := by
      cases a with
      | receive m y =>
        have quiet : ¬ (m = j ∧ (r.connections[j]?).any (·.phase = .running) = true) := by
          rintro ⟨rfl, runs⟩
          obtain ⟨c, here, running⟩ := Option.any_eq_true _ _ |>.mp runs
          exact still c here (of_decide_eq_true running)
        rw [spoken?, if_neg quiet]
      | _ => rfl
    rw [unspoken, handled?_of_still still]
    simp
  | upgraded k => simp [handled?, spoken?]
  | passed n => simp [handled?, spoken?]
  | @acted m c after _ sent b here acts =>
    rw [List.filterMap_append]
    cases acts with
    | @said text y running read =>
      have speech : (Inbound.text text).speech? = some y := by rw [Inbound.speech?, read]
      by_cases mine : c.handle = h
      · obtain rfl := (places m c here).mp mine
        cases y <;> simp [handled?, spoken?, here, running, speech, Command.change?, mine,
          ClientMessage.change?]
      · have other : m ≠ j := mt (places m c here).mpr mine
        cases y <;> simp [handled?, spoken?, other, Command.change?, mine]
    | heard _ _ _ unsaid => simp [handled?, spoken?_of_unsaid unsaid]
    | @quit y written running ends =>
      have unsaid : y.speech? = none := by cases y <;> first | rfl | cases ends
      rw [spoken?_of_unsaid unsaid]
      cases c.dismissed <;> simp [handled?, Command.change?]
    | timedOut => cases c.dismissed <;> simp [handled?, spoken?, Command.change?]
    | started => simp [handled?, spoken?, Command.change?]
    | pinged | took | wrote | obeyed | dropped | lost => simp [handled?, spoken?]
  | asked x =>
    have silent : x.change? h = none := by
      have outside := allowed.outside x rfl
      cases x <;> first | rfl | cases outside
    simp [handled?, spoken?, silent]
  | @served x rest first =>
    rw [first]
    cases found : x.change? h <;> simp [handled?, spoken?, first, found]

end Speaking

section Listening

/-- What is sent out tells of a change of a participant only if the participant changes. -/
theorem changed_of_dispatch {d : Deed} {e : Dispatch} {c : Change}
    (sent : e ∈ r.room.dispatches d) (tells : e.event.change? i = some c) :
    ∃ l s, d = .changed l s c ∧ s.participant.id = i := by
  have silent {recipients : Recipients} {m : ServerMessage} {seats : List (Handle × Seat)}
      (none : m.change? i = none) (member : e ∈ news recipients m seats) : False := by
    rw [event_of_news member, Event.change?, none] at tells
    cases tells
  cases d with
  | changed l s d =>
    rw [event_of_news sent, Event.change?, ServerMessage.change?] at tells
    split at tells
    · next same =>
      cases tells
      exact ⟨l, s, rfl, same⟩
    · cases tells
  | admitted l s =>
    rcases List.mem_append.mp sent with greeting | arrival
    · exact (silent rfl greeting).elim
    · exact (silent rfl arrival).elim
  | left l s => exact (silent rfl sent).elim
  | dismissed l s =>
    rcases List.mem_append.mp sent with departure | order
    · exact (silent rfl departure).elim
    · rw [List.mem_singleton.mp order] at tells
      cases tells
  | restarted l => exact (silent rfl sent).elim
  | refused l box =>
    rw [List.mem_singleton.mp sent] at tells
    cases tells
  | clashed l => cases sent
  | nothing => cases sent

/-- A change is handled for its speaker. -/
theorem first_of_handled {c : Change} (handled : r.handled? h .serve = some c) :
    ∃ rest, r.commands = .message h (.change c) :: rest := by
  rw [handled?] at handled
  cases first : r.commands with
  | nil =>
    rw [first] at handled
    cases handled
  | cons x rest =>
    rw [first, List.head?_cons, Option.bind_some] at handled
    unfold Command.change? at handled
    split at handled
    · split at handled
      · next same =>
        cases handled
        exact ⟨rest, same ▸ rfl⟩
      · cases handled
    all_goals cases handled

/-- When the room applies a command, an outbox takes the change that is passed on to its connection,
if it has room, and no other change of the participant. -/
theorem contents_served (wired : r.Wired) (sole : r.Sole h i) (other : h ≠ k)
    (first : r.commands = x :: rest)
    (apart : (r.room.seating.does (r.room.deed x)).Apart) {box : OutboxId}
    (mine : ∀ l s, r.room.seating.seat? l = some s → (s.outbox = box ↔ l = k)) :
    ((r.room.apply r.outboxes x).outboxes.contents box).filterMap (Event.change? i) =
      (r.outboxes.contents box).filterMap (Event.change? i) ++
        taken (r.passed? h k .serve).toList := by
  have fits := r.room.fits_deed x
  have consistent := Room.consistent_does wired.consistent (r.room.deed x)
  have after := r.outboxes.get?_dispatch (r.room.dispatches (r.room.deed x)) box
  rw [← (Prod.mk.inj (sent_apply r x)).1] at after
  rw [Outboxes.contents, Outboxes.contents, after]
  -- Either the participant changes, by a command of its own, or nothing that is sent out tells of it.
  by_cases about : ∃ l s c, r.room.deed x = .changed l s c ∧ s.participant.id = i
  · obtain ⟨l, s, c, happened, number⟩ := about
    have answers := Room.answers_deed wired.consistent x
    rw [happened] at fits answers
    obtain rfl := sole.alone l s fits number
    obtain rfl : x = .message l (.change c) := answers
    have handled : r.handled? l .serve = some c := by simp [handled?, first, Command.change?]
    have speaker : r.room.seating.seat? l = some s := fits
    have passes : r.passed? l k .serve = (r.room.seating.seat? k).map fun t =>
        (c, ((r.outboxes.get? t.outbox).map Outbox.verdict).getD .closed) := by
      rw [passed?, handled, speaker]
      cases r.room.seating.seat? k <;> rfl
    rw [happened, Room.dispatches, filter_news]
    rw [happened] at consistent apart
    cases seated : r.room.seating.seat? k with
    | none =>
      rw [passes, seated]
      have unseated : ¬ (r.room.seating.does (.changed l s c)).HasOutbox box := by
        rintro ⟨l', t, found, same⟩
        rcases Room.seat_after_does fits found with admitted | ⟨before, sat, outbox, -⟩
        · cases admitted
        · rw [(mine l' before sat).mp (outbox.trans same)] at sat
          cases seated.symm.trans sat
      rw [Seating.filter_outbox_of_not consistent unseated, news_nil]
      cases r.outboxes.get? box <;> simp [taken]
    | some t =>
      obtain rfl : t.outbox = box := (mine k t seated).mpr rfl
      have found : (r.room.seating.does (.changed l s c)).seat? k = some t := by
        rw [Room.seat?_does fits, Deed.reseat, if_neg (Ne.symm other), seated]
      have tells : (Event.message (.changed c s.participant.id)).change? i = some c :=
        if_pos number
      rw [Seating.filter_outbox consistent apart found, news_cons, Recipients.includes,
        if_pos (bne_iff_ne.mpr other), news_nil]
      rw [passes, seated, Option.map_some]
      cases r.outboxes.get? t.outbox with
      | none => rfl
      | some o =>
        by_cases accepted : o.verdict = .accepted <;>
          simp [taken, Outbox.events_offer, accepted, tells]
  · have passes : r.passed? h k .serve = none := by
      rw [passed?]
      split
      · next c s t handled speaker _ =>
        obtain ⟨rest, head⟩ := first_of_handled handled
        cases first.symm.trans head
        refine absurd ⟨h, s, c, ?_, sole.own s speaker⟩ about
        rw [Room.deed, speaker, Option.elim_some]
      · rfl
    have silent : ∀ e ∈ ((r.room.dispatches (r.room.deed x)).filter (·.outbox == box)).map (·.event),
        e.change? i = none := by
      intro e member
      obtain ⟨d, sent, rfl⟩ := List.mem_map.mp member
      rw [Option.eq_none_iff_forall_ne_some]
      intro c tells
      obtain ⟨l, s, happened, number⟩ := changed_of_dispatch (List.mem_of_mem_filter sent) tells
      exact about ⟨l, s, c, happened, number⟩
    rw [passes]
    cases r.outboxes.get? box with
    | none => simp [taken]
    | some o => simp [taken, Outbox.filterMap_foldl_offer silent]

end Listening

end Relay

end LiveRelay
