import Mathlib.Tactic.IntervalCases
import LiveRelay.Proofs.Relay.Standing
import LiveRelay.Proofs.Room.Course

/-! # Two connections of one handle

The room knows a connection by its handle alone. A connection that asks for a seat under the handle
of another one is refused and ordered to stop, but until it obeys, what its client says counts as
said by the other. So a seat is disturbed by the room's own order, by the connection that has it, and
by a duplicate that has not stopped yet, and by nothing else.
-/

namespace LiveRelay

/-- What a connection sends for what its client does, or for its silence. -/
inductive Connection.Sends (now i : Nat) (c : Connection) : Action → Command → Prop
  | said {text : String} {m : ClientMessage} (read : ClientMessage.read text = .ok (some m)) :
      Sends now i c (.receive i (.text text)) (.message c.handle m)
  | left {x : Inbound} (ends : x.Ends) : Sends now i c (.receive i x) (.disconnect c.handle)
  | timedOut (late : c.isLate now) : Sends now i c (.beat i) (.disconnect c.handle)

/-- Whether a step is one that a connection takes for its client or its outbox. -/
def Action.Of (i : Nat) : Action → Prop
  | .receive j _ | .forward j | .deliver j => j = i
  | .upgrade _ | .start _ | .beat _ | .serve | .ask _ | .pass _ => False

namespace Relay

/-- Whether a connection sent a command in a run, while it ran. -/
def Sent (actions : List Action) (i : Nat) (x : Command) : Prop :=
  ∃ earlier a later c, actions = earlier ++ a :: later ∧
    ((start .live).run earlier).relay.connections[i]? = some c ∧ c.phase = .running ∧
    c.Sends ((start .live).run earlier).relay.now i a x

/-- Whether a step takes a seat away or changes who sits there, or tells anyone of them. -/
def Disturbs (r : Relay) (a : Action) (h : Handle) (s : Seat) : Prop :=
  (r.step a).relay.room.seating.seat? h ≠ some s ∨
    ∃ o ∈ (r.step a).offers, ∃ m, o.event = .message m ∧ m.about? = some s.participant.id

variable {r : Relay} {a : Action} {h : Handle} {s : Seat} {x : Command}

section Disturbances

/-- A command whose deed takes a seat away or changes who sits there names the seat. -/
theorem named_of_reseat (consistent : r.room.seating.Consistent)
    (seated : r.room.seating.seat? h = some s)
    (moved : (r.room.deed x).reseat h (some s) ≠ some s) :
    x = .kick s.participant.id ∨ x = .disconnect h ∨ ∃ c, x = .message h (.change c) := by
  have fits := r.room.fits_deed x
  have answers := Room.answers_deed consistent x
  cases happened : r.room.deed x with
  | admitted k other =>
    rw [happened] at fits moved
    refine absurd (if_neg ?_) moved
    rintro rfl
    cases seated.symm.trans fits.1
  | left k other =>
    rw [happened] at answers moved
    by_cases same : h = k
    · exact .inr (.inl (same ▸ answers))
    · exact absurd (if_neg same) moved
  | dismissed k other =>
    rw [happened] at fits answers moved
    by_cases same : h = k
    · subst same
      cases seated.symm.trans fits
      exact .inl answers
    · exact absurd (if_neg same) moved
  | changed k other c =>
    rw [happened] at answers moved
    by_cases same : h = k
    · exact .inr (.inr ⟨_, same ▸ answers⟩)
    · exact absurd (if_neg same) moved
  | clashed k => exact absurd (by rw [happened, Deed.reseat]) moved
  | refused k box => exact absurd (by rw [happened, Deed.reseat]) moved
  | restarted k => exact absurd (by rw [happened, Deed.reseat]) moved
  | nothing => exact absurd (by rw [happened, Deed.reseat]) moved

/-- A command for which anyone is told of a participant names its seat. -/
theorem named_of_dispatch (consistent : r.room.seating.Consistent)
    (seated : r.room.seating.seat? h = some s) {e : Dispatch} {m : ServerMessage}
    (sent : e ∈ r.room.dispatches (r.room.deed x)) (message : e.event = .message m)
    (about : m.about? = some s.participant.id) :
    x = .kick s.participant.id ∨ x = .disconnect h ∨ ∃ c, x = .message h (.change c) := by
  have fits := r.room.fits_deed x
  have answers := Room.answers_deed consistent x
  have news {recipients : Recipients} {n : ServerMessage} {seats : List (Handle × Seat)}
      (member : e ∈ news recipients n seats) : n.about? = some s.participant.id := by
    rw [← Event.message.inj (message.symm.trans (event_of_news member))]
    exact about
  cases happened : r.room.deed x with
  | admitted k other =>
    rw [happened] at fits sent
    obtain ⟨-, free, fresh⟩ := fits
    -- The news are about the newcomer, and its number is one that nobody has.
    have number : other.participant.id = s.participant.id := by
      rcases List.mem_append.mp sent with greeting | arrival
      · exact Option.some.inj (news greeting)
      · exact Option.some.inj (news arrival)
    rw [fresh, Participant.id_fresh] at number
    exact absurd number.symm (consistent.handleOf?_eq_none_iff.mp free h s seated)
  | left k other =>
    rw [happened] at fits answers sent
    have same := consistent.handle_unique fits seated (Option.some.inj (news sent)).symm
    exact .inr (.inl (same ▸ answers))
  | dismissed k other =>
    rw [happened] at answers sent
    rcases List.mem_append.mp sent with departure | order
    · exact .inl (Option.some.inj (news departure) ▸ answers)
    · rw [List.mem_singleton.mp order] at message
      cases message
  | changed k other c =>
    rw [happened] at fits answers sent
    have same := consistent.handle_unique fits seated (Option.some.inj (news sent)).symm
    exact .inr (.inr ⟨_, same ▸ answers⟩)
  | restarted k =>
    rw [happened] at sent
    cases news sent
  | refused k box =>
    rw [happened] at sent
    rw [List.mem_singleton.mp sent] at message
    cases message
  | clashed k =>
    rw [happened] at sent
    cases sent
  | nothing =>
    rw [happened] at sent
    cases sent

/-- Nothing disturbs a seat but a command that names it. -/
theorem named_of_disturbs (live : r.service = .live) (consistent : r.room.seating.Consistent)
    (seated : r.room.seating.seat? h = some s) (disturbs : r.Disturbs a h s) :
    a = .serve ∧ ∃ x rest, r.commands = x :: rest ∧
      (x = .kick s.participant.id ∨ x = .disconnect h ∨ ∃ c, x = .message h (.change c)) := by
  unfold Disturbs at disturbs
  have steps := steps_step live a
  generalize (r.step a).relay = next, (r.step a).offers = offers at steps disturbs
  have still (same : next.room = r.room) (silent : offers = []) : False := by
    rcases disturbs with moved | ⟨o, offered, -⟩
    · exact moved (same ▸ seated)
    · rw [silent] at offered
      cases offered
  cases steps with
  | idle other => exact (still rfl rfl).elim
  | upgraded k => exact (still rfl rfl).elim
  | acted here acts => exact (still rfl rfl).elim
  | asked c => exact (still rfl rfl).elim
  | passed n => exact (still rfl rfl).elim
  | @served x rest first =>
    refine ⟨rfl, x, rest, first, ?_⟩
    rcases disturbs with moved | ⟨o, offered, m, message, about⟩
    · rw [seat?_apply, seated] at moved
      exact named_of_reseat consistent seated moved
    · exact named_of_dispatch consistent seated (dispatched_of_offered offered) message about

end Disturbances

section Origins

theorem consistent_run (actions : List Action) :
    ((start .live).run actions).relay.room.seating.Consistent := by
  induction actions using List.reverseRecOn with
  | nil => exact .empty
  | append_singleton actions a ih =>
    obtain ⟨offers, steps, -⟩ := steps_concat actions a
    generalize ((start .live).run (actions ++ [a])).relay = next at steps ⊢
    cases steps with
    | served first =>
      rw [(Room.performs_apply _ _ _).room]
      exact Room.consistent_does ih _
    | idle | upgraded | acted | asked | passed => exact ih

theorem Sent.append {actions : List Action} {i : Nat} (sent : Sent actions i x)
    (more : List Action) : Sent (actions ++ more) i x := by
  obtain ⟨earlier, a, later, c, rfl, here, running, sends⟩ := sent
  exact ⟨earlier, a, later ++ more, c, by simp, here, running, sends⟩

/-- What a connection sends in a step is its request for a seat, or sent for its client. -/
theorem sent_of_acts {actions : List Action} {i : Nat} {c next : Connection} {b after : Outboxes}
    {commands : List Command} (here : ((start .live).run actions).relay.connections[i]? = some c)
    (acts : c.Acts b ((start .live).run actions).relay.now i a next commands after) (member : x ∈ commands) :
    (∃ k box, x = .connect k box) ∨ Sent (actions ++ [a]) i x := by
  cases acts with
  | started phase => exact .inl ⟨_, _, List.mem_singleton.mp member⟩
  | said running read =>
    rw [List.mem_singleton.mp member]
    exact .inr ⟨actions, _, [], c, rfl, here, running, .said read⟩
  | quit written running ends =>
    split at member
    · cases member
    · rw [List.mem_singleton.mp member]
      exact .inr ⟨actions, _, [], c, rfl, here, running, .left ends⟩
  | timedOut written running late =>
    split at member
    · cases member
    · rw [List.mem_singleton.mp member]
      exact .inr ⟨actions, _, [], c, rfl, here, running, .timedOut late⟩
  | heard | pinged | took | wrote | obeyed | dropped | lost => cases member

/-- Every command in the channel comes from outside, asks for a seat, or was sent by a connection
for its client. -/
theorem origin_of_command {actions : List Action}
    (outside : ∀ c, .ask c ∈ actions → c.Outside)
    (member : x ∈ ((start .live).run actions).relay.commands) :
    x.Outside ∨ (∃ k box, x = .connect k box) ∨ ∃ i, Sent actions i x := by
  -- A step either leaves a command in the channel or adds it; what was there before has an origin.
  induction actions using List.reverseRecOn with
  | nil => cases member
  | append_singleton actions a ih =>
    have before (member : x ∈ ((start .live).run actions).relay.commands) :
        x.Outside ∨ (∃ k box, x = .connect k box) ∨ ∃ i, Sent (actions ++ [a]) i x := by
      rcases ih (fun c asked => outside c (List.mem_append_left _ asked)) member with
        foreign | asks | ⟨i, sent⟩
      · exact .inl foreign
      · exact .inr (.inl asks)
      · exact .inr (.inr ⟨i, sent.append [a]⟩)
    obtain ⟨offers, steps, -⟩ := steps_concat actions a
    generalize ((start .live).run (actions ++ [a])).relay = next at steps member
    cases steps with
    | idle other => exact before member
    | upgraded h => exact before member
    | passed n => exact before member
    | @acted i c next a commands b here acts =>
      rcases List.mem_append.mp member with old | new
      · exact before old
      · rcases sent_of_acts here acts new with asks | sent
        · exact .inr (.inl asks)
        · exact .inr (.inr ⟨i, sent⟩)
    | asked c =>
      rcases List.mem_append.mp member with old | new
      · exact before old
      · obtain rfl := List.mem_singleton.mp new
        exact .inl (outside x (List.mem_append_right _ (List.mem_singleton.mpr rfl)))
    | served first => exact before (first ▸ List.mem_cons_of_mem _ member)

end Origins

/-- If no other connection of a handle told of a change, or left, while it ran, then only the
connection that has the seat and the room's own order disturb it. -/
theorem disturbed_by_owner_or_kick (actions : List Action)
    (outside : ∀ c, .ask c ∈ actions → c.Outside) (h : Handle) (owner : Nat)
    (quiet : ∀ i, i ≠ owner →
      ¬ Sent actions i (.disconnect h) ∧ ∀ c, ¬ Sent actions i (.message h (.change c)))
    (a : Action) (s : Seat)
    (seated : ((start .live).run actions).relay.room.seating.seat? h = some s)
    (disturbs : ((start .live).run actions).relay.Disturbs a h s) :
    a = .serve ∧ ∃ x rest, ((start .live).run actions).relay.commands = x :: rest ∧
      (x = .kick s.participant.id ∨ Sent actions owner x) := by
  obtain ⟨rfl, x, rest, first, named⟩ :=
    named_of_disturbs (service_run rfl actions) (consistent_run actions) seated disturbs
  refine ⟨rfl, x, rest, first, ?_⟩
  have origin := origin_of_command outside (first ▸ List.mem_cons_self)
  have mine {i : Nat} (sent : Sent actions i x)
      (said : x = .disconnect h ∨ ∃ c, x = .message h (.change c)) : Sent actions owner x := by
    by_cases same : i = owner
    · exact same ▸ sent
    · obtain ⟨leave, change⟩ := quiet i same
      rcases said with rfl | ⟨c, rfl⟩
      · exact absurd sent leave
      · exact absurd sent (change c)
  rcases named with kick | said
  · exact .inl kick
  · rcases origin with foreign | ⟨k, box, asks⟩ | ⟨i, sent⟩
    · rcases said with rfl | ⟨c, rfl⟩ <;> cases foreign
    · rcases said with rfl | ⟨c, rfl⟩ <;> cases asks
    · exact .inr (mine sent said)

/-- A second connection of a handle is refused. Its client pings, and goes away only when the
connection has obeyed its order to stop. Then the client of the first one leaves. -/
def patientRun : List Action :=
  [.upgrade 0, .start 0, .serve, .upgrade 0, .start 1, .serve, .receive 1 (.ping []), .forward 1,
    .deliver 1, .receive 1 .ended, .receive 0 .ended]

/-- The first connection loses its seat because its own client left. -/
theorem disturbed_by_owner_or_kick_patient :
    let r := ((start .live).run patientRun).relay
    r.Disturbs .serve 0 ⟨.fresh 0, 0⟩ ∧ ∃ x rest, r.commands = x :: rest ∧
      (x = .kick 0 ∨ Sent patientRun 0 x) := by
  intro r
  have outside : ∀ c, Action.ask c ∈ patientRun → c.Outside := by
    intro c member
    simp [patientRun] at member
  have silent {i : Nat} (other : i ≠ 0) (x : Command) : ¬ Sent patientRun i x := by
    rintro ⟨earlier, a, later, c, split, here, running, sends⟩
    have first : earlier = patientRun.take earlier.length := by
      rw [split, List.take_left]
    have member : patientRun[earlier.length]? = some a := by
      rw [split, List.getElem?_append_right le_rfl, Nat.sub_self]
      rfl
    have below : earlier.length < 11 := (List.getElem?_eq_some_iff.mp member).1
    generalize earlier.length = k at first member below
    -- Clients do something at three places: a ping, an end after the stop, and the end of the first.
    interval_cases k <;> cases member <;> cases sends
    · next ends => exact ends
    · rw [first] at here
      cases here
      cases running
    · exact other rfl
  have disturbs : r.Disturbs .serve 0 ⟨.fresh 0, 0⟩ := by
    apply Or.inl
    intro kept
    cases kept
  exact ⟨disturbs, (disturbed_by_owner_or_kick patientRun outside 0 0
    (fun i other => ⟨silent other _, fun c => silent other _⟩) .serve ⟨.fresh 0, 0⟩ rfl disturbs).2⟩

/-- A connection has a seat, and another one of its handle was refused and has not obeyed yet. -/
structure Duplicated (r : Relay) (h : Handle) (s : Seat) (original duplicate : Nat) : Prop where
  apart : original ≠ duplicate
  seated : r.room.seating.seat? h = some s
  owner : ∃ c, r.connections[original]? = some c ∧ c.handle = h ∧ c.phase = .running ∧
    c.outbox = some s.outbox
  refused : ∃ c, r.connections[duplicate]? = some c ∧ c.handle = h ∧ c.phase = .running ∧
    c.Awaits r.outboxes
  served : r.commands = []

/-- A refused connection may take the seat of the first one away: it leaves before it obeys. -/
theorem duplicate_unseats_original :
    ¬ ∀ (actions more : List Action) (h : Handle) (s : Seat) (original duplicate : Nat),
      Duplicated ((start .live).run actions).relay h s original duplicate →
      (∀ a ∈ more, a.Of duplicate ∨ a = .serve) →
      let e := ((start .live).run actions).relay.run more
      e.relay.room.seating.seat? h = some s ∧
        ∀ o ∈ e.offers, ∀ m, o.event = .message m → m.about? ≠ some s.participant.id := by
  intro undisturbed
  have duplicated : Duplicated
      ((start .live).run [.upgrade 0, .start 0, .serve, .upgrade 0, .start 1, .serve]).relay
      0 ⟨.fresh 0, 0⟩ 0 1 := by
    refine ⟨by decide, rfl, ⟨_, rfl, rfl, rfl, rfl⟩, ⟨_, rfl, rfl, rfl, ?_⟩, rfl⟩
    exact .inr ⟨1, rfl, _, rfl, _, List.mem_cons_self, trivial⟩
  have moves : ∀ a ∈ [Action.receive 1 .ended, .serve], a.Of 1 ∨ a = .serve := by
    intro a member
    rcases List.mem_pair.mp member with rfl | rfl
    · exact .inl rfl
    · exact .inr rfl
  have seated := (undisturbed _ _ 0 ⟨.fresh 0, 0⟩ 0 1 duplicated moves).1
  cases seated

end Relay

end LiveRelay
