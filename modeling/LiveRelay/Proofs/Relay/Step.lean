import Mathlib.Data.List.Induction
import LiveRelay.Proofs.Room.Deed
import LiveRelay.Relay.Basic

/-! # What one step of the relay can do

A step concerns one connection, or the channel, or the room. `Connection.Acts` lists everything that
a connection can do, with the commands that it sends and what becomes of the outboxes, and
`Relay.Steps` everything that a live relay can do.
-/

namespace LiveRelay

/-- Whether a client that does this is gone afterwards. -/
def Inbound.Ends : Inbound → Prop
  | .close _ | .broken _ | .ended | .vanished => True
  | .text _ | .ping _ | .binary | .continuation | .pong | .nop => False

/-- The message that a client says, if it is one that can be read. -/
def Inbound.speech? : Inbound → Option ClientMessage
  | .text s =>
    match ClientMessage.read s with
    | .ok m => m
    | .error _ => none
  | .ping _ | .binary | .continuation | .pong | .nop | .close _ | .broken _ | .ended
  | .vanished => none

/-- The message that is written to a socket, if it is one. -/
def Outgoing.message? : Outgoing → Option ServerMessage
  | .message m => some m
  | .ping | .pong _ | .close _ | .ended => none

/-- Whether a command is one that does not come from a connection. -/
def Command.Outside : Command → Prop
  | .listParticipants | .kick _ => True
  | .connect _ _ | .disconnect _ | .message _ _ => False

/-- What a connection can do in a step at some time: the action, the connection after it, the
commands that it sends, and the outboxes after it. -/
inductive Connection.Acts (b : Outboxes) (now i : Nat) (c : Connection) :
    Action → Connection → List Command → Outboxes → Prop
  | started (phase : c.phase = .upgraded) : Acts b now i c (.start i)
      { c with phase := .running, outbox := some b.next } [.connect c.handle b.next]
      (b.add (.empty Outbox.usualCapacity))
  | heard {x : Inbound} (written : List Outgoing) (time : Nat) (running : c.phase = .running)
      (unsaid : x.speech? = none)
      (same : written.filterMap Outgoing.message? = c.written.filterMap Outgoing.message?)
      (timely : time = c.heardAt ∨ time = now) :
      Acts b now i c (.receive i x) { c with written := written, heardAt := time } [] b
  | said {text : String} {m : ClientMessage} (running : c.phase = .running)
      (read : ClientMessage.read text = .ok (some m)) :
      Acts b now i c (.receive i (.text text)) (c.hear now) [.message c.handle m] b
  | quit {x : Inbound} (written : List Outgoing) (running : c.phase = .running) (ends : x.Ends)
      (same : written.filterMap Outgoing.message? = c.written.filterMap Outgoing.message?) :
      Acts b now i c (.receive i x) { c with phase := .stopped, written := written }
        (if c.dismissed then [] else [.disconnect c.handle]) b
  | pinged (written : List Outgoing) (running : c.phase = .running)
      (same : written.filterMap Outgoing.message? = c.written.filterMap Outgoing.message?) :
      Acts b now i c (.beat i) { c with written := written } [] b
  | timedOut (written : List Outgoing) (running : c.phase = .running) (late : c.isLate now)
      (same : written.filterMap Outgoing.message? = c.written.filterMap Outgoing.message?) :
      Acts b now i c (.beat i) { c with phase := .stopped, written := written }
        (if c.dismissed then [] else [.disconnect c.handle]) b
  | took {box : OutboxId} {o : Outbox} {e : Event} {rest : List Event}
      (running : c.phase = .running) (own : c.outbox = some box) (free : c.inFlight = none)
      (found : b.get? box = some o) (next : o.events = e :: rest) :
      Acts b now i c (.forward i) { c with inFlight := some e } [] (b.modify box fun o => (o.take 1).2)
  | wrote {m : ServerMessage} (written : List Outgoing) (running : c.phase = .running)
      (flying : c.inFlight = some (.message m)) (last : written = c.written ++ [.message m]) :
      Acts b now i c (.deliver i) { c with inFlight := none, written := written } [] b
  | obeyed {reason : String} (written : List Outgoing) (running : c.phase = .running)
      (flying : c.inFlight = some (.dismissal reason))
      (same : written.filterMap Outgoing.message? = c.written.filterMap Outgoing.message?) :
      Acts b now i c (.deliver i)
        { c with inFlight := none, dismissed := true, phase := .stopped, written := written } [] b
  | dropped {box : OutboxId} (off : c.phase ≠ .running) (own : c.outbox = some box)
      (free : c.inFlight = none) :
      Acts b now i c (.forward i) c [] (b.modify box Outbox.drop)
  | lost {e : Event} (off : c.phase ≠ .running) (flying : c.inFlight = some e) :
      Acts b now i c (.deliver i) { c with inFlight := none } []
      ((c.outbox.map fun box => b.modify box Outbox.drop).getD b)

/-- There is nothing for a step to do. -/
def Relay.Still (r : Relay) : Action → Prop
  | .upgrade _ | .ask _ | .pass _ => False
  | .start _ => True
  | .receive i _ | .beat i => ∀ c, r.connections[i]? = some c → c.phase ≠ .running
  | .forward i => ∀ c box o, r.connections[i]? = some c → c.outbox = some box →
      r.outboxes.get? box = some o → c.inFlight = none → o.events = []
  | .deliver i => ∀ c, r.connections[i]? = some c → c.inFlight = none
  | .serve => r.commands = []

/-- What a live relay can do in a step: the relay after it, and what it offers. -/
inductive Relay.Steps (r : Relay) : Action → Relay → List Offer → Prop
  | idle {a : Action} (still : r.Still a) : Steps r a r []
  | upgraded (h : Handle) :
      Steps r (.upgrade h) { r with connections := r.connections ++ [.upgraded h r.now] } []
  | acted {i : Nat} {c next : Connection} {a : Action} {commands : List Command} {b : Outboxes}
      (here : r.connections[i]? = some c) (acts : c.Acts r.outboxes r.now i a next commands b) :
      Steps r a { r with
        outboxes := b
        commands := r.commands ++ commands
        connections := r.connections.set i next } []
  | asked (c : Command) : Steps r (.ask c) { r with commands := r.commands ++ [c] } []
  | passed (n : Nat) : Steps r (.pass n) { r with now := r.now + n } []
  | served {c : Command} {rest : List Command} (first : r.commands = c :: rest) :
      Steps r .serve { r with
        room := (r.room.apply r.outboxes c).room
        outboxes := (r.room.apply r.outboxes c).outboxes
        commands := rest } (r.room.apply r.outboxes c).offers

namespace Connection

variable {b : Outboxes} {now i : Nat} {c : Connection}

theorem Acts.handle_eq {a : Action} {next : Connection} {sent : List Command} {after : Outboxes}
    (acts : c.Acts b now i a next sent after) : next.handle = c.handle := by
  cases acts <;> rfl

/-- A connection that has stopped never runs again. -/
theorem Acts.stays_stopped {a : Action} {next : Connection} {sent : List Command} {after : Outboxes}
    (acts : c.Acts b now i a next sent after) (stopped : c.phase = .stopped) :
    next.phase = .stopped := by
  cases acts with
  | started phase => cases phase.symm.trans stopped
  | quit | timedOut | obeyed => rfl
  | heard | said | pinged | took | wrote | dropped | lost => exact stopped

theorem stop_eq (c : Connection) : c.stop true =
    ⟨{ c with phase := .stopped, written := c.written ++ [.ended] },
      if c.dismissed then [] else [.disconnect c.handle], []⟩ := by
  cases dismissed : c.dismissed <;> simp [stop, dismissed, write, idle]

/-- Writing something else to the socket writes no message. -/
theorem messages_write {c : Connection} {o : Outgoing} (other : o.message? = none) :
    (c.write o).written.filterMap Outgoing.message? = c.written.filterMap Outgoing.message? := by
  rw [write, List.filterMap_append, List.filterMap_cons_none other, List.filterMap_nil,
    List.append_nil]

/-- What a running connection makes of what its client does. -/
theorem acts_receive (running : c.phase = .running) (x : Inbound) :
    c.Acts b now i (.receive i x) (c.receive true now x).connection (c.receive true now x).commands
      b := by
  cases x with
  | text s =>
    cases read : ClientMessage.read s with
    | error e =>
      simp only [receive, read]
      exact .heard c.written now running (by rw [Inbound.speech?, read]) rfl (.inr rfl)
    | ok m =>
      cases m with
      | none =>
        simp only [receive, read]
        exact .heard c.written now running (by rw [Inbound.speech?, read]) rfl (.inr rfl)
      | some m =>
        simp only [receive, read, if_true]
        exact .said running read
  | binary | continuation | nop => exact .heard c.written c.heardAt running rfl rfl (.inl rfl)
  | pong => exact .heard c.written now running rfl rfl (.inr rfl)
  | ping payload => exact .heard _ now running rfl (messages_write (c := c.hear now) rfl) (.inr rfl)
  | close reason =>
    simp only [receive, stop_eq]
    exact .quit _ running trivial ((messages_write rfl).trans (messages_write rfl))
  | broken e =>
    simp only [receive, stopWith, stop_eq]
    exact .quit _ running trivial (messages_write rfl)
  | ended | vanished =>
    simp only [receive, stop_eq]
    exact .quit _ running trivial (messages_write rfl)

/-- What a running connection makes of a beat of its heart. -/
theorem acts_beat (running : c.phase = .running) :
    c.Acts b now i (.beat i) (c.beat true now).connection (c.beat true now).commands b := by
  rw [beat]
  split
  · next late =>
    simp only [stopWith, stop_eq]
    exact .timedOut _ running late (messages_write rfl)
  · exact .pinged _ running (messages_write rfl)

end Connection

namespace Relay

variable {r : Relay}

theorem react_eq (live : r.service = .live) (i : Nat) (c : Connection) (x : Stimulus) :
    r.react i c x = ⟨{ r with
      commands := r.commands ++ (c.react true r.now x).commands
      connections := r.connections.set i (c.react true r.now x).connection }, [], [],
      (c.react true r.now x).notices.map ConnectionNotice.line⟩ := by
  have alive : r.takesCommands = true := by simp [takesCommands, live]
  rw [react, alive]

theorem set_self {i : Nat} {c : Connection} (here : r.connections[i]? = some c) :
    r.connections.set i c = r.connections := by
  obtain ⟨below, rfl⟩ := List.getElem?_eq_some_iff.mp here
  exact List.set_getElem_self below

/-- A connection acts if it runs, and otherwise there is nothing for it to do. -/
theorem steps_react (live : r.service = .live) {i : Nat} {c : Connection} {a : Action}
    {x : Stimulus} (here : r.connections[i]? = some c)
    (acts : c.phase = .running → c.Acts r.outboxes r.now i a (c.react true r.now x).connection
      (c.react true r.now x).commands r.outboxes)
    (idle : c.phase ≠ .running → c.react true r.now x = c.idle)
    (still : (∀ d, r.connections[i]? = some d → d.phase ≠ .running) → r.Still a) :
    r.Steps a (r.react i c x).relay (r.react i c x).offers := by
  rw [react_eq live]
  by_cases running : c.phase = .running
  · exact .acted here (acts running)
  · rw [idle running, Connection.idle, set_self here, List.append_nil]
    refine .idle (still fun d there => ?_)
    cases here.symm.trans there
    exact running

theorem steps_receive (live : r.service = .live) (i : Nat) (x : Inbound) :
    r.Steps (.receive i x) (r.step (.receive i x)).relay (r.step (.receive i x)).offers := by
  rw [step]
  cases here : r.connections[i]? with
  | none =>
    refine .idle fun c there => ?_
    cases here.symm.trans there
  | some c =>
    refine steps_react live here (fun running => ?_) (fun off => if_neg off) id
    rw [Connection.react, if_pos running]
    exact Connection.acts_receive running x

theorem steps_beat (live : r.service = .live) (i : Nat) :
    r.Steps (.beat i) (r.step (.beat i)).relay (r.step (.beat i)).offers := by
  rw [step]
  cases here : r.connections[i]? with
  | none =>
    refine .idle fun c there => ?_
    cases here.symm.trans there
  | some c =>
    refine steps_react live here (fun running => ?_) (fun off => if_neg off) id
    rw [Connection.react, if_pos running]
    exact Connection.acts_beat running

theorem steps_forward (i : Nat) :
    r.Steps (.forward i) (r.step (.forward i)).relay (r.step (.forward i)).offers := by
  rw [step]
  cases here : r.connections[i]? with
  | none =>
    refine .idle fun c box o there => ?_
    cases here.symm.trans there
  | some c =>
    simp only [forward]
    split
    · next box own free =>
      split
      · next unmade =>
        refine .idle fun d mine o there outbox found => ?_
        cases here.symm.trans there
        cases own.symm.trans outbox
        cases unmade.symm.trans found
      · next o found =>
        split
        · next empty =>
          refine .idle fun d mine p there outbox held _ => ?_
          cases here.symm.trans there
          cases own.symm.trans outbox
          cases found.symm.trans held
          exact empty
        · next e rest next =>
          split
          · next running =>
            have acted := Steps.acted here (.took running own free found next)
            rwa [List.append_nil] at acted
          · next off =>
            have acted := Steps.acted here (.dropped off own free)
            rwa [List.append_nil, set_self here] at acted
    · next busy =>
      refine .idle fun d box o there outbox _ free => ?_
      cases here.symm.trans there
      exact absurd free (busy box outbox)

theorem steps_deliver (live : r.service = .live) (i : Nat) :
    r.Steps (.deliver i) (r.step (.deliver i)).relay (r.step (.deliver i)).offers := by
  rw [step]
  cases here : r.connections[i]? with
  | none =>
    refine .idle fun c there => ?_
    cases here.symm.trans there
  | some c =>
    simp only [deliver]
    cases flying : c.inFlight with
    | none =>
      refine .idle fun d there => ?_
      cases here.symm.trans there
      exact flying
    | some e =>
      dsimp only
      split
      · next running =>
        rw [react_eq live, Connection.react, if_pos running]
        cases e with
        | message m => exact .acted here (.wrote _ running flying rfl)
        | dismissal reason =>
          simp only [Connection.emit, Connection.stop_eq]
          exact .acted here (.obeyed _ running flying
            ((Connection.messages_write rfl).trans (Connection.messages_write rfl)))
      · next off =>
        have acted := Steps.acted here (.lost off flying)
        rwa [List.append_nil] at acted

/-- A live relay can do nothing else. -/
theorem steps_step (live : r.service = .live) (a : Action) :
    r.Steps a (r.step a).relay (r.step a).offers := by
  cases a with
  | upgrade h => exact .upgraded h
  | start i =>
    rw [step]
    cases here : r.connections[i]? with
    | none => exact .idle trivial
    | some c =>
      dsimp only
      split
      · next phase =>
        rw [react_eq (r := { r with outboxes := r.outboxes.add (.empty Outbox.usualCapacity) }) live,
          Connection.react, if_pos phase]
        exact .acted here (.started phase)
      · exact .idle trivial
  | receive i x => exact steps_receive live i x
  | forward i => exact steps_forward i
  | deliver i => exact steps_deliver live i
  | beat i => exact steps_beat live i
  | pass n => exact .passed n
  | serve =>
    rw [step, serve]
    cases first : r.commands with
    | nil => exact .idle first
    | cons c rest =>
      dsimp only
      split
      · exact .served first
      · next mute => cases live.symm.trans mute
      · next gone => cases live.symm.trans gone
  | ask c =>
    have alive : r.takesCommands = true := by simp [takesCommands, live]
    rw [step, alive]
    exact .asked c

/-- The handles of the connections. -/
def handles (r : Relay) : List Handle := r.connections.map (·.handle)

/-- The handles with which connections are upgraded. -/
def upgrades (actions : List Action) : List Handle :=
  actions.filterMap fun
    | .upgrade h => some h
    | _ => none

theorem handles_set {i : Nat} {c next : Connection} (here : r.connections[i]? = some c)
    (same : next.handle = c.handle) :
    (r.connections.set i next).map (·.handle) = r.handles := by
  have kept : r.handles[i]? = some next.handle := by simp [handles, here, same]
  obtain ⟨below, mine⟩ := List.getElem?_eq_some_iff.mp kept
  rw [List.map_set, ← mine]
  exact List.set_getElem_self below

/-- A connection keeps its handle, and its place among the others. -/
theorem handles_steps {a : Action} {next : Relay} {offers : List Offer}
    (steps : r.Steps a next offers) : next.handles = r.handles ++ upgrades [a] := by
  cases steps with
  | idle still =>
    cases a with
    | upgrade h => cases still
    | _ => exact (List.append_nil _).symm
  | upgraded h => exact List.map_append
  | acted here acts =>
    have same := handles_set here acts.handle_eq
    cases acts <;> exact same.trans (List.append_nil _).symm
  | asked c => exact (List.append_nil _).symm
  | passed n => exact (List.append_nil _).symm
  | served first => exact (List.append_nil _).symm

/-- The offers of a command, and the outboxes after it, are those of what it sends out. -/
theorem sent_apply (r : Relay) (x : Command) :
    ((r.room.apply r.outboxes x).outboxes, (r.room.apply r.outboxes x).offers) =
      r.outboxes.dispatch (r.room.dispatches (r.room.deed x)) :=
  (r.room.performs_apply r.outboxes x).sent

theorem seat?_apply (r : Relay) (x : Command) (k : Handle) :
    (r.room.apply r.outboxes x).room.seating.seat? k =
      (r.room.deed x).reseat k (r.room.seating.seat? k) := by
  rw [(r.room.performs_apply r.outboxes x).room]
  exact Room.seat?_does (r.room.fits_deed x) k

theorem dispatched_of_offered {x : Command} {o : Offer}
    (offered : o ∈ (r.room.apply r.outboxes x).offers) :
    ⟨o.handle, o.outbox, o.event⟩ ∈ r.room.dispatches (r.room.deed x) := by
  have sent := Outboxes.dispatch_of_offers r.outboxes (r.room.dispatches (r.room.deed x))
  rw [← (Prod.mk.inj (sent_apply r x)).2] at sent
  rw [← sent]
  exact List.mem_map_of_mem offered

theorem service_steps (live : r.service = .live) {a : Action} {next : Relay} {offers : List Offer}
    (steps : r.Steps a next offers) : next.service = .live := by
  cases steps <;> exact live

theorem run_concat (r : Relay) (actions : List Action) (a : Action) :
    (r.run (actions ++ [a])).relay = ((r.run actions).relay.step a).relay ∧
      (r.run (actions ++ [a])).offers =
        (r.run actions).offers ++ ((r.run actions).relay.step a).offers := by
  rw [run, List.foldl_append]
  exact ⟨rfl, rfl⟩

theorem service_run (live : r.service = .live) (actions : List Action) :
    (r.run actions).relay.service = .live := by
  induction actions using List.reverseRecOn with
  | nil => exact live
  | append_singleton actions a ih =>
    rw [(r.run_concat actions a).1]
    exact service_steps ih (steps_step ih a)

/-- A run that is one step longer ends with that step. -/
theorem steps_concat (actions : List Action) (a : Action) : ∃ offers,
    ((start .live).run actions).relay.Steps a ((start .live).run (actions ++ [a])).relay offers ∧
      ((start .live).run (actions ++ [a])).offers =
        ((start .live).run actions).offers ++ offers := by
  obtain ⟨relay, sent⟩ := (start .live).run_concat actions a
  rw [relay, sent]
  exact ⟨_, steps_step (service_run rfl actions) a, rfl⟩

end Relay

end LiveRelay
