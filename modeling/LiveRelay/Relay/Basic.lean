import LiveRelay.Socket.Connection
import LiveRelay.Socket.Handles

/-! # The relay

The relay joins a room with its connections. Connections send their commands through one channel,
from which the room takes one at a time. Events go from an outbox to its connection one at a time.
Each `Action` is one step of one of these parts, or some time that passes, and a run of the relay is
any sequence of them.
-/

namespace LiveRelay

/-- Whether the room applies commands, throws them away, or takes none any more. -/
inductive Service where
  | live
  | mute
  | gone
deriving DecidableEq, Repr

/-- The state of the relay, and the time of the machine in nanoseconds. -/
structure Relay where
  room : Room
  outboxes : Outboxes
  commands : List Command
  service : Service
  connections : List Connection
  now : Nat
deriving Repr

/-- A step of one part of the relay; connections are told by their place. -/
inductive Action where
  | upgrade (h : Handle)
  | start (i : Nat)
  | receive (i : Nat) (x : Inbound)
  | forward (i : Nat)
  | deliver (i : Nat)
  | beat (i : Nat)
  | serve
  | ask (c : Command)
  | pass (nanoseconds : Nat)
deriving Repr

structure Effect where
  relay : Relay
  replies : List Reply
  offers : List Offer
  log : List LogLine
deriving Repr

namespace Relay

def start (service : Service) : Relay := ⟨.empty, .none, [], service, [], 0⟩

def idle (r : Relay) : Effect := ⟨r, [], [], []⟩

def takesCommands (r : Relay) : Bool := r.service ≠ .gone

def react (r : Relay) (i : Nat) (c : Connection) (x : Stimulus) : Effect :=
  let reaction := c.react r.takesCommands r.now x
  ⟨{ r with
      connections := r.connections.set i reaction.connection
      commands := r.commands ++ reaction.commands },
    [], [], reaction.notices.map ConnectionNotice.line⟩

/-- The room takes one command out of the channel. -/
def serve (r : Relay) : Effect :=
  match r.commands with
  | [] => r.idle
  | c :: commands =>
    let r := { r with commands := commands }
    match r.service with
    | .live =>
      let out := r.room.apply r.outboxes c
      ⟨{ r with room := out.room, outboxes := out.outboxes }, [out.reply], out.offers,
        out.notices.map RoomNotice.line⟩
    | .mute | .gone => r.idle

/-- The next event of a connection's outbox sets out to it. If the connection has stopped, the event
gets lost and the outbox is dropped. -/
def forward (r : Relay) (i : Nat) (c : Connection) : Effect :=
  match c.outbox, c.inFlight with
  | some box, none =>
    match r.outboxes.get? box with
    | none => r.idle
    | some o =>
      match o.events with
      | [] => r.idle
      | e :: _ =>
        if c.phase = .running then
          { r with
            outboxes := r.outboxes.modify box fun o => (o.take 1).2
            connections := r.connections.set i { c with inFlight := some e } }.idle
        else { r with outboxes := r.outboxes.modify box Outbox.drop }.idle
  | _, _ => r.idle

/-- A connection handles the event that is on its way to it. If it has stopped, the event gets lost
and the outbox is dropped. -/
def deliver (r : Relay) (i : Nat) (c : Connection) : Effect :=
  match c.inFlight with
  | none => r.idle
  | some e =>
    let c := { c with inFlight := none }
    if c.phase = .running then r.react i c (.event e)
    else
      let drop := fun box => r.outboxes.modify box Outbox.drop
      { r with
        outboxes := (c.outbox.map drop).getD r.outboxes
        connections := r.connections.set i c }.idle

/-- One step of the relay. A step of a connection that is not there, or has not started, or has
stopped, changes nothing. -/
def step (r : Relay) : Action → Effect
  | .upgrade h =>
    ⟨{ r with connections := r.connections ++ [.upgraded h r.now] }, [], [],
      [(ConnectionNotice.upgrading h).line]⟩
  | .start i =>
    match r.connections[i]? with
    | none => r.idle
    | some c =>
      if c.phase = .upgraded then
        let box := r.outboxes.next
        { r with outboxes := r.outboxes.add (.empty Outbox.usualCapacity) }.react i c (.start box)
      else r.idle
  | .receive i x =>
    match r.connections[i]? with
    | none => r.idle
    | some c => r.react i c (.client x)
  | .forward i =>
    match r.connections[i]? with
    | none => r.idle
    | some c => r.forward i c
  | .deliver i =>
    match r.connections[i]? with
    | none => r.idle
    | some c => r.deliver i c
  | .beat i =>
    match r.connections[i]? with
    | none => r.idle
    | some c => r.react i c .beat
  | .serve => r.serve
  | .ask c => if r.takesCommands then { r with commands := r.commands ++ [c] }.idle else r.idle
  | .pass nanoseconds => { r with now := r.now + nanoseconds }.idle

def run (r : Relay) (actions : List Action) : Effect :=
  actions.foldl (fun e a =>
    let next := e.relay.step a
    ⟨next.relay, e.replies ++ next.replies, e.offers ++ next.offers, e.log ++ next.log⟩) r.idle

end Relay

end LiveRelay
