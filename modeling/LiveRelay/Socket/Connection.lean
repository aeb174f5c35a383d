import LiveRelay.Room.Basic
import LiveRelay.Socket.Frame
import LiveRelay.Wire.ClientFrame
import LiveRelay.Wire.Encoding

/-! # Connections

A connection stands between the socket of one client and the room. It turns the text frames of the
client into commands, and writes the events of its outbox to the socket. It asks for a seat when it
starts, and gives the seat back when it stops, unless the room has taken the seat away before. At
every beat of its heart it pings its client, or stops if the client has been silent for too long.

Every handler of a connection gives a `Reaction`: the connection after it, the commands that it
sends, and what it logs. Whether the room still takes commands is given to it, and the time of the
machine in nanoseconds where it counts.
-/

namespace LiveRelay

inductive Outgoing where
  | message (m : ServerMessage)
  | ping
  | pong (payload : List UInt8)
  | close (reason : Option CloseReason)
  | ended
deriving Repr

inductive Phase where
  | upgraded
  | running
  | stopped
deriving DecidableEq, Repr

/-- A connection. Of the events of its outbox, one at a time is on its way to it. At `heardAt` its
client was heard last. -/
structure Connection where
  handle : Handle
  phase : Phase
  outbox : Option OutboxId
  dismissed : Bool
  inFlight : Option Event
  written : List Outgoing
  heardAt : Nat
deriving Repr

/-- What a connection reacts to: its start with an outbox, what its client does, an event of its
outbox, and a beat of its heart. -/
inductive Stimulus where
  | start (box : OutboxId)
  | client (x : Inbound)
  | event (e : Event)
  | beat
deriving Repr

inductive ConnectionNotice where
  | upgrading (handle : Handle)
  | malformed (handle : Handle) (e : FrameError)
  | protocolError (handle : Handle) (e : ProtocolError)
  | refused (handle : Handle)
  | roomGone (handle : Handle)
  | timedOut (handle : Handle)
  | notRecorded (handle : Handle)
deriving DecidableEq, Repr

namespace ConnectionNotice

def line : ConnectionNotice → LogLine
  | .upgrading h => ⟨.info, "Upgrading connection " ++ toString h.toNat⟩
  | .malformed h e =>
    ⟨.warn, "Malformed frame from connection " ++ toString h.toNat ++ ": " ++ e.message⟩
  | .protocolError h e =>
    ⟨.warn, "Protocol error on connection " ++ toString h.toNat ++ ": " ++ e.message⟩
  | .refused h => ⟨.error, "Server loop is gone, refusing connection " ++ toString h.toNat⟩
  | .roomGone h => ⟨.error, "Server loop is gone, closing connection " ++ toString h.toNat⟩
  | .timedOut h => ⟨.info, "Connection " ++ toString h.toNat ++ " timed out"⟩
  | .notRecorded h =>
    ⟨.warn, "Server loop is gone, disconnect of " ++ toString h.toNat ++ " not recorded"⟩

end ConnectionNotice

structure Reaction where
  connection : Connection
  commands : List Command
  notices : List ConnectionNotice
deriving Repr

namespace Connection

/-- How long a client may be silent, in nanoseconds. -/
def clientTimeout : Nat := 10 * 1000000000

/-- A connection that has been upgraded at a time and has not started yet. -/
def upgraded (h : Handle) (now : Nat) : Connection := ⟨h, .upgraded, none, false, none, [], now⟩

def idle (c : Connection) : Reaction := ⟨c, [], []⟩

def write (c : Connection) (o : Outgoing) : Connection := { c with written := c.written ++ [o] }

def hear (c : Connection) (now : Nat) : Connection := { c with heardAt := now }

def isLate (c : Connection) (now : Nat) : Bool := clientTimeout < now - c.heardAt

/-- Stops a connection, and gives its seat back. A connection that was dismissed has no seat any
more. -/
def stop (c : Connection) (alive : Bool) : Reaction :=
  let stopped := { c.write .ended with phase := .stopped }
  if c.dismissed then stopped.idle
  else if alive then ⟨stopped, [.disconnect c.handle], []⟩
  else ⟨stopped, [], [.notRecorded c.handle]⟩

/-- Stops a connection, and logs the reason first. -/
def stopWith (c : Connection) (alive : Bool) (notice : ConnectionNotice) : Reaction :=
  let r := c.stop alive
  { r with notices := notice :: r.notices }

/-- Starts a connection: it asks for a seat with an outbox that has just been made. -/
def start (c : Connection) (alive : Bool) (box : OutboxId) : Reaction :=
  let started := { c with phase := .running, outbox := some box }
  if alive then ⟨started, [.connect c.handle box], []⟩
  else started.stopWith alive (.refused c.handle)

/-- Handles what the client does. Only texts, pings and pongs show that it is still there; a text
does so whether or not it can be read. -/
def receive (c : Connection) (alive : Bool) (now : Nat) : Inbound → Reaction
  | .text s =>
    let c := c.hear now
    match ClientMessage.read s with
    | .ok (some m) =>
      if alive then ⟨c, [.message c.handle m], []⟩ else c.stopWith alive (.roomGone c.handle)
    | .ok none => c.idle
    | .error e => ⟨c, [], [.malformed c.handle e]⟩
  | .ping payload => ((c.hear now).write (.pong payload)).idle
  | .pong => (c.hear now).idle
  | .binary | .continuation | .nop => c.idle
  | .close reason => (c.write (.close reason)).stop alive
  | .broken e => c.stopWith alive (.protocolError c.handle e)
  | .ended | .vanished => c.stop alive

def emit (c : Connection) (alive : Bool) : Event → Reaction
  | .message m => (c.write (.message m)).idle
  | .dismissal reason =>
    let dismissed := { c with dismissed := true }
    (dismissed.write (.close (some ⟨CloseReason.policy, some reason⟩))).stop alive

def beat (c : Connection) (alive : Bool) (now : Nat) : Reaction :=
  if c.isLate now then c.stopWith alive (.timedOut c.handle) else (c.write .ping).idle

/-- Reacts to a stimulus. A connection starts once, and hears of nothing else before it has started
or after it has stopped. -/
def react (c : Connection) (alive : Bool) (now : Nat) : Stimulus → Reaction
  | .start box => if c.phase = .upgraded then c.start alive box else c.idle
  | .client x => if c.phase = .running then c.receive alive now x else c.idle
  | .event e => if c.phase = .running then c.emit alive e else c.idle
  | .beat => if c.phase = .running then c.beat alive now else c.idle

end Connection

end LiveRelay
