import LiveRelay.Relay.Basic
import LiveRelay.Relay.Line
import LiveRelay.Static.Path

/-! # The site

A site joins a relay with the lines of its clients. After everything that happens outside, it goes
on in rounds until nothing is left to do. In a round every connection that is not held up gets a
turn, in order; then the room takes commands and every outbox sends an event on its way. In one turn
a connection handles the event that is on its way to it, a batch of what its client said, and the
beats that are due, and as long as it writes something it goes on with the next batch. The timers
that bring the beats and the clock by which a client is silent for too long go on their own.
-/

namespace LiveRelay

structure Bundle where
  files : List (BundlePath × String)
deriving Repr

namespace Bundle

def read? (b : Bundle) (p : BundlePath) : Option String := b.files.lookup p

end Bundle

/-- A relay with the lines of its connections, in the same order; the seconds that have passed for the
timers; and what is served besides. -/
structure Site where
  relay : Relay
  lines : List Line
  handles : HandleSource
  seconds : Nat
  bundle : Bundle
  log : List LogLine
deriving Repr

namespace Site

def start (service : Service) (bundle : Bundle) : Site :=
  ⟨.start service, [], .start, 0, bundle, []⟩

def act (s : Site) (actions : List Action) : Site :=
  let e := s.relay.run actions
  { s with relay := e.relay, log := s.log ++ e.log }

def setLine (s : Site) (i : Nat) (l : Line) : Site := { s with lines := s.lines.set i l }

def startConnection (s : Site) (i : Nat) : Site :=
  match s.lines[i]?, s.relay.connections[i]? with
  | some l, some c =>
    if c.phase = .upgraded then
      (s.setLine i { l with nextBeat := s.seconds + Line.beatInterval }).act [.start i]
    else s
  | _, _ => s

def takeBatch (s : Site) (i : Nat) : Site :=
  match s.lines[i]? with
  | none => s
  | some l =>
    let (said, l) := l.takeBatch
    (s.setLine i l).act (said.map (.receive i))

def beat (s : Site) (i : Nat) : Site :=
  match s.lines[i]?, s.relay.connections[i]? with
  | some l, some c =>
    if c.phase = .running then
      let n := l.dueBeats s.seconds
      (s.setLine i { l with nextBeat := l.nextBeat + n * Line.beatInterval }).act
        (List.replicate n (.beat i))
    else s
  | _, _ => s

/-- One go of a connection: it starts, handles the event that is on its way, takes a batch of what
has arrived, and takes the beats that are due. -/
def goOnce (s : Site) (i : Nat) : Site :=
  (((s.startConnection i).act [.deliver i]).takeBatch i).beat i

/-- How much a connection has written since its client has received the last of it. -/
def writtenCount (s : Site) (i : Nat) : Nat :=
  ((s.relay.connections[i]?).map fun c => c.written.length).getD 0

/-- Lets a connection go on as long as it writes something, at most so many times. -/
def goOn (i : Nat) : Nat → Site → Site
  | 0, s => s
  | count + 1, s =>
    let next := s.goOnce i
    if s.writtenCount i < next.writtenCount i then goOn i count next else next

/-- The turn of a connection. Only what its client said can keep it going, and every batch makes the
line shorter, so as many goes as there are bytes are enough. -/
def turn (s : Site) (i : Nat) : Site :=
  s.goOn i (((s.lines[i]?).map fun l => l.bytes.length).getD 0 + 2)

def runnable (s : Site) : List Nat :=
  (List.range s.lines.length).filter fun i => !((s.lines[i]?.map (·.stalled)).getD true)

/-- How many commands the room takes before everyone else gets a turn. -/
def commandLimit : Nat := 128

def forwardAll (s : Site) : Site := s.act ((List.range s.lines.length).map .forward)

/-- The turns of some connections. Gives also the connections that had handled their event before
any command was sent; their outboxes send the next event before the room gets to the commands. -/
def turns (s : Site) (is : List Nat) : Site × List Nat :=
  is.foldl (fun (s, early) i =>
    (s.turn i, if s.relay.commands.isEmpty then early ++ [i] else early)) (s, [])

def round (s : Site) : Site :=
  let (s, early) := s.turns s.runnable
  let s := s.act (early.map .forward)
  let s := s.act (List.replicate (min commandLimit s.relay.commands.length) .serve)
  s.forwardAll

def isBusy (s : Site) (i : Nat) : Bool :=
  match s.lines[i]?, s.relay.connections[i]? with
  | some l, some c =>
    c.inFlight.isSome || c.phase == .upgraded ||
      (c.phase == .running && (!l.takeBatch.1.isEmpty || 0 < l.dueBeats s.seconds))
  | _, _ => false

def isQuiet (s : Site) : Bool := s.relay.commands.isEmpty && !s.runnable.any s.isBusy

/-- Goes on until nothing is left to do, at most so many rounds. -/
def settleIn : Nat → Site → Site
  | 0, s => s
  | rounds + 1, s => if s.isQuiet then s else settleIn rounds s.round

/-- How many rounds are enough. In a round in which a connection starts or a client says something,
a connection is started or a line becomes shorter; in any other one, commands are taken or all
outboxes that are not held up become shorter. -/
def roundLimit (s : Site) : Nat :=
  s.lines.foldl (fun n l => n + l.bytes.length + 1) 0 + s.relay.commands.length +
    Outbox.usualCapacity.value + 4

def settle (s : Site) : Site := s.forwardAll.settleIn s.roundLimit

/-- Changes a line, unless its connection has ended. -/
def onLine (s : Site) (i : Nat) (f : Line → Line) : Site :=
  match s.lines[i]?, s.relay.connections[i]? with
  | some l, some c =>
    if c.phase = .stopped ∨ l.vanished then s else (s.setLine i (f l)).settle
  | _, _ => s

def receive (s : Site) (i : Nat) (bytes : List UInt8) : Site := s.onLine i (·.append bytes)

def finish (s : Site) (i : Nat) : Site := s.onLine i (·.endAs .finished)

def fail (s : Site) (i : Nat) : Site := s.onLine i (·.endAs .unreadable)

def stall (s : Site) (i : Nat) : Site := s.onLine i fun l => { l with stalled := true }

def resume (s : Site) (i : Nat) : Site := s.onLine i fun l => { l with stalled := false }

/-- A client vanishes: its connection stops at once, and nobody sees the end of the response. -/
def vanish (s : Site) (i : Nat) : Site :=
  match s.lines[i]?, s.relay.connections[i]? with
  | some l, some c =>
    if c.phase = .stopped ∨ l.vanished then s
    else
      let s := (s.setLine i { l with vanished := true }).startConnection i
      (s.act [.receive i .vanished]).settle
  | _, _ => s

/-- Time passes for the timers; every connection that is not held up takes the beats that are due. -/
def tick (s : Site) (seconds : Nat) : Site := { s with seconds := s.seconds + seconds }.settle

/-- Time passes on the clock of the machine. -/
def pass (s : Site) (nanoseconds : Nat) : Site := s.act [.pass nanoseconds]

/-- Time passes on the clock of the room. -/
def advance (s : Site) (nanoseconds : Nat) : Except ClockError Site :=
  (s.relay.room.advance nanoseconds).map fun room =>
    { s with relay := { s.relay with room := room } }

def stopService (s : Site) : Site := { s with relay := { s.relay with service := .gone } }

/-- What each client has received since the last time, and the log since then. -/
def collect (s : Site) : List (List Outgoing) × List LogLine × Site :=
  let connections := s.relay.connections
  let shown := (s.lines.zip connections).map fun (l, c) =>
    if l.vanished then [] else c.written
  let cleared := connections.map fun c => { c with written := [] }
  (shown, s.log, { s with relay := { s.relay with connections := cleared }, log := [] })

end Site

end LiveRelay
