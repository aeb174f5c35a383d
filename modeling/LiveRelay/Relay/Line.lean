import LiveRelay.Socket.Frame

/-! # Lines

A line is what lies between a client and its connection. The bytes of the client gather on it, and
the connection takes the frames in batches, so that a client with much to say keeps nobody else from
a turn. A line also knows when the heart of its connection beats next.
-/

namespace LiveRelay

inductive Ending where
  | open
  | finished
  | unreadable
deriving DecidableEq, Repr

/-- The far end of a connection: whether its connection is held up, the bytes that have arrived,
whether a fragmented message is under way, whether more bytes may come, when the next beat is due,
and whether the client has gone away without a word. -/
structure Line where
  stalled : Bool
  bytes : List UInt8
  fragmented : Bool
  ending : Ending
  nextBeat : Nat
  vanished : Bool
deriving Repr

namespace Line

/-- The time between two beats, in seconds. -/
def beatInterval : Nat := 5

/-- How many frames of a client are taken before everyone else gets a turn. -/
def batchLimit : Nat := 16

def fresh (stalled : Bool) : Line := ⟨stalled, [], false, .open, 0, false⟩

def append (l : Line) (bytes : List UInt8) : Line :=
  if l.ending = .open then { l with bytes := l.bytes ++ bytes } else l

/-- The line ends in some way, unless it has ended before. -/
def endAs (l : Line) (ending : Ending) : Line :=
  if l.ending = .open then { l with ending := ending } else l

/-- Takes the next batch of what has arrived: what the frames say, and then the end of the line. A
full batch says nothing of the end yet. A line that cannot be read any more is broken at once. -/
def takeBatch (l : Line) : List Inbound × Line :=
  match l.ending with
  | .unreadable => ([.broken .unreadable], { l with bytes := [] })
  | ending =>
    let (said, fragmented, bytes) := Inbound.ofBytes batchLimit l.fragmented l.bytes
    let l := { l with bytes := bytes, fragmented := fragmented }
    if ending = .finished ∧ said.length < batchLimit then (said ++ [.ended], l) else (said, l)

def dueBeats (l : Line) (seconds : Nat) : Nat :=
  if l.nextBeat ≤ seconds then (seconds - l.nextBeat) / beatInterval + 1 else 0

end Line

end LiveRelay
