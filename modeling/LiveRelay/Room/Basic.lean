import LiveRelay.Room.Clock
import LiveRelay.Room.Notice

/-! # The room

A room applies one command at a time. The seating, the next participant's number and the clock
depend on the commands alone; what fits into an outbox shows only in the outboxes and in the log.
`Room.apply` also gives the offers that a command made, in order, so that what was offered to a
connection can be told from what its outbox took.
-/

namespace LiveRelay

structure Room where
  nextId : ParticipantId
  seating : Seating
  clock : SharedClock
deriving Repr

inductive Command where
  | connect (handle : Handle) (outbox : OutboxId)
  | disconnect (handle : Handle)
  | message (sender : Handle) (m : ClientMessage)
  | listParticipants
  | kick (id : ParticipantId)
deriving Repr

/-- What a command, or whatever else happens around a room, is answered with. -/
inductive Reply where
  | nothing
  | participants (ps : List Participant)
  | kicked (found : Bool)
  | events (es : List Event)
  | overflow (e : ClockError)
deriving Repr

structure Outcome where
  room : Room
  outboxes : Outboxes
  reply : Reply
  offers : List Offer
  notices : List RoomNotice
deriving Repr

namespace Room

def empty : Room := ⟨0, .empty, .start⟩

def duplicateReason : String := "duplicate connection"

def kickReason : String := "removed by admin"

def refuse (r : Room) (b : Outboxes) (h : Handle) (box : OutboxId) : Outcome :=
  let (b, offer) := b.offer h box (.dismissal duplicateReason)
  let failed := if offer.verdict = .accepted then [] else [.duplicateNotClosed h offer.verdict]
  ⟨r, b, .nothing, [offer], .registeredTwice h :: failed⟩

/-- Seats a connection, greets it, and tells everyone else. -/
def connect (r : Room) (b : Outboxes) (h : Handle) (box : OutboxId) : Outcome :=
  if r.seating.contains h then r.refuse b h box
  else
    let id := r.nextId
    let hello := ServerMessage.hello id r.seating.snapshot r.clock.elapsedSeconds
    let r := { r with nextId := id + 1 }
    match r.seating.insert h ⟨.fresh id, box⟩ with
    | .error why => ⟨r, b, .nothing, [], [.notSeated h why]⟩
    | .ok seating =>
      let (b, greeting) := deliver (.only h) hello seating.seats b
      let (b, arrival) := deliver (.allExcept h) (.join id) seating.seats b
      let offers := greeting ++ arrival
      ⟨{ r with seating := seating }, b, .nothing, offers,
        .joined h id :: offers.filterMap RoomNotice.ofOffer⟩

/-- Takes a connection's seat away and tells everyone else; gives the seat if there was one. -/
def unseat (r : Room) (b : Outboxes) (h : Handle) : Option Seat × Outcome :=
  match r.seating.remove h with
  | .error why => (none, ⟨r, b, .nothing, [], [.ignoredDisconnect why]⟩)
  | .ok (seat, seating) =>
    let id := seat.participant.id
    let (b, offers) := deliver .all (.leave id) seating.seats b
    (some seat, ⟨{ r with seating := seating }, b, .nothing, offers,
      .left h id :: offers.filterMap RoomNotice.ofOffer⟩)

/-- Removes a participant and orders its socket to close. -/
def kick (r : Room) (b : Outboxes) (id : ParticipantId) : Outcome :=
  match r.seating.handleOf? id with
  | none => ⟨r, b, .kicked false, [], []⟩
  | some h =>
    match r.unseat b h with
    | (none, out) => { out with reply := .kicked true }
    | (some seat, out) =>
      let (b, offer) := out.outboxes.offer h seat.outbox (.dismissal kickReason)
      let failed := if offer.verdict = .accepted then [] else [.notClosed h offer.verdict]
      ⟨out.room, b, .kicked true, out.offers ++ [offer], out.notices ++ failed⟩

def announce (r : Room) (b : Outboxes) (sender : Handle) (kind : ClientKind)
    (recipients : Recipients) (m : ServerMessage) (notices : List RoomNotice) : Outcome :=
  let (b, offers) := deliver recipients m r.seating.seats b
  ⟨r, b, .nothing, offers,
    notices ++ offers.filterMap RoomNotice.ofOffer ++ [.reached kind sender (acceptedCount offers)]⟩

/-- Applies what a client said and tells the others. Whose state changed is read off the seat of the
sender, never off the message. -/
def route (r : Room) (b : Outboxes) (sender : Handle) : ClientMessage → Outcome
  | .change c =>
    match r.seating.update sender c with
    | .error why => ⟨r, b, .nothing, [], [.dropped (ClientMessage.change c).kind why]⟩
    | .ok (participant, seating) =>
      { r with seating := seating }.announce b sender (ClientMessage.change c).kind
        (.allExcept sender) (.changed (participant.told c) participant.id) []
  | .reset =>
    match r.seating.get sender with
    | .error why => ⟨r, b, .nothing, [], [.dropped .reset why]⟩
    | .ok _ => { r with clock := r.clock.reset }.announce b sender .reset .all .reset [.clockReset]

def apply (r : Room) (b : Outboxes) : Command → Outcome
  | .connect h box => r.connect b h box
  | .disconnect h => (r.unseat b h).2
  | .message sender m => r.route b sender m
  | .listParticipants => ⟨r, b, .participants r.seating.snapshot, [], []⟩
  | .kick id => r.kick b id

def advance (r : Room) (nanoseconds : Nat) : Except ClockError Room :=
  (r.clock.advance nanoseconds).map fun clock => { r with clock := clock }

end Room

end LiveRelay
