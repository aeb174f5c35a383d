import LiveRelay.Proofs.Room.Dispatch
import Mathlib.Data.List.Nodup

/-! # Delivery in any order

A message is delivered seat by seat, but nothing that comes of it depends on the order in which the
seats are gone through, as long as each of them has an outbox of its own: an outbox is offered one
event, so what becomes of that event can be told from the outboxes as they were before. The outboxes
that are open and have room take the message at their end, and every other one leaves a line in the
log.
-/

namespace LiveRelay

namespace Outbox

variable (o : Outbox)

variable {o}

end Outbox

namespace Outboxes

variable {ds es : List Dispatch}

end Outboxes

/-- What the refusals of some offers leave in the log. -/
def logged (offers : List Offer) : List LogLine :=
  (offers.filterMap RoomNotice.ofOffer).map RoomNotice.line

section

variable (recipients : Recipients) (m : ServerMessage) (b : Outboxes)

variable {seats other : List (Handle × Seat)}

end

end LiveRelay
