import LiveRelay.Room.Message

/-! # Outboxes

Every connection has an outbox, a queue of bounded length between the room and the socket. An event
that is offered to an outbox is taken at its end, or refused because the outbox is full or closed.
Nobody waits for room in it.
-/

namespace LiveRelay

/-- What is put into an outbox: a message for the client, or the order to close the socket. -/
inductive Event where
  | message (m : ServerMessage)
  | dismissal (reason : String)
deriving Repr

inductive Verdict where
  | accepted
  | full
  | closed
deriving DecidableEq, Repr

namespace Verdict

def reason : Verdict → String
  | .accepted => "accepted"
  | .full => "no available capacity"
  | .closed => "channel closed"

end Verdict

/-- Whether the far end of an outbox takes events, only those that it has, or none at all. -/
inductive Reception where
  | opened
  | closed
  | dropped
deriving DecidableEq, Repr

inductive CapacityError where
  | zero
  | tooLarge
deriving DecidableEq, Repr

/-- How many events an outbox has room for: at least one, and not more than can be counted. -/
structure Capacity where
  value : Nat
  positive : 0 < value
  countable : value ≤ 0x1FFFFFFFFFFFFFFF
deriving DecidableEq, Repr

namespace Capacity

def largest : Capacity := ⟨0x1FFFFFFFFFFFFFFF, by decide, by decide⟩

def ofNat? (n : Nat) : Except CapacityError Capacity :=
  if positive : 0 < n then
    if countable : n ≤ largest.value then .ok ⟨n, positive, countable⟩ else .error .tooLarge
  else .error .zero

end Capacity

namespace CapacityError

def message : CapacityError → String
  | .zero => "mpsc bounded channel requires buffer > 0"
  | .tooLarge =>
    "a semaphore may not have more than MAX_PERMITS permits (" ++ toString Capacity.largest.value ++
      ")"

end CapacityError

structure Outbox where
  capacity : Capacity
  events : List Event
  reception : Reception
deriving Repr

namespace Outbox

def usualCapacity : Capacity := ⟨64, by decide, by decide⟩

def empty (capacity : Capacity) : Outbox := ⟨capacity, [], .opened⟩

/-- What becomes of an event that is offered now. A closed outbox is closed even if it is full. -/
def verdict (o : Outbox) : Verdict :=
  if o.reception ≠ .opened then .closed
  else if o.capacity.value ≤ o.events.length then .full
  else .accepted

/-- Offers an event: it goes to the end, or the outbox stays as it is. -/
def offer (o : Outbox) (e : Event) : Outbox :=
  if o.verdict = .accepted then { o with events := o.events ++ [e] } else o

/-- An open outbox takes an event exactly as long as there is room. -/
theorem verdict_eq_accepted_iff {o : Outbox} :
    o.verdict = .accepted ↔ o.reception = .opened ∧ o.events.length < o.capacity.value := by
  unfold verdict
  split
  · simp_all
  · split <;> simp_all

/-- An event that is accepted becomes the last one. -/
theorem events_offer (o : Outbox) (e : Event) :
    (o.offer e).events = if o.verdict = .accepted then o.events ++ [e] else o.events := by
  unfold offer
  split <;> rfl

theorem reception_offer (o : Outbox) (e : Event) : (o.offer e).reception = o.reception := by
  unfold offer
  split <;> rfl

def take (o : Outbox) (n : Nat) : List Event × Outbox :=
  (o.events.take n, { o with events := o.events.drop n })

def close (o : Outbox) : Outbox :=
  if o.reception = .opened then { o with reception := .closed } else o

/-- Forgets the events and takes no more new ones. -/
def drop (o : Outbox) : Outbox := { o with events := [], reception := .dropped }

end Outbox

abbrev OutboxId := Nat

/-- An event that was offered to the outbox of a connection, and what became of it. -/
structure Offer where
  handle : Handle
  outbox : OutboxId
  event : Event
  verdict : Verdict
deriving Repr

/-- All outboxes that were ever made, by number. -/
structure Outboxes where
  boxes : List Outbox
deriving Repr

namespace Outboxes

def none : Outboxes := ⟨[]⟩

def next (b : Outboxes) : OutboxId := b.boxes.length

def get? (b : Outboxes) (i : OutboxId) : Option Outbox := b.boxes[i]?

def add (b : Outboxes) (o : Outbox) : Outboxes := ⟨b.boxes ++ [o]⟩

/-- A new outbox has the next number, and the others keep theirs. -/
theorem get?_add (b : Outboxes) (o : Outbox) (i : OutboxId) :
    (b.add o).get? i = if i = b.next then some o else b.get? i := by
  unfold add get? next
  rcases Nat.lt_trichotomy i b.boxes.length with below | rfl | above
  · rw [if_neg (Nat.ne_of_lt below), List.getElem?_append_left below]
  · simp
  · rw [if_neg (Nat.ne_of_gt above), List.getElem?_eq_none (Nat.le_of_lt above),
      List.getElem?_eq_none (by simpa [Nat.succ_le_iff] using above)]

def modify (b : Outboxes) (i : OutboxId) (f : Outbox → Outbox) : Outboxes := ⟨b.boxes.modify i f⟩

theorem get?_modify (b : Outboxes) (i j : OutboxId) (f : Outbox → Outbox) :
    (b.modify i f).get? j = if i = j then (b.get? j).map f else b.get? j := by
  simp only [modify, get?, List.getElem?_modify]
  split <;> simp_all

theorem next_modify (b : Outboxes) (i : OutboxId) (f : Outbox → Outbox) :
    (b.modify i f).next = b.next := by
  simp [modify, next]

def offer (b : Outboxes) (handle : Handle) (i : OutboxId) (e : Event) : Outboxes × Offer :=
  (b.modify i (·.offer e), ⟨handle, i, e, ((b.get? i).map Outbox.verdict).getD .closed⟩)

end Outboxes

end LiveRelay
