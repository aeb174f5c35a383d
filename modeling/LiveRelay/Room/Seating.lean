import LiveRelay.Room.Outbox

/-! # The seating of a room

A seat joins a connection, its participant and its outbox. Seats are found by connection. An index
finds the connection of a participant, and is only ever changed together with the seats.
-/

namespace LiveRelay

structure Seat where
  participant : Participant
  outbox : OutboxId
deriving Repr

inductive SeatingError where
  | duplicateConnection (handle : Handle)
  | duplicateParticipant (id : ParticipantId)
  | unknownConnection (handle : Handle)
deriving DecidableEq, Repr

namespace SeatingError

def message : SeatingError → String
  | .duplicateConnection h => "connection " ++ toString h.toNat ++ " is already seated"
  | .duplicateParticipant i => "participant " ++ toString i.toNat ++ " is already seated"
  | .unknownConnection h => "connection " ++ toString h.toNat ++ " is not seated"

end SeatingError

/-- The first entry is found under its own key alone. -/
theorem lookup_cons_ite {α β : Type} [BEq α] (k key : α) (value : β) (rest : List (α × β)) :
    ((key, value) :: rest).lookup k = if k == key then some value else rest.lookup k := by
  rw [List.lookup_cons]
  cases k == key <;> rfl

/-- Keys that are filtered out are not found, and the others are found as before. -/
theorem lookup_filter_ne {α β : Type} [BEq α] [LawfulBEq α] (gone k : α) (entries : List (α × β)) :
    (entries.filter (·.1 != gone)).lookup k = if k == gone then none else entries.lookup k := by
  induction entries with
  | nil => simp
  | cons entry rest ih =>
    obtain ⟨key, value⟩ := entry
    by_cases removed : key = gone
    · subst removed
      simp only [bne_self_eq_false, Bool.false_eq_true, not_false_eq_true,
        List.filter_cons_of_neg, ih, lookup_cons_ite]
      split <;> simp_all
    · simp only [List.filter_cons, bne_iff_ne.mpr removed, if_true, lookup_cons_ite, ih]
      split <;> split <;> simp_all

/-- Changing the values under one key changes what is found under it. -/
theorem lookup_map_ite {α β : Type} [BEq α] [LawfulBEq α] (changed k : α) (f : β → β)
    (entries : List (α × β)) :
    (entries.map fun e => if e.1 == changed then (e.1, f e.2) else e).lookup k =
      if k == changed then (entries.lookup k).map f else entries.lookup k := by
  induction entries with
  | nil => simp
  | cons entry rest ih =>
    obtain ⟨key, value⟩ := entry
    simp only [List.map_cons]
    split <;> simp only [lookup_cons_ite, ih] <;> split <;> split <;> simp_all

/-- Seats by connection, and connections by participant. -/
structure Seating where
  seats : List (Handle × Seat)
  owners : List (ParticipantId × Handle)
deriving Repr

namespace Seating

def empty : Seating := ⟨[], []⟩

def seat? (t : Seating) (h : Handle) : Option Seat := t.seats.lookup h

def contains (t : Seating) (h : Handle) : Bool := (t.seat? h).isSome

def handleOf? (t : Seating) (i : ParticipantId) : Option Handle := t.owners.lookup i

def get (t : Seating) (h : Handle) : Except SeatingError Participant :=
  match t.seat? h with
  | some seat => .ok seat.participant
  | none => .error (.unknownConnection h)

/-- A connection has a participant exactly if it has a seat. -/
theorem get_eq_ok_iff {t : Seating} {h : Handle} {p : Participant} :
    t.get h = .ok p ↔ ∃ seat, t.seat? h = some seat ∧ seat.participant = p := by
  unfold get
  split
  · next seat found => simp [found]
  · next missing => simp [missing]

/-- Gives a connection a seat. Neither the connection nor the participant may have one. -/
def insert (t : Seating) (h : Handle) (seat : Seat) : Except SeatingError Seating :=
  if t.contains h then .error (.duplicateConnection h)
  else if (t.handleOf? seat.participant.id).isSome then
    .error (.duplicateParticipant seat.participant.id)
  else .ok ⟨(h, seat) :: t.seats, (seat.participant.id, h) :: t.owners⟩

/-- A new seat is found, and the others are found as before. -/
theorem seat?_insert {t after : Seating} {h : Handle} {seat : Seat}
    (seated : t.insert h seat = .ok after) (k : Handle) :
    after.seat? k = if k = h then some seat else t.seat? k := by
  unfold insert at seated
  split at seated
  · cases seated
  · split at seated
    · cases seated
    · cases seated
      simp [seat?, lookup_cons_ite]

def remove (t : Seating) (h : Handle) : Except SeatingError (Seat × Seating) :=
  match t.seat? h with
  | some seat =>
    .ok (seat, ⟨t.seats.filter (·.1 != h), t.owners.filter (·.1 != seat.participant.id)⟩)
  | none => .error (.unknownConnection h)

/-- A seat that was taken away was found before, is not found any more, and the others are found as
before. -/
theorem seat?_remove {t after : Seating} {h : Handle} {seat : Seat}
    (removed : t.remove h = .ok (seat, after)) (k : Handle) :
    t.seat? h = some seat ∧ after.seat? k = if k = h then none else t.seat? k := by
  unfold remove at removed
  split at removed
  · next found =>
    cases removed
    refine ⟨found, ?_⟩
    simp only [seat?, lookup_filter_ne, beq_iff_eq]
  · cases removed

/-- Changes the participant of a connection; gives the participant after the change. -/
def update (t : Seating) (h : Handle) (c : Change) : Except SeatingError (Participant × Seating) :=
  match t.seat? h with
  | some seat =>
    let participant := seat.participant.apply c
    .ok (participant, { t with seats := t.seats.map fun e =>
      if e.1 == h then (e.1, { e.2 with participant := participant }) else e })
  | none => .error (.unknownConnection h)

/-- A change keeps the outbox of the seat, and all other seats. -/
theorem seat?_update {t after : Seating} {h : Handle} {c : Change} {p : Participant}
    (updated : t.update h c = .ok (p, after)) (k : Handle) :
    after.seat? k = if k = h then (t.seat? h).map ({ · with participant := p }) else t.seat? k := by
  unfold update at updated
  split at updated
  · next seat _ =>
    cases updated
    have found :=
      lookup_map_ite h k (fun s => { s with participant := seat.participant.apply c }) t.seats
    by_cases same : k = h <;> simpa [seat?, same] using found
  · cases updated

/-- Everyone in the room, in the order of their numbers. -/
def snapshot (t : Seating) : List Participant :=
  Participant.sortById (t.seats.map (·.2.participant))

def size (t : Seating) : Nat := t.seats.length

end Seating

inductive Recipients where
  | only (handle : Handle)
  | allExcept (handle : Handle)
  | all
deriving DecidableEq, Repr

namespace Recipients

def includes : Recipients → Handle → Bool
  | .only h, k => h == k
  | .allExcept h, k => h != k
  | .all, _ => true

end Recipients

/-- Offers a message to the outboxes of the seats that it is meant for. -/
def deliver (recipients : Recipients) (m : ServerMessage) :
    List (Handle × Seat) → Outboxes → Outboxes × List Offer
  | [], boxes => (boxes, [])
  | (h, seat) :: seats, boxes =>
    if recipients.includes h then
      let (boxes, offer) := boxes.offer h seat.outbox (.message m)
      let (boxes, offers) := deliver recipients m seats boxes
      (boxes, offer :: offers)
    else deliver recipients m seats boxes

def acceptedCount (offers : List Offer) : Nat := offers.countP (·.verdict == .accepted)

end LiveRelay
