import LiveRelay.Proofs.Room.Dispatch
import LiveRelay.Proofs.Room.Operations

/-! # What a command comes to

What a command does to a room, and which events it sends out, is settled by the room alone; the
outboxes settle only which of the events are taken. `Room.deed` tells what a command comes to,
`Room.does` the room after it, and `Room.dispatches` the events that are sent out, in order. Applying
a command is these three together with the outboxes.
-/

namespace LiveRelay

/-- What a command comes to. A connection clashes if the number that it would get is still taken. -/
inductive Deed where
  | admitted (h : Handle) (seat : Seat)
  | clashed (h : Handle)
  | refused (h : Handle) (box : OutboxId)
  | left (h : Handle) (seat : Seat)
  | dismissed (h : Handle) (seat : Seat)
  | changed (h : Handle) (seat : Seat) (c : Change)
  | restarted (h : Handle)
  | nothing
deriving Repr

namespace Deed

/-- What a deed asks of the seating, if it asks anything. -/
def operation? : Deed → Option Seating.Operation
  | .admitted h seat => some (.insert h seat)
  | .left h _ | .dismissed h _ => some (.remove h)
  | .changed h _ c => some (.update h c)
  | .clashed _ | .refused _ _ | .restarted _ | .nothing => none

/-- Whether a deed uses up a number. -/
def usesNumber : Deed → Bool
  | .admitted _ _ | .clashed _ => true
  | _ => false

/-- Whether a deed gives a seat to a connection. -/
def admits : Deed → Bool
  | .admitted _ _ => true
  | _ => false

end Deed

/-- The seating after a deed. -/
def Seating.does (t : Seating) (d : Deed) : Seating := d.operation?.elim t t.after

namespace Room

/-- What a command comes to in a room. -/
def deed (r : Room) : Command → Deed
  | .connect h box =>
    if r.seating.contains h then .refused h box
    else if (r.seating.handleOf? r.nextId).isSome then .clashed h
    else .admitted h ⟨.fresh r.nextId, box⟩
  | .disconnect h => (r.seating.seat? h).elim .nothing (.left h)
  | .message h (.change c) => (r.seating.seat? h).elim .nothing (.changed h · c)
  | .message h .reset => (r.seating.seat? h).elim .nothing fun _ => .restarted h
  | .listParticipants => .nothing
  | .kick i =>
    (r.seating.handleOf? i).elim .nothing fun h => (r.seating.seat? h).elim .nothing (.dismissed h)

/-- The room after a deed. -/
def does (r : Room) (d : Deed) : Room where
  nextId := if d.usesNumber then r.nextId + 1 else r.nextId
  seating := r.seating.does d
  clock := match d with
    | .restarted _ => r.clock.reset
    | _ => r.clock

/-- The events that are sent out for a deed. -/
def dispatches (r : Room) (d : Deed) : List Dispatch :=
  let seats := (r.seating.does d).seats
  match d with
  | .admitted h seat =>
    let id := seat.participant.id
    news (.only h) (.hello id r.seating.snapshot r.clock.elapsedSeconds) seats ++
      news (.allExcept h) (.join id) seats
  | .refused h box => [⟨h, box, .dismissal duplicateReason⟩]
  | .left _ seat => news .all (.leave seat.participant.id) seats
  | .dismissed h seat =>
    news .all (.leave seat.participant.id) seats ++ [⟨h, seat.outbox, .dismissal kickReason⟩]
  | .changed h seat c => news (.allExcept h) (.changed c seat.participant.id) seats
  | .restarted _ => news .all .reset seats
  | .clashed _ | .nothing => []

theorem nextId_does (r : Room) (d : Deed) :
    (r.does d).nextId = if d.usesNumber then r.nextId + 1 else r.nextId := rfl

variable (r : Room) (b : Outboxes)

/-- An outcome is that of a deed. -/
structure Performs (d : Deed) (out : Outcome) : Prop where
  room : out.room = r.does d
  sent : (out.outboxes, out.offers) = b.dispatch (r.dispatches d)

theorem performs_connect (h : Handle) (box : OutboxId) :
    r.Performs b (r.deed (.connect h box)) (r.connect b h box) := by
  rw [connect, deed]
  cases seated : r.seating.contains h with
  | true => exact ⟨rfl, rfl⟩
  | false =>
    simp only [Bool.false_eq_true, if_false]
    cases taken : r.seating.handleOf? r.nextId with
    | some k =>
      have clash : r.seating.insert h ⟨.fresh r.nextId, box⟩ =
          .error (.duplicateParticipant r.nextId) := by
        simp [Seating.insert, seated, taken]
      simp only [clash]
      exact ⟨rfl, rfl⟩
    | none =>
      obtain ⟨seating, inserted⟩ : ∃ seating,
          r.seating.insert h ⟨.fresh r.nextId, box⟩ = .ok seating := by
        simp [Seating.insert, seated, taken]
      have after : r.seating.does (.admitted h ⟨.fresh r.nextId, box⟩) = seating := by
        simp [Seating.does, Deed.operation?, Seating.after, Seating.perform, inserted]
      simp only [inserted, Option.isSome_none, Bool.false_eq_true, if_false]
      constructor
      · simp [does, after, Deed.usesNumber]
      · simp [dispatches, after, deliver_eq_dispatch, Outboxes.dispatch_append]

/-- Taking a seat away sends out one departure. -/
theorem performs_unseat {h : Handle} {seat : Seat} (found : r.seating.seat? h = some seat) :
    (r.unseat b h).1 = some seat ∧ r.Performs b (.left h seat) (r.unseat b h).2 := by
  obtain ⟨seating, removed⟩ : ∃ seating, r.seating.remove h = .ok (seat, seating) := by
    simp [Seating.remove, found]
  have after : r.seating.does (.left h seat) = seating := by
    simp [Seating.does, Deed.operation?, Seating.after, Seating.perform, removed, Except.map]
  rw [unseat, removed]
  refine ⟨rfl, ?_, ?_⟩
  · simp [does, after, Deed.usesNumber]
  · simp [dispatches, after, deliver_eq_dispatch]

theorem unseat_of_none {h : Handle} (unseated : r.seating.seat? h = none) :
    (r.unseat b h).1 = none ∧ r.Performs b .nothing (r.unseat b h).2 := by
  rw [unseat, Seating.remove, unseated]
  exact ⟨rfl, rfl, rfl⟩

theorem performs_kick (i : ParticipantId) : r.Performs b (r.deed (.kick i)) (r.kick b i) := by
  rw [kick, deed]
  cases r.seating.handleOf? i with
  | none => exact ⟨rfl, rfl⟩
  | some h =>
    dsimp only [Option.elim_some]
    cases found : r.seating.seat? h with
    | none =>
      have unseated := r.unseat_of_none b found
      generalize r.unseat b h = result at unseated ⊢
      obtain ⟨seat, out⟩ := result
      obtain ⟨rfl, room, sent⟩ := unseated
      exact ⟨room, sent⟩
    | some seat =>
      have unseated := r.performs_unseat b found
      generalize r.unseat b h = result at unseated ⊢
      obtain ⟨other, out⟩ := result
      obtain ⟨rfl, room, sent⟩ := unseated
      refine ⟨room, ?_⟩
      have halves : out.outboxes = (b.dispatch (r.dispatches (.left h seat))).1 ∧
          out.offers = (b.dispatch (r.dispatches (.left h seat))).2 := Prod.mk.inj sent
      have all : r.dispatches (.dismissed h seat) =
        r.dispatches (.left h seat) ++ [⟨h, seat.outbox, .dismissal kickReason⟩] := rfl
      simp only [Option.elim_some, all, Outboxes.dispatch_append, halves]
      rfl

theorem performs_route (h : Handle) (m : ClientMessage) :
    r.Performs b (r.deed (.message h m)) (r.route b h m) := by
  cases m with
  | change c =>
    rw [route, deed]
    cases found : r.seating.seat? h with
    | none =>
      simp only [Seating.update, found]
      exact ⟨rfl, rfl⟩
    | some seat =>
      obtain ⟨seating, updated⟩ : ∃ seating,
          r.seating.update h c = .ok (seat.participant.apply c, seating) := by
        simp [Seating.update, found]
      have after : r.seating.does (.changed h seat c) = seating := by
        simp [Seating.does, Deed.operation?, Seating.after, Seating.perform, updated, Except.map]
      simp only [updated, Option.elim_some]
      constructor
      · simp [announce, does, after, Deed.usesNumber]
      · simp [announce, dispatches, after, deliver_eq_dispatch, Participant.told_apply]
  | reset =>
    rw [route, deed, Seating.get]
    cases r.seating.seat? h with
    | none => exact ⟨rfl, rfl⟩
    | some seat =>
      refine ⟨rfl, ?_⟩
      simp [announce, dispatches, Seating.does, Deed.operation?, deliver_eq_dispatch]

/-- Every command is performed as what it comes to, whatever the outboxes hold. -/
theorem performs_apply (c : Command) : r.Performs b (r.deed c) (r.apply b c) := by
  cases c with
  | connect h box => exact r.performs_connect b h box
  | disconnect h =>
    rw [apply, deed]
    cases found : r.seating.seat? h with
    | none => exact (r.unseat_of_none b found).2
    | some seat => exact (r.performs_unseat b found).2
  | message h m => exact r.performs_route b h m
  | listParticipants => exact ⟨rfl, rfl⟩
  | kick i => exact r.performs_kick b i

/-- What a command is answered with. -/
def answer : Command → Reply
  | .listParticipants => .participants r.seating.snapshot
  | .kick i => .kicked (r.seating.handleOf? i).isSome
  | .connect _ _ | .disconnect _ | .message _ _ => .nothing

theorem reply_unseat (h : Handle) : (r.unseat b h).2.reply = .nothing := by
  unfold unseat
  cases r.seating.remove h <;> rfl

/-- The answer, too, is settled by the room alone. -/
theorem reply_apply (c : Command) : (r.apply b c).reply = r.answer c := by
  cases c with
  | connect h box =>
    simp only [apply, connect]
    split
    · rfl
    · cases r.seating.insert h ⟨.fresh r.nextId, box⟩ <;> rfl
  | disconnect h => exact r.reply_unseat b h
  | message h m =>
    cases m with
    | change c =>
      simp only [apply, route]
      cases r.seating.update h c <;> rfl
    | reset =>
      simp only [apply, route]
      cases r.seating.get h <;> rfl
  | listParticipants => rfl
  | kick i =>
    rw [apply, kick, answer]
    cases r.seating.handleOf? i with
    | none => rfl
    | some h =>
      dsimp only [Option.isSome_some]
      generalize r.unseat b h = result
      obtain ⟨seat, out⟩ := result
      cases seat <;> rfl

end Room

namespace Deed

/-- What is so in a room where a deed comes about. -/
def Fits (r : Room) : Deed → Prop
  | .admitted h seat =>
    r.seating.seat? h = none ∧ r.seating.handleOf? r.nextId = none ∧
      seat.participant = .fresh r.nextId
  | .clashed h => r.seating.seat? h = none ∧ ∃ k, r.seating.handleOf? r.nextId = some k
  | .refused h _ | .restarted h => ∃ seat, r.seating.seat? h = some seat
  | .left h seat | .dismissed h seat | .changed h seat _ => r.seating.seat? h = some seat
  | .nothing => True

/-- The seat that a connection has after a deed, told from the seat before. -/
def reseat (k : Handle) (before : Option Seat) : Deed → Option Seat
  | .admitted h seat => if k = h then some seat else before
  | .left h _ | .dismissed h _ => if k = h then none else before
  | .changed h seat c =>
    if k = h then some { seat with participant := seat.participant.apply c } else before
  | .clashed _ | .refused _ _ | .restarted _ | .nothing => before

/-- Whoever has a seat after a deed was given it by the deed, or had it before, and then nothing has
changed there but what the participant told of. -/
theorem reseat_eq_some {d : Deed} {k : Handle} {before : Option Seat} {after : Seat}
    (found : d.reseat k before = some after) : d = .admitted k after ∨ before = some after ∨
      ∃ s c, d = .changed k s c ∧ after = { s with participant := s.participant.apply c } := by
  cases d with
  | admitted h seat =>
    rw [reseat] at found
    split at found
    · next same =>
      cases found
      exact .inl (same ▸ rfl)
    · exact .inr (.inl found)
  | left h seat =>
    rw [reseat] at found
    split at found
    · cases found
    · exact .inr (.inl found)
  | dismissed h seat =>
    rw [reseat] at found
    split at found
    · cases found
    · exact .inr (.inl found)
  | changed h seat c =>
    rw [reseat] at found
    split at found
    · next same =>
      cases found
      exact .inr (.inr ⟨seat, c, same ▸ rfl, rfl⟩)
    · exact .inr (.inl found)
  | clashed h => exact .inr (.inl found)
  | refused h box => exact .inr (.inl found)
  | restarted h => exact .inr (.inl found)
  | nothing => exact .inr (.inl found)

/-- A seat is lost because its connection leaves or is dismissed. -/
theorem reseat_eq_none {d : Deed} {k : Handle} {before : Seat}
    (lost : d.reseat k (some before) = none) :
    (∃ seat, d = .left k seat) ∨ ∃ seat, d = .dismissed k seat := by
  cases d with
  | left h seat =>
    rw [reseat] at lost
    split at lost
    · next same => exact .inl ⟨seat, same ▸ rfl⟩
    · cases lost
  | dismissed h seat =>
    rw [reseat] at lost
    split at lost
    · next same => exact .inr ⟨seat, same ▸ rfl⟩
    · cases lost
  | admitted h seat =>
    rw [reseat] at lost
    split at lost <;> cases lost
  | changed h seat c =>
    rw [reseat] at lost
    split at lost <;> cases lost
  | clashed h => cases lost
  | refused h box => cases lost
  | restarted h => cases lost
  | nothing => cases lost

/-- The command that comes to a deed; only in vain may it be any. -/
def Answers (c : Command) : Deed → Prop
  | .admitted h seat => c = .connect h seat.outbox
  | .clashed h => ∃ box, c = .connect h box
  | .refused h box => c = .connect h box
  | .left h _ => c = .disconnect h
  | .dismissed _ seat => c = .kick seat.participant.id
  | .changed h _ change => c = .message h (.change change)
  | .restarted h => c = .message h .reset
  | .nothing => True

end Deed

namespace Room

variable {r : Room} {d : Deed}

theorem fits_deed (r : Room) (c : Command) : (r.deed c).Fits r := by
  cases c with
  | connect h box =>
    rw [deed]
    cases seated : r.seating.contains h with
    | true => exact Seating.contains_iff.mp seated
    | false =>
      have free := Seating.contains_eq_false_iff.mp seated
      cases owned : r.seating.handleOf? r.nextId with
      | some k => exact ⟨free, k, owned⟩
      | none => exact ⟨free, owned, rfl⟩
  | disconnect h =>
    rw [deed]
    cases found : r.seating.seat? h with
    | none => trivial
    | some seat => exact found
  | message h m =>
    cases m with
    | change c =>
      rw [deed]
      cases found : r.seating.seat? h with
      | none => trivial
      | some seat => exact found
    | reset =>
      rw [deed]
      cases found : r.seating.seat? h with
      | none => trivial
      | some seat => exact ⟨seat, found⟩
  | listParticipants => trivial
  | kick i =>
    rw [deed]
    cases r.seating.handleOf? i with
    | none => trivial
    | some h =>
      dsimp only [Option.elim_some]
      cases found : r.seating.seat? h with
      | none => trivial
      | some seat => exact found

theorem answers_deed (consistent : r.seating.Consistent) (c : Command) :
    (r.deed c).Answers c := by
  cases c with
  | connect h box =>
    rw [deed]
    split
    · rfl
    · split
      · exact ⟨box, rfl⟩
      · rfl
  | disconnect h =>
    rw [deed]
    cases r.seating.seat? h <;> trivial
  | message h m =>
    cases m with
    | change c =>
      rw [deed]
      cases r.seating.seat? h <;> trivial
    | reset =>
      rw [deed]
      cases r.seating.seat? h <;> trivial
  | listParticipants => trivial
  | kick i =>
    rw [deed]
    cases owned : r.seating.handleOf? i with
    | none => trivial
    | some h =>
      obtain ⟨seat, found, rfl⟩ := consistent.handleOf?_eq_some_iff.mp owned
      rw [Option.elim_some, found]
      rfl

theorem deed_change {h : Handle} {seat : Seat} (found : r.seating.seat? h = some seat) (c : Change) :
    r.deed (.message h (.change c)) = .changed h seat c := by
  rw [deed, found, Option.elim_some]

theorem deed_kick_of_none {i : ParticipantId} (unowned : r.seating.handleOf? i = none) :
    r.deed (.kick i) = .nothing := by
  rw [deed, unowned, Option.elim_none]

/-- A kick dismisses the one participant of the number. -/
theorem deed_kick_of_seat (consistent : r.seating.Consistent) {h : Handle} {seat : Seat}
    (found : r.seating.seat? h = some seat) :
    r.deed (.kick seat.participant.id) = .dismissed h seat := by
  have owned := consistent.handleOf?_eq_some_iff.mpr ⟨seat, found, rfl⟩
  rw [deed, owned, Option.elim_some, found, Option.elim_some]

/-- Where everyone sits after a deed. -/
theorem seat?_does (fits : d.Fits r) (k : Handle) :
    (r.seating.does d).seat? k = d.reseat k (r.seating.seat? k) := by
  cases d with
  | admitted h seat =>
    obtain ⟨free, owned, fresh⟩ := fits
    obtain ⟨after, inserted⟩ : ∃ after, r.seating.insert h seat = .ok after := by
      simp [Seating.insert, Seating.contains, free, fresh, owned]
    simp only [Deed.reseat, Seating.does, Deed.operation?, Option.elim_some, Seating.after,
      Seating.perform, inserted, Seating.seat?_insert inserted]
  | left h seat =>
    obtain ⟨after, removed⟩ : ∃ after, r.seating.remove h = .ok (seat, after) := by
      simp [Seating.remove, show r.seating.seat? h = some seat from fits]
    simp only [Deed.reseat, Seating.does, Deed.operation?, Option.elim_some, Seating.after,
      Seating.perform, removed, Except.map, (Seating.seat?_remove removed k).2]
  | dismissed h seat =>
    obtain ⟨after, removed⟩ : ∃ after, r.seating.remove h = .ok (seat, after) := by
      simp [Seating.remove, show r.seating.seat? h = some seat from fits]
    simp only [Deed.reseat, Seating.does, Deed.operation?, Option.elim_some, Seating.after,
      Seating.perform, removed, Except.map, (Seating.seat?_remove removed k).2]
  | changed h seat c =>
    obtain ⟨after, updated⟩ : ∃ after,
        r.seating.update h c = .ok (seat.participant.apply c, after) := by
      simp [Seating.update, show r.seating.seat? h = some seat from fits]
    simp only [Deed.reseat, Seating.does, Deed.operation?, Option.elim_some, Seating.after,
      Seating.perform, updated, Except.map, Seating.seat?_update updated k,
      show r.seating.seat? h = some seat from fits, Option.map_some]
  | clashed h => rfl
  | refused h box => rfl
  | restarted h => rfl
  | nothing => rfl

theorem consistent_does (consistent : r.seating.Consistent) (d : Deed) :
    (r.seating.does d).Consistent := by
  unfold Seating.does
  cases d.operation? with
  | none => exact consistent
  | some o => exact consistent.after o

end Room

end LiveRelay
