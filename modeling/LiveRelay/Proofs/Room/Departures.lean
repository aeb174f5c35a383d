import Mathlib.Data.List.Nodup
import LiveRelay.Proofs.Room.Roster

/-! # Departures

A participant goes because its connection leaves or because it is dismissed. Both ways come to the
same: the seat is taken away, one departure is written to the log, and one piece of news goes out to
everyone who is still there.
-/

namespace LiveRelay

/-- The number that a deed frees. -/
def Deed.departs? : Deed → Option ParticipantId
  | .left _ seat | .dismissed _ seat => some seat.participant.id
  | .admitted _ _ | .clashed _ | .refused _ _ | .changed _ _ _ | .restarted _ | .nothing => none

/-- Whether a line of the log tells that a participant went. -/
def RoomNotice.tellsDeparture (i : ParticipantId) : RoomNotice → Bool
  | .left _ j => j == i
  | _ => false

/-- Whether an event tells that a participant went. -/
def Event.isLeave (i : ParticipantId) : Event → Bool
  | .message (.leave j) => j == i
  | _ => false

namespace Seating

variable {t : Seating} {h : Handle} {seat : Seat}

/-- The numbers of those who are in the snapshot. -/
def ids (t : Seating) : List ParticipantId := t.snapshot.map (·.id)

theorem mem_ids_iff {i : ParticipantId} : i ∈ t.ids ↔ (t.participant? i).isSome = true := by
  simp [ids, participant?]

/-- A number is in the snapshot exactly if the index finds its connection. -/
theorem isSome_handleOf? (consistent : t.Consistent) (i : ParticipantId) :
    (t.handleOf? i).isSome = decide (i ∈ t.ids) := by
  rw [Bool.eq_iff_iff, decide_eq_true_iff, mem_ids_iff, Option.isSome_iff_exists,
    Option.isSome_iff_exists]
  simp only [consistent.handleOf?_eq_some_iff, participant?_eq_some_iff consistent]
  constructor
  · rintro ⟨k, seat, found, rfl⟩
    exact ⟨_, k, seat, found, rfl, rfl⟩
  · rintro ⟨_, k, seat, found, rfl, number⟩
    exact ⟨k, seat, found, number⟩

/-- One seat is taken away, and the others stay. -/
theorem length_others (consistent : t.Consistent) (found : t.seat? h = some seat) :
    (t.seats.filter (·.1 != h)).length + 1 = t.seats.length := by
  have member : h ∈ t.seats.map (·.1) :=
    List.mem_map.mpr ⟨(h, seat), consistent.seat?_eq_some_iff.mp found, rfl⟩
  have others : (t.seats.filter (·.1 != h)).map (·.1) = (t.seats.map (·.1)).erase h := by
    rw [consistent.handles.erase_eq_filter, List.filter_map]
    rfl
  have lengths := congrArg List.length others
  rw [List.length_map, List.length_erase_of_mem member, List.length_map] at lengths
  have positive := List.length_pos_of_mem member
  rw [List.length_map] at positive
  omega

end Seating

namespace Room

variable {r : Room} {d : Deed} {i : ParticipantId}

/-- Who is in the snapshot after a deed: those who did not depart, and a newcomer. -/
theorem mem_ids_does (consistent : r.seating.Consistent) (fits : d.Fits r) :
    i ∈ (r.seating.does d).ids ↔
      i ∈ r.seating.ids ∧ d.departs? ≠ some i ∨ d.admits = true ∧ i = r.nextId := by
  simp only [Seating.mem_ids_iff, participant?_does consistent fits]
  cases d with
  | admitted h seat =>
    obtain ⟨-, -, fresh⟩ := fits
    rw [Deed.recast, fresh, Participant.id_fresh]
    by_cases same : i = r.nextId <;> simp [same, Deed.departs?, Deed.admits]
  | left h seat =>
    rw [Deed.recast]
    by_cases same : i = seat.participant.id
    · simp [same, Deed.departs?, Deed.admits]
    · simp [same, Ne.symm same, Deed.departs?, Deed.admits]
  | dismissed h seat =>
    rw [Deed.recast]
    by_cases same : i = seat.participant.id
    · simp [same, Deed.departs?, Deed.admits]
    · simp [same, Ne.symm same, Deed.departs?, Deed.admits]
  | changed h seat c =>
    have there := Seating.participant?_of_seat? consistent fits
    rw [Deed.recast]
    by_cases same : i = seat.participant.id
    · simp [same, there, Deed.departs?, Deed.admits]
    · simp [same, Deed.departs?, Deed.admits]
  | clashed h => simp [Deed.recast, Deed.departs?, Deed.admits]
  | refused h box => simp [Deed.recast, Deed.departs?, Deed.admits]
  | restarted h => simp [Deed.recast, Deed.departs?, Deed.admits]
  | nothing => simp [Deed.recast, Deed.departs?, Deed.admits]

/-- Only who is there departs. -/
theorem mem_ids_of_departs? (consistent : r.seating.Consistent) (fits : d.Fits r)
    (gone : d.departs? = some i) : i ∈ r.seating.ids := by
  rw [Seating.mem_ids_iff]
  cases d with
  | left h seat =>
    cases gone
    rw [Seating.participant?_of_seat? consistent fits]
    rfl
  | dismissed h seat =>
    cases gone
    rw [Seating.participant?_of_seat? consistent fits]
    rfl
  | admitted h seat => cases gone
  | changed h seat c => cases gone
  | clashed h => cases gone
  | refused h box => cases gone
  | restarted h => cases gone
  | nothing => cases gone

/-- A kick takes away the seat with the number, and no other. -/
theorem seat?_kicked (consistent : r.seating.Consistent) (k : Handle) (seat : Seat) :
    (r.seating.does (r.deed (.kick i))).seat? k = some seat ↔
      r.seating.seat? k = some seat ∧ seat.participant.id ≠ i := by
  have fits := r.fits_deed (.kick i)
  rw [seat?_does fits]
  cases owned : r.seating.handleOf? i with
  | none =>
    rw [deed_kick_of_none owned, Deed.reseat]
    have free := consistent.handleOf?_eq_none_iff.mp owned
    constructor
    · intro found
      exact ⟨found, free k seat found⟩
    · rintro ⟨found, -⟩
      exact found
  | some h =>
    obtain ⟨gone, found, rfl⟩ := consistent.handleOf?_eq_some_iff.mp owned
    rw [deed_kick_of_seat consistent found, Deed.reseat]
    split
    · next same =>
      subst same
      refine iff_of_false (by simp) ?_
      rintro ⟨alike, other⟩
      cases found.symm.trans alike
      exact other rfl
    · next elsewhere =>
      constructor
      · intro alike
        exact ⟨alike, fun same => elsewhere (consistent.handle_unique found alike same)⟩
      · rintro ⟨alike, -⟩
        exact alike

/-- A kick takes away what stands in the snapshot under the number, and nothing else. -/
theorem snapshot_kicked (consistent : r.seating.Consistent) :
    (r.seating.does (r.deed (.kick i))).snapshot = r.seating.snapshot.filter (·.id != i) := by
  have after := consistent_does consistent (r.deed (.kick i))
  refine Participant.eq_of_strict after.snapshot_strict (consistent.snapshot_strict.filter _) ?_
  intro p
  rw [List.mem_filter, after.mem_snapshot_iff, consistent.mem_snapshot_iff]
  simp only [Seating.get_eq_ok_iff, seat?_kicked consistent, bne_iff_ne]
  constructor
  · rintro ⟨k, seat, ⟨found, other⟩, rfl⟩
    exact ⟨⟨k, seat, found, rfl⟩, other⟩
  · rintro ⟨⟨k, seat, found, rfl⟩, other⟩
    exact ⟨k, seat, ⟨found, other⟩, rfl⟩

/-- How many are seated after a deed. -/
theorem size_does (consistent : r.seating.Consistent) (fits : d.Fits r) :
    (r.seating.does d).size + d.departs?.isSome.toNat = r.seating.size + d.admits.toNat := by
  cases d with
  | admitted h seat =>
    obtain ⟨free, owned, fresh⟩ := fits
    simp [Seating.does, Deed.operation?, Seating.after, Seating.perform, Seating.insert,
      Seating.contains, free, fresh, owned, Seating.size, Deed.departs?, Deed.admits]
  | left h seat =>
    have found : r.seating.seat? h = some seat := fits
    simpa [Seating.does, Deed.operation?, Seating.after, Seating.perform, Seating.remove, found,
      Except.map, Seating.size, Deed.departs?, Deed.admits] using
      Seating.length_others consistent found
  | dismissed h seat =>
    have found : r.seating.seat? h = some seat := fits
    simpa [Seating.does, Deed.operation?, Seating.after, Seating.perform, Seating.remove, found,
      Except.map, Seating.size, Deed.departs?, Deed.admits] using
      Seating.length_others consistent found
  | changed h seat c =>
    have found : r.seating.seat? h = some seat := fits
    simp [Seating.does, Deed.operation?, Seating.after, Seating.perform, Seating.update, found,
      Except.map, Seating.size, Deed.departs?, Deed.admits]
  | clashed h => rfl
  | refused h box => rfl
  | restarted h => rfl
  | nothing => rfl

/-- News of something else tells of no departure. -/
theorem filter_news_isLeave (recipients : Recipients) {m : ServerMessage}
    (seats : List (Handle × Seat)) (other : (Event.message m).isLeave i = false) :
    (news recipients m seats).filter (·.event.isLeave i) = [] := by
  rw [List.filter_eq_nil_iff]
  intro x sent
  rw [event_of_news sent, other]
  exact Bool.false_ne_true

/-- News of a departure goes to everyone who is there. -/
theorem filter_news_leave (j : ParticipantId) (seats : List (Handle × Seat)) :
    (news .all (.leave j) seats).filter (·.event.isLeave i) =
      if j = i then seats.map fun e => ⟨e.1, e.2.outbox, .message (.leave i)⟩ else [] := by
  split
  · next same =>
    rw [List.filter_eq_self.mpr, ← same]
    · simp [news, Recipients.includes]
    · intro x sent
      rw [event_of_news sent]
      exact beq_iff_eq.mpr same
  · next other => exact filter_news_isLeave _ _ (beq_eq_false_iff_ne.mpr other)

/-- A departure is told to everyone who is still there, and only when it happens. -/
theorem filter_dispatches_isLeave (r : Room) (d : Deed) :
    (r.dispatches d).filter (·.event.isLeave i) =
      if d.departs? = some i then
        (r.seating.does d).seats.map fun e => ⟨e.1, e.2.outbox, .message (.leave i)⟩
      else [] := by
  cases d with
  | admitted h seat =>
    rw [dispatches, List.filter_append, filter_news_isLeave _ _ rfl, filter_news_isLeave _ _ rfl]
    rfl
  | left h seat =>
    rw [dispatches, filter_news_leave]
    simp only [Deed.departs?, Option.some.injEq]
  | dismissed h seat =>
    rw [dispatches, List.filter_append, filter_news_leave]
    simp [Deed.departs?, Event.isLeave]
  | changed h seat c =>
    rw [dispatches, filter_news_isLeave _ _ rfl]
    rfl
  | restarted h =>
    rw [dispatches, filter_news_isLeave _ _ rfl]
    rfl
  | refused h box => rfl
  | clashed h => rfl
  | nothing => rfl

variable (r : Room) (b : Outboxes)

theorem departs?_connect (h : Handle) (box : OutboxId) :
    (r.deed (.connect h box)).departs? = none := by
  rw [deed]
  split
  · rfl
  · split <;> rfl

theorem departs?_message (h : Handle) (m : ClientMessage) :
    (r.deed (.message h m)).departs? = none := by
  cases m <;> rw [deed] <;> cases r.seating.seat? h <;> rfl

/-- What the outboxes refuse does not look like a departure. -/
theorem countP_refusals (offers : List Offer) :
    (offers.filterMap RoomNotice.ofOffer).countP (·.tellsDeparture i) = 0 := by
  rw [List.countP_eq_zero]
  intro n member
  obtain ⟨o, -, noticed⟩ := List.mem_filterMap.mp member
  unfold RoomNotice.ofOffer at noticed
  split at noticed
  · cases noticed
  · cases noticed
    exact Bool.false_ne_true
  · cases noticed
    exact Bool.false_ne_true

theorem countP_announce (sender : Handle) (kind : ClientKind) (recipients : Recipients)
    (m : ServerMessage) (notices : List RoomNotice) :
    (r.announce b sender kind recipients m notices).notices.countP (·.tellsDeparture i) =
      notices.countP (·.tellsDeparture i) := by
  rw [announce]
  dsimp only
  rw [List.countP_append, List.countP_append, countP_refusals]
  rfl

theorem countP_unseat (h : Handle) :
    (r.unseat b h).2.notices.countP (·.tellsDeparture i) =
      ((r.unseat b h).1.any (·.participant.id == i)).toNat := by
  unfold unseat
  cases r.seating.remove h with
  | error why => rfl
  | ok result =>
    obtain ⟨seat, seating⟩ := result
    rw [List.countP_cons, countP_refusals, Option.any_some, RoomNotice.tellsDeparture, Nat.zero_add]
    cases seat.participant.id == i <;> rfl

/-- A departure is written to the log once, when it happens. -/
theorem countP_apply (c : Command) : (r.apply b c).notices.countP (·.tellsDeparture i) =
    ((r.deed c).departs?.any (· == i)).toNat := by
  cases c with
  | connect h box =>
    rw [departs?_connect, apply, connect]
    split
    · rw [refuse]
      dsimp only
      split <;> rfl
    · dsimp only
      cases r.seating.insert h ⟨.fresh r.nextId, box⟩ with
      | error why => rfl
      | ok seating => exact countP_refusals _
  | disconnect h =>
    rw [apply, countP_unseat, deed]
    cases found : r.seating.seat? h with
    | none =>
      rw [(r.unseat_of_none b found).1]
      rfl
    | some seat =>
      rw [(r.performs_unseat b found).1]
      rfl
  | message h m =>
    rw [departs?_message, apply]
    cases m with
    | change c =>
      rw [route]
      cases r.seating.update h c with
      | error why => rfl
      | ok result => exact countP_announce _ _ _ _ _ _ _
    | reset =>
      rw [route]
      cases r.seating.get h with
      | error why => rfl
      | ok p => exact countP_announce _ _ _ _ _ _ _
  | listParticipants => rfl
  | kick j =>
    rw [apply, kick, deed]
    cases r.seating.handleOf? j with
    | none => rfl
    | some h =>
      dsimp only [Option.elim_some]
      have counted := r.countP_unseat b (i := i) h
      cases found : r.seating.seat? h with
      | none =>
        rw [(r.unseat_of_none b found).1] at counted
        have gone := (r.unseat_of_none b found).1
        generalize r.unseat b h = result at counted gone ⊢
        obtain ⟨seat, out⟩ := result
        cases gone
        exact counted
      | some seat =>
        rw [(r.performs_unseat b found).1] at counted
        have gone := (r.performs_unseat b found).1
        generalize r.unseat b h = result at counted gone ⊢
        obtain ⟨other, out⟩ := result
        cases gone
        dsimp only
        rw [List.countP_append, counted]
        split <;> rfl

end Room

end LiveRelay
