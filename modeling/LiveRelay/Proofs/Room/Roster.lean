import LiveRelay.Proofs.Room.Told

/-! # Participants by number

Clients know participants by their numbers. `Seating.participant?` finds a participant that way, and
`Deed.recast` tells what is found after a deed from what was found before.
-/

namespace LiveRelay

namespace Seating

/-- The participant of a number. -/
def participant? (t : Seating) (i : ParticipantId) : Option Participant :=
  t.snapshot.find? (·.id == i)

variable {t : Seating} {h : Handle} {seat : Seat} {i : ParticipantId} {p : Participant}

theorem participant?_eq_some_iff_mem (consistent : t.Consistent) :
    t.participant? i = some p ↔ p ∈ t.snapshot ∧ p.id = i := by
  constructor
  · intro found
    exact ⟨List.mem_of_find?_eq_some found, by simpa using List.find?_some found⟩
  · rintro ⟨member, rfl⟩
    obtain ⟨q, found⟩ : ∃ q, t.participant? p.id = some q := by
      rw [← Option.isSome_iff_exists, participant?, List.find?_isSome]
      exact ⟨p, member, beq_self_eq_true _⟩
    have same : q.id = p.id := by simpa using List.find?_some found
    have there := List.mem_of_find?_eq_some found
    have distinct : (t.snapshot.map (·.id)).Nodup :=
      List.pairwise_map.mpr (consistent.snapshot_strict.imp fun below => UInt64.ne_of_lt below)
    rw [found, List.inj_on_of_nodup_map distinct there member same]

/-- The participant of a number is the one that sits somewhere with it. -/
theorem participant?_eq_some_iff (consistent : t.Consistent) : t.participant? i = some p ↔
    ∃ h seat, t.seat? h = some seat ∧ seat.participant = p ∧ p.id = i := by
  rw [participant?_eq_some_iff_mem consistent, consistent.mem_snapshot_iff]
  simp only [get_eq_ok_iff]
  constructor
  · rintro ⟨⟨h, seat, found, same⟩, number⟩
    exact ⟨h, seat, found, same, number⟩
  · rintro ⟨h, seat, found, same, number⟩
    exact ⟨⟨h, seat, found, same⟩, number⟩

theorem participant?_of_seat? (consistent : t.Consistent) (found : t.seat? h = some seat) :
    t.participant? seat.participant.id = some seat.participant :=
  (participant?_eq_some_iff consistent).mpr ⟨h, seat, found, rfl, rfl⟩

theorem participant?_eq_none (consistent : t.Consistent) (free : t.handleOf? i = none) :
    t.participant? i = none := by
  rw [Option.eq_none_iff_forall_ne_some]
  intro p found
  obtain ⟨h, seat, sat, rfl, number⟩ := (participant?_eq_some_iff consistent).mp found
  exact consistent.handleOf?_eq_none_iff.mp free h seat sat number

end Seating

/-- The participant of a number after a deed, told from the one before. -/
def Deed.recast (i : ParticipantId) (before : Option Participant) : Deed → Option Participant
  | .admitted _ seat => if i = seat.participant.id then some seat.participant else before
  | .left _ seat | .dismissed _ seat => if i = seat.participant.id then none else before
  | .changed _ seat c => if i = seat.participant.id then some (seat.participant.apply c) else before
  | .clashed _ | .refused _ _ | .restarted _ | .nothing => before

namespace Room

variable {r : Room} {d : Deed} {i : ParticipantId} {h : Handle} {seat : Seat} {c : Change}

/-- Taking away the seat of a participant takes away its number and no other. -/
theorem participant?_gone (consistent : r.seating.Consistent) {t : Seating} (after : t.Consistent)
    (found : r.seating.seat? h = some seat)
    (gone : ∀ k, t.seat? k = if k = h then none else r.seating.seat? k) :
    t.participant? i = if i = seat.participant.id then none else r.seating.participant? i := by
  apply Option.ext
  intro p
  rw [Seating.participant?_eq_some_iff after]
  split
  · next same =>
    refine iff_of_false ?_ (by simp)
    rintro ⟨k, other, sat, rfl, number⟩
    rw [gone] at sat
    split at sat
    · cases sat
    · next elsewhere => exact elsewhere (consistent.handle_unique found sat (number.trans same))
  · next different =>
    rw [Seating.participant?_eq_some_iff consistent]
    constructor
    · rintro ⟨k, other, sat, rfl, number⟩
      rw [gone] at sat
      split at sat
      · cases sat
      · exact ⟨k, other, sat, rfl, number⟩
    · rintro ⟨k, other, sat, rfl, number⟩
      refine ⟨k, other, ?_, rfl, number⟩
      rw [gone, if_neg ?_]
      · exact sat
      · rintro rfl
        cases sat.symm.trans found
        exact different number.symm

/-- Seating a participant somewhere replaces what was found under its number, if nobody else sits
there with another number. -/
theorem participant?_placed (consistent : r.seating.Consistent) {t : Seating}
    (after : t.Consistent)
    (alone : ∀ k other, r.seating.seat? k = some other →
      (k = h ↔ other.participant.id = seat.participant.id))
    (placed : ∀ k, t.seat? k = if k = h then some seat else r.seating.seat? k) :
    t.participant? i =
      if i = seat.participant.id then some seat.participant else r.seating.participant? i := by
  apply Option.ext
  intro p
  rw [Seating.participant?_eq_some_iff after]
  split
  · next same =>
    subst same
    constructor
    · rintro ⟨k, other, sat, rfl, number⟩
      rw [placed] at sat
      split at sat
      · rw [Option.some.inj sat]
      · next elsewhere => exact absurd ((alone k other sat).mpr number) elsewhere
    · intro same
      cases same
      exact ⟨h, seat, by rw [placed, if_pos rfl], rfl, rfl⟩
  · next different =>
    rw [Seating.participant?_eq_some_iff consistent]
    constructor
    · rintro ⟨k, other, sat, rfl, number⟩
      rw [placed] at sat
      split at sat
      · cases sat
        exact absurd number.symm different
      · exact ⟨k, other, sat, rfl, number⟩
    · rintro ⟨k, other, sat, rfl, number⟩
      refine ⟨k, other, ?_, rfl, number⟩
      rw [placed, if_neg fun here => ?_]
      · exact sat
      · exact different (number.symm.trans ((alone k other sat).mp here))

/-- Who is found under a number after a deed. -/
theorem participant?_does (consistent : r.seating.Consistent) (fits : d.Fits r) :
    (r.seating.does d).participant? i = d.recast i (r.seating.participant? i) := by
  have after := consistent_does consistent d
  have moved := seat?_does fits
  cases d with
  | admitted h seat =>
    obtain ⟨free, owned, fresh⟩ := fits
    refine participant?_placed consistent after (fun k other sat => iff_of_false ?_ ?_) moved
    · rintro rfl
      cases free.symm.trans sat
    · rw [fresh]
      exact consistent.handleOf?_eq_none_iff.mp owned k other sat
  | left h seat => exact participant?_gone consistent after fits moved
  | dismissed h seat => exact participant?_gone consistent after fits moved
  | changed h seat c =>
    have placed := participant?_placed (i := i) consistent after (fun k other sat => ?_) moved
    · rw [placed, Participant.id_apply]
      rfl
    · dsimp only
      rw [Participant.id_apply]
      constructor
      · rintro rfl
        rw [Option.some.inj (sat.symm.trans fits)]
      · exact consistent.handle_unique fits sat
  | clashed h => rfl
  | refused h box => rfl
  | restarted h => rfl
  | nothing => rfl

end Room

end LiveRelay
