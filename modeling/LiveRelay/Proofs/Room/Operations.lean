import LiveRelay.Proofs.Room.Index

/-! # Histories of a seating

A seating is only ever changed by three operations. `Operation` is one of them on any connection and
any participant, and `Seating.replay` is any history of them, refusals included. Whatever the
history, the two maps are inverse to each other, and the snapshot shows the present seats alone.
-/

namespace LiveRelay.Seating

/-- A change that a seating is asked for. -/
inductive Operation where
  | insert (h : Handle) (seat : Seat)
  | remove (h : Handle)
  | update (h : Handle) (c : Change)
deriving Repr

/-- The seating after an operation, or why the operation is refused. -/
def perform (t : Seating) : Operation → Except SeatingError Seating
  | .insert h seat => t.insert h seat
  | .remove h => (t.remove h).map (·.2)
  | .update h c => (t.update h c).map (·.2)

/-- The seating that is there after an operation, refused or not. -/
def after (t : Seating) (o : Operation) : Seating :=
  match t.perform o with
  | .ok next => next
  | .error _ => t

/-- The seating after a history. -/
def replay (history : List Operation) : Seating := history.foldl after empty

/-- When an operation is refused, told by the seats, and with which error. -/
inductive Refused (t : Seating) : Operation → SeatingError → Prop where
  | seated {h : Handle} {seat : Seat} {p : Participant} (found : t.get h = .ok p) :
      Refused t (.insert h seat) (.duplicateConnection h)
  | owned {h k : Handle} {seat : Seat} {p : Participant} (free : ∀ p, t.get h ≠ .ok p)
      (found : t.get k = .ok p) (same : p.id = seat.participant.id) :
      Refused t (.insert h seat) (.duplicateParticipant seat.participant.id)
  | notRemoved {h : Handle} (free : ∀ p, t.get h ≠ .ok p) :
      Refused t (.remove h) (.unknownConnection h)
  | notUpdated {h : Handle} {c : Change} (free : ∀ p, t.get h ≠ .ok p) :
      Refused t (.update h c) (.unknownConnection h)

variable {t : Seating} {h : Handle} {e : SeatingError}

theorem seat?_eq_none_iff_get : t.seat? h = none ↔ ∀ p, t.get h ≠ .ok p := by
  unfold get
  cases t.seat? h <;> simp

theorem insert_eq_error_iff {seat : Seat} : t.insert h seat = .error e ↔
    (∃ other, t.seat? h = some other) ∧ e = .duplicateConnection h ∨
    t.seat? h = none ∧ (∃ k, t.handleOf? seat.participant.id = some k) ∧
      e = .duplicateParticipant seat.participant.id := by
  unfold insert contains
  cases t.seat? h <;> cases t.handleOf? seat.participant.id <;> simp [eq_comm (b := e)]

theorem remove_eq_error_iff : t.remove h = .error e ↔
    t.seat? h = none ∧ e = .unknownConnection h := by
  unfold remove
  cases t.seat? h with
  | none => simpa using eq_comm
  | some seat => simp

theorem update_eq_error_iff {c : Change} : t.update h c = .error e ↔
    t.seat? h = none ∧ e = .unknownConnection h := by
  unfold update
  cases t.seat? h with
  | none => simpa using eq_comm
  | some seat => simp

theorem map_eq_error_iff {α β ε : Type} {x : Except ε α} {f : α → β} {e : ε} :
    x.map f = .error e ↔ x = .error e := by
  cases x <;> simp [Except.map]

namespace Consistent

/-- An operation is refused in these cases and no others. -/
theorem perform_eq_error_iff (consistent : t.Consistent) {o : Operation} :
    t.perform o = .error e ↔ Refused t o e := by
  cases o with
  | insert h seat =>
    rw [perform, insert_eq_error_iff]
    constructor
    · rintro (⟨⟨other, found⟩, rfl⟩ | ⟨free, ⟨k, owned⟩, rfl⟩)
      · exact .seated (get_eq_ok_iff.mpr ⟨other, found, rfl⟩)
      · obtain ⟨other, found, same⟩ := consistent.handleOf?_eq_some_iff.mp owned
        exact .owned (seat?_eq_none_iff_get.mp free) (get_eq_ok_iff.mpr ⟨other, found, rfl⟩) same
    · intro refused
      cases refused with
      | seated found =>
        obtain ⟨other, found, _⟩ := get_eq_ok_iff.mp found
        exact .inl ⟨⟨other, found⟩, rfl⟩
      | owned free found same =>
        obtain ⟨other, sits, rfl⟩ := get_eq_ok_iff.mp found
        have owned := consistent.handleOf?_eq_some_iff.mpr ⟨other, sits, same⟩
        exact .inr ⟨seat?_eq_none_iff_get.mpr free, ⟨_, owned⟩, rfl⟩
  | remove h =>
    rw [perform, map_eq_error_iff, remove_eq_error_iff, seat?_eq_none_iff_get]
    constructor
    · rintro ⟨free, rfl⟩
      exact .notRemoved free
    · rintro ⟨⟩
      exact ⟨‹_›, rfl⟩
  | update h c =>
    rw [perform, map_eq_error_iff, update_eq_error_iff, seat?_eq_none_iff_get]
    constructor
    · rintro ⟨free, rfl⟩
      exact .notUpdated free
    · rintro ⟨⟩
      exact ⟨‹_›, rfl⟩

/-- Every operation keeps the maps consistent, refused or not. -/
theorem after (consistent : t.Consistent) (o : Operation) : (t.after o).Consistent := by
  unfold Seating.after
  split
  · next next performed =>
    cases o with
    | insert h seat => exact consistent.insert performed
    | remove h =>
      cases removed : t.remove h with
      | error e => simp [perform, removed, Except.map] at performed
      | ok taken =>
        simp only [perform, removed, Except.map, Except.ok.injEq] at performed
        exact performed ▸ consistent.remove removed
    | update h c =>
      cases updated : t.update h c with
      | error e => simp [perform, updated, Except.map] at performed
      | ok changed =>
        simp only [perform, updated, Except.map, Except.ok.injEq] at performed
        exact performed ▸ consistent.update updated
  · exact consistent

end Consistent

theorem consistent_replay (history : List Operation) : (replay history).Consistent := by
  unfold replay
  have start := Consistent.empty
  generalize empty = t at start ⊢
  induction history generalizing t with
  | nil => exact start
  | cons o history ih => exact ih _ (start.after o)

/-- After any history, the two maps are inverse to each other and of one length, the snapshot
ascends strictly through exactly those who are seated and depends on nothing else, and an operation
that is refused, in the cases of `Refused` and in no others, leaves everything as it was. -/
theorem replay_maps_inverse (history : List Operation) :
    (∀ i h, (replay history).handleOf? i = some h ↔
      ∃ p, (replay history).get h = .ok p ∧ p.id = i) ∧
    (∀ h k p q, (replay history).get h = .ok p → (replay history).get k = .ok q →
      p.id = q.id → h = k) ∧
    (((replay history).seats.map (·.1)).Nodup ∧
      (replay history).seats.length = (replay history).size) ∧
    (((replay history).owners.map (·.1)).Nodup ∧
      (replay history).owners.length = (replay history).size) ∧
    (replay history).snapshot.Pairwise (·.id < ·.id) ∧
    (∀ p, p ∈ (replay history).snapshot ↔ ∃ h, (replay history).get h = .ok p) ∧
    (replay history).snapshot.length = (replay history).size ∧
    (∀ other, (∀ h, (replay history).get h = (replay other).get h) →
      (replay history).snapshot = (replay other).snapshot) ∧
    (∀ o e, (replay history).perform o = .error e ↔ Refused (replay history) o e) ∧
    ∀ o e, (replay history).perform o = .error e →
      ((replay history).after o).seats = (replay history).seats ∧
      ((replay history).after o).owners = (replay history).owners := by
  have consistent := consistent_replay history
  refine ⟨?_, ?_, ⟨consistent.handles, rfl⟩, ⟨consistent.owner_ids, ?_⟩,
    consistent.snapshot_strict, ?_, length_snapshot _, ?_, ?_, ?_⟩
  · intro i h
    simp only [consistent.handleOf?_eq_some_iff, get_eq_ok_iff]
    constructor
    · rintro ⟨seat, found, number⟩
      exact ⟨seat.participant, ⟨seat, found, rfl⟩, number⟩
    · rintro ⟨p, ⟨seat, found, rfl⟩, number⟩
      exact ⟨seat, found, number⟩
  · intro h k p q here there same
    obtain ⟨seat, found, rfl⟩ := get_eq_ok_iff.mp here
    obtain ⟨other, alike, rfl⟩ := get_eq_ok_iff.mp there
    exact consistent.handle_unique alike found same
  · rw [consistent.owners, List.length_map, size]
  · intro p
    exact consistent.mem_snapshot_iff
  · intro other alike
    exact consistent.snapshot_eq (consistent_replay other) alike
  · intro o e
    exact consistent.perform_eq_error_iff
  · intro o e refused
    rw [after, refused]
    exact ⟨rfl, rfl⟩

end LiveRelay.Seating
