import Mathlib.Data.List.Sort
import LiveRelay.Room.Seating

/-! # The two maps of a seating

Seats are found by connection and connections by participant. The lists behind the two maps are the
same entries read in two directions, with no connection and no participant twice, and every
operation keeps them so. What is found in one map is then what is found in the other, and the
snapshot depends on nothing but who sits where.
-/

namespace LiveRelay

/-- With distinct keys, an entry is found exactly if it is there. -/
theorem lookup_eq_some_iff_mem {α β : Type} [BEq α] [LawfulBEq α] {entries : List (α × β)}
    (distinct : (entries.map (·.1)).Nodup) {k : α} {v : β} :
    entries.lookup k = some v ↔ (k, v) ∈ entries := by
  induction entries with
  | nil => simp
  | cons entry rest ih =>
    obtain ⟨key, value⟩ := entry
    obtain ⟨absent, distinct⟩ := List.nodup_cons.mp distinct
    rw [lookup_cons_ite, List.mem_cons]
    by_cases same : k = key
    · subst same
      have elsewhere : (k, v) ∉ rest := fun member => absent (List.mem_map.mpr ⟨_, member, rfl⟩)
      simp [elsewhere, eq_comm]
    · simp [same, ih distinct]

namespace Participant

@[simp] theorem id_fresh (i : ParticipantId) : (fresh i).id = i := rfl

@[simp] theorem id_apply (p : Participant) (c : Change) : (p.apply c).id = p.id := by
  cases c <;> rfl

/-- Participants with distinct numbers are sorted into a strictly ascending list. -/
theorem sortById_strict {ps : List Participant} (distinct : (ps.map (·.id)).Nodup) :
    (sortById ps).Pairwise (·.id < ·.id) := by
  have apart : ((sortById ps).map (·.id)).Nodup :=
    ((sortById_perm ps).map _).nodup_iff.mpr distinct
  refine ((sortById_ascends ps).and (List.pairwise_map.mp apart)).imp ?_
  rintro p q ⟨below, other⟩
  exact UInt64.lt_of_le_of_ne below other

/-- Two strictly ascending lists of the same participants are one list. -/
theorem eq_of_strict {ps qs : List Participant} (left : ps.Pairwise (·.id < ·.id))
    (right : qs.Pairwise (·.id < ·.id)) (alike : ∀ p, p ∈ ps ↔ p ∈ qs) : ps = qs := by
  have distinct {rs : List Participant} (strict : rs.Pairwise (·.id < ·.id)) : rs.Nodup := by
    refine strict.imp ?_
    rintro p q below rfl
    exact UInt64.lt_irrefl _ below
  apply List.Perm.eq_of_pairwise (fun p q _ _ below above => absurd above (UInt64.lt_asymm below))
    left right
  exact (List.perm_ext_iff_of_nodup (distinct left) (distinct right)).mpr alike

end Participant

namespace Seating

/-- Both maps hold the same entries, and neither a connection nor a participant twice. -/
structure Consistent (t : Seating) : Prop where
  handles : (t.seats.map (·.1)).Nodup
  ids : (t.seats.map (·.2.participant.id)).Nodup
  owners : t.owners = t.seats.map fun e => (e.2.participant.id, e.1)

variable {t after : Seating} {h k : Handle} {seat other : Seat} {c : Change} {p : Participant}

theorem contains_iff : t.contains h = true ↔ ∃ seat, t.seat? h = some seat :=
  Option.isSome_iff_exists

theorem contains_eq_false_iff : t.contains h = false ↔ t.seat? h = none := by
  rw [contains, Option.isSome_eq_false_iff, Option.isNone_iff_eq_none]

namespace Consistent

theorem seat?_eq_some_iff (consistent : t.Consistent) :
    t.seat? h = some seat ↔ (h, seat) ∈ t.seats :=
  lookup_eq_some_iff_mem consistent.handles

theorem owner_ids (consistent : t.Consistent) : (t.owners.map (·.1)).Nodup := by
  rw [consistent.owners, List.map_map]
  exact consistent.ids

/-- The connection of a participant is the one whose seat has the participant. -/
theorem handleOf?_eq_some_iff (consistent : t.Consistent) {i : ParticipantId} :
    t.handleOf? i = some h ↔ ∃ seat, t.seat? h = some seat ∧ seat.participant.id = i := by
  rw [handleOf?, lookup_eq_some_iff_mem consistent.owner_ids, consistent.owners, List.mem_map]
  simp only [consistent.seat?_eq_some_iff, Prod.mk.injEq]
  constructor
  · rintro ⟨⟨k, seat⟩, member, number, rfl⟩
    exact ⟨seat, member, number⟩
  · rintro ⟨seat, member, number⟩
    exact ⟨(h, seat), member, number, rfl⟩

/-- A number without a connection belongs to no seat. -/
theorem handleOf?_eq_none_iff (consistent : t.Consistent) {i : ParticipantId} :
    t.handleOf? i = none ↔ ∀ h seat, t.seat? h = some seat → seat.participant.id ≠ i := by
  rw [Option.eq_none_iff_forall_ne_some]
  constructor
  · intro unowned h seat found number
    exact unowned h (consistent.handleOf?_eq_some_iff.mpr ⟨seat, found, number⟩)
  · intro free h owned
    obtain ⟨seat, found, number⟩ := consistent.handleOf?_eq_some_iff.mp owned
    exact free h seat found number

/-- No two connections have participants of one number. -/
theorem handle_unique (consistent : t.Consistent) (found : t.seat? h = some seat)
    (alike : t.seat? k = some other) (same : other.participant.id = seat.participant.id) :
    k = h := by
  have here := consistent.handleOf?_eq_some_iff.mpr ⟨seat, found, rfl⟩
  have there := consistent.handleOf?_eq_some_iff.mpr ⟨other, alike, same⟩
  exact Option.some.inj (there.symm.trans here)

theorem empty : Seating.empty.Consistent := ⟨.nil, .nil, rfl⟩

/-- A new seat has its own connection and its own participant. -/
theorem insert (consistent : t.Consistent) (seated : t.insert h seat = .ok after) :
    after.Consistent := by
  unfold Seating.insert at seated
  split at seated
  · cases seated
  · next newHandle =>
    split at seated
    · cases seated
    · next newId =>
      cases seated
      have unseated : t.seat? h = none := by simpa [contains] using newHandle
      have unowned : t.handleOf? seat.participant.id = none := by simpa using newId
      refine ⟨List.nodup_cons.mpr ⟨?_, consistent.handles⟩,
        List.nodup_cons.mpr ⟨?_, consistent.ids⟩, by simp [consistent.owners]⟩
      · intro present
        obtain ⟨⟨k, other⟩, member, rfl⟩ := List.mem_map.mp present
        have found := consistent.seat?_eq_some_iff.mpr member
        cases unseated.symm.trans found
      · intro present
        obtain ⟨⟨k, other⟩, member, same⟩ := List.mem_map.mp present
        have found := consistent.seat?_eq_some_iff.mpr member
        exact consistent.handleOf?_eq_none_iff.mp unowned k other found same

/-- The seat and the entry of the index that are taken away belong together. -/
theorem remove (consistent : t.Consistent) (removed : t.remove h = .ok (seat, after)) :
    after.Consistent := by
  unfold Seating.remove at removed
  split at removed
  · next found =>
    cases removed
    refine ⟨consistent.handles.sublist (List.filter_sublist.map _),
      consistent.ids.sublist (List.filter_sublist.map _), ?_⟩
    rw [consistent.owners, List.filter_map]
    refine congrArg _ (List.filter_congr ?_)
    rintro ⟨k, other⟩ member
    have alike := consistent.seat?_eq_some_iff.mpr member
    have together : other.participant.id = seat.participant.id ↔ k = h := by
      constructor
      · exact consistent.handle_unique found alike
      · rintro rfl
        rw [Option.some.inj (alike.symm.trans found)]
    simp only [Function.comp_apply, bne, beq_eq_decide, together]
  · cases removed

/-- Changing seats keeps the maps consistent if every seat keeps its connection and its number. -/
theorem map (consistent : t.Consistent) {f : Handle × Seat → Handle × Seat}
    (kept : ∀ e ∈ t.seats, (f e).1 = e.1 ∧ (f e).2.participant.id = e.2.participant.id) :
    Consistent ⟨t.seats.map f, t.owners⟩ := by
  refine ⟨?_, ?_, ?_⟩
  · have same : (t.seats.map f).map (·.1) = t.seats.map (·.1) := by
      rw [List.map_map]
      exact List.map_congr_left fun e member => (kept e member).1
    exact same ▸ consistent.handles
  · have same : (t.seats.map f).map (·.2.participant.id) = t.seats.map (·.2.participant.id) := by
      rw [List.map_map]
      exact List.map_congr_left fun e member => (kept e member).2
    exact same ▸ consistent.ids
  · rw [consistent.owners, List.map_map]
    refine List.map_congr_left fun e member => ?_
    rw [Function.comp_apply, (kept e member).1, (kept e member).2]

theorem update (consistent : t.Consistent) (updated : t.update h c = .ok (p, after)) :
    after.Consistent := by
  unfold Seating.update at updated
  split at updated
  · next seat found =>
    cases updated
    apply consistent.map
    rintro ⟨k, other⟩ member
    have alike := consistent.seat?_eq_some_iff.mpr member
    by_cases same : k = h
    · subst same
      cases Option.some.inj (alike.symm.trans found)
      simp
    · simp [same]
  · cases updated

/-- The snapshot has exactly those who sit somewhere. -/
theorem mem_snapshot_iff (consistent : t.Consistent) :
    p ∈ t.snapshot ↔ ∃ h, t.get h = .ok p := by
  simp only [snapshot, (Participant.sortById_perm _).mem_iff, List.mem_map, get_eq_ok_iff,
    consistent.seat?_eq_some_iff]
  constructor
  · rintro ⟨⟨h, seat⟩, member, rfl⟩
    exact ⟨h, seat, member, rfl⟩
  · rintro ⟨h, seat, member, rfl⟩
    exact ⟨(h, seat), member, rfl⟩

theorem snapshot_strict (consistent : t.Consistent) : t.snapshot.Pairwise (·.id < ·.id) := by
  apply Participant.sortById_strict
  rw [List.map_map]
  exact consistent.ids

/-- Who sits where settles the snapshot. -/
theorem snapshot_eq (consistent : t.Consistent) (other : after.Consistent)
    (alike : ∀ h, t.get h = after.get h) : t.snapshot = after.snapshot := by
  apply Participant.eq_of_strict consistent.snapshot_strict other.snapshot_strict
  intro p
  simp only [consistent.mem_snapshot_iff, other.mem_snapshot_iff, alike]

end Consistent

theorem length_snapshot (t : Seating) : t.snapshot.length = t.size := by
  simp [snapshot, size, (Participant.sortById_perm _).length_eq]

end Seating

end LiveRelay
