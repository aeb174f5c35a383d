import Mathlib.Data.List.Induction
import LiveRelay.Proofs.Session.Run

/-! # Settled sessions

As long as every connection comes with an outbox of its own, everyone seated has an outbox that
nobody else has, and an outbox that no connection came with is empty: everyone is housed. Who is told
what for a happening can then be read off what it comes to. As long as numbers last as well, everyone
seated has a number that was given away before: the session is settled.
-/

namespace LiveRelay

/-- An outbox in which there is nothing. -/
def Outboxes.Blank (b : Outboxes) (box : OutboxId) : Prop :=
  ∀ o, b.get? box = some o → o.events = []

namespace Outboxes

variable {b : Outboxes} {box : OutboxId}

theorem blank_add (blank : b.Blank box) (capacity : Capacity) :
    (b.add (.empty capacity)).Blank box := by
  intro o found
  rw [get?_add] at found
  split at found
  · cases found
    rfl
  · exact blank o found

theorem blank_modify (blank : b.Blank box) {i : OutboxId} {f : Outbox → Outbox}
    (kept : ∀ o, b.get? i = some o → o.events = [] → (f o).events = []) :
    (b.modify i f).Blank box := by
  intro o found
  rw [get?_modify] at found
  split at found
  · next same =>
    obtain ⟨before, there, rfl⟩ := Option.map_eq_some_iff.mp found
    exact kept before (same ▸ there) (blank before there)
  · exact blank o found

end Outboxes

namespace Room

/-- A room that gives numbers in order and has given so many: everyone seated has one of them. -/
structure Numbered (r : Room) (admitted : Nat) : Prop where
  consistent : r.seating.Consistent
  counted : r.nextId.toNat = admitted
  young : ∀ h seat, r.seating.seat? h = some seat → seat.participant.id.toNat < admitted

theorem numbered_empty : empty.Numbered 0 := ⟨.empty, rfl, nofun⟩

variable {r : Room} {d : Deed} {h k : Handle} {seat : Seat} {admitted : Nat}

/-- As long as the last number is not reached, nobody has the next one. -/
theorem Numbered.nextId_free (numbered : r.Numbered admitted) :
    r.seating.handleOf? r.nextId = none := by
  rw [numbered.consistent.handleOf?_eq_none_iff]
  intro h seat found same
  have young := numbered.young h seat found
  rw [same, numbered.counted] at young
  exact Nat.lt_irrefl _ young

theorem Numbered.deed_connect (numbered : r.Numbered admitted)
    (unseated : r.seating.contains h = false) (box : OutboxId) :
    r.deed (.connect h box) = .admitted h ⟨.fresh r.nextId, box⟩ := by
  rw [deed, unseated, numbered.nextId_free]
  rfl

theorem Numbered.not_clashed (numbered : r.Numbered admitted) (fits : d.Fits r) :
    d ≠ .clashed h := by
  rintro rfl
  obtain ⟨-, k, owned⟩ := fits
  cases numbered.nextId_free.symm.trans owned

/-- Who sits somewhere after a deed was given the seat by it, or had one with the same number and
the same outbox. -/
theorem seat_after_does (fits : d.Fits r) (found : (r.seating.does d).seat? k = some seat) :
    d = .admitted k seat ∨ ∃ before, r.seating.seat? k = some before ∧
      before.outbox = seat.outbox ∧ before.participant.id = seat.participant.id := by
  rw [seat?_does fits] at found
  rcases Deed.reseat_eq_some found with happened | same | ⟨before, c, rfl, rfl⟩
  · exact .inl happened
  · exact .inr ⟨seat, same, rfl, rfl⟩
  · exact .inr ⟨before, fits, rfl, (Participant.id_apply _ c).symm⟩

/-- A room goes on to give numbers in order as long as they last. -/
theorem Numbered.does (numbered : r.Numbered admitted) (fits : d.Fits r)
    (few : admitted + d.admits.toNat < UInt64.size) :
    (r.does d).Numbered (admitted + d.admits.toNat) where
  consistent := consistent_does numbered.consistent d
  counted := by
    have counted := numbered.counted
    rw [nextId_does]
    cases d with
    | admitted h seat =>
      simp only [Deed.admits, Bool.toNat_true] at few
      simp only [Deed.usesNumber, if_true, UInt64.toNat_add, Deed.admits, Bool.toNat_true,
        UInt64.toNat_one, counted]
      exact Nat.mod_eq_of_lt few
    | clashed h => exact absurd rfl (numbered.not_clashed fits)
    | left h seat => simpa [Deed.usesNumber, Deed.admits] using counted
    | dismissed h seat => simpa [Deed.usesNumber, Deed.admits] using counted
    | changed h seat c => simpa [Deed.usesNumber, Deed.admits] using counted
    | refused h box => simpa [Deed.usesNumber, Deed.admits] using counted
    | restarted h => simpa [Deed.usesNumber, Deed.admits] using counted
    | nothing => simpa [Deed.usesNumber, Deed.admits] using counted
  young h seat found := by
    rcases seat_after_does fits found with rfl | ⟨before, sat, -, same⟩
    · obtain ⟨-, -, fresh⟩ := fits
      rw [fresh, Participant.id_fresh, numbered.counted]
      simp [Deed.admits]
    · have young := numbered.young h before sat
      rw [same] at young
      omega

end Room

namespace Session

/-- A run in which every connection comes with an outbox of its own. -/
structure Orderly (xs : List Happening) : Prop where
  own : (start.asked xs).Nodup
  made : ∀ m ∈ start.moments xs, ∀ a ∈ m.2.asks? m.1, a.2 < (m.1.prepared m.2).next

theorem orderly_iff {xs : List Happening} : Orderly xs ↔ (start.asked xs).Nodup ∧
    ∀ m ∈ start.moments xs, ∀ a ∈ m.2.asks? m.1, a.2 < (m.1.prepared m.2).next :=
  ⟨fun ⟨own, made⟩ => ⟨own, made⟩, fun ⟨own, made⟩ => ⟨own, made⟩⟩

instance (xs : List Happening) : Decidable (Orderly xs) := decidable_of_iff _ orderly_iff.symm

/-- An outbox with which a connection asks for a seat exists, and no connection came with it. -/
def Allows (s : Session) (taken : List OutboxId) (x : Happening) : Prop :=
  ∀ h box, x.asks? s = some (h, box) → box ∉ taken ∧ box < (s.prepared x).next

/-- Connections came with the outboxes `taken`, and everyone seated has one of them alone. -/
structure Housed (s : Session) (taken : List OutboxId) : Prop where
  consistent : s.room.seating.Consistent
  apart : s.room.seating.Apart
  held : ∀ box, s.room.seating.HasOutbox box → box ∈ taken
  made : ∀ box ∈ taken, box < s.outboxes.next
  blank : ∀ box, box ∉ taken → s.outboxes.Blank box

theorem housed_start : Housed start [] where
  consistent := .empty
  apart h k a b found := by cases found
  held box := by rintro ⟨h, seat, found, -⟩; cases found
  made box member := by cases member
  blank box _ o found := by simp [start, Outboxes.none, Outboxes.get?] at found

/-- The state of a session in which connections came with the outboxes `taken`, and so many of them
were given a seat. -/
structure Settled (s : Session) (taken : List OutboxId) (admitted : Nat) : Prop where
  housed : s.Housed taken
  numbered : s.room.Numbered admitted

variable {s : Session} {x : Happening} {h k : Handle} {seat : Seat} {box : OutboxId}

/-- Numbers are given in order, whatever outboxes connections come with. -/
theorem numbered_step {admitted : Nat} (numbered : s.room.Numbered admitted)
    (few : admitted + (s.deed x).admits.toNat < UInt64.size) :
    (s.step x).room.Numbered (admitted + (s.deed x).admits.toNat) := by
  obtain ⟨consistent, counted, young⟩ := numbered.does (s.fits_deed x) few
  obtain ⟨seating, nextId, -⟩ := s.step_deed x
  exact ⟨seating ▸ consistent, nextId ▸ counted, seating ▸ young⟩

/-- The room after a run of any kind gave as many numbers as connections were given a seat. -/
theorem numbered_run {xs : List Happening} (few : start.admissions xs < UInt64.size) :
    (start.run xs).room.Numbered (start.admissions xs) := by
  induction xs using List.reverseRecOn with
  | nil => exact Room.numbered_empty
  | append_singleton xs x ih =>
    rw [admissions_append, admissions_singleton] at few ⊢
    rw [run_concat]
    exact numbered_step (ih (by omega)) few

/-- Whatever comes of a happening comes of its command. -/
theorem answers_deed (consistent : s.room.seating.Consistent) :
    s.deed x = .nothing ∨ ∃ c, x.command? s = some c ∧ (s.deed x).Answers c := by
  unfold deed
  cases x.command? s with
  | none => exact .inl rfl
  | some c => exact .inr ⟨c, rfl, Room.answers_deed consistent c⟩

theorem deed_of_asks (asks : x.asks? s = some (h, box)) :
    s.deed x = s.room.deed (.connect h box) := by
  unfold Happening.asks? at asks
  split at asks
  · next k other brings =>
    cases asks
    exact deed_of_command brings
  · cases asks

theorem asks?_of_admitted (consistent : s.room.seating.Consistent)
    (happened : s.deed x = .admitted h seat) : x.asks? s = some (h, seat.outbox) := by
  rcases answers_deed consistent (x := x) with nothing | ⟨c, brings, answers⟩
  · cases nothing.symm.trans happened
  · rw [happened] at answers
    cases answers
    rw [Happening.asks?, brings]

theorem asks?_of_refused (consistent : s.room.seating.Consistent)
    (happened : s.deed x = .refused h box) : x.asks? s = some (h, box) := by
  rcases answers_deed consistent (x := x) with nothing | ⟨c, brings, answers⟩
  · cases nothing.symm.trans happened
  · rw [happened] at answers
    cases answers
    rw [Happening.asks?, brings]

/-- Who sits somewhere after a happening was given the seat by it, or had one with the same number
and the same outbox. -/
theorem seat_after (found : (s.step x).room.seating.seat? k = some seat) :
    s.deed x = .admitted k seat ∨ ∃ before, s.room.seating.seat? k = some before ∧
      before.outbox = seat.outbox ∧ before.participant.id = seat.participant.id := by
  rw [(s.step_deed x).1] at found
  exact Room.seat_after_does (s.fits_deed x) found

theorem blank_prepared (blank : s.outboxes.Blank box) : (s.prepared x).Blank box := by
  cases x with
  | connect h capacity => exact Outboxes.blank_add blank capacity
  | command c => exact blank
  | make capacity => exact Outboxes.blank_add blank capacity
  | pass nanoseconds =>
    simp only [prepared, Session.step]
    cases s.room.advance nanoseconds <;> exact blank
  | take i count =>
    simp only [prepared, Session.step]
    cases found : s.outboxes.get? i with
    | none => exact blank
    | some o =>
      refine Outboxes.blank_modify blank fun before there empty => ?_
      cases found.symm.trans there
      simp [Outbox.take, empty]
  | close i =>
    refine Outboxes.blank_modify blank fun o _ empty => ?_
    unfold Outbox.close
    split <;> exact empty
  | drop i => exact Outboxes.blank_modify blank fun o _ empty => rfl

namespace Housed

variable {taken : List OutboxId}

/-- The outbox of a new connection was nobody's. -/
theorem outbox_of_admitted (housed : s.Housed taken) (allowed : s.Allows taken x)
    (happened : s.deed x = .admitted h seat) :
    x.asks? s = some (h, seat.outbox) ∧ seat.outbox ∉ taken := by
  have asks := asks?_of_admitted housed.consistent happened
  exact ⟨asks, (allowed h seat.outbox asks).1⟩

theorem held_step (housed : s.Housed taken) (allowed : s.Allows taken x)
    (found : (s.step x).room.seating.seat? h = some seat) :
    seat.outbox ∈ taken ++ ((x.asks? s).map (·.2)).toList := by
  rcases seat_after found with happened | ⟨before, sat, same, -⟩
  · simp [(housed.outbox_of_admitted allowed happened).1]
  · exact List.mem_append_left _ (housed.held _ ⟨h, before, sat, same⟩)

theorem apart_step (housed : s.Housed taken) (allowed : s.Allows taken x) :
    (s.step x).room.seating.Apart := by
  intro h k a b here there same
  rcases seat_after here with happened | ⟨first, sat, outbox, -⟩ <;>
    rcases seat_after there with happened' | ⟨second, sat', outbox', -⟩
  · cases happened.symm.trans happened'
    rfl
  · have unused := (housed.outbox_of_admitted allowed happened).2
    exact absurd (housed.held _ ⟨k, second, sat', outbox'.trans same.symm⟩) unused
  · have unused := (housed.outbox_of_admitted allowed happened').2
    exact absurd (housed.held _ ⟨h, first, sat, outbox.trans same⟩) unused
  · exact housed.apart h k first second sat sat' (outbox.trans (same.trans outbox'.symm))

/-- Something is sent only to outboxes that connections came with. -/
theorem sent_only_to_taken (housed : s.Housed taken) (allowed : s.Allows taken x)
    (other : box ∉ taken ++ ((x.asks? s).map (·.2)).toList) :
    ∀ d ∈ s.room.dispatches (s.deed x), d.outbox ≠ box := by
  have unseated : ¬ (s.room.seating.does (s.deed x)).HasOutbox box := by
    rintro ⟨h, seat, found, rfl⟩
    rw [← (s.step_deed x).1] at found
    exact other (housed.held_step allowed found)
  have silent : (s.deed x).lastWord box = [] := by
    have fits := s.fits_deed x
    rcases (s.deed x).lastWord_cases box with none | ⟨h, refused, -⟩ | ⟨h, seat, dismissed, rfl, -⟩
    · exact none
    · exact absurd (by simp [asks?_of_refused housed.consistent refused]) other
    · rw [dismissed] at fits
      exact absurd (List.mem_append_left _ (housed.held _ ⟨h, seat, fits, rfl⟩)) other
  have sent := Room.sent_to_other housed.consistent unseated
  rw [silent, List.map_eq_nil_iff, List.filter_eq_nil_iff] at sent
  intro d member same
  exact sent d member (beq_iff_eq.mpr same)

theorem step (housed : s.Housed taken) (allowed : s.Allows taken x) :
    (s.step x).session.Housed (taken ++ ((x.asks? s).map (·.2)).toList) where
  consistent := by
    rw [Outcome.session, (s.step_deed x).1]
    exact Room.consistent_does housed.consistent _
  apart := housed.apart_step allowed
  held box := by
    rintro ⟨h, seat, found, rfl⟩
    exact housed.held_step allowed found
  made box member := by
    rw [Outcome.session, next_step]
    rcases List.mem_append.mp member with old | new
    · exact Nat.lt_of_lt_of_le (housed.made box old) (s.next_le_prepared x)
    · cases asks : x.asks? s with
      | none => simp [asks] at new
      | some asked =>
        obtain ⟨h, mine⟩ := asked
        simp only [asks, Option.map_some, Option.toList_some, List.mem_singleton] at new
        exact new ▸ (allowed h mine asks).2
  blank box other := by
    have unused : box ∉ taken := fun member => other (List.mem_append_left _ member)
    have kept := Outboxes.get?_dispatch_of_notMem (s.prepared x) _
      (housed.sent_only_to_taken allowed other)
    rw [← (Prod.mk.inj (s.step_deed x).2.2).1] at kept
    intro o found
    exact blank_prepared (housed.blank box unused) o (kept.symm.trans found)

/-- A connection that keeps its seat is told of a happening what it comes to. -/
theorem told_step (housed : s.Housed taken) (allowed : s.Allows taken x)
    (found : (s.step x).room.seating.seat? k = some seat) :
    (s.offersTo [x] seat.outbox).map (·.event) = ((s.deed x).told s.room k).map .message := by
  have apart := housed.apart_step allowed
  have sits := found
  rw [(s.step_deed x).1] at apart found
  rw [events_step, Room.sent_to_seat housed.consistent apart found]
  have fits := s.fits_deed x
  rcases (s.deed x).lastWord_cases seat.outbox with none | ⟨h, refused, -⟩ |
    ⟨h, other, dismissed, alike, -⟩
  · exact none
  · have unused := (allowed h _ (asks?_of_refused housed.consistent refused)).1
    rcases seat_after sits with happened | ⟨before, sat, same, -⟩
    · cases refused.symm.trans happened
    · exact absurd (housed.held _ ⟨k, before, sat, same⟩) unused
  · rcases seat_after sits with happened | ⟨before, sat, same, -⟩
    · cases dismissed.symm.trans happened
    · rw [dismissed] at fits found
      cases housed.apart h k other before fits sat (alike.trans same.symm)
      rw [Room.seat?_does fits, Deed.reseat, if_pos rfl] at found
      cases found

/-- An outbox that has no seat is sent at most a last word. -/
theorem lastWord_step (housed : s.Housed taken)
    (unseated : ¬ (s.step x).room.seating.HasOutbox box) :
    (s.offersTo [x] box).map (·.event) = (s.deed x).lastWord box := by
  rw [(s.step_deed x).1] at unseated
  rw [events_step, Room.sent_to_other housed.consistent unseated]

end Housed

namespace Settled

variable {taken : List OutboxId} {admitted : Nat}

theorem nextId_free (settled : s.Settled taken admitted) :
    s.room.seating.handleOf? s.room.nextId = none :=
  settled.numbered.nextId_free

/-- The number that a new connection gets, and its outbox. -/
theorem admitted_facts (settled : s.Settled taken admitted) (allowed : s.Allows taken x)
    (happened : s.deed x = .admitted h seat) : x.asks? s = some (h, seat.outbox) ∧
      seat.outbox ∉ taken ∧ seat.participant = .fresh s.room.nextId := by
  obtain ⟨asks, unused⟩ := settled.housed.outbox_of_admitted allowed happened
  have fits := s.fits_deed x
  rw [happened] at fits
  exact ⟨asks, unused, fits.2.2⟩

end Settled

namespace Orderly

variable {xs ys : List Happening}

/-- A run is orderly as far as it has come. -/
theorem before (orderly : Orderly (xs ++ ys)) : Orderly xs := by
  obtain ⟨own, made⟩ := orderly
  rw [asked_append] at own
  rw [moments_append] at made
  exact ⟨own.of_append_left, fun m member => made m (List.mem_append_left _ member)⟩

/-- At every moment of an orderly run, a connection comes with an outbox of its own. -/
theorem allows (orderly : Orderly (xs ++ x :: ys)) : (start.run xs).Allows (start.asked xs) x := by
  obtain ⟨own, made⟩ := orderly
  intro h box asks
  refine ⟨?_, made (start.run xs, x) (by simp [moments_append, moments]) (h, box) asks⟩
  rw [asked_append] at own
  intro used
  refine List.disjoint_of_nodup_append own used ?_
  simp [asked, moments, asks]

end Orderly

/-- At every moment of an orderly run everyone is housed. -/
theorem housed_run {xs : List Happening} (orderly : Orderly xs) :
    (start.run xs).Housed (start.asked xs) := by
  induction xs using List.reverseRecOn with
  | nil => exact housed_start
  | append_singleton xs x ih =>
    rw [run_concat, asked_append, asked_singleton]
    exact (ih orderly.before).step orderly.allows

/-- Whoever asks for a seat at a moment of an orderly run comes with an outbox of its own. -/
theorem housed_moment {xs : List Happening} (orderly : Orderly xs) {m : Session × Happening}
    (moment : m ∈ start.moments xs) : ∃ taken, m.1.Housed taken ∧ m.1.Allows taken m.2 := by
  obtain ⟨s, x⟩ := m
  obtain ⟨ys, zs, rfl, rfl⟩ := moments_cut moment
  exact ⟨start.asked ys, housed_run orderly.before, orderly.allows⟩

/-- The session after an orderly run is settled as long as numbers last. -/
theorem settled_run {xs : List Happening} (orderly : Orderly xs)
    (few : start.admissions xs < UInt64.size) :
    (start.run xs).Settled (start.asked xs) (start.admissions xs) :=
  ⟨housed_run orderly, numbered_run few⟩

end Session

end LiveRelay
