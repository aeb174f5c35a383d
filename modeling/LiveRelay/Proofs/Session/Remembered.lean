import LiveRelay.Proofs.Room.Roster
import LiveRelay.Proofs.Session.Fanout

/-! # What a room remembers of a participant

Whatever else goes on in a room, the record of a participant is settled by two things: the number
that its connection got together with the seat, and what the connection said since then. Of each
field the last value that was said counts. Nothing that others did, and nothing that a former
participant of the same connection said, is in it.
-/

namespace LiveRelay

namespace Change

/-- The code that a change sets. -/
def code? : Change → Option String
  | .code s => some s
  | .editor _ | .speaker _ => none

/-- The state of the editor that a change sets. -/
def editor? : Change → Option Json.Value
  | .editor v => some v
  | .code _ | .speaker _ => none

/-- The place of the speaker that a change sets. -/
def speaker? : Change → Option Speaker
  | .speaker s => some s
  | .code _ | .editor _ => none

end Change

namespace Participant

/-- What is known of a participant after some changes: of each field the last value that was set, and
otherwise what everyone begins with. -/
def lastKnown (i : ParticipantId) (cs : List Change) : Participant where
  id := i
  code := (cs.filterMap Change.code?).getLast?.getD "0"
  editor := (cs.filterMap Change.editor?).getLast?
  speaker := (cs.filterMap Change.speaker?).getLast?.getD .origin

theorem lastKnown_concat (i : ParticipantId) (cs : List Change) (c : Change) :
    lastKnown i (cs ++ [c]) = (lastKnown i cs).apply c := by
  cases c <;> simp [lastKnown, apply, Change.code?, Change.editor?, Change.speaker?]

end Participant

/-- The change that a connection tells of in a happening. -/
def Happening.said? (h : Handle) : Happening → Option Change
  | .command (.message k (.change c)) => if k = h then some c else none
  | _ => none

namespace Session

/-- A connection that had no seat asks for one at some moment of a run, and has a seat from then
on. -/
structure SeatedSince (before : List Happening) (x : Happening) (after : List Happening)
    (h : Handle) : Prop where
  asks : ∃ box, x.asks? (start.run before) = some (h, box)
  free : (start.run before).room.seating.contains h = false
  kept : ∀ m ∈ (start.run (before ++ [x])).moments after, m.1.room.seating.contains h = true

variable {s : Session} {x : Happening} {h : Handle} {seat : Seat} {c : Change}

/-- What a connection with a seat says is what happens. -/
theorem deed_of_said (said : x.said? h = some c) :
    s.deed x = (s.room.seating.seat? h).elim .nothing (.changed h · c) := by
  unfold Happening.said? at said
  split at said
  · next k d =>
    split at said
    · next same =>
      cases said
      rw [← same]
      rfl
    · cases said
  · cases said

theorem said_of_changed (consistent : s.room.seating.Consistent)
    (happened : s.deed x = .changed h seat c) : x.said? h = some c := by
  rcases answers_deed consistent (x := x) with nothing | ⟨d, brings, answers⟩
  · cases nothing.symm.trans happened
  · rw [happened] at answers
    cases answers
    cases x <;> cases brings
    exact if_pos rfl

/-- Who sits somewhere after a happening was given the seat by it, or had it before; and then its
record is what it was but for what its own connection said. -/
theorem record_step (consistent : s.room.seating.Consistent)
    (found : (s.step x).room.seating.seat? h = some seat) :
    s.deed x = .admitted h seat ∨ ∃ before, s.room.seating.seat? h = some before ∧
      seat.participant = (x.said? h).elim before.participant before.participant.apply := by
  rw [(s.step_deed x).1, Room.seat?_does (s.fits_deed x)] at found
  cases said : x.said? h with
  | some c =>
    rw [deed_of_said said] at found
    cases sat : s.room.seating.seat? h with
    | none =>
      rw [sat] at found
      cases found
    | some before =>
      rw [sat, Option.elim_some, Deed.reseat, if_pos rfl] at found
      cases found
      exact .inr ⟨before, rfl, rfl⟩
  | none =>
    rcases Deed.reseat_eq_some found with happened | same | ⟨former, c, happened, -⟩
    · exact .inl happened
    · exact .inr ⟨seat, same, rfl⟩
    · cases said.symm.trans (said_of_changed consistent happened)

/-- Whoever has a seat was given it at some moment, and its record is what its connection said since
then. -/
theorem seatedSince_of_seat {xs : List Happening}
    (seated : (start.run xs).room.seating.seat? h = some seat) :
    ∃ before x after, xs = before ++ x :: after ∧ SeatedSince before x after h ∧
      seat.participant = .lastKnown (start.run before).room.nextId
        (after.filterMap (Happening.said? h)) := by
  induction xs using List.reverseRecOn generalizing seat with
  | nil => cases seated
  | append_singleton xs y ih =>
    have consistent := consistent_run (s := start) .empty xs
    rw [run_concat] at seated
    rcases record_step consistent seated with happened | ⟨before, sat, record⟩
    · have fits := (start.run xs).fits_deed y
      rw [happened] at fits
      obtain ⟨free, -, fresh⟩ := fits
      refine ⟨xs, y, [], rfl, ⟨⟨_, asks?_of_admitted consistent happened⟩, ?_, ?_⟩, fresh⟩
      · exact Seating.contains_eq_false_iff.mpr free
      · intro m member
        cases member
    · obtain ⟨earlier, x, after, rfl, ⟨asks, free, kept⟩, known⟩ := ih sat
      refine ⟨earlier, x, after ++ [y], by simp, ⟨asks, free, ?_⟩, ?_⟩
      · intro m member
        rw [moments_append, ← run_append, List.append_assoc] at member
        rcases List.mem_append.mp member with old | new
        · exact kept m old
        · rw [List.mem_singleton.mp new]
          exact Seating.contains_iff.mpr ⟨before, sat⟩
      · rw [record, known, List.filterMap_append]
        cases said : y.said? h with
        | none => simp [said]
        | some c => simp [said, Participant.lastKnown_concat]

/-- Whoever is given a seat is greeted with everyone who was there before. -/
theorem greeting_of_free {admitted : Nat} (numbered : s.room.Numbered admitted) {box : OutboxId}
    (asks : x.asks? s = some (h, box)) (free : s.room.seating.contains h = false) :
    ∃ o ∈ (s.step x).offers, o.outbox = box ∧ o.event = .message
      (.hello s.room.nextId s.room.seating.snapshot s.room.clock.elapsedSeconds) := by
  obtain ⟨d, sent, outbox, event⟩ :=
    (Room.sent_iff_due_connect numbered.consistent numbered.nextId_free h box).mpr
      (.greeting (Seating.contains_eq_false_iff.mp free))
  have listed := Outboxes.dispatch_of_offers (s.prepared x) (s.room.dispatches (s.deed x))
  rw [← (Prod.mk.inj (s.step_deed x).2.2).2, deed_of_asks asks] at listed
  rw [← listed] at sent
  obtain ⟨o, offered, rfl⟩ := List.mem_map.mp sent
  exact ⟨o, offered, outbox, event⟩

/-- The record of a participant has the number that its connection got with the seat, and of each
field what the connection said last since then. This record stands in the snapshot under its number
alone, and the snapshot is what a list of the participants shows and what the next connection that
is given a seat is greeted with. -/
theorem record_of_last_changes (xs : List Happening) (few : start.admissions xs < UInt64.size)
    (h : Handle) (p : Participant) (seated : (start.run xs).room.seating.get h = .ok p) :
    let s := start.run xs
    (∃ before x after, xs = before ++ x :: after ∧ SeatedSince before x after h ∧
      p = .lastKnown (start.run before).room.nextId (after.filterMap (Happening.said? h))) ∧
    (∀ q, q ∈ s.room.seating.snapshot ∧ q.id = p.id ↔ q = p) ∧
    (s.step (.command .listParticipants)).reply = .participants s.room.seating.snapshot ∧
    ∀ x k box, x.asks? s = some (k, box) → s.room.seating.contains k = false →
      ∃ o ∈ (s.step x).offers, o.outbox = box ∧ o.event = .message
        (.hello s.room.nextId s.room.seating.snapshot s.room.clock.elapsedSeconds) := by
  intro s
  have numbered := numbered_run few
  obtain ⟨seat, found, rfl⟩ := Seating.get_eq_ok_iff.mp seated
  have stands := Seating.participant?_of_seat? numbered.consistent found
  refine ⟨seatedSince_of_seat found, ?_, rfl, ?_⟩
  · intro q
    rw [← Seating.participant?_eq_some_iff_mem numbered.consistent, stands, Option.some.injEq,
      eq_comm]
  · intro x k box asks free
    exact greeting_of_free numbered asks free

/-- A connection plays something and leaves. It comes again under the same handle, and says other
things while a second one plays and a third one is turned away. -/
def rejoinedRun : List Happening :=
  [.connect 7 .largest, .command (.message 7 (.change (.code "bd*4"))), .command (.disconnect 7),
    .connect 8 .largest, .connect 7 .largest, .command (.message 7 (.change (.editor .null))),
    .command (.message 8 (.change (.code "cp hh"))), .connect 7 .largest,
    .command (.message 7 (.change (.code "sn"))), .command (.message 7 (.change (.code "bd sn")))]

/-- Nothing is left of what it played before. -/
theorem record_of_last_changes_rejoined :
    start.admissions rejoinedRun < UInt64.size ∧
      (start.run rejoinedRun).room.seating.get 7 = .ok ⟨2, "bd sn", some .null, .origin⟩ ∧
      ∃ before x after, rejoinedRun = before ++ x :: after ∧ SeatedSince before x after 7 ∧
        ⟨2, "bd sn", some .null, .origin⟩ = Participant.lastKnown (start.run before).room.nextId
          (after.filterMap (Happening.said? 7)) := by
  have few : start.admissions rejoinedRun < UInt64.size := by decide +kernel
  exact ⟨few, rfl, (record_of_last_changes rejoinedRun few 7 _ rfl).1⟩

end Session

end LiveRelay
