import LiveRelay.Proofs.Room.Roster
import LiveRelay.Proofs.Session.Settled

/-! # What a client knows

A client that applies the messages it hears to a table of its own has the same table as the room,
except for the entry of itself. The greeting fills the table, and every deed of the room tells a
seated connection exactly what it takes to keep up. The room tells nobody about themselves.
-/

namespace LiveRelay

/-- What a client knows of the others in a room. -/
abbrev Mirror := ParticipantId → Option Participant

namespace Mirror

/-- A client that has not heard anything. -/
def blank : Mirror := fun _ => none

/-- The table of a list of participants. -/
def ofPlayers (ps : List Participant) : Mirror := fun i => ps.find? (·.id == i)

/-- What a client makes of a message. -/
def hear (known : Mirror) : ServerMessage → Mirror
  | .hello _ players _ => ofPlayers players
  | .join i => Function.update known i (some (.fresh i))
  | .leave i => Function.update known i none
  | .changed c i => Function.update known i ((known i).map (·.apply c))
  | .reset => known

/-- What a client knows after some messages. -/
def replay (ms : List ServerMessage) : Mirror := ms.foldl hear blank

/-- A client knows everyone but itself. -/
def Shows (known : Mirror) (t : Seating) (own : ParticipantId) : Prop :=
  ∀ i, known i = if i = own then none else t.participant? i

variable {known : Mirror} {r : Room} {d : Deed} {k : Handle} {seat : Seat}

/-- Whatever a newcomer knew before, the greeting shows it the others. -/
theorem shows_greeting (consistent : r.seating.Consistent)
    (fits : (Deed.admitted k seat).Fits r) :
    (((Deed.admitted k seat).told r k).foldl hear known).Shows
      (r.seating.does (.admitted k seat)) seat.participant.id := by
  intro i
  have greeted : ((Deed.admitted k seat).told r k).foldl hear known =
      ofPlayers r.seating.snapshot := by
    simp [Deed.told, hear]
  rw [greeted, Room.participant?_does consistent fits, Deed.recast]
  split
  · next own =>
    obtain ⟨-, owned, fresh⟩ := fits
    rw [own, fresh]
    exact Seating.participant?_eq_none consistent owned
  · rfl

/-- A connection with a seat is told enough to keep up with a deed. -/
theorem shows_told (consistent : r.seating.Consistent) (fits : d.Fits r)
    (sat : r.seating.seat? k = some seat) (shows : known.Shows r.seating seat.participant.id) :
    ((d.told r k).foldl hear known).Shows (r.seating.does d) seat.participant.id := by
  intro i
  have shown := shows i
  rw [Room.participant?_does consistent fits]
  cases d with
  | admitted h other =>
    obtain ⟨free, owned, fresh⟩ := fits
    have elsewhere : k ≠ h := by
      rintro rfl
      cases free.symm.trans sat
    have different : seat.participant.id ≠ other.participant.id := by
      rw [fresh]
      exact consistent.handleOf?_eq_none_iff.mp owned k seat sat
    simp only [Deed.told, if_neg elsewhere, List.foldl_cons, List.foldl_nil, hear,
      Function.update_apply, Deed.recast]
    by_cases arrived : i = other.participant.id
    · rw [if_pos arrived, if_pos arrived, if_neg fun own => different (own.symm.trans arrived),
        fresh]
      rfl
    · rw [if_neg arrived, if_neg arrived, shown]
  | left h other =>
    simp only [Deed.told, List.foldl_cons, List.foldl_nil, hear, Function.update_apply,
      Deed.recast]
    by_cases gone : i = other.participant.id
    · rw [if_pos gone, if_pos gone, ite_self]
    · rw [if_neg gone, if_neg gone, shown]
  | dismissed h other =>
    simp only [Deed.told, List.foldl_cons, List.foldl_nil, hear, Function.update_apply,
      Deed.recast]
    by_cases gone : i = other.participant.id
    · rw [if_pos gone, if_pos gone, ite_self]
    · rw [if_neg gone, if_neg gone, shown]
  | changed h other c =>
    have found : r.seating.seat? h = some other := fits
    simp only [Deed.told, Deed.recast]
    by_cases same : k = h
    · subst same
      cases sat.symm.trans found
      rw [if_pos rfl, List.foldl_nil, shown]
      by_cases own : i = seat.participant.id
      · rw [if_pos own, if_pos own]
      · rw [if_neg own, if_neg own, if_neg own]
    · have different : other.participant.id ≠ seat.participant.id := fun alike =>
        same (consistent.handle_unique found sat alike.symm)
      have before := shows other.participant.id
      rw [if_neg different, Seating.participant?_of_seat? consistent found] at before
      simp only [if_neg same, List.foldl_cons, List.foldl_nil, hear, Function.update_apply, before,
        Option.map_some]
      by_cases changed : i = other.participant.id
      · rw [if_pos changed, if_pos changed, if_neg fun own => different (changed.symm.trans own)]
      · rw [if_neg changed, if_neg changed, shown]
  | clashed h => exact shown
  | refused h box => exact shown
  | restarted h => exact shown
  | nothing => exact shown

end Mirror

namespace Event

/-- The message of an event that is one. -/
def message? : Event → Option ServerMessage
  | .message m => some m
  | .dismissal _ => none

end Event

namespace Session

/-- The messages that were offered to an outbox in a run. -/
def messagesTo (s : Session) (xs : List Happening) (box : OutboxId) : List ServerMessage :=
  (s.offersTo xs box).filterMap (·.event.message?)

/-- The messages that an outbox took in a run. -/
def heard (s : Session) (xs : List Happening) (box : OutboxId) : List ServerMessage :=
  ((s.offersTo xs box).filter (·.verdict == .accepted)).filterMap (·.event.message?)

variable {s : Session} {xs : List Happening} {x : Happening} {box : OutboxId}

theorem messagesTo_append (s : Session) (xs ys : List Happening) (box : OutboxId) :
    s.messagesTo (xs ++ ys) box = s.messagesTo xs box ++ (s.run xs).messagesTo ys box := by
  simp [messagesTo, offersTo_append]

/-- If an outbox never refuses anything, what was offered is heard. -/
theorem heard_eq_messagesTo (lossless : ∀ o ∈ s.offersTo xs box, o.verdict = .accepted) :
    s.heard xs box = s.messagesTo xs box := by
  rw [heard, messagesTo, List.filter_eq_self.mpr]
  intro o member
  rw [lossless o member]
  rfl

theorem messagesTo_of_events {ms : List ServerMessage}
    (sent : (s.offersTo xs box).map (·.event) = ms.map .message) : s.messagesTo xs box = ms := by
  have unmapped : s.messagesTo xs box =
      ((s.offersTo xs box).map (·.event)).filterMap Event.message? := by
    rw [List.filterMap_map]
    rfl
  rw [unmapped, sent, List.filterMap_map]
  exact List.filterMap_some

/-- After an orderly run, what was offered to a seated connection shows it everyone else. -/
theorem shows_messagesTo (orderly : Orderly xs) (few : start.admissions xs < UInt64.size)
    {k : Handle} {seat : Seat} (seated : (start.run xs).room.seating.seat? k = some seat) :
    (Mirror.replay (start.messagesTo xs seat.outbox)).Shows (start.run xs).room.seating
      seat.participant.id := by
  induction xs using List.reverseRecOn generalizing k seat with
  | nil => cases seated
  | append_singleton xs x ih =>
    rw [admissions_append, admissions_singleton] at few
    have settled := settled_run orderly.before (by omega)
    have allowed := orderly.allows
    have fits := (start.run xs).fits_deed x
    rw [run_concat] at seated
    have told := messagesTo_of_events (settled.housed.told_step allowed seated)
    have moved := ((start.run xs).step_deed x).1
    rw [run_concat, messagesTo_append, told, Mirror.replay, List.foldl_append, Outcome.session,
      moved]
    rcases seat_after seated with happened | ⟨before, sat, outbox, number⟩
    · rw [happened] at fits ⊢
      exact Mirror.shows_greeting settled.housed.consistent fits
    · have shows := ih orderly.before (by omega) sat
      rw [outbox, number] at shows
      rw [← number] at shows ⊢
      exact Mirror.shows_told settled.housed.consistent fits sat shows

/-- As long as no message is lost, what a seated connection heard is a table of exactly those in the
snapshot, except for itself. -/
theorem mirror_shows_others (xs : List Happening) (orderly : Orderly xs)
    (few : start.admissions xs < UInt64.size) (k : Handle) (seat : Seat)
    (seated : (start.run xs).room.seating.seat? k = some seat)
    (lossless : ∀ o ∈ start.offersTo xs seat.outbox, o.verdict = .accepted)
    (i : ParticipantId) (p : Participant) :
    Mirror.replay (start.heard xs seat.outbox) i = some p ↔
      p ∈ (start.run xs).room.seating.snapshot ∧ p.id = i ∧ i ≠ seat.participant.id := by
  have consistent := (housed_run orderly).consistent
  rw [heard_eq_messagesTo lossless, shows_messagesTo orderly few seated i]
  split
  · next own => simp [own]
  · next other => simp [Seating.participant?_eq_some_iff_mem consistent, other]

/-- Three connections come, one of them plays something, and another is dismissed. -/
def relayedRun : List Happening :=
  [.connect 7 .largest, .connect 8 .largest, .command (.message 8 (.change (.code "bd(3,8)"))),
    .connect 9 .largest, .command (.message 9 .reset), .pass 5, .command (.kick 2)]

theorem mirror_shows_others_relayed :
    Orderly relayedRun ∧ start.admissions relayedRun < UInt64.size ∧
      (start.run relayedRun).room.seating.seat? 7 = some ⟨.fresh 0, 0⟩ ∧
      (∀ o ∈ start.offersTo relayedRun 0, o.verdict = .accepted) ∧
      Mirror.replay (start.heard relayedRun 0) 1 =
        some { Participant.fresh 1 with code := "bd(3,8)" } := by
  have orderly : Orderly relayedRun := by decide +kernel
  have few : start.admissions relayedRun < UInt64.size := by decide +kernel
  have seated : (start.run relayedRun).room.seating.seat? 7 = some ⟨.fresh 0, 0⟩ := rfl
  have lossless : ∀ o ∈ start.offersTo relayedRun 0, o.verdict = .accepted := by decide +kernel
  refine ⟨orderly, few, seated, lossless, ?_⟩
  rw [mirror_shows_others relayedRun orderly few 7 _ seated lossless]
  exact ⟨.tail _ (.head _), rfl, by decide⟩

end Session

end LiveRelay
