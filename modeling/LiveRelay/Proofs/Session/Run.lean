import LiveRelay.Proofs.Room.Told
import LiveRelay.Room.Session

/-! # Runs of a session

A run is looked at moment by moment: a session, and what happens to it. A run is orderly if every
connection comes with an outbox of its own, and as long as numbers last, the session after an orderly
run is settled: everyone seated has a number that was given away before and an outbox that nobody
else has, and an outbox that no connection came with is empty.
-/

namespace LiveRelay

namespace Happening

/-- The command that a happening brings to the room. -/
def command? (s : Session) : Happening → Option Command
  | .connect h _ => some (.connect h s.outboxes.next)
  | .command c => some c
  | .make _ | .pass _ | .take _ _ | .close _ | .drop _ => none

/-- The connection that asks for a seat, and the outbox that it comes with. -/
def asks? (s : Session) (x : Happening) : Option (Handle × OutboxId) :=
  match x.command? s with
  | some (.connect h box) => some (h, box)
  | _ => none

end Happening

namespace Session

/-- What a happening comes to. -/
def deed (s : Session) (x : Happening) : Deed := (x.command? s).elim .nothing s.room.deed

/-- The outboxes before anything is sent out. -/
def prepared (s : Session) : Happening → Outboxes
  | .connect _ capacity => s.outboxes.add (.empty capacity)
  | .command _ => s.outboxes
  | x => (s.step x).outboxes

/-- The moments of a run: the session at each time, and what happens then. -/
def moments (s : Session) : List Happening → List (Session × Happening)
  | [] => []
  | x :: xs => (s, x) :: (s.step x).session.moments xs

/-- The outboxes with which connections asked for a seat. -/
def asked (s : Session) (xs : List Happening) : List OutboxId :=
  (s.moments xs).filterMap fun m => (m.2.asks? m.1).map (·.2)

/-- How many connections were given a seat. -/
def admissions (s : Session) (xs : List Happening) : Nat :=
  (s.moments xs).countP fun m => (m.1.deed m.2).admits

/-- Everything that was offered in a run. -/
def offers (s : Session) (xs : List Happening) : List Offer :=
  (s.moments xs).flatMap fun m => (m.1.step m.2).offers

/-- What was offered to one outbox in a run. -/
def offersTo (s : Session) (xs : List Happening) (box : OutboxId) : List Offer :=
  (s.offers xs).filter (·.outbox == box)

theorem moments_append (s : Session) (xs ys : List Happening) :
    s.moments (xs ++ ys) = s.moments xs ++ (s.run xs).moments ys := by
  induction xs generalizing s with
  | nil => rfl
  | cons x xs ih => simp [moments, ih, run]

/-- A moment of a run cuts it in two. -/
theorem moments_cut {s : Session} {xs : List Happening} {m : Session × Happening}
    (moment : m ∈ s.moments xs) : ∃ ys zs, xs = ys ++ m.2 :: zs ∧ m.1 = s.run ys := by
  induction xs generalizing s with
  | nil => cases moment
  | cons x xs ih =>
    rcases List.mem_cons.mp moment with rfl | later
    · exact ⟨[], xs, rfl, rfl⟩
    · obtain ⟨ys, zs, cut, reached⟩ := ih later
      exact ⟨x :: ys, zs, by rw [cut, List.cons_append], reached⟩

theorem asked_append (s : Session) (xs ys : List Happening) :
    s.asked (xs ++ ys) = s.asked xs ++ (s.run xs).asked ys := by
  simp [asked, moments_append]

theorem admissions_append (s : Session) (xs ys : List Happening) :
    s.admissions (xs ++ ys) = s.admissions xs + (s.run xs).admissions ys := by
  simp [admissions, moments_append]

theorem offersTo_append (s : Session) (xs ys : List Happening) (box : OutboxId) :
    s.offersTo (xs ++ ys) box = s.offersTo xs box ++ (s.run xs).offersTo ys box := by
  simp [offersTo, offers, moments_append]

theorem offersTo_singleton (s : Session) (x : Happening) (box : OutboxId) :
    s.offersTo [x] box = (s.step x).offers.filter (·.outbox == box) := by
  simp [offersTo, offers, moments]

theorem asked_singleton (s : Session) (x : Happening) :
    s.asked [x] = ((x.asks? s).map (·.2)).toList := by
  cases asks : x.asks? s <;> simp [asked, moments, asks]

theorem admissions_singleton (s : Session) (x : Happening) :
    s.admissions [x] = (s.deed x).admits.toNat := by
  cases admits : (s.deed x).admits <;> simp [admissions, moments, admits]

theorem run_concat (s : Session) (xs : List Happening) (x : Happening) :
    s.run (xs ++ [x]) = ((s.run xs).step x).session := by
  rw [run_append]
  rfl

variable (s : Session) (x : Happening)

theorem fits_deed : (s.deed x).Fits s.room := by
  unfold deed
  cases x.command? s with
  | none => trivial
  | some c => exact s.room.fits_deed c

/-- Without a command nobody moves and nothing is sent out. -/
theorem step_idle (idle : x.command? s = none) : (s.step x).room.seating = s.room.seating ∧
    (s.step x).room.nextId = s.room.nextId ∧ (s.step x).offers = [] := by
  cases x with
  | connect h capacity => cases idle
  | command c => cases idle
  | make capacity => exact ⟨rfl, rfl, rfl⟩
  | pass nanoseconds =>
    cases passed : s.room.advance nanoseconds with
    | error e => simp [step, passed]
    | ok room =>
      simp only [step, passed]
      unfold Room.advance at passed
      cases advanced : s.room.clock.advance nanoseconds with
      | error e => simp [advanced, Except.map] at passed
      | ok clock =>
        simp only [advanced, Except.map, Except.ok.injEq] at passed
        subst passed
        exact ⟨rfl, rfl, trivial⟩
  | take box count => cases found : s.outboxes.get? box <;> simp [step, found, withOutboxes]
  | close box => exact ⟨rfl, rfl, rfl⟩
  | drop box => exact ⟨rfl, rfl, rfl⟩

variable {s x} in
theorem deed_of_command {c : Command} (brings : x.command? s = some c) :
    s.deed x = s.room.deed c := by
  rw [deed, brings, Option.elim_some]

/-- A command is performed as what it comes to, on the outboxes that are there by then. -/
theorem performs_step {c : Command} (brings : x.command? s = some c) :
    s.room.Performs (s.prepared x) (s.deed x) (s.step x) := by
  rw [deed_of_command brings]
  cases x <;> cases brings <;> exact s.room.performs_apply _ _

/-- A command is answered as the room answers it. -/
theorem reply_step {c : Command} (brings : x.command? s = some c) :
    (s.step x).reply = s.room.answer c := by
  cases x <;> cases brings <;> exact s.room.reply_apply _ _

/-- Two sessions are the same but for the outboxes that are set aside. -/
structure Agree (aside : List OutboxId) (s t : Session) : Prop where
  room : s.room = t.room
  outboxes : s.outboxes.Agree aside t.outboxes

variable {s x} in
/-- What brings the same command to both does the same in both. -/
theorem Agree.commanded {t : Session} {y : Happening} {aside : List OutboxId} {c : Command}
    (room : s.room = t.room) (here : x.command? s = some c) (there : y.command? t = some c)
    (prepared : (s.prepared x).Agree aside (t.prepared y)) :
    (s.step x).session.Agree aside (t.step y).session ∧ (s.step x).reply = (t.step y).reply := by
  have deeds : s.deed x = t.deed y := by rw [deed, deed, here, there, room]
  have mine := s.performs_step x here
  have yours := t.performs_step y there
  refine ⟨⟨?_, ?_⟩, ?_⟩
  · rw [Outcome.session, Outcome.session, mine.room, yours.room, deeds, room]
  · rw [Outcome.session, Outcome.session, (Prod.mk.inj mine.sent).1, (Prod.mk.inj yours.sent).1,
      deeds, room]
    exact prepared.dispatch _
  · rw [s.reply_step x here, t.reply_step y there, room]

/-- A happening changes the seats and the next number as what it comes to, and sends out the events
of that. -/
theorem step_deed : (s.step x).room.seating = s.room.seating.does (s.deed x) ∧
    (s.step x).room.nextId = (s.room.does (s.deed x)).nextId ∧
    ((s.step x).outboxes, (s.step x).offers) =
      (s.prepared x).dispatch (s.room.dispatches (s.deed x)) := by
  cases brings : x.command? s with
  | none =>
    obtain ⟨seating, nextId, offers⟩ := s.step_idle x brings
    have nothing : s.deed x = .nothing := by rw [deed, brings, Option.elim_none]
    have boxes : s.prepared x = (s.step x).outboxes := by cases x <;> first | rfl | cases brings
    rw [nothing, boxes]
    exact ⟨seating, nextId, Prod.ext rfl offers⟩
  | some c =>
    have performs := s.performs_step x brings
    exact ⟨congrArg Room.seating performs.room, congrArg Room.nextId performs.room, performs.sent⟩

/-- Seats stay consistent in a run of any kind. -/
theorem consistent_run {s : Session} (consistent : s.room.seating.Consistent)
    (xs : List Happening) : (s.run xs).room.seating.Consistent := by
  induction xs generalizing s with
  | nil => exact consistent
  | cons x xs ih =>
    apply ih (s := (s.step x).session)
    rw [Outcome.session, (s.step_deed x).1]
    exact Room.consistent_does consistent _

/-- The events that an outbox is offered are those that what happens sends to it. -/
theorem events_step (box : OutboxId) : (s.offersTo [x] box).map (·.event) =
    ((s.room.dispatches (s.deed x)).filter (·.outbox == box)).map (·.event) := by
  have sent := (Prod.mk.inj (s.step_deed x).2.2).2
  rw [offersTo_singleton, sent, Outboxes.events_dispatch]

/-- What is offered for a happening is what is sent out for what it comes to. -/
theorem offers_step : (s.step x).offers.map (fun o => (⟨o.handle, o.outbox, o.event⟩ : Dispatch)) =
    s.room.dispatches (s.deed x) := by
  rw [(Prod.mk.inj (s.step_deed x).2.2).2, Outboxes.dispatch_of_offers]

theorem sent_of_offer {o : Offer} (offered : o ∈ (s.step x).offers) :
    (⟨o.handle, o.outbox, o.event⟩ : Dispatch) ∈ s.room.dispatches (s.deed x) :=
  s.offers_step x ▸ List.mem_map_of_mem offered

/-- Whoever is greeted is shown the snapshot and the time of that moment. -/
theorem shown_of_hello {o : Offer} (offered : o ∈ (s.step x).offers) {i : ParticipantId}
    {players : List Participant} {time : Binary64}
    (greeting : o.event = .message (.hello i players time)) :
    players = s.room.seating.snapshot ∧ time = s.room.clock.elapsedSeconds :=
  Room.shown_of_hello (s.sent_of_offer x offered) greeting

/-- A greeting of a run is offered at some moment, and shows the room of that moment. -/
theorem moment_of_hello {s : Session} {xs : List Happening} {o : Offer} (offered : o ∈ s.offers xs)
    {i : ParticipantId} {players : List Participant} {time : Binary64}
    (greeting : o.event = .message (.hello i players time)) :
    ∃ ys x zs, xs = ys ++ x :: zs ∧ o ∈ ((s.run ys).step x).offers ∧
      players = (s.run ys).room.seating.snapshot := by
  obtain ⟨m, moment, here⟩ := List.mem_flatMap.mp offered
  obtain ⟨ys, zs, cut, reached⟩ := moments_cut moment
  rw [reached] at here
  exact ⟨ys, m.2, zs, cut, here, ((s.run ys).shown_of_hello m.2 here greeting).1⟩

theorem next_step : (s.step x).outboxes.next = (s.prepared x).next := by
  rw [(Prod.mk.inj (s.step_deed x).2.2).1, Outboxes.next_dispatch]

theorem next_le_prepared : s.outboxes.next ≤ (s.prepared x).next := by
  cases x with
  | connect h capacity => simp [prepared, Outboxes.next, Outboxes.add]
  | command c => exact Nat.le_refl _
  | make capacity => simp [prepared, step, withOutboxes, Outboxes.next, Outboxes.add]
  | pass nanoseconds =>
    simp only [prepared, step]
    cases s.room.advance nanoseconds <;> exact Nat.le_refl _
  | take box count =>
    simp only [prepared, step]
    cases s.outboxes.get? box <;> simp [withOutboxes, Outboxes.next_modify]
  | close box => simp [prepared, step, withOutboxes, Outboxes.next_modify]
  | drop box => simp [prepared, step, withOutboxes, Outboxes.next_modify]

end Session

end LiveRelay
