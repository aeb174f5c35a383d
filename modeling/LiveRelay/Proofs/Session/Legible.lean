import LiveRelay.Proofs.Room.Index
import LiveRelay.Proofs.Session.Run
import LiveRelay.Proofs.Wire.ServerFrame

/-! # The frames of a run

Whatever a room is told was read from the frames of clients, so every speaker in a room is finite,
and so is the time that a greeting brings. Whether a frame that is sent out can be read back then
depends on its editors alone. The room hands an editor on as it came, deeper inside a frame than the
client had put it, and keeps no account of the brackets: a client can make a greeting that nobody is
able to read.
-/

namespace LiveRelay

open Json

theorem SharedClock.isFinite_elapsedSeconds (c : SharedClock) :
    c.elapsedSeconds.isFinite = true := by
  unfold elapsedSeconds inSeconds
  dsimp only
  cases made : Binary64.ofUnits? false _ with
  | none => rfl
  | some x => exact Binary64.isFinite_of_ofUnits? made

/-- A seating in which every speaker is finite. -/
def Seating.Finite (t : Seating) : Prop :=
  ∀ h seat, t.seat? h = some seat → seat.participant.speaker.Finite

/-- A deed that puts no speaker at an infinite place. -/
def Deed.Finite : Deed → Prop
  | .changed _ _ (.speaker s) => s.Finite
  | _ => True

namespace Room

variable {r : Room} {d : Deed}

theorem finite_apply {p : Participant} {c : Change} {h : Handle} {seat : Seat}
    (finite : p.speaker.Finite) (placed : (Deed.changed h seat c).Finite) :
    (p.apply c).speaker.Finite := by
  cases c with
  | code s => exact finite
  | editor v => exact finite
  | speaker s => exact placed

/-- A finite deed keeps a seating finite. -/
theorem finite_does (finite : r.seating.Finite) (fits : d.Fits r) (placed : d.Finite) :
    (r.seating.does d).Finite := by
  intro k seat found
  rw [seat?_does fits] at found
  cases d with
  | admitted h other =>
    simp only [Deed.reseat] at found
    split at found
    · cases found
      rw [fits.2.2]
      exact Speaker.finite_origin
    · exact finite k seat found
  | left h other =>
    simp only [Deed.reseat] at found
    split at found
    · cases found
    · exact finite k seat found
  | dismissed h other =>
    simp only [Deed.reseat] at found
    split at found
    · cases found
    · exact finite k seat found
  | changed h other c =>
    simp only [Deed.reseat] at found
    split at found
    · cases found
      exact finite_apply (finite h other fits) placed
    · exact finite k seat found
  | clashed h => exact finite k seat found
  | refused h box => exact finite k seat found
  | restarted h => exact finite k seat found
  | nothing => exact finite k seat found

/-- Only what a client says about its speaker may be infinite. -/
theorem finite_deed {c : Command}
    (placed : ∀ h s, c = .message h (.change (.speaker s)) → s.Finite) : (r.deed c).Finite := by
  cases c with
  | connect h box =>
    rw [deed]
    split
    · trivial
    · split <;> trivial
  | disconnect h =>
    rw [deed]
    cases r.seating.seat? h <;> trivial
  | listParticipants => trivial
  | kick i =>
    rw [deed]
    cases r.seating.handleOf? i with
    | none => trivial
    | some h =>
      rw [Option.elim_some]
      cases r.seating.seat? h <;> trivial
  | message h m =>
    cases m with
    | reset =>
      rw [deed]
      cases r.seating.seat? h <;> trivial
    | change c =>
      rw [deed]
      cases r.seating.seat? h with
      | none => trivial
      | some seat =>
        cases c with
        | code s => trivial
        | editor v => trivial
        | speaker s => exact placed h s rfl

theorem message_of_news {recipients : Recipients} {m n : ServerMessage}
    {seats : List (Handle × Seat)} {e : Dispatch} (sent : e ∈ news recipients m seats)
    (message : e.event = .message n) : n = m :=
  Event.message.inj (message.symm.trans (event_of_news sent))

theorem finite_hello (consistent : r.seating.Consistent) (finite : r.seating.Finite)
    (id : ParticipantId) :
    (ServerMessage.hello id r.seating.snapshot r.clock.elapsedSeconds).Finite := by
  refine ⟨fun p member => ?_, r.clock.isFinite_elapsedSeconds⟩
  obtain ⟨h, held⟩ := consistent.mem_snapshot_iff.mp member
  obtain ⟨seat, found, rfl⟩ := Seating.get_eq_ok_iff.mp held
  exact finite h seat found

/-- What is sent out for a finite deed in a finite room is finite. -/
theorem finite_dispatches (consistent : r.seating.Consistent) (finite : r.seating.Finite)
    (placed : d.Finite) {e : Dispatch} (sent : e ∈ r.dispatches d) {m : ServerMessage}
    (message : e.event = .message m) : m.Finite := by
  cases d with
  | admitted h seat =>
    rcases List.mem_append.mp sent with greeting | arrival
    · rw [message_of_news greeting message]
      exact finite_hello consistent finite _
    · rw [message_of_news arrival message]
      trivial
  | left h seat =>
    rw [message_of_news sent message]
    trivial
  | dismissed h seat =>
    rcases List.mem_append.mp sent with departure | order
    · rw [message_of_news departure message]
      trivial
    · rw [List.mem_singleton.mp order] at message
      cases message
  | changed h seat c =>
    rw [message_of_news sent message]
    cases c with
    | code s => trivial
    | editor v => trivial
    | speaker s => exact placed
  | refused h box =>
    rw [List.mem_singleton.mp sent] at message
    cases message
  | restarted h =>
    rw [message_of_news sent message]
    trivial
  | clashed h => cases sent
  | nothing => cases sent

end Room

namespace Session

/-- A run in which everything that is said was read from a frame of a client. -/
def FromFrames (xs : List Happening) : Prop :=
  ∀ h m, .command (.message h m) ∈ xs → ∃ text, ClientMessage.read text = .ok (some m)

/-- A session whose seating can be trusted and has only finite speakers. -/
structure Finite (s : Session) : Prop where
  consistent : s.room.seating.Consistent
  speakers : s.room.seating.Finite

theorem finite_start : start.Finite := ⟨.empty, nofun⟩

variable {s : Session} {x : Happening} {xs : List Happening}

theorem finite_deed (heard : FromFrames (x :: xs)) : (s.deed x).Finite := by
  unfold deed
  cases brings : x.command? s with
  | none => trivial
  | some c =>
    refine Room.finite_deed ?_
    rintro h t rfl
    cases x <;> cases brings
    obtain ⟨text, read⟩ := heard h _ List.mem_cons_self
    exact ClientMessage.finite_of_read read

theorem finite_step (finite : s.Finite) (heard : FromFrames (x :: xs)) :
    (s.step x).session.Finite := by
  obtain ⟨seating, -, -⟩ := s.step_deed x
  constructor
  · exact seating ▸ Room.consistent_does finite.consistent (s.deed x)
  · exact seating ▸ Room.finite_does finite.speakers (s.fits_deed x) (finite_deed heard)

/-- Everything that is offered in a finite session is finite. -/
theorem finite_offer_step (finite : s.Finite) (heard : FromFrames (x :: xs)) {o : Offer}
    (offered : o ∈ (s.step x).offers) {m : ServerMessage} (message : o.event = .message m) :
    m.Finite :=
  Room.finite_dispatches finite.consistent finite.speakers (finite_deed heard)
    (s.sent_of_offer x offered) message

theorem finite_offers (finite : s.Finite) (heard : FromFrames xs) {o : Offer}
    (offered : o ∈ s.offers xs) {m : ServerMessage} (message : o.event = .message m) :
    m.Finite := by
  induction xs generalizing s with
  | nil => cases offered
  | cons x xs ih =>
    have later : FromFrames xs := fun h m member => heard h m (List.mem_cons_of_mem _ member)
    rcases List.mem_append.mp offered with here | there
    · exact finite_offer_step finite heard here message
    · exact ih (finite_step finite heard) later there

/-- A frame that is sent out in a run can be read back if its editors leave room for the brackets
around them, and not otherwise. -/
theorem read_offered_iff_legible (xs : List Happening) (heard : FromFrames xs) (o : Offer)
    (offered : o ∈ start.offers xs) (m : ServerMessage) (message : o.event = .message m) :
    (∃ back, ServerMessage.read m.text = .ok back) ↔ m.Legible :=
  ServerMessage.read_text_iff (finite_offers finite_start heard offered message)

/-- A connection shares its editor before another one comes. -/
def lateArrival (v : Value) : List Happening :=
  [.connect 1 Outbox.usualCapacity, .command (.message 1 (.change (.editor v))),
    .connect 2 Outbox.usualCapacity]

/-- What the other one is greeted with. -/
def lateGreeting (v : Value) : ServerMessage :=
  .hello 1 [⟨0, "0", some v, .origin⟩] SharedClock.start.elapsedSeconds

theorem offered_lateGreeting (v : Value) :
    ⟨2, 1, .message (lateGreeting v), .accepted⟩ ∈ start.offers (lateArrival v) :=
  List.mem_of_getElem? (i := 1) rfl

theorem fromFrames_lateArrival {n : Nat} (few : n + 1 ≤ deepest - 1) :
    FromFrames (lateArrival (.nested (n + 1))) := by
  intro h m member
  simp only [lateArrival, List.mem_cons, Happening.command.injEq, Command.message.injEq,
    List.not_mem_nil, or_false, reduceCtorEq, false_or] at member
  obtain ⟨rfl, rfl⟩ := member
  have depth := Value.depth_nested (n + 1)
  exact ⟨_, ClientMessage.read_editor nofun (Value.ordered_nested (n + 1))
    (Value.survives_nested (n + 1)) (depth.le.trans few)⟩

theorem legible_lateGreeting_iff (n : Nat) :
    (lateGreeting (.nested n)).Legible ↔ n ≤ deepest - 4 := by
  simp [lateGreeting, ServerMessage.Legible, Value.depth_nested]

/-- An editor that nests 126 deep reaches the room and spoils the next greeting. -/
theorem read_offered_iff_legible_nested :
    FromFrames (lateArrival (.nested 126)) ∧
      ¬ ∃ back, ServerMessage.read (lateGreeting (.nested 126)).text = .ok back := by
  have heard : FromFrames (lateArrival (.nested 126)) := fromFrames_lateArrival (by decide)
  refine ⟨heard, fun back => ?_⟩
  have legible := (read_offered_iff_legible _ heard _ (offered_lateGreeting _) _ rfl).mp back
  exact absurd ((legible_lateGreeting_iff 126).mp legible) (by decide)

/-- Not every frame that is sent out in a run from frames can be read back. -/
theorem greeting_not_read : ¬ ∀ xs, FromFrames xs → ∀ o ∈ start.offers xs, o.verdict = .accepted →
    ∀ m, o.event = .message m → ∃ back, ServerMessage.read m.text = .ok back := by
  intro every
  have back := every _ (fromFrames_lateArrival (n := 125) (by decide)) _
    (offered_lateGreeting (.nested 126)) rfl _ rfl
  have finite : (lateGreeting (.nested 126)).Finite := by
    refine ⟨fun p member => ?_, SharedClock.start.isFinite_elapsedSeconds⟩
    rw [List.mem_singleton.mp member]
    exact Speaker.finite_origin
  have legible := (ServerMessage.read_text_iff finite).mp back
  exact absurd ((legible_lateGreeting_iff 126).mp legible) (by decide)

end Session

end LiveRelay
