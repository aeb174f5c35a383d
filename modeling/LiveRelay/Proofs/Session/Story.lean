import LiveRelay.Proofs.Room.Course
import LiveRelay.Proofs.Session.Settled

/-! # The story of an outbox

What an outbox is offered over a whole run depends on how its connection fares. A connection that is
turned away gets the order to close. One that is given a seat gets a greeting, then the news as long
as it keeps the seat, and at most the order to close when it is dismissed. Nothing comes before, and
nothing comes after.
-/

namespace LiveRelay.Session

variable {s : Session} {x : Happening} {h : Handle} {seat : Seat} {box : OutboxId}

/-- A dismissal is asked for by the number of the participant. -/
theorem kick_of_dismissed (consistent : s.room.seating.Consistent)
    (happened : s.deed x = .dismissed h seat) : x = .command (.kick seat.participant.id) := by
  rcases answers_deed consistent (x := x) with nothing | ⟨c, brings, answers⟩
  · cases nothing.symm.trans happened
  · rw [happened] at answers
    cases answers
    cases x <;> cases brings
    rfl

/-- The first event for a newcomer is its greeting, and an outbox that is open takes it. -/
theorem greeting_of_admitted (happened : s.deed x = .admitted h seat)
    (blank : (s.prepared x).Blank seat.outbox) (made : seat.outbox < (s.prepared x).next) :
    ∃ greeting later, s.offersTo [x] seat.outbox = greeting :: later ∧
      ∃ outbox, (s.prepared x).get? seat.outbox = some outbox ∧
        (outbox.reception = .opened → greeting.verdict = .accepted) := by
  have fits := s.fits_deed x
  rw [happened] at fits
  obtain ⟨free, owned, fresh⟩ := fits
  have seats : (s.room.seating.does (.admitted h seat)).seats = (h, seat) :: s.room.seating.seats := by
    simp [Seating.does, Deed.operation?, Seating.after, Seating.perform, Seating.insert,
      Seating.contains, free, fresh, owned]
  obtain ⟨rest, dispatches⟩ : ∃ rest, s.room.dispatches (s.deed x) = ⟨h, seat.outbox, .message
      (.hello seat.participant.id s.room.seating.snapshot s.room.clock.elapsedSeconds)⟩ :: rest := by
    rw [happened, Room.dispatches, seats]
    simp [news_cons, Recipients.includes]
  obtain ⟨outbox, found⟩ : ∃ outbox, (s.prepared x).get? seat.outbox = some outbox :=
    ⟨_, List.getElem?_eq_getElem made⟩
  have offers := (Prod.mk.inj (s.step_deed x).2.2).2
  rw [dispatches, Outboxes.dispatch] at offers
  rw [offersTo_singleton, offers]
  simp only [Outboxes.offer, beq_self_eq_true, List.filter_cons_of_pos]
  refine ⟨_, _, rfl, outbox, found, fun opened => ?_⟩
  rw [found, Option.map_some, Option.getD_some, Outbox.verdict_eq_accepted_iff]
  refine ⟨opened, ?_⟩
  rw [blank outbox found]
  exact outbox.capacity.positive

namespace Settled

variable {taken : List OutboxId} {admitted : Nat}

/-- An outbox whose connection has no seat is not offered anything any more. -/
theorem quiet_step (settled : s.Settled taken admitted) (allowed : s.Allows taken x)
    (used : box ∈ taken) (unseated : ¬ s.room.seating.HasOutbox box) :
    ¬ (s.step x).room.seating.HasOutbox box ∧ s.offersTo [x] box = [] := by
  have still : ¬ (s.step x).room.seating.HasOutbox box := by
    rintro ⟨k, seat, found, rfl⟩
    rcases seat_after found with happened | ⟨before, sat, same, -⟩
    · exact (settled.admitted_facts allowed happened).2.1 used
    · exact unseated ⟨k, before, sat, same⟩
  refine ⟨still, List.map_eq_nil_iff.mp ((settled.housed.lastWord_step still).trans ?_)⟩
  have fits := s.fits_deed x
  rcases (s.deed x).lastWord_cases box with none | ⟨k, refused, -⟩ | ⟨k, seat, dismissed, same, -⟩
  · exact none
  · exact absurd used (allowed k box (asks?_of_refused settled.housed.consistent refused)).1
  · rw [dismissed] at fits
    exact absurd ⟨k, seat, fits, same⟩ unseated

end Settled

/-- Before a connection comes with it, an outbox is not offered anything. -/
theorem offersTo_of_not_asked {xs : List Happening} (orderly : Orderly xs)
    (few : start.admissions xs < UInt64.size) (other : box ∉ start.asked xs) :
    start.offersTo xs box = [] := by
  induction xs using List.reverseRecOn with
  | nil => rfl
  | append_singleton xs x ih =>
    rw [admissions_append, admissions_singleton] at few
    rw [asked_append, asked_singleton] at other
    have settled := settled_run orderly.before (by omega)
    have silent := settled.housed.sent_only_to_taken orderly.allows other
    rw [offersTo_append, ih orderly.before (by omega) fun member =>
      other (List.mem_append_left _ member), List.nil_append, ← List.map_eq_nil_iff (f := (·.event)),
      events_step, List.filter_eq_nil_iff.mpr, List.map_nil]
    intro d member same
    exact silent d member (eq_of_beq same)

/-- A connection has a seat and is up to date with what it was offered. -/
structure Attends (s : Session) (admitted : Nat) (h : Handle) (box : OutboxId)
    (own : ParticipantId) (players : List Participant) (news : List ServerMessage) : Prop where
  seated : ∃ seat, s.room.seating.seat? h = some seat ∧ seat.outbox = box ∧
    seat.participant.id = own
  current : Current s.room.seating admitted own players news

namespace Attends

variable {taken : List OutboxId} {admitted : Nat} {own : ParticipantId}
variable {players : List Participant} {news : List ServerMessage}

/-- A connection that keeps its seat hears the news and stays up to date. -/
theorem stays (attends : s.Attends admitted h box own players news)
    (settled : s.Settled taken admitted) (allowed : s.Allows taken x)
    (found : (s.step x).room.seating.seat? h = some seat) :
    ∃ more, (s.offersTo [x] box).map (·.event) = more.map .message ∧
      (s.step x).session.Attends (admitted + (s.deed x).admits.toNat) h box own players
        (news ++ more) := by
  obtain ⟨⟨before, sat, rfl, rfl⟩, current⟩ := attends
  have fits := s.fits_deed x
  rcases seat_after found with happened | ⟨other, alike, outbox, number⟩
  · rw [happened] at fits
    cases fits.1.symm.trans sat
  · cases sat.symm.trans alike
    have told := settled.housed.told_step allowed found
    rw [← outbox] at told
    have moved := (s.step_deed x).1
    refine ⟨_, told, ⟨seat, found, outbox.symm, number.symm⟩, ?_⟩
    rw [Outcome.session, moved]
    rw [moved] at found
    exact (Current.told settled.housed.consistent fits settled.numbered.counted settled.numbered.young sat found
      current).mono (Nat.le_add_right _ _)

/-- A connection that loses its seat hears nothing more, except that it is dismissed. -/
theorem goes (attends : s.Attends admitted h box own players news)
    (settled : s.Settled taken admitted) (allowed : s.Allows taken x)
    (gone : (s.step x).room.seating.seat? h = none) :
    ¬ (s.step x).room.seating.HasOutbox box ∧ (s.offersTo [x] box = [] ∨
      x = .command (.kick own) ∧
        (s.offersTo [x] box).map (·.event) = [.dismissal Room.kickReason]) := by
  obtain ⟨⟨before, sat, rfl, rfl⟩, -⟩ := attends
  have used := settled.housed.held _ ⟨h, before, sat, rfl⟩
  have unseated : ¬ (s.step x).room.seating.HasOutbox before.outbox := by
    rintro ⟨k, other, found, same⟩
    rcases seat_after found with happened | ⟨former, alike, outbox, -⟩
    · exact (settled.admitted_facts allowed happened).2.1 (same ▸ used)
    · cases settled.housed.apart k h former before alike sat (outbox.trans same)
      cases gone.symm.trans found
  refine ⟨unseated, ?_⟩
  have last := settled.housed.lastWord_step unseated
  have fits := s.fits_deed x
  rcases (s.deed x).lastWord_cases before.outbox with none | ⟨k, refused, -⟩ |
    ⟨k, other, dismissed, same, word⟩
  · exact .inl (List.map_eq_nil_iff.mp (last.trans none))
  · exact absurd used (allowed k _ (asks?_of_refused settled.housed.consistent refused)).1
  · rw [dismissed] at fits
    cases settled.housed.apart k h other before fits sat same
    cases sat.symm.trans fits
    exact .inr ⟨kick_of_dismissed settled.housed.consistent dismissed, last.trans word⟩

end Attends

/-- Somewhere in a run that goes on, a participant is dismissed while it has a seat. -/
def DismissedIn (xs ys : List Happening) (h : Handle) (own : ParticipantId) : Prop :=
  ∃ mid rest, ys = mid ++ .command (.kick own) :: rest ∧
    (start.run (xs ++ mid)).room.seating.handleOf? own = some h

theorem DismissedIn.append {xs ys : List Happening} {own : ParticipantId}
    (dismissed : DismissedIn xs ys h own) (zs : List Happening) : DismissedIn xs (ys ++ zs) h own := by
  obtain ⟨mid, rest, rfl, owned⟩ := dismissed
  exact ⟨mid, rest ++ zs, by simp, owned⟩

/-- As a run goes on, a connection is offered news; and it keeps its seat and stays up to date, or
loses the seat and is offered nothing more except for the order to close. -/
theorem story_of_attends {xs ys : List Happening} {own : ParticipantId} {players : List Participant}
    (orderly : Orderly (xs ++ ys)) (few : start.admissions (xs ++ ys) < UInt64.size)
    (attends : (start.run xs).Attends (start.admissions xs) h box own players []) :
    ∃ news tail, ((start.run xs).offersTo ys box).map (·.event) = news.map .message ++ tail ∧
      ((tail = [] ∧ (start.run (xs ++ ys)).Attends (start.admissions (xs ++ ys)) h box own players
        news) ∨
      (¬ (start.run (xs ++ ys)).room.seating.HasOutbox box ∧ Account own players news ∧
        (tail = [] ∨ tail = [.dismissal Room.kickReason] ∧ DismissedIn xs ys h own))) := by
  have used : box ∈ start.asked xs := by
    rw [admissions_append] at few
    obtain ⟨⟨seat, sat, same, -⟩, -⟩ := attends
    exact (housed_run orderly.before).held box ⟨h, seat, sat, same⟩
  induction ys using List.reverseRecOn with
  | nil => exact ⟨[], [], rfl, .inl ⟨rfl, by simpa using attends⟩⟩
  | append_singleton ys x ih =>
    rw [← List.append_assoc] at orderly few ⊢
    rw [admissions_append, admissions_singleton] at few
    obtain ⟨news, tail, offered, fate⟩ := ih orderly.before (by omega)
    have settled := settled_run orderly.before (by omega)
    have allowed := orderly.allows
    rw [run_concat, offersTo_append, List.map_append, offered, ← run_append, admissions_append,
      admissions_singleton]
    rcases fate with ⟨rfl, attends⟩ | ⟨unseated, account, word⟩
    · cases found : ((start.run (xs ++ ys)).step x).room.seating.seat? h with
      | some seat =>
        obtain ⟨more, told, stays⟩ := attends.stays settled allowed found
        exact ⟨news ++ more, [], by simp [told], .inl ⟨rfl, stays⟩⟩
      | none =>
        obtain ⟨gone, word⟩ := attends.goes settled allowed found
        have account := attends.current.account
        obtain ⟨⟨seat, sat, -, rfl⟩, -⟩ := attends
        rcases word with silent | ⟨rfl, word⟩
        · exact ⟨news, [], by simp [silent], .inr ⟨gone, account, .inl rfl⟩⟩
        · have owned := settled.housed.consistent.handleOf?_eq_some_iff.mpr ⟨seat, sat, rfl⟩
          exact ⟨news, _, by rw [word, List.append_nil],
            .inr ⟨gone, account, .inr ⟨rfl, ys, [], rfl, owned⟩⟩⟩
    · have kept : box ∈ start.asked (xs ++ ys) := by
        rw [asked_append]
        exact List.mem_append_left _ used
      obtain ⟨still, silent⟩ := settled.quiet_step allowed kept unseated
      refine ⟨news, tail, by simp [silent], .inr ⟨still, account, ?_⟩⟩
      apply word.imp_right
      rintro ⟨last, dismissed⟩
      exact ⟨last, dismissed.append [x]⟩

/-- An outbox whose connection has no seat any more stays as it is. -/
theorem silent_of_unseated {xs ys : List Happening} (orderly : Orderly (xs ++ ys))
    (few : start.admissions (xs ++ ys) < UInt64.size) (used : box ∈ start.asked xs)
    (unseated : ¬ (start.run xs).room.seating.HasOutbox box) :
    (start.run xs).offersTo ys box = [] := by
  suffices both : ¬ (start.run (xs ++ ys)).room.seating.HasOutbox box ∧
      (start.run xs).offersTo ys box = [] from both.2
  induction ys using List.reverseRecOn with
  | nil => exact ⟨by simpa using unseated, rfl⟩
  | append_singleton ys x ih =>
    rw [← List.append_assoc] at orderly few ⊢
    rw [admissions_append, admissions_singleton] at few
    obtain ⟨unseated, silent⟩ := ih orderly.before (by omega)
    have kept : box ∈ start.asked (xs ++ ys) := by
      rw [asked_append]
      exact List.mem_append_left _ used
    have settled := settled_run orderly.before (by omega)
    rw [run_concat, offersTo_append, silent, List.nil_append, ← run_append]
    exact settled.quiet_step orderly.allows kept unseated

/-- A connection that asks for a seat without having one is given one. -/
theorem Settled.admitted_of_asks {taken : List OutboxId} {admitted : Nat}
    (settled : s.Settled taken admitted) (asks : x.asks? s = some (h, box))
    (unseated : s.room.seating.contains h = false) :
    s.deed x = .admitted h ⟨.fresh s.room.nextId, box⟩ := by
  rw [deed_of_asks asks, settled.numbered.deed_connect unseated]

/-- Over a whole run, a connection that asks for a seat under the number of a seated one is offered
the order to close and nothing else. Any other is offered a greeting with a new number, which an
open outbox takes, then news, and at the end the order to close if it was dismissed. -/
theorem story_of_connection (before after : List Happening) (x : Happening) (h : Handle)
    (box : OutboxId) (orderly : Orderly (before ++ x :: after))
    (few : start.admissions (before ++ x :: after) < UInt64.size)
    (asks : x.asks? (start.run before) = some (h, box)) :
    let room := (start.run before).room
    let offers := start.offersTo (before ++ x :: after) box
    (room.seating.contains h = true →
      offers.map (·.event) = [.dismissal Room.duplicateReason]) ∧
    (room.seating.contains h = false → ∃ greeting later news tail,
      offers = greeting :: later ∧
      greeting.event = .message
        (.hello room.nextId room.seating.snapshot room.clock.elapsedSeconds) ∧
      (∃ outbox, ((start.run before).prepared x).get? box = some outbox ∧
        (outbox.reception = .opened → greeting.verdict = .accepted)) ∧
      later.map (·.event) = news.map .message ++ tail ∧
      Account room.nextId room.seating.snapshot news ∧
      (tail = [] ∨ tail = [.dismissal Room.kickReason] ∧
        ∃ mid rest, after = mid ++ .command (.kick room.nextId) :: rest ∧
          (start.run (before ++ x :: mid)).room.seating.handleOf? room.nextId = some h)) := by
  have cut : before ++ x :: after = (before ++ [x]) ++ after := by simp
  have fewer : start.admissions (before ++ [x]) < UInt64.size := by
    rw [cut, admissions_append] at few
    omega
  have fewest : start.admissions before < UInt64.size := by
    rw [admissions_append] at fewer
    omega
  have settled := settled_run orderly.before fewest
  have allowed := orderly.allows
  have unused := (allowed h box asks).1
  have taken : box ∈ start.asked (before ++ [x]) := by
    simp [asked_append, asked_singleton, asks]
  have here : start.offersTo (before ++ [x]) box = (start.run before).offersTo [x] box := by
    rw [offersTo_append, offersTo_of_not_asked orderly.before fewest unused, List.nil_append]
  dsimp only
  rw [cut] at orderly few ⊢
  rw [offersTo_append, here]
  have fits := (start.run before).fits_deed x
  constructor
  · intro seated
    have refused : (start.run before).deed x = .refused h box := by
      rw [deed_of_asks asks, Room.deed, if_pos seated]
    have unseated : ¬ (start.run (before ++ [x])).room.seating.HasOutbox box := by
      rintro ⟨k, seat, found, rfl⟩
      rw [run_concat] at found
      rcases seat_after found with happened | ⟨former, sat, same, -⟩
      · cases refused.symm.trans happened
      · exact unused (settled.housed.held _ ⟨k, former, sat, same⟩)
    rw [silent_of_unseated orderly few taken unseated, List.append_nil, events_step, refused]
    simp [Room.dispatches]
  · intro unseated
    have admitted := settled.admitted_of_asks asks unseated
    have made := (allowed h box asks).2
    obtain ⟨greeting, rest, first, outbox, found, takes⟩ := greeting_of_admitted admitted
      (blank_prepared (settled.housed.blank box unused)) made
    rw [admitted] at fits
    have moved := ((start.run before).step_deed x).1
    have sits : ((start.run before).step x).room.seating.seat? h =
        some ⟨.fresh (start.run before).room.nextId, box⟩ := by
      rw [moved, admitted, Room.seat?_does fits]
      exact if_pos rfl
    have told := settled.housed.told_step allowed sits
    rw [admitted, Deed.told, if_pos rfl, first] at told
    obtain ⟨hello, alone⟩ := List.cons.inj told
    have attends : (start.run (before ++ [x])).Attends (start.admissions (before ++ [x])) h box
        (start.run before).room.nextId (start.run before).room.seating.snapshot [] := by
      refine ⟨⟨_, by rw [run_concat]; exact sits, rfl, rfl⟩, ?_⟩
      rw [run_concat, Outcome.session, moved, admitted]
      exact Current.of_admitted settled.housed.consistent fits
    obtain ⟨news, tail, offered, fate⟩ := story_of_attends orderly few attends
    refine ⟨greeting, _, news, tail, ?_, hello, ⟨outbox, found, takes⟩, offered, ?_, ?_⟩
    · rw [first, List.map_eq_nil_iff.mp alone]
      rfl
    · rcases fate with ⟨-, stays⟩ | ⟨-, account, -⟩
      · exact stays.current.account
      · exact account
    · rcases fate with ⟨rfl, -⟩ | ⟨-, -, word⟩
      · exact .inl rfl
      · apply word.imp_right
        rintro ⟨last, mid, rest, went, owned⟩
        refine ⟨last, mid, rest, went, ?_⟩
        rw [← owned]
        simp

/-- The third connection of a run is greeted with the first two, and dismissed. -/
theorem story_of_connection_third :
    Orderly ([.connect 7 .largest, .connect 8 .largest] ++ .connect 9 .largest ::
      [.command (.message 8 .reset), .command (.kick 2)]) ∧
    ∃ greeting later, start.offersTo ([.connect 7 .largest, .connect 8 .largest] ++
        .connect 9 .largest :: [.command (.message 8 .reset), .command (.kick 2)]) 2 =
          greeting :: later ∧
      greeting.event = .message
        (.hello 2 [.fresh 0, .fresh 1] SharedClock.start.elapsedSeconds) ∧
      greeting.verdict = .accepted := by
  have orderly : Orderly ([.connect 7 .largest, .connect 8 .largest] ++ .connect 9 .largest ::
      [.command (.message 8 .reset), .command (.kick 2)]) := by decide +kernel
  refine ⟨orderly, ?_⟩
  obtain ⟨greeting, later, news, tail, offered, hello, ⟨outbox, found, takes⟩, -⟩ :=
    (story_of_connection [.connect 7 .largest, .connect 8 .largest]
      [.command (.message 8 .reset), .command (.kick 2)] (.connect 9 .largest) 9 2 orderly
      (by decide +kernel) rfl).2 rfl
  cases found
  exact ⟨greeting, later, offered, hello, takes rfl⟩

end LiveRelay.Session
