import LiveRelay.Proofs.Room.Departures
import LiveRelay.Proofs.Session.Settled

/-! # Commands that are rejected

A room rejects a command if it comes from a connection without a seat, asks for a second seat, or
would remove somebody who is not there. Such a command leaves no trace: the room and every outbox
are as before, except that a connection that is refused is told so in its own outbox. So if all
rejected commands are deleted from a run, then nobody who is seated finds anything else in the
outbox, and all other commands are answered as before.
-/

namespace LiveRelay

namespace Command

/-- The outbox that a command comes with. -/
def outbox? : Command → Option OutboxId
  | .connect _ box => some box
  | .disconnect _ | .message _ _ | .listParticipants | .kick _ => none

end Command

namespace Happening

/-- What is left of a happening without its command: a connection still makes an outbox. -/
def withoutCommand : Happening → List Happening
  | .connect _ capacity => [.make capacity]
  | .command _ => []
  | x => [x]

end Happening

namespace Room

/-- Whether a room rejects a command, told by who is seated. -/
def rejects (r : Room) : Command → Bool
  | .connect h _ => r.seating.contains h
  | .disconnect h | .message h _ => !r.seating.contains h
  | .kick i => decide (i ∉ r.seating.ids)
  | .listParticipants => false

variable {r : Room} {c : Command}

/-- A rejected command comes to nothing, or to a refusal. -/
theorem deed_of_rejects (consistent : r.seating.Consistent) (rejected : r.rejects c = true) :
    (∃ h box, c = .connect h box ∧ r.deed c = .refused h box) ∨
      c.outbox? = none ∧ r.deed c = .nothing := by
  cases c with
  | connect h box =>
    refine .inl ⟨h, box, rfl, ?_⟩
    have seated : r.seating.contains h = true := rejected
    rw [deed, if_pos seated]
  | disconnect h =>
    have unseated := Seating.contains_eq_false_iff.mp (Bool.not_eq_true' _ ▸ rejected)
    refine .inr ⟨rfl, ?_⟩
    rw [deed, unseated, Option.elim_none]
  | message h m =>
    have unseated := Seating.contains_eq_false_iff.mp (Bool.not_eq_true' _ ▸ rejected)
    refine .inr ⟨rfl, ?_⟩
    cases m <;> rw [deed, unseated, Option.elim_none]
  | listParticipants => cases rejected
  | kick i =>
    have unowned := Seating.isSome_handleOf? consistent i
    rw [decide_eq_false (of_decide_eq_true rejected)] at unowned
    exact .inr ⟨rfl, deed_kick_of_none (Option.isNone_iff_eq_none.mp (by simpa using unowned))⟩

/-- A rejected command leaves the room as it was. -/
theorem does_of_rejects (consistent : r.seating.Consistent) (rejected : r.rejects c = true) :
    r.does (r.deed c) = r := by
  rcases deed_of_rejects consistent rejected with ⟨h, box, -, refused⟩ | ⟨-, nothing⟩
  · rw [refused]
    rfl
  · rw [nothing]
    rfl

/-- A rejected command sends out nothing, unless a connection is refused. -/
theorem dispatches_of_rejects (consistent : r.seating.Consistent) (rejected : r.rejects c = true) :
    (∃ h box, c = .connect h box ∧
      r.dispatches (r.deed c) = [⟨h, box, .dismissal duplicateReason⟩]) ∨
      c.outbox? = none ∧ r.dispatches (r.deed c) = [] := by
  rcases deed_of_rejects consistent rejected with ⟨h, box, connects, refused⟩ | ⟨none, nothing⟩
  · rw [refused]
    exact .inl ⟨h, box, connects, rfl⟩
  · rw [nothing]
    exact .inr ⟨none, rfl⟩

/-- Whether a command is rejected shows in the answer to a kick. -/
theorem answer_of_rejects (consistent : r.seating.Consistent) {i : ParticipantId}
    (rejected : r.rejects (.kick i) = true) : r.answer (.kick i) = .kicked false := by
  rw [answer, Seating.isSome_handleOf? consistent, decide_eq_false (of_decide_eq_true rejected)]

end Room

namespace Session

/-- Whether something is a command that is rejected. -/
def rejects (s : Session) (x : Happening) : Bool := (x.command? s).any s.room.rejects

/-- The outbox with which a refused connection came. -/
def refusal? (s : Session) (x : Happening) : Option OutboxId :=
  if s.rejects x then (x.command? s).bind Command.outbox? else none

/-- The outboxes with which refused connections came. -/
def refusals (s : Session) (xs : List Happening) : List OutboxId :=
  (s.moments xs).filterMap fun m => m.1.refusal? m.2

/-- What is left of a happening if a rejected command is deleted. -/
def sift (s : Session) (x : Happening) : List Happening :=
  if s.rejects x then x.withoutCommand else [x]

/-- What is left of a run without rejected commands. -/
def sifted (s : Session) : List Happening → List Happening
  | [] => []
  | x :: xs => s.sift x ++ (s.step x).session.sifted xs

/-- A command and the answer to it. -/
def exchange? (s : Session) (x : Happening) : Option (Command × Reply) :=
  (x.command? s).map fun c => (c, (s.step x).reply)

/-- The commands that were not rejected in a run, and the answers to them. -/
def exchanges (s : Session) (xs : List Happening) : List (Command × Reply) :=
  ((s.moments xs).filter fun m => !m.1.rejects m.2).filterMap fun m => m.1.exchange? m.2

/-- A rejected command leaves no trace in a session, except in the outbox of a refused connection.
-/
structure Untouched (s : Session) (x : Happening) (c : Command) : Prop where
  room : (s.step x).room = s.room
  answer : ∀ i, c = .kick i → (s.step x).reply = .kicked false
  seated : ∀ k seat, s.room.seating.seat? k = some seat →
    (s.step x).outboxes.get? seat.outbox = s.outboxes.get? seat.outbox
  others : ∀ box, c.outbox? ≠ some box → (s.step x).outboxes.get? box = s.outboxes.get? box
  own : ∀ box, c.outbox? = some box →
    (s.step x).outboxes.get? box = ((s.prepared x).get? box).map fun o =>
      if o.reception = .opened ∧ o.events.length < o.capacity.value then
        { o with events := o.events ++ [.dismissal Room.duplicateReason] }
      else o

variable {s t : Session} {x : Happening} {c : Command} {box : OutboxId} {taken : List OutboxId}

/-- Before a command, all outboxes are as they were but the one that the command comes with. -/
theorem get?_prepared (brings : x.command? s = some c) (other : c.outbox? ≠ some box) :
    (s.prepared x).get? box = s.outboxes.get? box := by
  cases x with
  | connect h capacity =>
    cases brings
    have old : box ≠ s.outboxes.next := by
      rintro rfl
      exact other rfl
    rw [prepared, Outboxes.get?_add, if_neg old]
  | command c => rfl
  | make capacity => cases brings
  | pass nanoseconds => cases brings
  | take i n => cases brings
  | close i => cases brings
  | drop i => cases brings

theorem rejects_eq (brings : x.command? s = some c) : s.rejects x = s.room.rejects c := by
  rw [rejects, brings, Option.any_some]

theorem command_of_rejects (rejected : s.rejects x = true) :
    ∃ c, x.command? s = some c ∧ s.room.rejects c = true := by
  unfold rejects at rejected
  cases brings : x.command? s with
  | none => simp [brings] at rejected
  | some c =>
    rw [brings, Option.any_some] at rejected
    exact ⟨c, rfl, rejected⟩

theorem refusal?_of_rejects (brings : x.command? s = some c) (rejected : s.rejects x = true) :
    s.refusal? x = c.outbox? := by
  rw [refusal?, if_pos rejected, brings, Option.bind_some]

theorem rejects_of_refusal (refused : s.refusal? x = some box) : s.rejects x = true := by
  unfold refusal? at refused
  split at refused
  · assumption
  · cases refused

/-- A connection that is refused asked for a seat. -/
theorem asks?_of_refusal (refused : s.refusal? x = some box) :
    ∃ h, x.asks? s = some (h, box) := by
  rw [refusal?, if_pos (rejects_of_refusal refused)] at refused
  obtain ⟨c, brings, own⟩ := Option.bind_eq_some_iff.mp refused
  cases c with
  | connect h other =>
    cases own
    exact ⟨h, by rw [Happening.asks?, brings]⟩
  | disconnect h => cases own
  | message h m => cases own
  | listParticipants => cases own
  | kick i => cases own

/-- A rejected command is one that leaves no trace. -/
theorem Housed.untouched (housed : s.Housed taken) (allowed : s.Allows taken x)
    (brings : x.command? s = some c) (rejected : s.room.rejects c = true) : s.Untouched x c := by
  have performs := s.performs_step x brings
  have deed := deed_of_command brings
  have outboxes (box : OutboxId) : (s.step x).outboxes.get? box =
      ((s.prepared x).dispatch (s.room.dispatches (s.room.deed c))).1.get? box := by
    rw [← deed, ← (Prod.mk.inj performs.sent).1]
  have others (box : OutboxId) (other : c.outbox? ≠ some box) :
      (s.step x).outboxes.get? box = s.outboxes.get? box := by
    rw [outboxes, ← get?_prepared brings other]
    apply Outboxes.get?_dispatch_of_notMem
    rcases Room.dispatches_of_rejects housed.consistent rejected with ⟨h, own, rfl, one⟩ | ⟨-, none⟩
    · rw [one]
      intro d member same
      obtain rfl := List.mem_singleton.mp member
      exact other (congrArg some same)
    · rw [none]
      intro d member
      cases member
  refine ⟨?_, ?_, ?_, others, ?_⟩
  · rw [performs.room, deed, Room.does_of_rejects housed.consistent rejected]
  · rintro i rfl
    rw [s.reply_step x brings, Room.answer_of_rejects housed.consistent rejected]
  · intro k seat found
    refine others _ ?_
    intro own
    have refused : s.refusal? x = some seat.outbox :=
      (refusal?_of_rejects brings ((rejects_eq brings).trans rejected)).trans own
    obtain ⟨h, asks⟩ := asks?_of_refusal refused
    exact (allowed h seat.outbox asks).1 (housed.held _ ⟨k, seat, found, rfl⟩)
  · intro box own
    have dispatched := Room.dispatches_of_rejects housed.consistent rejected
    rcases dispatched with ⟨h, mine, rfl, one⟩ | ⟨none, -⟩
    · cases own
      rw [outboxes, one, Outboxes.get?_dispatch]
      simp [Outbox.offer, Outbox.verdict_eq_accepted_iff]
    · cases none.symm.trans own

theorem refusals_append (s : Session) (xs ys : List Happening) :
    s.refusals (xs ++ ys) = s.refusals xs ++ (s.run xs).refusals ys := by
  simp [refusals, moments_append]

theorem refusals_cons (s : Session) (x : Happening) (xs : List Happening) :
    s.refusals (x :: xs) = (s.refusal? x).toList ++ (s.step x).session.refusals xs := by
  rw [refusals, moments, List.filterMap_cons]
  cases s.refusal? x <;> rfl

theorem asked_of_refusals {xs : List Happening} (refused : box ∈ s.refusals xs) :
    box ∈ s.asked xs := by
  obtain ⟨m, moment, own⟩ := List.mem_filterMap.mp refused
  obtain ⟨h, asks⟩ := asks?_of_refusal own
  exact List.mem_filterMap.mpr ⟨m, moment, by rw [asks, Option.map_some]⟩

/-- The outboxes of refused connections never get a seat. -/
theorem unseated_of_refusals {xs : List Happening} (orderly : Orderly xs)
    (refused : box ∈ start.refusals xs) : ¬ (start.run xs).room.seating.HasOutbox box := by
  induction xs using List.reverseRecOn with
  | nil => cases refused
  | append_singleton xs x ih =>
    have housed := housed_run orderly.before
    have allowed : (start.run xs).Allows (start.asked xs) x := orderly.allows
    rw [refusals_append, List.mem_append] at refused
    rw [run_concat]
    rintro ⟨k, seat, found, rfl⟩
    rcases refused with old | new
    · rcases seat_after found with happened | ⟨before, sat, same, -⟩
      · exact (housed.outbox_of_admitted allowed happened).2 (asked_of_refusals old)
      · exact ih orderly.before old ⟨k, before, sat, same⟩
    · have own : (start.run xs).refusal? x = some seat.outbox := by
        simpa [refusals_cons, refusals, moments] using new
      obtain ⟨h, asks⟩ := asks?_of_refusal own
      obtain ⟨c, brings, rejected⟩ := command_of_rejects (rejects_of_refusal own)
      have untouched := housed.untouched allowed brings rejected
      rw [Outcome.session, untouched.room] at found
      exact (allowed h seat.outbox asks).1 (housed.held _ ⟨k, seat, found, rfl⟩)

theorem room_take {i : OutboxId} {n : Nat} : (s.step (.take i n)).room = s.room := by
  rw [step]
  cases s.outboxes.get? i <;> rfl

/-- Taking events out of an outbox changes this outbox, if there is one. -/
theorem outboxes_take (s : Session) (i : OutboxId) (n : Nat) :
    (s.step (.take i n)).outboxes = s.outboxes.modify i fun o => (o.take n).2 := by
  apply Outboxes.ext_get?
  intro j
  rw [Outboxes.get?_modify, step]
  by_cases own : i = j
  · subst own
    rw [if_pos rfl]
    cases found : s.outboxes.get? i with
    | none => exact found
    | some o => simp [withOutboxes, Outboxes.get?_modify, found]
  · rw [if_neg own]
    cases s.outboxes.get? i with
    | none => rfl
    | some o => simp [withOutboxes, Outboxes.get?_modify, own]

namespace Agree

variable {aside : List OutboxId}

theorem command?_eq (agree : s.Agree aside t) (x : Happening) : x.command? t = x.command? s := by
  cases x with
  | connect h capacity => rw [Happening.command?, Happening.command?, agree.outboxes.next]
  | command c => rfl
  | make capacity => rfl
  | pass nanoseconds => rfl
  | take i n => rfl
  | close i => rfl
  | drop i => rfl

theorem rejects_eq (agree : s.Agree aside t) (x : Happening) : t.rejects x = s.rejects x := by
  rw [rejects, rejects, agree.command?_eq, agree.room]

/-- The same command is answered the same. -/
theorem exchange?_eq (agree : s.Agree aside t) (x : Happening) :
    t.exchange? x = s.exchange? x := by
  have same := agree.command?_eq x
  rw [exchange?, exchange?, same]
  cases brings : x.command? s with
  | none => rfl
  | some c => rw [s.reply_step x brings, t.reply_step x (same.trans brings), agree.room]

/-- Whatever happens in both leaves them the same but for what is set aside. -/
theorem step (agree : s.Agree aside t) (x : Happening) :
    (s.step x).session.Agree aside (t.step x).session := by
  obtain ⟨room, outboxes⟩ := agree
  cases x with
  | connect h capacity =>
    have there : Happening.command? t (.connect h capacity) = some (.connect h s.outboxes.next) := by
      rw [Happening.command?, outboxes.next]
    exact (commanded room rfl there (outboxes.add fun _ => rfl)).1
  | command c => exact (commanded room rfl rfl outboxes).1
  | make capacity => exact ⟨room, outboxes.add fun _ => rfl⟩
  | pass nanoseconds =>
    simp only [Session.step, room]
    cases t.room.advance nanoseconds with
    | ok later => exact ⟨rfl, outboxes⟩
    | error e => exact ⟨rfl, outboxes⟩
  | take i n =>
    refine ⟨room_take.trans (room.trans room_take.symm), ?_⟩
    rw [Outcome.session, Outcome.session, outboxes_take, outboxes_take]
    exact outboxes.modify fun _ => rfl
  | close i => exact ⟨room, outboxes.modify fun _ => rfl⟩
  | drop i => exact ⟨room, outboxes.modify fun _ => rfl⟩

/-- Without a rejected command, an outbox is still made for a connection that is refused. -/
theorem sift_prepares (agree : s.Agree aside t) (rejected : s.rejects x = true) :
    (t.run (s.sift x)).room = t.room ∧ (s.prepared x).Agree aside (t.run (s.sift x)).outboxes := by
  obtain ⟨c, brings, -⟩ := command_of_rejects rejected
  rw [Session.sift, if_pos rejected]
  cases x with
  | connect h capacity => exact ⟨rfl, agree.outboxes.add fun _ => rfl⟩
  | command c => exact ⟨rfl, agree.outboxes⟩
  | make capacity => cases brings
  | pass nanoseconds => cases brings
  | take i n => cases brings
  | close i => cases brings
  | drop i => cases brings

/-- A rejected command makes no difference but to the outbox that comes with it. -/
theorem sift_rejected (agree : s.Agree aside t) (consistent : s.room.seating.Consistent)
    (rejected : s.rejects x = true) :
    (s.step x).session.Agree (aside ++ (s.refusal? x).toList) (t.run (s.sift x)) := by
  obtain ⟨room, prepared⟩ := agree.sift_prepares rejected
  obtain ⟨c, brings, rejects⟩ := command_of_rejects rejected
  have performs := s.performs_step x brings
  have deed := deed_of_command brings
  rw [deed] at performs
  constructor
  · rw [Outcome.session, performs.room, Room.does_of_rejects consistent rejects, room, agree.room]
  · rw [Outcome.session, (Prod.mk.inj performs.sent).1, refusal?_of_rejects brings rejected]
    refine (prepared.grow _).dispatch_aside ?_
    intro d member
    rcases Room.dispatches_of_rejects consistent rejects with ⟨h, own, rfl, one⟩ | ⟨-, none⟩
    · rw [one] at member
      obtain rfl := List.mem_singleton.mp member
      exact List.mem_append_right _ (List.mem_singleton_self own)
    · rw [none] at member
      cases member

end Agree

theorem exchanges_append (s : Session) (xs ys : List Happening) :
    s.exchanges (xs ++ ys) = s.exchanges xs ++ (s.run xs).exchanges ys := by
  simp [exchanges, moments_append]

theorem exchanges_singleton (s : Session) (x : Happening) :
    s.exchanges [x] = if s.rejects x then [] else (s.exchange? x).toList := by
  rw [exchanges, moments, moments, List.filter_cons]
  cases s.rejects x with
  | true => rfl
  | false => cases exchange : s.exchange? x <;> simp [exchange]

/-- What is left of a happening without its command brings no command. -/
theorem command?_withoutCommand (t : Session) (x : Happening) :
    ∀ m ∈ t.moments x.withoutCommand, m.2.command? m.1 = none := by
  intro m moment
  cases x with
  | command c => cases moment
  | connect _ _ | make _ | pass _ | take _ _ | close _ | drop _ =>
    obtain rfl := List.mem_singleton.mp moment
    rfl

/-- In the other session, what is left of a happening is rejected no more, and is answered as it
was. -/
theorem Agree.sift_answers {aside : List OutboxId} (agree : s.Agree aside t) (x : Happening) :
    t.exchanges (s.sift x) = s.exchanges [x] ∧
      ∀ m ∈ t.moments (s.sift x), m.1.rejects m.2 = false := by
  rw [exchanges_singleton, Session.sift]
  cases rejected : s.rejects x with
  | true =>
    have silent := command?_withoutCommand t x
    simp only [if_true]
    constructor
    · rw [exchanges, List.filterMap_eq_nil_iff]
      intro m moment
      rw [exchange?, silent m (List.mem_of_mem_filter moment), Option.map_none]
    · intro m moment
      rw [rejects, silent m moment, Option.any_none]
  | false =>
    have kept := (agree.rejects_eq x).trans rejected
    simp only [Bool.false_eq_true, if_false]
    constructor
    · rw [exchanges_singleton, kept, agree.exchange?_eq]
      rfl
    · intro m moment
      obtain rfl := List.mem_singleton.mp moment
      exact kept

theorem Agree.sift_run {aside : List OutboxId} (agree : s.Agree aside t)
    (consistent : s.room.seating.Consistent) (x : Happening) :
    (s.step x).session.Agree (aside ++ (s.refusal? x).toList) (t.run (s.sift x)) := by
  cases rejected : s.rejects x with
  | true => exact agree.sift_rejected consistent rejected
  | false =>
    have kept : s.sift x = [x] := by rw [Session.sift, rejected]; rfl
    have none : s.refusal? x = none := by rw [refusal?, rejected]; rfl
    rw [kept, none, Option.toList_none, List.append_nil]
    exact agree.step x

/-- Without its rejected commands, a run comes to the same but for the outboxes of refused
connections, nothing is rejected any more, and what is left is answered the same. -/
theorem Agree.sifted {aside : List OutboxId} (agree : s.Agree aside t)
    (consistent : s.room.seating.Consistent) (xs : List Happening) :
    (s.run xs).Agree (aside ++ s.refusals xs) (t.run (s.sifted xs)) ∧
      t.exchanges (s.sifted xs) = s.exchanges xs ∧
      ∀ m ∈ t.moments (s.sifted xs), m.1.rejects m.2 = false := by
  induction xs generalizing s t aside with
  | nil =>
    refine ⟨?_, rfl, ?_⟩
    · rw [refusals, moments, List.filterMap_nil, List.append_nil]
      exact agree
    · intro m moment
      cases moment
  | cons x xs ih =>
    have after : (s.step x).session.room.seating.Consistent := by
      rw [Outcome.session, (s.step_deed x).1]
      exact Room.consistent_does consistent _
    obtain ⟨answers, clear⟩ := agree.sift_answers x
    obtain ⟨same, later, clearer⟩ := ih (agree.sift_run consistent x) after
    rw [sifted, refusals_cons, ← List.append_assoc, run_append, exchanges_append, moments_append]
    refine ⟨same, ?_, ?_⟩
    · rw [answers, later]
      exact (exchanges_append s [x] xs).symm
    · intro m moment
      rcases List.mem_append.mp moment with now | then_
      · exact clear m now
      · exact clearer m then_

/-- At every moment of an orderly run, a rejected command changes neither the room nor the outbox of
anyone seated, and nothing else but that a refused connection is told so if its outbox is open and
has room. If all rejected commands are deleted from the run, then the room is the same in the end,
and so are the outboxes of all who are seated; nothing is rejected any more, and all other commands
are answered the same. -/
theorem rejected_commands_leave_no_trace (xs : List Happening) (orderly : Orderly xs) :
    (∀ m ∈ start.moments xs, ∀ c, m.2.command? m.1 = some c → m.1.room.rejects c = true →
      m.1.Untouched m.2 c) ∧
    (start.run (start.sifted xs)).room = (start.run xs).room ∧
    (∀ k seat, (start.run xs).room.seating.seat? k = some seat →
      (start.run (start.sifted xs)).outboxes.get? seat.outbox =
        (start.run xs).outboxes.get? seat.outbox) ∧
    (∀ m ∈ start.moments (start.sifted xs), m.1.rejects m.2 = false) ∧
    start.exchanges (start.sifted xs) = start.exchanges xs := by
  have self : start.Agree [] start := ⟨rfl, rfl, fun _ _ => rfl⟩
  obtain ⟨same, answers, clear⟩ := self.sifted .empty xs
  refine ⟨?_, same.room.symm, ?_, clear, answers⟩
  · intro m moment c brings rejected
    obtain ⟨taken, housed, allowed⟩ := housed_moment orderly moment
    exact housed.untouched allowed brings rejected
  · intro k seat found
    refine (same.outboxes.others _ ?_).symm
    intro refused
    exact unseated_of_refusals orderly refused ⟨k, seat, found, rfl⟩

/-- Two connections play, and between what they say everything is asked for that a room rejects. -/
def pesteredRun : List Happening :=
  [.connect 7 .largest, .command (.message 8 .reset), .connect 8 .largest, .connect 7 .largest,
    .command (.message 9 (.change (.code "hh"))), .command (.kick 5),
    .command (.message 8 (.change (.code "bd"))), .command (.disconnect 9), .command (.kick 0),
    .command (.kick 0), .command .listParticipants]

/-- The same without what is rejected. -/
def calmRun : List Happening :=
  [.connect 7 .largest, .connect 8 .largest, .make .largest,
    .command (.message 8 (.change (.code "bd"))), .command (.kick 0), .command .listParticipants]

/-- The one who is left finds the same in the outbox in both. -/
theorem rejected_commands_leave_no_trace_pestered :
    Orderly pesteredRun ∧ start.sifted pesteredRun = calmRun ∧
      (start.run calmRun).room = (start.run pesteredRun).room ∧
      (start.run calmRun).outboxes.get? 1 = (start.run pesteredRun).outboxes.get? 1 ∧
      ((start.run pesteredRun).outboxes.contents 1).length = 2 ∧
      start.exchanges calmRun = start.exchanges pesteredRun ∧
      (start.exchanges pesteredRun).length = 5 := by
  have orderly : Orderly pesteredRun := by decide +kernel
  have calm : start.sifted pesteredRun = calmRun := rfl
  obtain ⟨-, room, seated, -, answers⟩ := rejected_commands_leave_no_trace pesteredRun orderly
  rw [calm] at room seated answers
  exact ⟨orderly, calm, room, seated 8 ⟨(Participant.fresh 1).apply (.code "bd"), 1⟩ rfl,
    by decide +kernel, answers, by decide +kernel⟩

end Session

end LiveRelay
