import LiveRelay.Proofs.Session.Settled

/-! # Which outbox gets which event

`Room.Due` is the whole table of recipients: it tells from a command and from who sits where before
it which event is due to an outbox. At most one event is due to an outbox at a time. After a command,
an outbox that is open and has room has grown by the event that is due to it, and every other outbox
is as it was.
-/

namespace LiveRelay

namespace Room

/-- The event that a command makes due to an outbox. Whose state is told, and under which number, is
read off the seats before the command. -/
inductive Due (r : Room) : Command → OutboxId → Event → Prop
  | greeting {h : Handle} {box : OutboxId} (free : r.seating.seat? h = none) :
      Due r (.connect h box) box
        (.message (.hello r.nextId r.seating.snapshot r.clock.elapsedSeconds))
  | arrival {h k : Handle} {box : OutboxId} {s : Seat} (free : r.seating.seat? h = none)
      (sits : r.seating.seat? k = some s) :
      Due r (.connect h box) s.outbox (.message (.join r.nextId))
  | refusal {h : Handle} {box : OutboxId} {s : Seat} (seated : r.seating.seat? h = some s) :
      Due r (.connect h box) box (.dismissal duplicateReason)
  | departure {h k : Handle} {gone s : Seat} (seated : r.seating.seat? h = some gone)
      (sits : r.seating.seat? k = some s) (other : k ≠ h) :
      Due r (.disconnect h) s.outbox (.message (.leave gone.participant.id))
  | removal {h k : Handle} {gone s : Seat} (seated : r.seating.seat? h = some gone)
      (sits : r.seating.seat? k = some s) (other : k ≠ h) :
      Due r (.kick gone.participant.id) s.outbox (.message (.leave gone.participant.id))
  | order {h : Handle} {gone : Seat} (seated : r.seating.seat? h = some gone) :
      Due r (.kick gone.participant.id) gone.outbox (.dismissal kickReason)
  | change {h k : Handle} {sender s : Seat} {c : Change} (seated : r.seating.seat? h = some sender)
      (sits : r.seating.seat? k = some s) (other : k ≠ h) :
      Due r (.message h (.change c)) s.outbox (.message (.changed c sender.participant.id))
  | restart {h k : Handle} {sender s : Seat} (seated : r.seating.seat? h = some sender)
      (sits : r.seating.seat? k = some s) :
      Due r (.message h .reset) s.outbox (.message .reset)

variable {r : Room} {d : Deed} {c : Command} {box : OutboxId} {e : Event}

/-- News go out to the outboxes of those who sit somewhere after the deed and are meant. -/
theorem sent_news_iff (consistent : r.seating.Consistent) (fits : d.Fits r)
    {recipients : Recipients} {m : ServerMessage} :
    (∃ x ∈ news recipients m (r.seating.does d).seats, x.outbox = box ∧ x.event = e) ↔
      ∃ k s, d.reseat k (r.seating.seat? k) = some s ∧ recipients.includes k = true ∧
        s.outbox = box ∧ e = .message m := by
  have sits (k : Handle) (s : Seat) : (k, s) ∈ (r.seating.does d).seats ↔
      d.reseat k (r.seating.seat? k) = some s := by
    rw [← (consistent_does consistent d).seat?_eq_some_iff, seat?_does fits]
  simp only [mem_news_iff, sits]
  constructor
  · rintro ⟨x, ⟨k, s, seated, meant, rfl⟩, outbox, rfl⟩
    exact ⟨k, s, seated, meant, outbox, rfl⟩
  · rintro ⟨k, s, seated, meant, outbox, rfl⟩
    exact ⟨_, ⟨k, s, seated, meant, rfl⟩, outbox, rfl⟩

section

variable (consistent : r.seating.Consistent)
include consistent

theorem sent_iff_due_connect (fresh : r.seating.handleOf? r.nextId = none) (h : Handle)
    (own : OutboxId) :
    (∃ x ∈ r.dispatches (r.deed (.connect h own)), x.outbox = box ∧ x.event = e) ↔
      r.Due (.connect h own) box e := by
  cases found : r.seating.seat? h with
  | some s =>
    have refused : r.deed (.connect h own) = .refused h own := by
      rw [deed, if_pos (Seating.contains_iff.mpr ⟨s, found⟩)]
    simp only [refused, dispatches, List.mem_singleton, exists_eq_left]
    constructor
    · rintro ⟨rfl, rfl⟩
      exact .refusal found
    · intro due
      cases due with
      | greeting free => cases free.symm.trans found
      | arrival free sits => cases free.symm.trans found
      | refusal seated => exact ⟨rfl, rfl⟩
  | none =>
    have admitted : r.deed (.connect h own) = .admitted h ⟨.fresh r.nextId, own⟩ := by
      rw [deed, Seating.contains_eq_false_iff.mpr found, fresh]
      rfl
    have fits := r.fits_deed (.connect h own)
    rw [admitted] at fits ⊢
    simp only [dispatches, List.mem_append, or_and_right, exists_or,
      sent_news_iff consistent fits, Deed.reseat, Recipients.includes, beq_iff_eq, bne_iff_ne,
      Participant.id_fresh]
    constructor
    · rintro (⟨k, s, seated, rfl, rfl, rfl⟩ | ⟨k, s, seated, other, rfl, rfl⟩)
      · rw [if_pos rfl] at seated
        cases seated
        exact .greeting found
      · rw [if_neg (Ne.symm other)] at seated
        exact .arrival found seated
    · intro due
      cases due with
      | greeting free => exact .inl ⟨h, _, if_pos rfl, rfl, rfl, rfl⟩
      | @arrival _ k _ s free sits =>
        have other : k ≠ h := by
          rintro rfl
          cases free.symm.trans sits
        exact .inr ⟨k, s, (if_neg other).trans sits, other.symm, rfl, rfl⟩
      | refusal seated => cases found.symm.trans seated

theorem sent_iff_due_disconnect (h : Handle) :
    (∃ x ∈ r.dispatches (r.deed (.disconnect h)), x.outbox = box ∧ x.event = e) ↔
      r.Due (.disconnect h) box e := by
  cases found : r.seating.seat? h with
  | none =>
    simp only [deed, found, Option.elim_none, dispatches, List.not_mem_nil, false_and, exists_false,
      false_iff]
    intro due
    cases due with
    | departure seated sits other => cases found.symm.trans seated
  | some gone =>
    have left : r.deed (.disconnect h) = .left h gone := by rw [deed, found, Option.elim_some]
    have fits := r.fits_deed (.disconnect h)
    rw [left] at fits ⊢
    simp only [dispatches, sent_news_iff consistent fits, Deed.reseat, Recipients.includes, true_and]
    constructor
    · rintro ⟨k, s, seated, rfl, rfl⟩
      split at seated
      · cases seated
      · next other => exact .departure found seated other
    · intro due
      cases due with
      | @departure _ k _ s seated sits other =>
        cases found.symm.trans seated
        exact ⟨k, s, (if_neg other).trans sits, rfl, rfl⟩

theorem sent_iff_due_kick (i : ParticipantId) :
    (∃ x ∈ r.dispatches (r.deed (.kick i)), x.outbox = box ∧ x.event = e) ↔
      r.Due (.kick i) box e := by
  cases owned : r.seating.handleOf? i with
  | none =>
    have free := consistent.handleOf?_eq_none_iff.mp owned
    simp only [deed_kick_of_none owned, dispatches, List.not_mem_nil, false_and, exists_false,
      false_iff]
    intro due
    cases due with
    | removal seated sits other => exact free _ _ seated rfl
    | order seated => exact free _ _ seated rfl
  | some h =>
    obtain ⟨gone, found, rfl⟩ := consistent.handleOf?_eq_some_iff.mp owned
    have dismissed := deed_kick_of_seat consistent found
    have fits := r.fits_deed (.kick gone.participant.id)
    rw [dismissed] at fits ⊢
    -- The command gives a number only; the seats have it once.
    have one {k : Handle} {s : Seat} (seated : r.seating.seat? k = some s)
        (same : s.participant.id = gone.participant.id) : k = h ∧ s = gone := by
      obtain rfl := consistent.handle_unique found seated same
      exact ⟨rfl, Option.some.inj (seated.symm.trans found)⟩
    simp only [dispatches, List.mem_append, List.mem_singleton, or_and_right, exists_or,
      exists_eq_left, sent_news_iff consistent fits, Deed.reseat, Recipients.includes, true_and]
    constructor
    · rintro (⟨k, s, seated, rfl, rfl⟩ | ⟨rfl, rfl⟩)
      · split at seated
        · cases seated
        · next other => exact .removal found seated other
      · exact .order found
    · intro due
      generalize same : gone.participant.id = i at due
      cases due with
      | @removal _ k _ s seated sits other =>
        obtain ⟨rfl, rfl⟩ := one seated same.symm
        exact .inl ⟨k, s, (if_neg other).trans sits, rfl, rfl⟩
      | order seated =>
        obtain ⟨rfl, rfl⟩ := one seated same.symm
        exact .inr ⟨rfl, rfl⟩

theorem sent_iff_due_message (h : Handle) (m : ClientMessage) :
    (∃ x ∈ r.dispatches (r.deed (.message h m)), x.outbox = box ∧ x.event = e) ↔
      r.Due (.message h m) box e := by
  have fits := r.fits_deed (.message h m)
  cases found : r.seating.seat? h with
  | none =>
    have nothing : r.deed (.message h m) = .nothing := by cases m <;> rw [deed, found] <;> rfl
    simp only [nothing, dispatches, List.not_mem_nil, false_and, exists_false, false_iff]
    intro due
    cases due with
    | change seated sits other => cases found.symm.trans seated
    | restart seated sits => cases found.symm.trans seated
  | some sender =>
    cases m with
    | change c =>
      rw [deed_change found] at fits ⊢
      simp only [dispatches, sent_news_iff consistent fits, Deed.reseat, Recipients.includes,
        bne_iff_ne]
      constructor
      · rintro ⟨k, s, seated, other, rfl, rfl⟩
        rw [if_neg (Ne.symm other)] at seated
        exact .change found seated (Ne.symm other)
      · intro due
        cases due with
        | @change _ k _ s _ seated sits other =>
          cases found.symm.trans seated
          exact ⟨k, s, (if_neg other).trans sits, other.symm, rfl, rfl⟩
    | reset =>
      have restarted : r.deed (.message h .reset) = .restarted h := by
        rw [deed, found, Option.elim_some]
      rw [restarted] at fits ⊢
      simp only [dispatches, sent_news_iff consistent fits, Deed.reseat, Recipients.includes,
        true_and]
      constructor
      · rintro ⟨k, s, seated, rfl, rfl⟩
        exact .restart found seated
      · intro due
        cases due with
        | @restart _ k _ s seated sits => exact ⟨k, s, sits, rfl, rfl⟩

/-- What is sent out for a command is what is due, and nothing else. -/
theorem sent_iff_due (fresh : r.seating.handleOf? r.nextId = none) (c : Command) :
    (∃ x ∈ r.dispatches (r.deed c), x.outbox = box ∧ x.event = e) ↔ r.Due c box e := by
  cases c with
  | connect h own => exact sent_iff_due_connect consistent fresh h own
  | disconnect h => exact sent_iff_due_disconnect consistent h
  | message h m => exact sent_iff_due_message consistent h m
  | listParticipants =>
    simp only [deed, dispatches, List.not_mem_nil, false_and, exists_false, false_iff]
    intro due
    cases due
  | kick i => exact sent_iff_due_kick consistent i

end

end Room

namespace Deed

theorem length_told_le (d : Deed) {r : Room} {k : Handle} : (d.told r k).length ≤ 1 := by
  cases d with
  | admitted h seat => by_cases same : k = h <;> simp [told, same]
  | changed h seat c => by_cases same : k = h <;> simp [told, same]
  | left h seat => exact Nat.le_refl 1
  | dismissed h seat => exact Nat.le_refl 1
  | restarted h => exact Nat.le_refl 1
  | clashed h => exact Nat.zero_le 1
  | refused h box => exact Nat.zero_le 1
  | nothing => exact Nat.zero_le 1

end Deed

namespace Outbox

/-- An outbox after an event that may have been offered to it. -/
theorem foldl_offer_toList (o : Outbox) (due : Option Event) : due.toList.foldl offer o =
    due.elim o fun e =>
      if o.reception = .opened ∧ o.events.length < o.capacity.value then
        { o with events := o.events ++ [e] }
      else o := by
  cases due with
  | none => rfl
  | some e => simp only [Option.toList_some, List.foldl_cons, List.foldl_nil, offer,
      verdict_eq_accepted_iff, Option.elim_some]

end Outbox

namespace Session

variable {s : Session} {x : Happening} {c : Command}
  {taken : List OutboxId} {admitted : Nat}

/-- A happening offers an outbox at most one event. -/
theorem Settled.offered_once (settled : s.Settled taken admitted) (allowed : s.Allows taken x)
    (box : OutboxId) : ((s.offersTo [x] box).map (·.event)).length ≤ 1 := by
  by_cases seated : (s.step x).room.seating.HasOutbox box
  · obtain ⟨k, seat, found, rfl⟩ := seated
    rw [settled.housed.told_step allowed found, List.length_map]
    exact (s.deed x).length_told_le
  · rw [settled.housed.lastWord_step seated]
    rcases (s.deed x).lastWord_cases box with word | ⟨h, -, word⟩ | ⟨h, seat, -, -, word⟩ <;>
      simp [word]

/-- What a command makes of an outbox is settled by the one event that is due to it. -/
theorem Settled.due_step (settled : s.Settled taken admitted) (allowed : s.Allows taken x)
    (brings : x.command? s = some c) (box : OutboxId) : ∃ due : Option Event,
      (∀ e, due = some e ↔ s.room.Due c box e) ∧
      (s.offersTo [x] box).map (·.event) = due.toList ∧
      (s.step x).outboxes.get? box =
        ((s.prepared x).get? box).map fun o => due.toList.foldl Outbox.offer o := by
  have deed := deed_of_command brings
  have events := s.events_step x box
  have once := settled.offered_once allowed box
  have sent (e : Event) : e ∈ (s.offersTo [x] box).map (·.event) ↔ s.room.Due c box e := by
    rw [events, deed, ← Room.sent_iff_due settled.housed.consistent settled.nextId_free]
    simp [and_assoc]
  have outboxes := (Prod.mk.inj (s.step_deed x).2.2).1
  rw [outboxes, Outboxes.get?_dispatch, ← events]
  generalize (s.offersTo [x] box).map (·.event) = offered at once sent
  -- No more than one event is offered, so the first one is all there is.
  have whole : offered.head?.toList = offered := by
    rw [← List.take_one, List.take_of_length_le once]
  refine ⟨offered.head?, ?_, whole.symm, by rw [whole]⟩
  intro e
  rw [← sent, ← Option.mem_toList, whole]

/-- After a command, every outbox that is open and has room has grown by the event that is due to it,
if there is one, and every other outbox is as it was. -/
theorem outbox_after_command (xs : List Happening) (x : Happening) (c : Command)
    (orderly : Orderly (xs ++ [x])) (few : start.admissions xs < UInt64.size - 1)
    (brings : x.command? (start.run xs) = some c) (box : OutboxId) :
    ∃ due : Option Event, (∀ e, due = some e ↔ (start.run xs).room.Due c box e) ∧
      (start.run (xs ++ [x])).outboxes.get? box =
        (((start.run xs).prepared x).get? box).map fun o =>
          due.elim o fun e =>
            if o.reception = .opened ∧ o.events.length < o.capacity.value then
              { o with events := o.events ++ [e] }
            else o := by
  have settled := settled_run orderly.before (Nat.lt_of_lt_of_le few (Nat.sub_le _ _))
  obtain ⟨due, unique, -, after⟩ := settled.due_step orderly.allows brings box
  refine ⟨due, unique, ?_⟩
  rw [run_concat, Outcome.session, after]
  simp only [Outbox.foldl_offer_toList]

/-- Three connections, of which the first has room for its greeting only. -/
def crowdedRun : List Happening :=
  [.connect 7 ⟨1, by decide, by decide⟩, .connect 8 .largest, .connect 9 .largest]

/-- The third one plays something: the first one has no room for the news, and the second one gets
them. -/
theorem outbox_after_command_crowded :
    let x : Happening := .command (.message 9 (.change (.code "bd*2")))
    let before := (start.run crowdedRun).outboxes
    let after := (start.run (crowdedRun ++ [x])).outboxes
    Orderly (crowdedRun ++ [x]) ∧ start.admissions crowdedRun < UInt64.size - 1 ∧
      after.get? 0 = before.get? 0 ∧
      after.get? 1 = (before.get? 1).map fun o =>
        { o with events := o.events ++ [.message (.changed (.code "bd*2") 2)] } := by
  intro x before after
  have orderly : Orderly (crowdedRun ++ [x]) := by decide +kernel
  have few : start.admissions crowdedRun < UInt64.size - 1 := by decide +kernel
  have due {k : Handle} {seat : Seat} (other : k ≠ 9)
      (sits : (start.run crowdedRun).room.seating.seat? k = some seat) :
      (start.run crowdedRun).room.Due (.message 9 (.change (.code "bd*2"))) seat.outbox
        (.message (.changed (.code "bd*2") 2)) := by
    have sender : (start.run crowdedRun).room.seating.seat? 9 = some ⟨.fresh 2, 2⟩ := rfl
    exact .change sender sits other
  obtain ⟨_, first, full⟩ := outbox_after_command crowdedRun x _ orderly few rfl 0
  obtain ⟨_, second, taken⟩ := outbox_after_command crowdedRun x _ orderly few rfl 1
  obtain rfl := (first _).mpr (due (k := 7) (by decide) rfl)
  obtain rfl := (second _).mpr (due (k := 8) (by decide) rfl)
  exact ⟨orderly, few, full, taken⟩

end Session

end LiveRelay
