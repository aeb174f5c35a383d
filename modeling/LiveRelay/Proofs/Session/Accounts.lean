import LiveRelay.Proofs.Room.Departures
import LiveRelay.Proofs.Session.Settled

/-! # The accounts of a run

Numbers are given in order, one to each connection that is given a seat, and a number that became
free is never given again. So every number that was given is either that of somebody who is seated,
or was freed exactly once, by a kick or by its own connection, and then the others were told once.
-/

namespace LiveRelay.Session

/-- The number that a happening frees: the one of a kick that is answered with yes, or the one whose
seat a disconnect takes away. -/
def removed? (s : Session) (x : Happening) : Option ParticipantId :=
  match x with
  | .command (.kick i) =>
    match (s.step x).reply with
    | .kicked true => some i
    | _ => none
  | .command (.disconnect h) => (s.room.unseat s.outboxes h).1.map (·.participant.id)
  | _ => none

/-- How often a number was freed. -/
def removals (s : Session) (xs : List Happening) (i : ParticipantId) : Nat :=
  (s.moments xs).countP fun m => m.1.removed? m.2 == some i

/-- How often any number was freed. -/
def allRemovals (s : Session) (xs : List Happening) : Nat :=
  (s.moments xs).countP fun m => (m.1.removed? m.2).isSome

/-- How often the log says that a participant went: every broadcast of a leave comes with one such
line. -/
def departures (s : Session) (xs : List Happening) (i : ParticipantId) : Nat :=
  ((s.moments xs).flatMap fun m => (m.1.step m.2).notices).countP (·.tellsDeparture i)

theorem removals_append (s : Session) (xs ys : List Happening) (i : ParticipantId) :
    s.removals (xs ++ ys) i = s.removals xs i + (s.run xs).removals ys i := by
  simp [removals, moments_append]

theorem allRemovals_append (s : Session) (xs ys : List Happening) :
    s.allRemovals (xs ++ ys) = s.allRemovals xs + (s.run xs).allRemovals ys := by
  simp [allRemovals, moments_append]

theorem departures_append (s : Session) (xs ys : List Happening) (i : ParticipantId) :
    s.departures (xs ++ ys) i = s.departures xs i + (s.run xs).departures ys i := by
  simp [departures, moments_append]

variable {s : Session} {x : Happening} {i : ParticipantId} {admitted : Nat}

theorem removals_singleton (s : Session) (x : Happening) (i : ParticipantId) :
    s.removals [x] i = (s.removed? x == some i).toNat := by
  cases freed : s.removed? x == some i <;> simp [removals, moments, freed]

theorem allRemovals_singleton (s : Session) (x : Happening) :
    s.allRemovals [x] = (s.removed? x).isSome.toNat := by
  cases freed : (s.removed? x).isSome <;> simp [allRemovals, moments, freed]

theorem departures_singleton (s : Session) (x : Happening) (i : ParticipantId) :
    s.departures [x] i = (s.step x).notices.countP (·.tellsDeparture i) := by
  simp [departures, moments]

/-- The number that a happening frees is that of the participant who departs. -/
theorem removed?_eq (consistent : s.room.seating.Consistent) :
    s.removed? x = (s.deed x).departs? := by
  cases x with
  | connect h capacity => exact (s.room.departs?_connect h _).symm
  | make capacity => rfl
  | pass nanoseconds => rfl
  | take box count => rfl
  | close box => rfl
  | drop box => rfl
  | command c =>
    cases c with
    | connect h box => exact (s.room.departs?_connect h box).symm
    | message h m => exact (s.room.departs?_message h m).symm
    | listParticipants => rfl
    | disconnect h =>
      rw [removed?, deed, Happening.command?, Option.elim_some, Room.deed]
      cases found : s.room.seating.seat? h with
      | none =>
        rw [(s.room.unseat_of_none s.outboxes found).1]
        rfl
      | some seat =>
        rw [(s.room.performs_unseat s.outboxes found).1]
        rfl
    | kick i =>
      rw [removed?, step, Room.reply_apply, Room.answer, deed, Happening.command?, Option.elim_some]
      cases owned : s.room.seating.handleOf? i with
      | none =>
        rw [Room.deed_kick_of_none owned]
        rfl
      | some h =>
        obtain ⟨seat, found, rfl⟩ := consistent.handleOf?_eq_some_iff.mp owned
        rw [Room.deed_kick_of_seat consistent found]
        rfl

/-- It is made known once that a participant goes, when it goes. -/
theorem departures_step (consistent : s.room.seating.Consistent) :
    s.departures [x] i = (s.removed? x == some i).toNat := by
  have logged : s.departures [x] i = ((s.deed x).departs?.any (· == i)).toNat := by
    rw [departures_singleton]
    cases x with
    | connect h capacity => exact s.room.countP_apply _ _
    | command c => exact s.room.countP_apply _ c
    | make capacity => rfl
    | pass nanoseconds =>
      rw [step]
      cases s.room.advance nanoseconds <;> rfl
    | take box count =>
      rw [step]
      cases s.outboxes.get? box <;> rfl
    | close box => rfl
    | drop box => rfl
  rw [logged, removed?_eq consistent]
  cases (s.deed x).departs? <;> rfl

/-- A number is below the next one if it is in the snapshot. -/
theorem young_of_mem_ids (numbered : s.room.Numbered admitted) (member : i ∈ s.room.seating.ids) :
    i.toNat < admitted := by
  obtain ⟨p, listed, rfl⟩ := List.mem_map.mp member
  obtain ⟨h, found⟩ := numbered.consistent.mem_snapshot_iff.mp listed
  obtain ⟨seat, sat, rfl⟩ := Seating.get_eq_ok_iff.mp found
  exact numbered.young h seat sat

/-- How often a number was freed is settled by who was given a seat and who is there. -/
structure Balanced (s : Session) (admitted : Nat) (i : ParticipantId) (freed : Nat) : Prop where
  ahead : admitted ≤ i.toNat → freed = 0
  present : i ∈ s.room.seating.ids → freed = 0
  gone : i.toNat < admitted → i ∉ s.room.seating.ids → freed = 1

/-- A happening may give the next number, or free one that is taken; all others stay as they are. -/
theorem Balanced.step {freed : Nat} (balanced : s.Balanced admitted i freed)
    (numbered : s.room.Numbered admitted) :
    (s.step x).session.Balanced (admitted + (s.deed x).admits.toNat) i
      (freed + (s.removed? x == some i).toNat) := by
  have fits := s.fits_deed x
  have after : i ∈ (s.step x).room.seating.ids ↔ i ∈ s.room.seating.ids ∧
      s.removed? x ≠ some i ∨ (s.deed x).admits = true ∧ i = s.room.nextId := by
    rw [(s.step_deed x).1, Room.mem_ids_does numbered.consistent fits,
      removed?_eq numbered.consistent]
  have young : i ∈ s.room.seating.ids → i.toNat < admitted := young_of_mem_ids numbered
  have next : i = s.room.nextId → i.toNat = admitted := by
    rintro rfl
    exact numbered.counted
  obtain ⟨ahead, present, gone⟩ := balanced
  by_cases goes : s.removed? x = some i
  · have here : i ∈ s.room.seating.ids := by
      rw [removed?_eq numbered.consistent] at goes
      exact Room.mem_ids_of_departs? numbered.consistent fits goes
    have left : i ∉ (s.step x).room.seating.ids := by
      rw [after]
      rintro (⟨-, stays⟩ | ⟨-, new⟩)
      · exact stays goes
      · have := young here
        have := next new
        omega
    have once : freed + (s.removed? x == some i).toNat = 1 := by simp [goes, present here]
    rw [once]
    refine ⟨fun above => ?_, fun member => absurd member left, fun _ _ => rfl⟩
    have := young here
    omega
  · have kept : (s.removed? x == some i).toNat = 0 := by simp [goes]
    rw [kept, Nat.add_zero]
    constructor
    · intro above
      exact ahead (by omega)
    · intro member
      rcases after.mp member with ⟨before, -⟩ | ⟨-, new⟩
      · exact present before
      · exact ahead (next new).ge
    · intro below left
      have absent : i ∉ s.room.seating.ids := fun member => left (after.mpr (.inl ⟨member, goes⟩))
      refine gone ?_ absent
      by_contra above
      have admits : (s.deed x).admits = true := by
        cases admits : (s.deed x).admits with
        | true => rfl
        | false =>
          rw [admits] at below
          exact absurd below above
      rw [admits, Bool.toNat_true] at below
      refine left (after.mpr (.inr ⟨admits, UInt64.toNat_inj.mp ?_⟩))
      rw [numbered.counted]
      omega

/-- Over a whole run, every number is balanced. -/
theorem balanced_run {xs : List Happening} (few : start.admissions xs < UInt64.size)
    (i : ParticipantId) :
    (start.run xs).Balanced (start.admissions xs) i (start.removals xs i) := by
  induction xs using List.reverseRecOn with
  | nil =>
    refine ⟨fun _ => rfl, fun _ => rfl, fun below _ => ?_⟩
    exact absurd below (Nat.not_lt_zero _)
  | append_singleton xs x ih =>
    rw [admissions_append] at few
    have fewer : start.admissions xs < UInt64.size := by omega
    rw [run_concat, admissions_append, admissions_singleton, removals_append, removals_singleton]
    exact (ih fewer).step (numbered_run fewer)

/-- A number is made known as free as often as it was freed. -/
theorem departures_run {xs : List Happening} (few : start.admissions xs < UInt64.size)
    (i : ParticipantId) : start.departures xs i = start.removals xs i := by
  induction xs using List.reverseRecOn with
  | nil => rfl
  | append_singleton xs x ih =>
    rw [admissions_append] at few
    have fewer : start.admissions xs < UInt64.size := by omega
    rw [departures_append, removals_append, ih fewer, removals_singleton,
      departures_step (numbered_run fewer).consistent]

/-- Whoever was given a seat is there, or was taken away. -/
theorem size_run {xs : List Happening} (few : start.admissions xs < UInt64.size) :
    (start.run xs).room.seating.size + start.allRemovals xs = start.admissions xs := by
  induction xs using List.reverseRecOn with
  | nil => rfl
  | append_singleton xs x ih =>
    rw [admissions_append] at few
    have fewer : start.admissions xs < UInt64.size := by omega
    have consistent := (numbered_run fewer).consistent
    have sizes := Room.size_does consistent ((start.run xs).fits_deed x)
    rw [← ((start.run xs).step_deed x).1, ← removed?_eq consistent] at sizes
    have before := ih fewer
    rw [run_concat, allRemovals_append, allRemovals_singleton, admissions_append,
      admissions_singleton, Outcome.session]
    dsimp only
    omega

/-- A number that is not there any more is never there again. -/
theorem never_again {before after : List Happening}
    (few : start.admissions (before ++ after) < UInt64.size)
    (given : i.toNat < start.admissions before) (gone : i ∉ (start.run before).room.seating.ids) :
    i ∉ (start.run (before ++ after)).room.seating.ids := by
  have fewer := few
  rw [admissions_append] at fewer
  have once := (balanced_run (by omega) i).gone given gone
  intro again
  have none := (balanced_run few i).present again
  rw [removals_append] at none
  omega

/-- A connection that asks for a seat and has none is given one under the next number. -/
theorem admitted_of_free (numbered : s.room.Numbered admitted) {h : Handle} {box : OutboxId}
    (asks : x.asks? s = some (h, box)) (free : s.room.seating.contains h = false) :
    s.room.seating.insert h ⟨.fresh s.room.nextId, box⟩ = .ok (s.step x).room.seating ∧
      (s.step x).room.seating.seat? h = some ⟨.fresh s.room.nextId, box⟩ ∧
      s.admissions [x] = 1 := by
  have admitted : s.deed x = .admitted h ⟨.fresh s.room.nextId, box⟩ := by
    rw [deed_of_asks asks, numbered.deed_connect free]
  obtain ⟨t, inserted⟩ : ∃ t, s.room.seating.insert h ⟨.fresh s.room.nextId, box⟩ = .ok t := by
    simp [Seating.insert, free, numbered.nextId_free]
  have after : (s.step x).room.seating = t := by
    rw [(s.step_deed x).1, admitted]
    simp [Seating.does, Deed.operation?, Seating.after, Seating.perform, inserted]
  rw [after, admissions_singleton, admitted]
  exact ⟨inserted, by rw [Seating.seat?_insert inserted, if_pos rfl], rfl⟩

/-- A connection that asks for a seat and has one changes nothing in the room. -/
theorem room_of_seated {h : Handle} {box : OutboxId} (asks : x.asks? s = some (h, box))
    (seated : s.room.seating.contains h = true) :
    (s.step x).room = s.room ∧ s.admissions [x] = 0 := by
  have refused : s.deed x = .refused h box := by
    rw [deed_of_asks asks, Room.deed, if_pos seated]
  obtain ⟨c, brings⟩ : ∃ c, x.command? s = some c := by
    cases brings : x.command? s with
    | none =>
      rw [Happening.asks?, brings] at asks
      cases asks
    | some c => exact ⟨c, rfl⟩
  have performs := s.performs_step x brings
  rw [admissions_singleton, performs.room, refused]
  exact ⟨rfl, rfl⟩

/-- Nothing but a connection that asks for a seat uses up a number. -/
theorem nextId_of_not_asks (numbered : s.room.Numbered admitted) (silent : x.asks? s = none) :
    (s.step x).room.nextId = s.room.nextId ∧ s.admissions [x] = 0 := by
  rw [(s.step_deed x).2.1, Room.nextId_does, admissions_singleton]
  cases happened : s.deed x with
  | admitted h seat => cases silent.symm.trans (asks?_of_admitted numbered.consistent happened)
  | clashed h => exact absurd happened (numbered.not_clashed (s.fits_deed x))
  | left h seat => exact ⟨rfl, rfl⟩
  | dismissed h seat => exact ⟨rfl, rfl⟩
  | changed h seat c => exact ⟨rfl, rfl⟩
  | refused h box => exact ⟨rfl, rfl⟩
  | restarted h => exact ⟨rfl, rfl⟩
  | nothing => exact ⟨rfl, rfl⟩

/-- A departure is offered to those who are still there, when it happens. -/
theorem leave_offers (consistent : s.room.seating.Consistent) (i : ParticipantId) :
    ((s.step x).offers.filter (·.event.isLeave i)).map (fun o => (o.handle, o.outbox)) =
      if s.removed? x = some i then
        (s.step x).room.seating.seats.map fun e => (e.1, e.2.outbox)
      else [] := by
  obtain ⟨seating, -, sent⟩ := s.step_deed x
  have listed := Outboxes.dispatch_of_offers (s.prepared x) (s.room.dispatches (s.deed x))
  rw [← (Prod.mk.inj sent).2] at listed
  have told := congrArg (List.map fun d => (d.handle, d.outbox))
    (s.room.filter_dispatches_isLeave (i := i) (s.deed x))
  rw [← listed, List.filter_map, List.map_map, ← removed?_eq consistent, ← seating] at told
  refine told.trans ?_
  split
  · exact List.map_map
  · rfl

/-- How the numbers of a run were used. -/
structure Accounts (xs : List Happening) : Prop where
  /-- As many numbers were given as connections were given a seat. -/
  counted : (start.run xs).room.nextId.toNat = start.admissions xs
  /-- Everyone seated has a number below the next one. -/
  young : ∀ h seat, (start.run xs).room.seating.seat? h = some seat →
    seat.participant.id < (start.run xs).room.nextId
  /-- A connection that asks for a seat and has none is given one under the next number. -/
  admits : ∀ x h box, x.asks? (start.run xs) = some (h, box) →
    (start.run xs).room.seating.contains h = false →
      (start.run xs).room.seating.insert h ⟨.fresh (start.run xs).room.nextId, box⟩ =
        .ok (start.run (xs ++ [x])).room.seating ∧
      (start.run (xs ++ [x])).room.seating.seat? h =
        some ⟨.fresh (start.run xs).room.nextId, box⟩ ∧
      start.admissions (xs ++ [x]) = start.admissions xs + 1
  /-- A connection that asks for a seat and has one uses up no number. -/
  refuses : ∀ x h box, x.asks? (start.run xs) = some (h, box) →
    (start.run xs).room.seating.contains h = true →
      (start.run (xs ++ [x])).room = (start.run xs).room ∧
      start.admissions (xs ++ [x]) = start.admissions xs
  /-- Nor does anything else. -/
  ignores : ∀ x, x.asks? (start.run xs) = none →
    (start.run (xs ++ [x])).room.nextId = (start.run xs).room.nextId ∧
      start.admissions (xs ++ [x]) = start.admissions xs
  /-- A number that was given and is not there any more is never there again. -/
  never : ∀ before after i, xs = before ++ after → i.toNat < start.admissions before →
    i ∉ (start.run before).room.seating.ids → i ∉ (start.run xs).room.seating.ids
  /-- No number is freed twice. -/
  once : ∀ i, start.removals xs i ≤ 1
  /-- A number was freed exactly if it was given and is not there any more. -/
  freed : ∀ i, start.removals xs i = 1 ↔
    i.toNat < start.admissions xs ∧ i ∉ (start.run xs).room.seating.ids
  /-- Whenever a number is freed, and only then, a leave is broadcast. Broadcasts are counted by the
  line in the log that comes with each of them, since nobody may be left to hear one; `told` says that
  the leave is then offered to everyone who is left. -/
  known : ∀ i, start.departures xs i = start.removals xs i
  /-- A leave is offered, once to everyone who is still there, exactly when its number is freed. -/
  told : ∀ x i, (((start.run xs).step x).offers.filter (·.event.isLeave i)).map
      (fun o => (o.handle, o.outbox)) =
    if (start.run xs).removed? x = some i then
      (start.run (xs ++ [x])).room.seating.seats.map fun e => (e.1, e.2.outbox)
    else []
  /-- A kick is answered with yes exactly if the number is in the snapshot. -/
  answers : ∀ i, ((start.run xs).step (.command (.kick i))).reply =
    .kicked (decide (i ∈ (start.run xs).room.seating.ids))
  /-- A kick takes away the seat with the number and no other, whoever had the handle before. -/
  kicks : ∀ i, (∀ k seat, (start.run (xs ++ [.command (.kick i)])).room.seating.seat? k = some seat ↔
      (start.run xs).room.seating.seat? k = some seat ∧ seat.participant.id ≠ i) ∧
    (start.run (xs ++ [.command (.kick i)])).room.seating.snapshot =
      (start.run xs).room.seating.snapshot.filter (·.id != i)
  /-- Whoever was given a seat has one or was removed. -/
  size : (start.run xs).room.seating.size + start.allRemovals xs = start.admissions xs

/-- As long as numbers last, each is given once, in order, and freed at most once, by a kick or by
its own connection; those who are there are the ones whose numbers were not freed, and everyone
else is told of each number that becomes free. -/
theorem accounts_run (xs : List Happening) (few : start.admissions xs < UInt64.size) :
    Accounts xs := by
  have numbered := numbered_run few
  have consistent := numbered.consistent
  have balanced := balanced_run few
  have freed_of_not {i : ParticipantId}
      (not : ¬ (i.toNat < start.admissions xs ∧ i ∉ (start.run xs).room.seating.ids)) :
      start.removals xs i = 0 := by
    by_cases there : i ∈ (start.run xs).room.seating.ids
    · exact (balanced i).present there
    · exact (balanced i).ahead (not_lt.mp fun given => not ⟨given, there⟩)
  constructor
  case counted => exact numbered.counted
  case young =>
    intro h seat found
    rw [UInt64.lt_iff_toNat_lt, numbered.counted]
    exact numbered.young h seat found
  case admits =>
    intro x h box asks free
    rw [run_concat, admissions_append, Nat.add_left_cancel_iff]
    exact admitted_of_free numbered asks free
  case refuses =>
    intro x h box asks seated
    rw [run_concat, admissions_append, Nat.add_eq_left]
    exact room_of_seated asks seated
  case ignores =>
    intro x silent
    rw [run_concat, admissions_append, Nat.add_eq_left]
    exact nextId_of_not_asks numbered silent
  case never =>
    rintro before after i rfl given gone
    exact never_again few given gone
  case once =>
    intro i
    by_cases given : i.toNat < start.admissions xs ∧ i ∉ (start.run xs).room.seating.ids
    · exact ((balanced i).gone given.1 given.2).le
    · exact (freed_of_not given).le.trans (Nat.zero_le 1)
  case freed =>
    intro i
    constructor
    · intro once
      by_contra given
      rw [freed_of_not given] at once
      cases once
    · rintro ⟨given, gone⟩
      exact (balanced i).gone given gone
  case known => exact departures_run few
  case told =>
    intro x i
    rw [run_concat]
    exact leave_offers consistent i
  case answers =>
    intro i
    rw [step, Room.reply_apply, Room.answer, Seating.isSome_handleOf? consistent]
  case kicks =>
    intro i
    have moved := ((start.run xs).step_deed (.command (.kick i))).1
    rw [run_concat, Outcome.session, moved]
    exact ⟨Room.seat?_kicked consistent, Room.snapshot_kicked consistent⟩
  case size => exact size_run few

/-- A connection leaves and comes again under its handle, after a duplicate was turned away. Its
former number is kicked in vain. -/
def reusedRun : List Happening :=
  [.connect 7 .largest, .connect 8 .largest, .connect 7 .largest, .command (.disconnect 7),
    .connect 7 .largest, .command (.kick 0)]

/-- Three numbers were given, and the first is free. A kick of the third one removes the connection
that had the first one before. -/
theorem accounts_run_reused :
    start.admissions reusedRun < UInt64.size ∧ Accounts reusedRun ∧
      start.admissions reusedRun = 3 ∧ start.removals reusedRun 0 = 1 ∧
      start.departures reusedRun 0 = 1 ∧
      ((start.run reusedRun).step (.command (.kick 0))).reply = .kicked false ∧
      (start.run (reusedRun ++ [.command (.kick 2)])).room.seating.snapshot = [.fresh 1] := by
  have few : start.admissions reusedRun < UInt64.size := by decide +kernel
  have accounts := accounts_run reusedRun few
  have freed : start.removals reusedRun 0 = 1 := (accounts.freed 0).mpr (by decide +kernel)
  exact ⟨few, accounts, by decide +kernel, freed, (accounts.known 0).trans freed, accounts.answers 0,
    (accounts.kicks 2).2⟩

end LiveRelay.Session
