import LiveRelay.Proofs.Session.Mirror

/-! # The epoch

A run is cut where its epoch began: someone with a seat started the clock again there, and nobody
did so since then. The clock shows how long the rest of the run takes, whatever else happens in it,
and so does a timer that a client starts when it is greeted and starts again when it is told to.
-/

namespace LiveRelay

namespace SharedClock

/-- The clock after some time, or the same clock if it cannot count so far. -/
def passed (c : SharedClock) (nanoseconds : Nat) : SharedClock :=
  (c.advance nanoseconds).toOption.getD c

variable {c : SharedClock} {nanoseconds : Nat}

theorem passed_zero (c : SharedClock) : c.passed 0 = c := by
  unfold passed advance
  split <;> rfl

theorem epoch_passed (c : SharedClock) (nanoseconds : Nat) :
    (c.passed nanoseconds).epoch = c.epoch := by
  unfold passed advance
  split <;> rfl

theorem now_le_passed (c : SharedClock) (nanoseconds : Nat) :
    c.now ≤ (c.passed nanoseconds).now := by
  unfold passed advance
  split
  · exact Nat.le_add_right _ _
  · exact Nat.le_refl _

theorem now_passed (countable : (c.now + nanoseconds) / nanosecondsPerSecond < secondsLimit) :
    (c.passed nanoseconds).now = c.now + nanoseconds := by
  rw [passed, advance, if_pos countable]
  rfl

theorem elapsed_le_passed (c : SharedClock) (nanoseconds : Nat) :
    c.elapsed ≤ (c.passed nanoseconds).elapsed := by
  rw [elapsed, elapsed, epoch_passed]
  exact Nat.sub_le_sub_right (c.now_le_passed nanoseconds) _

theorem elapsed_passed (countable : (c.now + nanoseconds) / nanosecondsPerSecond < secondsLimit) :
    (c.passed nanoseconds).elapsed = c.elapsed + nanoseconds := by
  rw [elapsed, elapsed, epoch_passed, now_passed countable]
  exact Nat.sub_add_comm c.epoch_le_now

end SharedClock

namespace Happening

/-- How long a happening takes. -/
def duration : Happening → Nat
  | .pass nanoseconds => nanoseconds
  | .connect _ _ | .make _ | .command _ | .take _ _ | .close _ | .drop _ => 0

/-- Whether someone with a seat starts the epoch again. -/
def restarts (s : Session) : Happening → Bool
  | .command (.message h .reset) => s.room.seating.contains h
  | _ => false

end Happening

namespace Room

variable {r : Room} {h : Handle}

/-- Only a reset starts the clock again. -/
theorem eq_of_restarted {c : Command} (happened : r.deed c = .restarted h) :
    c = .message h .reset := by
  cases c with
  | connect k box =>
    rw [deed] at happened
    split at happened
    · cases happened
    · split at happened <;> cases happened
  | disconnect k =>
    rw [deed] at happened
    cases found : r.seating.seat? k <;> rw [found] at happened <;> cases happened
  | message k m =>
    cases m with
    | change c =>
      rw [deed] at happened
      cases found : r.seating.seat? k <;> rw [found] at happened <;> cases happened
    | reset =>
      rw [deed] at happened
      cases found : r.seating.seat? k <;> rw [found] at happened <;> cases happened
      rfl
  | listParticipants => cases happened
  | kick i =>
    rw [deed] at happened
    cases owned : r.seating.handleOf? i with
    | none =>
      rw [owned] at happened
      cases happened
    | some k =>
      rw [owned, Option.elim_some] at happened
      cases found : r.seating.seat? k <;> rw [found] at happened <;> cases happened

end Room

namespace Session

/-- How long a run takes. -/
def duration : List Happening → Nat
  | [] => 0
  | x :: xs => x.duration + duration xs

/-- A run that the clock can count to its end. -/
def Countable (xs : List Happening) : Prop :=
  duration xs / SharedClock.nanosecondsPerSecond < SharedClock.secondsLimit

instance (xs : List Happening) : Decidable (Countable xs) :=
  inferInstanceAs (Decidable (_ < _))

theorem duration_append (xs ys : List Happening) :
    duration (xs ++ ys) = duration xs + duration ys := by
  induction xs with
  | nil => simp [duration]
  | cons x xs ih => rw [List.cons_append, duration, duration, ih, Nat.add_assoc]

theorem duration_concat (xs : List Happening) (x : Happening) :
    duration (xs ++ [x]) = duration xs + x.duration :=
  duration_append xs [x]

/-- A run is countable as far as it has come. -/
theorem Countable.before {xs ys : List Happening} (countable : Countable (xs ++ ys)) :
    Countable xs := by
  refine Nat.lt_of_le_of_lt (Nat.div_le_div_right ?_) countable
  rw [duration_append]
  exact Nat.le_add_right _ _

variable {s : Session} {x : Happening} {xs : List Happening} {k : Handle} {seat : Seat}

theorem duration_of_restarts (restarts : x.restarts s = true) : x.duration = 0 := by
  unfold Happening.restarts at restarts
  split at restarts
  · rfl
  · cases restarts

/-- Without a command, time passes at most. -/
theorem clock_idle (idle : x.command? s = none) :
    (s.step x).room.clock = s.room.clock.passed x.duration := by
  cases x with
  | connect h capacity => cases idle
  | command c => cases idle
  | make capacity => exact (SharedClock.passed_zero _).symm
  | pass nanoseconds =>
    simp only [step, Room.advance, Happening.duration, SharedClock.passed]
    cases s.room.clock.advance nanoseconds <;> rfl
  | take box count =>
    simp only [step]
    cases s.outboxes.get? box <;> exact (SharedClock.passed_zero _).symm
  | close box => exact (SharedClock.passed_zero _).symm
  | drop box => exact (SharedClock.passed_zero _).symm

/-- A command takes no time. -/
theorem clock_command {c : Command} (brings : x.command? s = some c) :
    x.duration = 0 ∧ (s.step x).room.clock = (s.room.does (s.deed x)).clock := by
  refine ⟨?_, congrArg Room.clock (s.performs_step x brings).room⟩
  cases x <;> first | rfl | cases brings

/-- The clock is started again exactly when someone with a seat asks for it. -/
theorem restarts_iff : x.restarts s = true ↔ ∃ h, s.deed x = .restarted h := by
  constructor
  · intro restarts
    unfold Happening.restarts at restarts
    split at restarts
    · next h =>
      obtain ⟨seat, found⟩ := Seating.contains_iff.mp restarts
      exact ⟨h, by simp [deed, Happening.command?, Room.deed, found]⟩
    · cases restarts
  · rintro ⟨h, happened⟩
    have fits := s.fits_deed x
    rw [happened] at fits
    cases brings : x.command? s with
    | none =>
      rw [deed, brings] at happened
      cases happened
    | some c =>
      rw [deed_of_command brings] at happened
      obtain rfl := Room.eq_of_restarted happened
      cases x <;> cases brings
      exact Seating.contains_iff.mpr fits

/-- What a happening does to the clock: it starts again, or the time passes that the happening takes,
if the clock can count so far. -/
theorem clock_step (s : Session) (x : Happening) : (s.step x).room.clock =
    if x.restarts s then s.room.clock.reset else s.room.clock.passed x.duration := by
  cases brings : x.command? s with
  | none =>
    have vain : x.restarts s = false := by cases x <;> first | rfl | cases brings
    rw [vain, clock_idle brings]
    rfl
  | some c =>
    obtain ⟨still, clock⟩ := clock_command brings
    rw [clock, still, SharedClock.passed_zero]
    split
    · next restarts =>
      obtain ⟨h, happened⟩ := restarts_iff.mp restarts
      rw [happened]
      rfl
    · next other =>
      cases happened : s.deed x with
      | restarted h => exact absurd (restarts_iff.mpr ⟨h, happened⟩) other
      | _ => rfl

/-- The clock counts from the start of the run. -/
theorem now_run (countable : Countable xs) : (start.run xs).room.clock.now = duration xs := by
  induction xs using List.reverseRecOn with
  | nil => rfl
  | append_singleton xs x ih =>
    have before := ih countable.before
    rw [Countable, duration_concat, ← before] at countable
    rw [run_concat, Outcome.session, clock_step, duration_concat, ← before]
    split
    · next restarts => rw [duration_of_restarts restarts, Nat.add_zero, SharedClock.reset]
    · exact SharedClock.now_passed countable

/-- What one more happening does to the time since the epoch began. -/
theorem elapsed_concat (countable : Countable (xs ++ [x])) :
    (start.run (xs ++ [x])).room.clock.elapsed = if x.restarts (start.run xs) then 0
      else (start.run xs).room.clock.elapsed + x.duration := by
  have now := now_run countable.before
  rw [Countable, duration_concat, ← now] at countable
  rw [run_concat, Outcome.session, clock_step]
  split
  · exact SharedClock.elapsed_reset _
  · exact SharedClock.elapsed_passed countable

/-- A run cut where its epoch began: the first part is empty, or it ends as someone with a seat
starts the clock again; and in the second part nobody does. -/
structure EpochBegins (before after : List Happening) : Prop where
  began : before = [] ∨
    ∃ earlier x, before = earlier ++ [x] ∧ x.restarts (start.run earlier) = true
  undisturbed : ∀ m ∈ (start.run before).moments after, m.2.restarts m.1 = false

/-- The clock shows how long it is since its epoch began. -/
theorem elapsed_run (countable : Countable xs) : ∃ before after, xs = before ++ after ∧
    EpochBegins before after ∧ (start.run xs).room.clock.elapsed = duration after := by
  induction xs using List.reverseRecOn with
  | nil => exact ⟨[], [], rfl, ⟨.inl rfl, nofun⟩, rfl⟩
  | append_singleton xs x ih =>
    rw [elapsed_concat countable]
    obtain ⟨before, after, rfl, ⟨began, undisturbed⟩, shown⟩ := ih countable.before
    cases restarts : x.restarts (start.run (before ++ after)) with
    | true =>
      refine ⟨before ++ after ++ [x], [], by simp, ⟨.inr ⟨_, x, rfl, restarts⟩, ?_⟩, rfl⟩
      intro m member
      cases member
    | false =>
      refine ⟨before, after ++ [x], by simp, ⟨began, ?_⟩, by simp [shown, duration_concat]⟩
      intro m member
      rw [moments_append, ← run_append] at member
      rcases List.mem_append.mp member with old | new
      · exact undisturbed m old
      · rw [List.mem_singleton.mp new]
        exact restarts

theorem epoch_le_step (s : Session) (x : Happening) :
    s.room.clock.epoch ≤ (s.step x).room.clock.epoch := by
  rw [clock_step]
  split
  · exact s.room.clock.epoch_le_now
  · exact Nat.le_of_eq (SharedClock.epoch_passed _ _).symm

/-- The epoch never moves back. -/
theorem epoch_le_run (s : Session) (xs : List Happening) :
    s.room.clock.epoch ≤ (s.run xs).room.clock.epoch := by
  induction xs generalizing s with
  | nil => exact Nat.le_refl _
  | cons x xs ih => exact Nat.le_trans (s.epoch_le_step x) (ih (s.step x).session)

/-- The time since the epoch began does not shrink while the clock is not started again. -/
theorem elapsed_le_run (undisturbed : ∀ m ∈ s.moments xs, m.2.restarts m.1 = false) :
    s.room.clock.elapsed ≤ (s.run xs).room.clock.elapsed := by
  induction xs generalizing s with
  | nil => exact Nat.le_refl _
  | cons x xs ih =>
    have first := undisturbed (s, x) (.head _)
    have rest := ih fun m member => undisturbed m (.tail _ member)
    refine Nat.le_trans ?_ rest
    rw [Outcome.session, clock_step, first]
    exact SharedClock.elapsed_le_passed _ _

/-- What a message does to a timer that a client keeps: the greeting sets it to what the clock shows
at that moment, and it is zeroed as the clock starts again. -/
def setTimer (elapsed : Nat) (timer : Option Nat) : ServerMessage → Option Nat
  | .hello _ _ _ => some elapsed
  | .reset => timer.map fun _ => 0
  | .join _ | .leave _ | .changed _ _ => timer

/-- The timer of a client after a run: time passes for it, too, and it hears what its outbox takes. -/
def timer (s : Session) (xs : List Happening) (box : OutboxId) : Option Nat :=
  (s.moments xs).foldl (fun timer m =>
    (m.1.heard [m.2] box).foldl (setTimer m.1.room.clock.elapsed)
      (timer.map (· + m.2.duration))) none

theorem timer_concat (s : Session) (xs : List Happening) (x : Happening) (box : OutboxId) :
    s.timer (xs ++ [x]) box = ((s.run xs).heard [x] box).foldl
      (setTimer (s.run xs).room.clock.elapsed) ((s.timer xs box).map (· + x.duration)) := by
  simp [timer, moments_append, moments]

/-- What a connection that keeps its seat is told zeroes its timer just when the clock starts
again. -/
theorem timer_told (kept : ∀ other, s.deed x ≠ .admitted k other) (elapsed : Nat)
    (shown : Option Nat) : ((s.deed x).told s.room k).foldl (setTimer elapsed) shown =
      if x.restarts s then shown.map fun _ => 0 else shown := by
  cases happened : s.deed x with
  | restarted h =>
    rw [if_pos (restarts_iff.mpr ⟨h, happened⟩)]
    rfl
  | admitted h other =>
    have elsewhere : k ≠ h := fun same => kept other (same ▸ happened)
    rw [if_neg fun restarts => by simp [restarts_iff, happened] at restarts, Deed.told,
      if_neg elsewhere]
    rfl
  | changed h other c =>
    rw [if_neg fun restarts => by simp [restarts_iff, happened] at restarts, Deed.told]
    split <;> rfl
  | _ =>
    rw [if_neg fun restarts => by simp [restarts_iff, happened] at restarts]
    rfl

/-- A greeting sets the timer of a newcomer, and takes no time. -/
theorem timer_greeting (happened : s.deed x = .admitted k seat) (elapsed : Nat)
    (shown : Option Nat) : x.restarts s = false ∧ x.duration = 0 ∧
      ((s.deed x).told s.room k).foldl (setTimer elapsed) shown = some elapsed := by
  refine ⟨?_, ?_, ?_⟩
  · rw [Bool.eq_false_iff, ne_eq, restarts_iff]
    rintro ⟨h, restarted⟩
    cases happened.symm.trans restarted
  · cases brings : x.command? s with
    | none =>
      rw [deed, brings] at happened
      cases happened
    | some c => exact (clock_command brings).1
  · rw [happened, Deed.told, if_pos rfl]
    rfl

/-- The timer of a connection with a seat that has lost no event shows what the clock shows. -/
theorem timer_run (orderly : Orderly xs) (countable : Countable xs)
    (seated : (start.run xs).room.seating.seat? k = some seat)
    (lossless : ∀ o ∈ start.offersTo xs seat.outbox, o.verdict = .accepted) :
    start.timer xs seat.outbox = some (start.run xs).room.clock.elapsed := by
  induction xs using List.reverseRecOn generalizing seat with
  | nil => cases seated
  | append_singleton xs x ih =>
    rw [offersTo_append] at lossless
    have taken : ∀ o ∈ (start.run xs).offersTo [x] seat.outbox, o.verdict = .accepted :=
      fun o member => lossless o (List.mem_append_right _ member)
    rw [run_concat] at seated
    have told := messagesTo_of_events ((housed_run orderly.before).told_step orderly.allows seated)
    rw [elapsed_concat countable, timer_concat, heard_eq_messagesTo taken, told]
    rcases seat_after seated with happened | ⟨before, sat, outbox, -⟩
    · obtain ⟨vain, still, set⟩ := timer_greeting happened
        (start.run xs).room.clock.elapsed ((start.timer xs seat.outbox).map (· + x.duration))
      rw [set, vain, still]
      rfl
    · have kept : ∀ other, (start.run xs).deed x ≠ .admitted k other := by
        intro other happened
        have fits := (start.run xs).fits_deed x
        rw [happened] at fits
        cases fits.1.symm.trans sat
      have shows := ih orderly.before countable.before sat fun o member =>
        lossless o (List.mem_append_left _ (outbox ▸ member))
      rw [timer_told kept, ← outbox, shows]
      split <;> rfl

/-- Everyone agrees on the clock. It shows how long it is since its epoch began, that is since the
last time that someone with a seat started it again, or since the start. So does the time in every
greeting, and so does the timer of every connection with a seat that has lost no event. The epoch
never moves back, and the time since it began shrinks only as it begins again. -/
theorem clock_shared (xs : List Happening) (countable : Countable xs) :
    (∃ before after, xs = before ++ after ∧ EpochBegins before after ∧
      (start.run xs).room.clock.elapsed = duration after) ∧
    (∀ m ∈ start.moments xs, ∀ o ∈ (m.1.step m.2).offers, ∀ i players time,
      o.event = .message (.hello i players time) → ∃ before after rest,
        xs = before ++ after ++ m.2 :: rest ∧ m.1 = start.run (before ++ after) ∧
        EpochBegins before after ∧ time = SharedClock.inSeconds (duration after)) ∧
    (Orderly xs → ∀ k seat, (start.run xs).room.seating.seat? k = some seat →
      (∀ o ∈ start.offersTo xs seat.outbox, o.verdict = .accepted) →
      start.timer xs seat.outbox = some (start.run xs).room.clock.elapsed) ∧
    (∀ ys zs, xs = ys ++ zs →
      (start.run ys).room.clock.epoch ≤ (start.run xs).room.clock.epoch ∧
      ((∀ m ∈ (start.run ys).moments zs, m.2.restarts m.1 = false) →
        (start.run ys).room.clock.elapsed ≤ (start.run xs).room.clock.elapsed)) := by
  refine ⟨elapsed_run countable, ?_, ?_, ?_⟩
  · intro m moment o offered i players time greeting
    obtain ⟨ys, rest, rfl, reached⟩ := moments_cut moment
    obtain ⟨before, after, rfl, begins, shown⟩ := elapsed_run countable.before
    have told := (m.1.shown_of_hello m.2 offered greeting).2
    rw [SharedClock.elapsedSeconds, reached, shown] at told
    exact ⟨before, after, rest, rfl, reached, begins, told⟩
  · intro orderly k seat seated lossless
    exact timer_run orderly countable seated lossless
  · rintro ys zs rfl
    rw [run_append]
    exact ⟨epoch_le_run _ _, elapsed_le_run⟩

/-- Someone without a seat tries to start the clock again, then someone with a seat does. -/
def restartedRun : List Happening :=
  [.pass 2, .connect 7 .largest, .pass 3, .command (.message 9 .reset), .pass 4,
    .command (.message 7 .reset), .pass 5, .connect 8 .largest, .pass 6]

theorem clock_shared_restarted :
    Countable restartedRun ∧ Orderly restartedRun ∧
      (start.run restartedRun).room.seating.seat? 7 = some ⟨.fresh 0, 0⟩ ∧
      (∀ o ∈ start.offersTo restartedRun 0, o.verdict = .accepted) ∧
      start.timer restartedRun 0 = some 11 := by
  have countable : Countable restartedRun := by decide +kernel
  have orderly : Orderly restartedRun := by decide +kernel
  have seated : (start.run restartedRun).room.seating.seat? 7 = some ⟨.fresh 0, 0⟩ := rfl
  have lossless : ∀ o ∈ start.offersTo restartedRun 0, o.verdict = .accepted := by decide +kernel
  have shows := (clock_shared restartedRun countable).2.2.1 orderly 7 _ seated lossless
  exact ⟨countable, orderly, seated, lossless, shows⟩

end Session

end LiveRelay
