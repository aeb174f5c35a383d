import LiveRelay.Proofs.Relay.Step

/-! # What a connection asks of the room in its life

A connection is started, and then hears of what its client does, of the events of its outbox and of
the beats of its heart, at any times and in any order. Two lemmas say what one of these does to a
running connection: it stays as it is but for what it has written and when it heard its client last,
or it stops. From them follows the whole sequence of commands that it sends: one request for a seat,
every message that its client says until it stops, and its farewell, which it leaves out if it was
ordered to stop.
-/

namespace LiveRelay

instance : DecidablePred Inbound.Ends
  | .close _ | .broken _ | .ended | .vanished => isTrue trivial
  | .text _ | .ping _ | .binary | .continuation | .pong | .nop => isFalse id

namespace Stimulus

/-- Whether a stimulus is the order to stop. -/
def Dismisses : Stimulus → Prop
  | .event (.dismissal _) => True
  | .event (.message _) | .client _ | .start _ | .beat => False

instance : DecidablePred Dismisses
  | .event (.dismissal _) => isTrue trivial
  | .event (.message _) | .client _ | .start _ | .beat => isFalse id

/-- Whether a client shows by what it does that it is still there. -/
def ShowsLife : Stimulus → Prop
  | .client (.text _) | .client (.ping _) | .client .pong => True
  | _ => False

instance : DecidablePred ShowsLife := fun x => by unfold ShowsLife; split <;> infer_instance

/-- When the client was heard last, after it was heard last at some time. -/
def heardAt (since now : Nat) (x : Stimulus) : Nat := if x.ShowsLife then now else since

/-- Whether a connection stops when it hears of a stimulus: its client is gone, or has been silent
for too long, or the room orders it to. -/
def Stops (since now : Nat) : Stimulus → Prop
  | .client x => x.Ends
  | .event e => (Stimulus.event e).Dismisses
  | .beat => Connection.clientTimeout < now - since
  | .start _ => False

instance (since now : Nat) : DecidablePred (Stops since now)
  | .client x => inferInstanceAs (Decidable x.Ends)
  | .event e => inferInstanceAs (Decidable (Stimulus.event e).Dismisses)
  | .beat => inferInstanceAs (Decidable (Connection.clientTimeout < now - since))
  | .start _ => isFalse id

/-- The message that a client says, if it is one that can be read. -/
def speech? : Stimulus → Option ClientMessage
  | .client x => x.speech?
  | .event _ | .start _ | .beat => none

theorem Dismisses.stops {x : Stimulus} (dismisses : x.Dismisses) (since now : Nat) :
    x.Stops since now := by
  cases x with
  | event e => exact dismisses
  | client x => exact dismisses.elim
  | start box => exact dismisses
  | beat => exact dismisses.elim

/-- What stops a connection is no message. -/
theorem speech?_of_stops {x : Stimulus} {since now : Nat} (stops : x.Stops since now) :
    x.speech? = none := by
  cases x with
  | client x => cases x <;> first | rfl | exact stops.elim
  | event | start | beat => rfl

end Stimulus

/-- What a connection hears of, each with the time in nanoseconds. -/
abbrev Course := List (Nat × Stimulus)

namespace Course

/-- When the client was heard last, after it was heard last at some time. -/
def lastHeard (since : Nat) : Course → Nat
  | [] => since
  | (now, x) :: xs => lastHeard (x.heardAt since now) xs

/-- What a connection handles: everything up to the first stimulus that stops it. -/
def handled (since : Nat) : Course → Course
  | [] => []
  | (now, x) :: xs =>
    if x.Stops since now then [(now, x)] else (now, x) :: handled (x.heardAt since now) xs

/-- A connection hears that its client closes, breaks the protocol or has come to its end, or that it
has to stop. -/
def Farewell (xs : Course) : Prop :=
  (∃ now reason, (now, .client (.close reason)) ∈ xs) ∨
    (∃ now e, (now, .client (.broken e)) ∈ xs) ∨ (∃ now, (now, .client .ended) ∈ xs) ∨
      ∃ now reason, (now, .event (.dismissal reason)) ∈ xs

/-- At a beat the client has been silent for too long. -/
def Missed (since : Nat) (xs : Course) : Prop :=
  ∃ earlier now later, xs = earlier ++ (now, .beat) :: later ∧
    Connection.clientTimeout < now - lastHeard since earlier

/-- A connection hears of something that stops it. -/
def Halts (since : Nat) (xs : Course) : Prop :=
  ∃ earlier now x later, xs = earlier ++ (now, x) :: later ∧
    x.Stops (lastHeard since earlier) now

variable {since now : Nat} {x : Stimulus} {xs : Course}

theorem handled_cons_of_stops (stops : x.Stops since now) (xs : Course) :
    handled since ((now, x) :: xs) = [(now, x)] := if_pos stops

theorem handled_cons_of_not_stops (goes : ¬ x.Stops since now) (xs : Course) :
    handled since ((now, x) :: xs) = (now, x) :: handled (x.heardAt since now) xs := if_neg goes

theorem not_halts_nil (since : Nat) : ¬ Halts since [] := by
  rintro ⟨earlier, now, x, later, split, -⟩
  simp at split

theorem halts_cons :
    Halts since ((now, x) :: xs) ↔ x.Stops since now ∨ Halts (x.heardAt since now) xs := by
  constructor
  · rintro ⟨earlier, time, y, later, split, stops⟩
    rcases List.cons_eq_append_iff.mp split with ⟨rfl, same⟩ | ⟨rest, rfl, rfl⟩
    · cases same
      exact .inl stops
    · exact .inr ⟨rest, time, y, later, rfl, stops⟩
  · rintro (stops | ⟨earlier, time, y, later, rfl, stops⟩)
    · exact ⟨[], now, x, xs, rfl, stops⟩
    · exact ⟨(now, x) :: earlier, time, y, later, rfl, stops⟩

/-- Everything that stops a connection. -/
theorem halts_iff : Halts since xs ↔
    xs.Farewell ∨ (∃ now, (now, .client .vanished) ∈ xs) ∨ Missed since xs := by
  constructor
  · rintro ⟨earlier, now, x, later, rfl, stops⟩
    have member : (now, x) ∈ earlier ++ (now, x) :: later := by simp
    cases x with
    | start box => exact stops.elim
    | client x =>
      cases x with
      | close reason => exact .inl (.inl ⟨now, reason, member⟩)
      | broken e => exact .inl (.inr (.inl ⟨now, e, member⟩))
      | ended => exact .inl (.inr (.inr (.inl ⟨now, member⟩)))
      | vanished => exact .inr (.inl ⟨now, member⟩)
      | text _ | ping _ | binary | continuation | pong | nop => exact stops.elim
    | event e =>
      cases e with
      | message m => exact stops.elim
      | dismissal reason => exact .inl (.inr (.inr (.inr ⟨now, reason, member⟩)))
    | beat => exact .inr (.inr ⟨earlier, now, later, rfl, stops⟩)
  · have of_mem {now : Nat} {x : Stimulus} (member : (now, x) ∈ xs)
        (stops : ∀ since, x.Stops since now) : Halts since xs := by
      obtain ⟨earlier, later, rfl⟩ := List.append_of_mem member
      exact ⟨earlier, now, x, later, rfl, stops _⟩
    rintro ((⟨now, reason, member⟩ | ⟨now, e, member⟩ | ⟨now, member⟩ | ⟨now, reason, member⟩) |
      ⟨now, member⟩ | ⟨earlier, now, later, rfl, late⟩)
    iterate 5 exact of_mem member fun _ => trivial
    exact ⟨earlier, now, .beat, later, rfl, late⟩

theorem handled_eq_self (goes : ¬ Halts since xs) : handled since xs = xs := by
  induction xs generalizing since with
  | nil => rfl
  | cons y xs ih =>
    obtain ⟨now, x⟩ := y
    rw [halts_cons, not_or] at goes
    rw [handled_cons_of_not_stops goes.1, ih goes.2]

end Course

namespace Connection

/-- What a connection makes of its course, while the room takes commands. -/
def attend (c : Connection) : Course → Reaction
  | [] => c.idle
  | (now, x) :: xs =>
    let here := c.react true now x
    let later := here.connection.attend xs
    ⟨later.connection, here.commands ++ later.commands, here.notices ++ later.notices⟩

variable {c : Connection} {now : Nat}

/-- A client that is not gone afterwards changes nothing but what is written to it and when it was
heard last, and is handed on if it says something. -/
theorem receive_of_not_ends {x : Inbound} (stays : ¬ x.Ends) : ∃ written,
    (c.receive true now x).connection =
        { c with written := written, heardAt := (Stimulus.client x).heardAt c.heardAt now } ∧
      (c.receive true now x).commands = x.speech?.toList.map (.message c.handle) := by
  cases x with
  | text s =>
    simp only [receive, Inbound.speech?]
    rcases ClientMessage.read s with e | _ | m <;> exact ⟨c.written, rfl, rfl⟩
  | ping payload => exact ⟨_, rfl, rfl⟩
  | binary | continuation | pong | nop => exact ⟨c.written, rfl, rfl⟩
  | close _ | broken _ | ended | vanished => exact absurd trivial stays

/-- A client that is gone stops its connection. -/
theorem receive_of_ends (undismissed : c.dismissed = false) {x : Inbound} (ends : x.Ends) :
    (c.receive true now x).connection.phase = .stopped ∧
      (c.receive true now x).commands = [.disconnect c.handle] := by
  cases x with
  | close reason => simp [receive, stop_eq, write, undismissed]
  | broken e => simp [receive, stopWith, stop_eq, undismissed]
  | ended | vanished => simp [receive, stop_eq, undismissed]
  | text _ | ping _ | binary | continuation | pong | nop => exact ends.elim

/-- A running connection goes on after everything that does not stop it. -/
theorem react_of_not_stops (running : c.phase = .running) {x : Stimulus}
    (goes : ¬ x.Stops c.heardAt now) : ∃ written, (c.react true now x).connection =
        { c with written := written, heardAt := x.heardAt c.heardAt now } ∧
      (c.react true now x).commands = x.speech?.toList.map (.message c.handle) := by
  cases x with
  | start box =>
    rw [react, if_neg (by rw [running]; decide)]
    exact ⟨c.written, rfl, rfl⟩
  | client x =>
    rw [react, if_pos running]
    exact receive_of_not_ends goes
  | event e =>
    rw [react, if_pos running]
    cases e with
    | message m => exact ⟨_, rfl, rfl⟩
    | dismissal reason => exact absurd trivial goes
  | beat =>
    have intime : c.isLate now = false := decide_eq_false goes
    rw [react, if_pos running, beat, intime, if_neg Bool.false_ne_true]
    exact ⟨_, rfl, rfl⟩

/-- A running connection that stops takes its leave, unless it was ordered to stop. -/
theorem react_of_stops (running : c.phase = .running) (undismissed : c.dismissed = false)
    {x : Stimulus} (stops : x.Stops c.heardAt now) :
    (c.react true now x).connection.phase = .stopped ∧
      (c.react true now x).commands = if x.Dismisses then [] else [.disconnect c.handle] := by
  cases x with
  | start box => exact stops.elim
  | client x =>
    rw [react, if_pos running]
    exact receive_of_ends undismissed stops
  | event e =>
    rw [react, if_pos running]
    cases e with
    | message m => exact stops.elim
    | dismissal reason =>
      rw [if_pos (show (Stimulus.event (.dismissal reason)).Dismisses from trivial)]
      simp [emit, stop_eq, write]
  | beat =>
    have late : c.isLate now = true := decide_eq_true stops
    rw [react, if_pos running, beat, if_pos late, if_neg (show ¬ Stimulus.beat.Dismisses from id)]
    simp [stopWith, stop_eq, undismissed]

/-- A connection that has stopped does not react any more. -/
theorem attend_of_stopped (stopped : c.phase = .stopped) (xs : Course) : c.attend xs = c.idle := by
  induction xs with
  | nil => rfl
  | cons y xs ih =>
    obtain ⟨now, x⟩ := y
    have still : c.react true now x = c.idle := by cases x <;> simp [react, stopped]
    simp only [attend, still, idle]
    rw [ih]
    rfl

/-- A running connection stops if it hears of something that stops it, and runs on otherwise. -/
theorem phase_attend (running : c.phase = .running) (undismissed : c.dismissed = false)
    (xs : Course) :
    (c.attend xs).connection.phase = .stopped ∧ xs.Halts c.heardAt ∨
      (c.attend xs).connection.phase = .running ∧ ¬ xs.Halts c.heardAt := by
  induction xs generalizing c with
  | nil => exact .inr ⟨running, Course.not_halts_nil _⟩
  | cons y xs ih =>
    obtain ⟨now, x⟩ := y
    rw [attend, Course.halts_cons]
    by_cases stops : x.Stops c.heardAt now
    · have stopped := (react_of_stops running undismissed stops).1
      rw [attend_of_stopped stopped]
      exact .inl ⟨stopped, .inl stops⟩
    · obtain ⟨written, same, -⟩ := react_of_not_stops running stops
      have later := @ih (c.react true now x).connection (same ▸ running) (same ▸ undismissed)
      rw [congrArg heardAt same] at later
      simpa only [stops, false_or] using later

/-- A running connection hands on what its client says until it stops, and takes its leave then
unless it was ordered to stop. -/
theorem commands_attend (running : c.phase = .running) (undismissed : c.dismissed = false)
    (xs : Course) : (c.attend xs).commands =
      ((xs.handled c.heardAt).filterMap (·.2.speech?)).map (.message c.handle) ++
        if (c.attend xs).connection.phase = .stopped ∧
            ∀ x ∈ xs.handled c.heardAt, ¬ x.2.Dismisses
          then [.disconnect c.handle] else [] := by
  induction xs generalizing c with
  | nil => simp [attend, idle, running, Course.handled]
  | cons y xs ih =>
    obtain ⟨now, x⟩ := y
    rw [attend]
    by_cases stops : x.Stops c.heardAt now
    · obtain ⟨stopped, commands⟩ := react_of_stops running undismissed stops
      rw [attend_of_stopped stopped, Course.handled_cons_of_stops stops]
      simp [commands, idle, stopped, Stimulus.speech?_of_stops stops]
    · obtain ⟨written, same, commands⟩ := react_of_not_stops running stops
      have later := @ih (c.react true now x).connection (same ▸ running) (same ▸ undismissed)
      have obeys : ¬ x.Dismisses := fun dismisses => stops (dismisses.stops _ _)
      have handle : (c.react true now x).connection.handle = c.handle := by rw [same]
      have since : (c.react true now x).connection.heardAt = x.heardAt c.heardAt now := by rw [same]
      have each (ys : Course) : (∀ y ∈ (now, x) :: ys, ¬ y.2.Dismisses) ↔
          ∀ y ∈ ys, ¬ y.2.Dismisses := List.forall_mem_cons.trans (and_iff_right obeys)
      rw [Course.handled_cons_of_not_stops stops]
      simp only [later, commands, handle, since, each]
      cases said : x.speech? <;> simp [said]

/-- In its life a connection asks for a seat, hands on every message that its client says until it
stops, and takes its leave in the end unless it was ordered to stop. It stops only when its client
closes, breaks the protocol or is gone, when it is ordered to, or at a beat at which no text, ping or
pong of its client has come for too long. -/
theorem commands_of_life (h : Handle) (box : OutboxId) (since begun : Nat) (xs : Course) :
    let life := (upgraded h since).attend ((begun, .start box) :: xs)
    let heard := xs.handled since
    life.commands = .connect h box :: ((heard.filterMap (·.2.speech?)).map (.message h) ++
      if life.connection.phase = .stopped ∧ ∀ x ∈ heard, ¬ x.2.Dismisses
        then [.disconnect h] else []) ∧
    (life.connection.phase = .stopped ↔
      xs.Farewell ∨ (∃ now, (now, .client .vanished) ∈ xs) ∨ xs.Missed since) ∧
    (life.connection.phase = .stopped ∨ life.connection.phase = .running ∧ heard = xs) := by
  intro life heard
  let started : Connection := { upgraded h since with phase := .running, outbox := some box }
  have commands : life.commands = .connect h box :: (started.attend xs).commands := rfl
  have phase := phase_attend (c := started) rfl rfl xs
  refine ⟨?_, ?_, ?_⟩
  · rw [commands, commands_attend (c := started) rfl rfl xs]
    rfl
  · rw [← Course.halts_iff]
    rcases phase with ⟨stopped, halts⟩ | ⟨running, goes⟩
    · exact iff_of_true stopped halts
    · exact iff_of_false (fun stopped => by cases stopped.symm.trans running) goes
  · rcases phase with ⟨stopped, -⟩ | ⟨running, goes⟩
    · exact .inl stopped
    · exact .inr ⟨running, Course.handled_eq_self goes⟩

/-- For fifteen seconds nothing comes from a client, and the heart beats every five. -/
def silentCourse : Course := [(5000000000, .beat), (10000000000, .beat), (15000000000, .beat)]

/-- So a connection may stop though its client has not closed, broken the protocol or come to its
end, and nobody has ordered it to: the client was silent for too long, or has vanished. -/
theorem stops_without_farewell :
    (((upgraded 0 0).attend ((0, .start 0) :: silentCourse)).connection.phase = .stopped ∧
      ¬ silentCourse.Farewell) ∧
    ((upgraded 0 0).attend [(0, .start 0), (0, .client .vanished)]).connection.phase = .stopped ∧
      ¬ Course.Farewell [(0, .client .vanished)] := by
  refine ⟨⟨rfl, ?_⟩, rfl, ?_⟩ <;> simp [Course.Farewell, silentCourse]

end Connection

end LiveRelay
