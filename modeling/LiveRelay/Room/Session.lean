import LiveRelay.Room.Basic

/-! # Sessions

A session is a room with its outboxes and everything that may happen to them: commands, the passing
of time, and what the far ends of the outboxes do. A run of a session is a list of such happenings.
-/

namespace LiveRelay

structure Session where
  room : Room
  outboxes : Outboxes
deriving Repr

/-- What happens to a session. A connection comes with a new outbox of some capacity; an outbox may
also be made first, and its connection ask for a seat later. -/
inductive Happening where
  | connect (h : Handle) (capacity : Capacity)
  | make (capacity : Capacity)
  | command (c : Command)
  | pass (nanoseconds : Nat)
  | take (box : OutboxId) (count : Nat)
  | close (box : OutboxId)
  | drop (box : OutboxId)
deriving Repr

namespace Outcome

def session (o : Outcome) : Session := ⟨o.room, o.outboxes⟩

end Outcome

namespace Session

def start : Session := ⟨.empty, .none⟩

/-- An outcome that only changes the outboxes. -/
def withOutboxes (s : Session) (b : Outboxes) (reply : Reply) : Outcome :=
  ⟨s.room, b, reply, [], []⟩

/-- What a happening leads to. Time that the clock cannot count does not pass. -/
def step (s : Session) : Happening → Outcome
  | .connect h capacity =>
    s.room.apply (s.outboxes.add (.empty capacity)) (.connect h s.outboxes.next)
  | .make capacity => s.withOutboxes (s.outboxes.add (.empty capacity)) .nothing
  | .command c => s.room.apply s.outboxes c
  | .pass nanoseconds =>
    match s.room.advance nanoseconds with
    | .ok room => ⟨room, s.outboxes, .nothing, [], []⟩
    | .error e => ⟨s.room, s.outboxes, .overflow e, [], []⟩
  | .take box count =>
    match s.outboxes.get? box with
    | some o =>
      let (events, rest) := o.take count
      s.withOutboxes (s.outboxes.modify box fun _ => rest) (.events events)
    | none => s.withOutboxes s.outboxes (.events [])
  | .close box => s.withOutboxes (s.outboxes.modify box Outbox.close) .nothing
  | .drop box => s.withOutboxes (s.outboxes.modify box Outbox.drop) .nothing

def run (s : Session) (xs : List Happening) : Session := xs.foldl (fun s x => (s.step x).session) s

theorem run_append (s : Session) (xs ys : List Happening) : s.run (xs ++ ys) = (s.run xs).run ys :=
  List.foldl_append

end Session

end LiveRelay
