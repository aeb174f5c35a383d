import LiveRelay.Room.Participant

/-! # Messages between the room and its clients

A client tells what it changed, or asks for the shared clock to start again. The room greets a
client with everyone who is there, and tells of arrivals, departures, changes and resets.
-/

namespace LiveRelay

inductive ClientMessage where
  | change (c : Change)
  | reset
deriving Repr

/-- The kinds of client messages, as they are named in frames and in the log. -/
inductive ClientKind where
  | code
  | editor
  | speaker
  | reset
deriving DecidableEq, Repr

namespace ClientKind

def name : ClientKind → String
  | .code => "code"
  | .editor => "editor"
  | .speaker => "speaker"
  | .reset => "reset"

def ofName? : String → Option ClientKind
  | "code" => some .code
  | "editor" => some .editor
  | "speaker" => some .speaker
  | "reset" => some .reset
  | _ => none

end ClientKind

namespace ClientMessage

def kind : ClientMessage → ClientKind
  | .change (.code _) => .code
  | .change (.editor _) => .editor
  | .change (.speaker _) => .speaker
  | .reset => .reset

end ClientMessage

inductive ServerMessage where
  | hello (id : ParticipantId) (players : List Participant) (time : Binary64)
  | join (id : ParticipantId)
  | leave (id : ParticipantId)
  | changed (change : Change) (id : ParticipantId)
  | reset
deriving Repr

end LiveRelay
