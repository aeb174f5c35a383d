import LiveRelay.Json.Writer
import LiveRelay.Room.Message

/-! # The JSON form of what the room says

Every message is an object with the name of its event and, except for a reset, its data. The members
stand in a fixed order.
-/

namespace LiveRelay

open Json

def wordValue (n : UInt64) : Value := .number (.unsigned n)

namespace Speaker

def toValue (s : Speaker) : Value :=
  .object [("x", .number (.real s.x)), ("y", .number (.real s.y)),
    ("angle", .number (.real s.angle))]

end Speaker

namespace Participant

def toValue (p : Participant) : Value :=
  .object [("id", wordValue p.id), ("code", .string p.code), ("editor", p.editor.getD .null),
    ("speaker", p.speaker.toValue)]

def listText (ps : List Participant) : String := (Value.list (ps.map toValue)).text

end Participant

namespace Change

def toValue : Change → Value
  | .code s => .string s
  | .editor v => v
  | .speaker s => s.toValue

def kind : Change → ClientKind
  | .code _ => .code
  | .editor _ => .editor
  | .speaker _ => .speaker

end Change

namespace ServerMessage

def event (name : String) (data : Value) : Value :=
  .object [("event", .string name), ("data", data)]

def toValue : ServerMessage → Value
  | .hello id players time =>
    event "hello" (.object [("id", wordValue id),
      ("players", .list (players.map Participant.toValue)), ("time", .number (.real time))])
  | .join id => event "join" (wordValue id)
  | .leave id => event "leave" (wordValue id)
  | .changed c id => event c.kind.name (.object [("state", c.toValue), ("id", wordValue id)])
  | .reset => .object [("event", .string "reset")]

def text (m : ServerMessage) : String := m.toValue.text

end ServerMessage

end LiveRelay
