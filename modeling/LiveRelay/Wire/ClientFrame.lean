import LiveRelay.Json.Shape
import LiveRelay.Room.Message

/-! # Frames from clients

A client frame is an envelope with the name of an event and its data. The envelope is read first,
with its data as any value, and then the data by the shape that the event asks for. An event of an
unknown name is no error: it is left alone.
-/

namespace LiveRelay

open Json

namespace Speaker

/-- A speaker of which some coordinates are known. -/
structure Draft where
  x : Option Binary64
  y : Option Binary64
  angle : Option Binary64
deriving Repr

def record : Record Draft Speaker where
  name := "struct Speaker"
  fields := [
    ⟨"x", (·.x.isSome), false, Shape.real.map fun x d => { d with x := some x }⟩,
    ⟨"y", (·.y.isSome), false, Shape.real.map fun y d => { d with y := some y }⟩,
    ⟨"angle", (·.angle.isSome), false, Shape.real.map fun a d => { d with angle := some a }⟩]
  asList := true
  empty := ⟨none, none, none⟩
  finish d := do
    return ⟨← required "x" d.x, ← required "y" d.y, ← required "angle" d.angle⟩

def shape : Shape Speaker := record.shape

end Speaker

structure Envelope where
  event : String
  data : Option Value
deriving Repr

namespace Envelope

structure Draft where
  event : Option String
  data : Option (Option Value)
deriving Repr

/-- The record of an envelope. Without data, or with `null`, an envelope has none. -/
def record : Record Draft Envelope where
  name := "struct Envelope"
  fields := [
    ⟨"event", (·.event.isSome), false, Shape.string.map fun e d => { d with event := some e }⟩,
    ⟨"data", (·.data.isSome), true, Shape.nullable.map fun v d => { d with data := some v }⟩]
  asList := true
  empty := ⟨none, none⟩
  finish d := do
    return ⟨← required "event" d.event, d.data.getD none⟩

end Envelope

inductive FrameError where
  | envelope (cause : Cause) (place : Position)
  | payload (kind : ClientKind) (cause : Cause)
  | missingPayload (kind : ClientKind)
deriving DecidableEq, Repr

namespace FrameError

def message : FrameError → String
  | .envelope cause place =>
    "frame is not a valid event envelope: " ++ cause.message ++ " at line " ++
      toString place.line ++ " column " ++ toString place.column
  | .payload kind cause =>
    "payload of `" ++ kind.name ++ "` does not match its schema: " ++ cause.message
  | .missingPayload kind => "`" ++ kind.name ++ "` requires a payload"

end FrameError

namespace ClientMessage

/-- Finds the payload of a kind of message in the data of an envelope. -/
def payload {α : Type} (kind : ClientKind) (shape : Shape α) : Option Value → Except FrameError α
  | none => .error (.missingPayload kind)
  | some v => (shape.ofValue v).mapError (.payload kind)

/-- The message in an envelope, or nothing if the event is unknown. -/
def ofEnvelope (e : Envelope) : Except FrameError (Option ClientMessage) :=
  match ClientKind.ofName? e.event with
  | some .code => (payload .code .string e.data).map fun s => some (.change (.code s))
  | some .editor => (payload .editor .value e.data).map fun v => some (.change (.editor v))
  | some .speaker =>
    (payload .speaker Speaker.shape e.data).map fun s => some (.change (.speaker s))
  | some .reset => .ok (some .reset)
  | none => .ok none

def read (text : String) : Except FrameError (Option ClientMessage) :=
  match Envelope.record.shape.read text with
  | .ok e => ofEnvelope e
  | .error f => .error (.envelope f.cause (.ofFailure text.toList f))

end ClientMessage

end LiveRelay
