import LiveRelay.Text.Utf8

/-! # WebSocket frames

A client sends masked frames. `Frame.take` finds the first frame of the bytes that have arrived,
waits for more bytes, or finds a fault. `Inbound.ofFrame` gives the meaning of a frame, which also
depends on whether a fragmented message is under way.
-/

namespace LiveRelay

inductive Opcode where
  | continuation
  | text
  | binary
  | close
  | ping
  | pong
deriving DecidableEq, Repr

namespace Opcode

def number : Opcode → Nat
  | .continuation => 0
  | .text => 1
  | .binary => 2
  | .close => 8
  | .ping => 9
  | .pong => 10

def ofNumber? : Nat → Option Opcode
  | 0 => some .continuation
  | 1 => some .text
  | 2 => some .binary
  | 8 => some .close
  | 9 => some .ping
  | 10 => some .pong
  | _ => none

/-- Whether a frame controls the connection and brings no data. -/
def isControl : Opcode → Bool
  | .close | .ping | .pong => true
  | _ => false

def word : Opcode → String
  | .continuation => "CONTINUE"
  | .text => "TEXT"
  | .binary => "BINARY"
  | .close => "CLOSE"
  | .ping => "PING"
  | .pong => "PONG"

end Opcode

inductive ProtocolError where
  | reservedBits
  | unmasked
  | invalidOpcode (n : Nat)
  | overflow
  | invalidLength (n : Nat)
  | continuationNotStarted
  | continuationStarted
  | fragmentedControl (opcode : Opcode)
  | badClose
  | invalidText (e : Utf8.Error)
  | unreadable
deriving DecidableEq, Repr

namespace ProtocolError

def message : ProtocolError → String
  | .reservedBits => "I/O error: Received a frame with non-zero reserved bits"
  | .unmasked => "Received an unmasked frame from client"
  | .invalidOpcode n => "Invalid opcode (" ++ toString n ++ ")"
  | .overflow => "Payload length is invalid or exceeds the size limit"
  | .invalidLength n => "Invalid control frame length (" ++ toString n ++ ")"
  | .continuationNotStarted => "Continuation has not started"
  | .continuationStarted => "Received new continuation but it has already started"
  | .fragmentedControl opcode => "Unknown continuation fragment: " ++ opcode.word
  | .badClose => "Bad opcode"
  | .invalidText e => "I/O error: " ++ e.message
  | .unreadable => "I/O error: can not decode content-encoding"

end ProtocolError

/-- A frame: whether it is the last of its message, what it is for, and its payload. -/
structure Frame where
  isFinal : Bool
  opcode : Opcode
  payload : List UInt8
deriving DecidableEq, Repr

namespace Frame

def sizeLimit : Nat := 0x100000

/-- The first length that no frame may claim. -/
def lengthLimit : Nat := 0x8000000000000000

def controlLimit : Nat := 125

/-- The number that bytes stand for, the most significant one first. -/
def ofBytes (bytes : List UInt8) : Nat := bytes.foldl (fun n b => n * 256 + b.toNat) 0

/-- The last bytes of a number, the most significant one first. -/
def toBytes : Nat → Nat → List UInt8
  | 0, _ => []
  | count + 1, n => toBytes count (n / 256) ++ [UInt8.ofNat n]

/-- Applies a mask, which repeats along the payload. -/
def mask (key : List UInt8) (payload : List UInt8) : List UInt8 :=
  if key.all (· == 0) then payload
  else
    let step := fun ((done, turn) : List UInt8 × List UInt8) b =>
      match turn with
      | k :: turn => ((b ^^^ k) :: done, turn ++ [k])
      | [] => (b :: done, [])
    (payload.foldl step ([], key)).1.reverse

/-- What the first bytes of a frame say: its length and the bytes behind it, or nothing yet. -/
def takeLength (short : Nat) (bytes : List UInt8) :
    Except ProtocolError (Option (Nat × List UInt8)) :=
  let take (size : Nat) : Option (Nat × List UInt8) :=
    if (bytes.take size).length < size then none
    else some (ofBytes (bytes.take size), bytes.drop size)
  if short = 126 then .ok (take 2)
  else if short = 127 then .ok (take 8)
  else .ok (some (short, bytes))

/-- Finds the first frame of some bytes and the bytes after it, or nothing if it is not complete. -/
def take (bytes : List UInt8) : Except ProtocolError (Option (Frame × List UInt8)) := do
  match bytes with
  | first :: second :: rest =>
    if first.toNat / 16 % 8 ≠ 0 then throw .reservedBits
    if second.toNat < 128 then throw .unmasked
    match Opcode.ofNumber? (first.toNat % 16) with
    | none => throw (.invalidOpcode (first.toNat % 16))
    | some opcode =>
      match ← takeLength (second.toNat % 128) rest with
      | none => return none
      | some (length, rest) =>
        if lengthLimit ≤ length then throw .overflow
        let key := rest.take 4
        if key.length < 4 then return none
        let body := rest.drop 4
        let payload := body.take length
        if payload.length < length then return none
        if sizeLimit < length then throw .overflow
        if opcode.isControl ∧ controlLimit < length then throw (.invalidLength length)
        return some (⟨decide (128 ≤ first.toNat), opcode, mask key payload⟩, body.drop length)
  | _ => return none

def encode (f : Frame) (key : List UInt8) : List UInt8 :=
  let first := UInt8.ofNat ((if f.isFinal then 128 else 0) + f.opcode.number)
  let size := f.payload.length
  let length :=
    if size < 126 then [UInt8.ofNat (128 + size)]
    else if size < 0x10000 then UInt8.ofNat (128 + 126) :: toBytes 2 size
    else UInt8.ofNat (128 + 127) :: toBytes 8 size
  first :: length ++ key ++ mask key f.payload

end Frame

structure CloseReason where
  code : Nat
  description : Option String
deriving DecidableEq, Repr

namespace CloseReason

def policy : Nat := 1008

def allowed (code : Nat) : Bool :=
  (1000 ≤ code && code ≤ 1003) || (1007 ≤ code && code ≤ 1014) || (3000 ≤ code && code ≤ 4999)

def ofPayload : List UInt8 → Except ProtocolError (Option CloseReason)
  | [] => .ok none
  | [_] => .error (.invalidLength 1)
  | high :: low :: description =>
    let code := Frame.ofBytes [high, low]
    match allowed code, Utf8.decode description with
    | true, .ok text => .ok (some ⟨code, if text.isEmpty then none else some text⟩)
    | _, _ => .error .badClose

def toPayload (r : CloseReason) : List UInt8 :=
  Frame.toBytes 2 r.code ++ Utf8.encode (r.description.getD "")

end CloseReason

/-- What a client does, as its connection sees it. No bytes of a client mean `nop`; it is there for
layers in between that have nothing to say. A client that has vanished leaves no end of its bytes
behind: its connection is dropped together with the response. -/
inductive Inbound where
  | text (s : String)
  | binary
  | continuation
  | ping (payload : List UInt8)
  | pong
  | nop
  | close (reason : Option CloseReason)
  | broken (e : ProtocolError)
  | ended
  | vanished
deriving DecidableEq, Repr

namespace Inbound

/-- The meaning of a frame, and whether a fragmented message is under way after it. -/
def ofFrame (started : Bool) (f : Frame) : Except ProtocolError (Inbound × Bool) :=
  match f.isFinal, f.opcode with
  | false, .continuation =>
    if started then .ok (.continuation, true) else .error .continuationNotStarted
  | false, .text | false, .binary =>
    if started then .error .continuationStarted else .ok (.continuation, true)
  | false, opcode => .error (.fragmentedControl opcode)
  | true, .continuation =>
    if started then .ok (.continuation, false) else .error .continuationNotStarted
  | true, .text =>
    if started then .error .continuationStarted
    else match Utf8.decode f.payload with
      | .ok s => .ok (.text s, false)
      | .error e => .error (.invalidText e)
  | true, .binary => if started then .error .continuationStarted else .ok (.binary, false)
  | true, .ping => .ok (.ping f.payload, started)
  | true, .pong => .ok (.pong, started)
  | true, .close => (CloseReason.ofPayload f.payload).map fun reason => (.close reason, started)

/-- What the first frames of some bytes say, at most so many of them and up to the first fault.
Gives also whether a fragmented message is under way after them, and the bytes that are left over.
-/
def ofBytes : Nat → Bool → List UInt8 → List Inbound × Bool × List UInt8
  | 0, started, bytes => ([], started, bytes)
  | count + 1, started, bytes =>
    match Frame.take bytes with
    | .error e => ([broken e], started, [])
    | .ok none => ([], started, bytes)
    | .ok (some (frame, rest)) =>
      match ofFrame started frame with
      | .error e => ([broken e], started, [])
      | .ok (inbound, started) =>
        let (more, started, rest) := ofBytes count started rest
        (inbound :: more, started, rest)

end Inbound

end LiveRelay
