import LiveRelay.Wire.ClientFrame

/-! # Reading what the room says

A frame of the room names its event and brings its data, in either order, or as a list of the two.
Data that comes before the name is kept as a value and read once the event is known.
-/

namespace LiveRelay

open Json

namespace Participant

structure Draft where
  id : Option UInt64
  code : Option String
  editor : Option (Option Value)
  speaker : Option Speaker
deriving Repr

/-- The record of a participant. An object may leave the editor out. -/
def record : Record Draft Participant where
  name := "struct Participant"
  fields := [
    ⟨"id", (·.id.isSome), false, Shape.word.map fun i d => { d with id := some i }⟩,
    ⟨"code", (·.code.isSome), false, Shape.string.map fun c d => { d with code := some c }⟩,
    ⟨"editor", (·.editor.isSome), false, Shape.nullable.map fun e d => { d with editor := some e }⟩,
    ⟨"speaker", (·.speaker.isSome), false, Speaker.shape.map fun s d =>
      { d with speaker := some s }⟩]
  asList := true
  empty := ⟨none, none, none, none⟩
  finish d := do
    return ⟨← required "id" d.id, ← required "code" d.code, d.editor.getD none,
      ← required "speaker" d.speaker⟩

def shape : Shape Participant := record.shape

end Participant

inductive ServerKind where
  | hello
  | join
  | leave
  | code
  | editor
  | speaker
  | reset
deriving DecidableEq, Repr

namespace ServerKind

def ofName? : String → Option ServerKind
  | "hello" => some .hello
  | "join" => some .join
  | "leave" => some .leave
  | "code" => some .code
  | "editor" => some .editor
  | "speaker" => some .speaker
  | "reset" => some .reset
  | _ => none

end ServerKind

namespace ServerMessage

structure HelloDraft where
  id : Option UInt64
  players : Option (List Participant)
  time : Option Binary64
deriving Repr

def helloRecord : Record HelloDraft ServerMessage where
  name := "hello data"
  fields := [
    ⟨"id", (·.id.isSome), false, Shape.word.map fun i d => { d with id := some i }⟩,
    ⟨"players", (·.players.isSome), false, (Shape.list Participant.shape).map fun p d =>
      { d with players := some p }⟩,
    ⟨"time", (·.time.isSome), false, Shape.real.map fun t d => { d with time := some t }⟩]
  asList := false
  empty := ⟨none, none, none⟩
  finish d := do
    return .hello (← required "id" d.id) (← required "players" d.players)
      (← required "time" d.time)

/-- News of a participant's state of which some fields are known. -/
structure ChangedDraft (α : Type) where
  state : Option α
  id : Option UInt64
deriving Repr

/-- The data of a change: the new state, and whose it is. -/
def changedRecord {α : Type} (name : String) (state : Shape α) (change : α → Change) :
    Record (ChangedDraft α) ServerMessage where
  name := name
  fields := [
    ⟨"state", (·.state.isSome), false, state.map fun s d => { d with state := some s }⟩,
    ⟨"id", (·.id.isSome), false, Shape.word.map fun i d => { d with id := some i }⟩]
  asList := false
  empty := ⟨none, none⟩
  finish d := do
    return .changed (change (← required "state" d.state)) (← required "id" d.id)

def dataShape : ServerKind → Shape ServerMessage
  | .hello => helloRecord.shape
  | .join => Shape.word.map .join
  | .leave => Shape.word.map .leave
  | .code => (changedRecord "code data" .string .code).shape
  | .editor => (changedRecord "editor data" .value .editor).shape
  | .speaker => (changedRecord "speaker data" Speaker.shape .speaker).shape
  | .reset => (Shape.nothing "no data").map fun _ => .reset

def kindOf (name : String) : Except Cause ServerKind :=
  match ServerKind.ofName? name with
  | some kind => .ok kind
  | none => .error (.unknownVariant name)

/-- The name of an event as a string. -/
def kindShape : Shape ServerKind := Shape.ofHead fun
  | .string name => kindOf name
  | head => .error (.mismatch head "the name of an event")

/-- Reads the name of an event in an object: a string, or an object with the name as its only key
and `null` as its value. -/
def readKind (depth : Nat) (s : List Char) : Reading (ServerKind × List Char) :=
  match depth, skipBlanks s with
  | _, [] => failAt .endInValue []
  | depth, '"' :: s => kindShape.ofText depth ('"' :: s)
  | 0, '{' :: s => failOver .tooDeep ('{' :: s)
  | depth + 1, '{' :: s =>
    match skipBlanks s with
    | [] => failAt .endInValue []
    | '"' :: s => do
      let (kind, s) ← kindShape.ofText depth ('"' :: s)
      let s ← readColon s
      let (_, s) ← (Shape.nothing "null").ofText depth s
      match skipBlanks s with
      | [] => failAt .endInObject []
      | '}' :: s => return (kind, s)
      | s => failOver .expectedValue s
    | s => failOver .keyNotString s
  | _, s => failOver .expectedValue s

inductive Draft where
  | empty
  | named (kind : ServerKind)
  | filled (data : Value)
  | complete (m : ServerMessage)

def readMember (depth : Nat) (draft : Draft) (key : String) (s : List Char) :
    Reading (Draft × List Char) :=
  match key, draft with
  | "event", .empty => do
    let (kind, s) ← readKind depth (← readColon s)
    return (.named kind, s)
  | "event", .filled data => do
    let (kind, s) ← readKind depth (← readColon s)
    match (dataShape kind).ofValue data with
    | .ok m => return (.complete m, s)
    | .error cause => failAt cause (leaveObject s)
  | "data", .empty => do
    let (data, s) ← readTree depth (← readColon s)
    return (.filled data, s)
  | "data", .named kind => do
    let (m, s) ← (dataShape kind).ofText depth (← readColon s)
    return (.complete m, s)
  | "event", _ | "data", _ => failAt (.duplicateField key) (leaveObject s)
  | _, _ => do
    return (draft, ← skipValue (← readColon s))

/-- The message of a frame whose members have all been read. -/
def finish : Draft → Except Cause ServerMessage
  | .complete m => .ok m
  | .named .reset => .ok .reset
  | .named _ => .error (.missingField "data")
  | .empty | .filled _ => .error (.missingField "event")

/-- Reads a frame that is an object, after its opening bracket. -/
def readObject (depth : Nat) (s : List Char) : Reading (ServerMessage × List Char) := do
  let (draft, s) ← foldMembers (readMember depth) .empty s
  match finish draft with
  | .ok m => return (m, ← closeObject s)
  | .error cause => failAt cause (leaveObject s)

/-- Reads a frame that is a list, after its opening bracket. -/
def readList (depth : Nat) (s : List Char) : Reading (ServerMessage × List Char) := do
  let expected := "a server frame"
  match ← toItem true s with
  | (false, s) => failAt (.invalidLength 0 expected) (leaveList s)
  | (true, s) =>
    let (kind, s) ← kindShape.ofText depth s
    match ← toItem false s with
    | (false, s) => failAt (.invalidLength 1 expected) (leaveList s)
    | (true, s) =>
      let (m, s) ← (dataShape kind).ofText depth s
      return (m, ← closeList s)

def read (text : String) : Reading ServerMessage := do
  let (head, s) ← readHead text.toList
  let (m, s) ← match head with
    | .object => readObject (deepest - 1) (s.drop 1)
    | .list => readList (deepest - 1) (s.drop 1)
    | head => failAt (.mismatch head "a server frame") s
  closeText s
  return m

end ServerMessage

end LiveRelay
