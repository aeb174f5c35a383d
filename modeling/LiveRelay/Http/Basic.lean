import LiveRelay.Http.Percent
import LiveRelay.Http.Target

/-! # Requests, responses and routes

A request is told by its path what it is for, and then by its method whether that is possible. The
socket and the participants have routes of their own; everything outside the administration is a
file.
-/

namespace LiveRelay

/-- A request. The names of headers are compared without regard to case. -/
structure Request where
  method : String
  target : String
  headers : List (String × String)
deriving Repr

structure Response where
  status : Nat
  contentType : Option String
  body : String
deriving DecidableEq, Repr

namespace Response

def bare (status : Nat) : Response := ⟨status, none, ""⟩

def plain (status : Nat) (body : String) : Response :=
  ⟨status, some "text/plain; charset=utf-8", body⟩

end Response

inductive Route where
  | socket
  | participants
  | participant (segment : String)
  | file (path : String)
  | nowhere
deriving DecidableEq, Repr

namespace Route

/-- What stands behind a text at the front of another one. -/
def behind? : List Char → List Char → Option (List Char)
  | [], cs => some cs
  | _ :: _, [] => none
  | p :: ps, c :: cs => if p = c then behind? ps cs else none

/-- The route of a path below the administration. -/
def ofAdminPath (cs : List Char) : Route :=
  if cs = "/participants".toList then .participants
  else match behind? "/participants/".toList cs with
    | some segment =>
      if segment = [] ∨ segment.contains '/' then .nowhere else .participant (String.ofList segment)
    | none => .nowhere

def ofPath (path : String) : Route :=
  let cs := path.toList
  if cs = "/ws/".toList then .socket
  else match behind? "/admin".toList cs with
    | some [] => .nowhere
    | some ('/' :: rest) => ofAdminPath ('/' :: rest)
    | _ =>
      match cs with
      | '/' :: rest => .file (String.ofList rest)
      | _ => .nowhere

/-- The only method that a route has. -/
def method? : Route → Option String
  | .socket | .participants | .file _ => some "GET"
  | .participant _ => some "DELETE"
  | .nowhere => none

def readId? (text : String) : Option UInt64 :=
  let digits := match text.toList with
    | '+' :: digits => digits
    | digits => digits
  if digits = [] ∨ !digits.all Char.isDigit then none
  else
    let n := digits.foldl (fun n c => n * 10 + (c.toNat - '0'.toNat)) 0
    if n < UInt64.size then some (UInt64.ofNat n) else none

end Route

inductive HandshakeError where
  | noUpgrade
  | noConnectionUpgrade
  | noVersion
  | unsupportedVersion
  | noKey
deriving DecidableEq, Repr

namespace HandshakeError

def status : HandshakeError → Nat
  | .unsupportedVersion => 426
  | _ => 400

end HandshakeError

namespace Request

def headersOf (r : Request) (name : String) : List String :=
  (r.headers.filter fun (n, _) => n.toLower == name).map (·.2)

def header? (r : Request) (name : String) : Option String := (r.headersOf name).head?

def hasInside (word : List Char) : List Char → Bool
  | [] => word.isEmpty
  | c :: cs => (Route.behind? word (c :: cs)).isSome || hasInside word cs

/-- Whether a header has nothing but tabs and the characters from the space to the tilde in it. -/
def isPlain (value : String) : Bool :=
  value.toList.all fun c => c == '\t' || (0x20 ≤ c.toNat && c.toNat < 0x7F)

/-- Whether a header mentions a word, in any case. A header that is not plain mentions nothing. -/
def mentions (r : Request) (name word : String) : Bool :=
  match r.header? name with
  | some value => isPlain value && hasInside word.toList value.toLower.toList
  | none => false

/-- The items of a header that is a list with commas, in lower case and without the blanks around
them. A header that is not plain has none. -/
def items (value : String) : List String :=
  if isPlain value then (value.toLower.splitOn ",").map fun item => item.trimAscii.toString else []

/-- Whether the client asks to go on with another protocol on its connection, and not to close it.
-/
def asksToUpgrade (r : Request) : Bool :=
  let wishes := (r.headersOf "connection").flatMap items
  wishes.contains "upgrade" && !wishes.contains "close"

/-- The versions of the socket protocol that are understood. -/
def versions : List String := ["13", "8", "7"]

def checkHandshake (r : Request) : Except HandshakeError Unit := do
  if !r.mentions "upgrade" "websocket" then throw .noUpgrade
  if !r.asksToUpgrade then throw .noConnectionUpgrade
  match r.header? "sec-websocket-version" with
  | none => throw .noVersion
  | some version => if !versions.contains version then throw .unsupportedVersion
  if (r.header? "sec-websocket-key").isNone then throw .noKey

end Request

end LiveRelay
