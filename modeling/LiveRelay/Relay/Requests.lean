import LiveRelay.Http.Basic
import LiveRelay.Relay.Site
import LiveRelay.Text.Quoted

/-! # Requests to the site

A request opens a socket, asks the room about its participants, or fetches a file of the bundle.
-/

namespace LiveRelay

inductive Answer where
  | response (r : Response)
  | upgraded (socket : Nat)
  | badTarget
deriving DecidableEq, Repr

namespace Site

def ask (s : Site) (c : Command) : Option Reply × Site :=
  let e := s.relay.run [.ask c, .serve]
  (e.replies.getLast?, { s with relay := e.relay, log := s.log ++ e.log }.settle)

/-- The response when the room does not take commands or does not reply. -/
def noReply (s : Site) : Response :=
  match s.relay.service with
  | .gone => .plain 500 "Internal Server Error"
  | _ => .plain 500 "Receiver await error"

def listParticipants (s : Site) : Response × Site :=
  match s.ask .listParticipants with
  | (some (.participants ps), s) => (⟨200, some "application/json", Participant.listText ps⟩, s)
  | (_, s) => (s.noReply, s)

def kick (s : Site) (segment : String) : Response × Site :=
  match Route.readId? (Percent.decode segment) with
  | none => (.plain 404 ("can not parse " ++ quote segment ++ " to a u64"), s)
  | some id =>
    match s.ask (.kick id) with
    | (some (.kicked found), s) => (.bare (if found then 204 else 404), s)
    | (_, s) => (s.noReply, s)

def serveFile (s : Site) (path : String) : Response :=
  match BundlePath.resolve? (Percent.decode path) with
  | none => .bare 404
  | some p =>
    match s.bundle.read? p with
    | some body => ⟨200, some p.contentType, body⟩
    | none => .bare 404

/-- Opens a socket. A request that is refused uses a handle up as well. -/
def openSocket (s : Site) (r : Request) (stalled : Bool) : Answer × Site :=
  let (h, handles) := s.handles.take
  let s := { s with handles := handles }
  match r.checkHandshake with
  | .error e =>
    let line := (ConnectionNotice.upgrading h).line
    (.response (.bare e.status), { s with log := s.log ++ [line] })
  | .ok () =>
    let i := s.lines.length
    let s := { s with lines := s.lines ++ [Line.fresh stalled] }
    (.upgraded i, (s.act [.upgrade h]).settle)

def request (s : Site) (r : Request) (stalled : Bool) : Answer × Site :=
  match Target.path r.target with
  | .error _ => (.badTarget, s)
  | .ok path =>
    let route := Route.ofPath (Percent.forRoutes path)
    match route.method? with
    | none => (.response (.bare 404), s)
    | some method =>
      if method ≠ r.method then (.response (.bare 405), s)
      else match route with
        | .socket => s.openSocket r stalled
        | .participants =>
          let (response, s) := s.listParticipants
          (.response response, s)
        | .participant segment =>
          let (response, s) := s.kick segment
          (.response response, s)
        | .file path => (.response (s.serveFile path), s)
        | .nowhere => (.response (.bare 404), s)

end Site

end LiveRelay
