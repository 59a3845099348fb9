import LanguageServer.Server.Session.Messages

/-!
# Serving one client after another

A service waits for a client, serves it in a session of its own and waits for the next one. The
workspace and the project that was served last outlive a session, so that a project which a session
has left open is closed by the next one.
-/

namespace LanguageServer

/-- What outlives the sessions. `pace` is how fast requests are worked on while a project is
released. -/
structure Service where
  lifecycle : Lifecycle := .listening
  keepListening : Bool := true
  stopped : Bool := false
  pace : Session.Pace := {}
  symbolLimit : Nat := 100
  workspace : Workspace := {}
  slot : Option Nat := none

/-- What can happen while a client is connected: its session takes a step, work on a request begins,
the files change, the pace of the work changes, or someone says that the service shall go on after
this client or not, or stops it. -/
inductive Visit
  | step (s : Session.Step)
  | begin
  | files (disk : FileTree)
  | pace (p : Session.Pace)
  | keepListening (keep : Bool)
  | stop

namespace Service

/-- Waits for a client, unless the service was stopped. -/
def await (s : Service) : Service :=
  { s with lifecycle := if s.stopped then .closed else .accepting }

def session (s : Service) : Session where
  lifecycle := .bound
  symbolLimit := s.symbolLimit
  workspace := s.workspace
  slot := s.slot

/-- Takes what is said about the service itself. -/
def control (s : Service) : Visit → Service
  | .step _ | .begin | .files _ => s
  | .pace pace => { s with pace }
  | .keepListening keep => { s with keepListening := keep }
  | .stop => { s with stopped := true }

/-- Serves a client until its session ends, with the client's side closed after the last event. What
is said about the service is heard also after the end of the session. -/
def visit (s : Service) (session : Session) : List Visit → SessionEnd × Service × Session
  | [] => (.disconnected, s, session)
  | .step next :: rest =>
    match session.step next s.pace with
    | (some ending, session) => (ending, rest.foldl control s, session)
    | (none, session) => visit s session rest
  | .begin :: rest => visit s session.beginNext rest
  | .files disk :: rest =>
    visit s { session with workspace := { session.workspace with disk } } rest
  | .stop :: rest => (.stopped, rest.foldl control (s.control .stop), session)
  | event :: rest => visit (s.control event) session rest

/-- Takes back what outlives a session, and waits for the next client or ends. -/
def leave (s : Service) (session : Session) : Service :=
  let s :=
    { s with workspace := session.workspace, slot := session.slot, lifecycle := .shuttingDown }
  if s.keepListening && !s.stopped then { s with lifecycle := .listening }.await
  else { s with lifecycle := .closed }

/-- Serves one client. The answer tells how the session ended and what was sent. -/
def serve (s : Service) (events : List Visit) : (SessionEnd × List Message) × Service :=
  let (ending, s, session) := s.visit s.session events
  let session := session.finish s.pace
  ((ending, session.client.sent), s.leave session)

/-- Serves clients in the order in which they come. Those that come after the end are not served. -/
def serveAll (s : Service) : List (List Visit) → List (SessionEnd × List Message) × Service
  | [] => ([], s)
  | client :: rest =>
    if s.lifecycle = .closed then ([], s)
    else
      let (outcome, s) := s.serve client
      let (outcomes, s) := serveAll s rest
      (outcome :: outcomes, s)

def run (s : Service) (clients : List (List Visit)) : List (SessionEnd × List Message) × Service :=
  s.await.serveAll clients

end Service

end LanguageServer
