import LanguageServer.Server.Execution
import LanguageServer.Server.Session.Basic

/-!
# Working on requests

Requests that wait are worked on in their order. A request about a file is answered in any case; the
other ones are not answered if the work on them breaks off.
-/

namespace LanguageServer

def Response.ofOutcome (id : RequestId) : Except CommandError Json → Response
  | .ok result => .ok id result
  | .error e => .failure id e.code e.message

namespace Session

/-- The outcome of work that is not guarded: none if it breaks off. -/
def unguarded {α : Type} (write : α → Json) : Except Fault α → Option (Except CommandError Json)
  | .ok result => some (.ok (write result))
  | .error (.error cause) => some (.error (.ofWorkspace cause))
  | .error (.panic _) => none

/-- The work that a request about a file asks for. -/
def workOf (b : Binding) (job : Job) (uri : Text) (position : Option Position) (command : Command) :
    Work where
  project := b.project
  key := .ofUri uri
  position := position
  cancellable := command.cancellable
  cancellation := if job.cancelled then (if job.begun then .during else .before) else .never

/-- Works on a request about a file. -/
def perform (s : Session) (b : Binding) (job : Job) (uri : Text) (position : Option Position)
    (command : Command) : Except CommandError Json × Session :=
  let capabilities := s.workspace.capabilities
  let (outcome, s) := s.within b.documents
    ((workOf b job uri position command).run true fun sources =>
      command.execute capabilities sources b.cache)
  match outcome with
  | .error e => (.error e, s)
  | .ok none => (.ok command.unresolved, s)
  | .ok (some (result, cache)) =>
    (.ok result, s.modifyBinding job.binding fun b => { b with cache })

def symbolsToJson (found : Option (List SymbolMatch)) : Json :=
  (found.map fun found => .arr (found.filterMap SymbolMatch.toJson?)).getD .null

/-- The outcome of a request, if there is one. -/
def outcome (s : Session) (b : Binding) (job : Job) : Option (Except CommandError Json) × Session :=
  match job.question with
  | .about uri position command =>
    let (result, s) := s.perform b job uri position command
    (some result, s)
  | .symbols query =>
    let (found, s) :=
      s.within b.documents (searchSymbols b.project query s.symbolLimit job.cancelled)
    (unguarded symbolsToJson found, s)
  | .resolveItem item =>
    if job.cancelled && !job.begun then (some (.error .cancelled), s)
    else
      let resolved := b.cache.resolve s.workspace.capabilities job.cancelled item
      (unguarded CompletionItem.toJson resolved, s)
  | .answered result => (some (.ok result), s)

/-- Works on a request and answers it. -/
def runJob (s : Session) (job : Job) : Session :=
  match s.bindings[job.binding]? with
  | none => s
  | some b =>
    match s.outcome b job with
    | (none, s) => s
    | (some result, s) =>
      (s.modifyBinding job.binding (·.forget job.id)).respond (.ofOutcome job.id result)

/-- Begins with the first request that nobody has begun with, unless it is cancelled. -/
def beginFirst : List Job → List Job
  | [] => []
  | job :: rest =>
    if job.begun || job.cancelled then job :: beginFirst rest
    else { job with begun := true } :: rest

def beginNext (s : Session) : Session := { s with queue := beginFirst s.queue }

/-- Works on the request that has waited longest. -/
def workNext (s : Session) : Session :=
  match s.queue with
  | [] => s
  | job :: rest => { s with queue := rest }.runJob job

/-- Works on some of the requests that wait. -/
def workSome (s : Session) : Nat → Session
  | 0 => s
  | n + 1 => s.workNext.workSome n

def workOff (s : Session) : Session := s.queue.foldl runJob { s with queue := [] }

end Session

end LanguageServer
