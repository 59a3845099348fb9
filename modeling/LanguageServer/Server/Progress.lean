import LanguageServer.Server.Client
import LanguageServer.Workspace.Event

/-!
# Progress of tasks

The start and the end of a task are reported in the order of the events. Before a start is reported
the client is asked to create a token for it, and the report waits until the client answers or the
time for that is over.
-/

namespace LanguageServer

/-- A task that starts or ends. -/
inductive ProgressEvent
  | start (task : TaskInfo)
  | finish (task : TaskInfo)
deriving DecidableEq, Repr

/-- Events still to be reported, the request for a token that waits for an answer, and whether new
events are refused. -/
structure Progress where
  pending : List ProgressEvent := []
  awaiting : Option (RequestId × TaskInfo) := none
  stopped : Bool := false

namespace Progress

/-- The parameters that name the token of a task. -/
def tokenParams (task : TaskInfo) : Json := .obj [("token", .str task.token)]

/-- Asks the client to create the token of a task. -/
def ask (task : TaskInfo) (c : Client) : RequestId × Client :=
  c.request "window/workDoneProgress/create" (tokenParams task)

def report (task : TaskInfo) (value : Json) (c : Client) : Client :=
  c.notify "$/progress" (.obj [("token", .str task.token), ("value", value)])

def reportStart (task : TaskInfo) (c : Client) : Client :=
  report task (.obj [
    ("kind", .ofString "begin"), ("title", .str task.title), ("cancellable", .bool false),
    ("percentage", .nat 0)]) c

def reportFinish (task : TaskInfo) (c : Client) : Client :=
  report task (.obj [("kind", .ofString "end")]) c

/-- Reports events up to the first start. -/
def advance :
    List ProgressEvent → Client → (List ProgressEvent × Option (RequestId × TaskInfo)) × Client
  | [], c => (([], none), c)
  | .finish task :: rest, c => advance rest (reportFinish task c)
  | .start task :: rest, c =>
    let (id, c) := ask task c
    ((rest, some (id, task)), c)

/-- Reports what can be reported now. -/
def run (p : Progress) (c : Client) : Progress × Client :=
  match p.awaiting with
  | some _ => (p, c)
  | none =>
    let ((pending, awaiting), c) := advance p.pending c
    ({ p with pending, awaiting }, c)

def push (p : Progress) (e : ProgressEvent) (c : Client) : Progress × Client :=
  if p.stopped then (p, c) else run { p with pending := p.pending ++ [e] } c

/-- Goes on after the client has answered the request with an id. -/
def answered (p : Progress) (id : RequestId) (c : Client) : Progress × Client :=
  match p.awaiting with
  | some (asked, task) =>
    if id = asked then run { p with awaiting := none } (reportStart task c) else (p, c)
  | none => (p, c)

/-- Goes on after the time for an answer is over. -/
def timedOut (p : Progress) (c : Client) : Progress × Client :=
  match p.awaiting with
  | some (id, task) => run { p with awaiting := none } (reportStart task (c.forget id))
  | none => (p, c)

def reportNow (c : Client) : ProgressEvent → Client
  | .finish task => reportFinish task c
  | .start task =>
    let (id, c) := ask task c
    reportStart task (c.forget id)

/-- Reports all events that are left, giving the client no more time, and refuses new ones. -/
def stop (p : Progress) (c : Client) : Progress × Client :=
  let c := match p.awaiting with
    | some (id, task) => reportStart task (c.forget id)
    | none => c
  (⟨[], none, true⟩, p.pending.foldl reportNow c)

end Progress

end LanguageServer
