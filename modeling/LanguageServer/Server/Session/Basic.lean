import LanguageServer.Server.Lifecycle
import LanguageServer.Server.Progress
import LanguageServer.Server.Publish
import LanguageServer.Server.Question

/-!
# Sessions

A session talks to one client and is bound to at most one project at a time. What belongs to a
binding stays with it: requests that were asked while it was current are answered with its documents
and its list of completions, also after another one has taken its place. Requests about files wait
in a queue until they are worked on.
-/

namespace LanguageServer

/-- What a session keeps for a project that it is bound to. `tickets` holds the tickets of the
requests that can still be cancelled. -/
structure Binding where
  project : Nat
  documents : Documents
  cache : CompletionCache := {}
  tickets : List (RequestId × Nat) := []
  progress : Progress := {}
  subscriptions : List Nat := []

/-- A request that waits to be worked on. Its ticket tells it from every other one, and `binding` is
the one that it was asked under. Once somebody has `begun` to work on it, it is too late to spare it
the work. -/
structure Job where
  ticket : Nat
  binding : Nat
  id : RequestId
  question : Question
  cancelled : Bool := false
  begun : Bool := false

/-- A session. Bindings are kept in the order in which they were made; `current` is the one in
force. `slot` is the project that a session was bound to last and that may have been left open, and
`issued` counts the tickets. -/
structure Session where
  phase : Phase := .uninitialized
  lifecycle : Lifecycle := .bound
  symbolLimit : Nat := 100
  client : Client := {}
  workspace : Workspace := {}
  slot : Option Nat := none
  bindings : List Binding := []
  current : Option Nat := none
  queue : List Job := []
  issued : Nat := 0

namespace Binding

/-- Keeps the ticket of a request, instead of an earlier one with the same id. -/
def register (b : Binding) (id : RequestId) (ticket : Nat) : Binding :=
  { b with tickets := b.tickets.filter (·.1 ≠ id) ++ [(id, ticket)] }

def forget (b : Binding) (id : RequestId) : Binding :=
  { b with tickets := b.tickets.filter (·.1 ≠ id) }

end Binding

namespace Session

/-- The binding in force. -/
def binding? (s : Session) : Option Binding := s.current.bind (s.bindings[·]?)

def modifyBinding (s : Session) (i : Nat) (change : Binding → Binding) : Session :=
  { s with bindings := s.bindings.modify i change }

def respond (s : Session) (r : Response) : Session := { s with client := s.client.respond r }

def refuse (s : Session) (id : RequestId) (code : ErrorCode) (message : Text) : Session :=
  s.respond (.failure id code message)

/-- Reaches a phase, and tells the server. -/
def enter (s : Session) (phase : Phase) : Session :=
  { s with phase, lifecycle := s.lifecycle.after phase }

/-! ## Events of projects -/

/-- Goes on with the progress of the binding in force. -/
def modifyProgress (s : Session) (change : Progress → Client → Progress × Client) : Session :=
  match s.current, s.binding? with
  | some i, some b =>
    let (progress, client) := change b.progress s.client
    { s with client }.modifyBinding i fun b => { b with progress }
  | _, _ => s

/-- Passes an event on to the client. Findings are published for the documents as they were known
when the event happened. -/
def deliver (documents : Documents) (s : Session) : Listener × ProjectEvent → Session
  | (.diagnostics, .analysisFinished key found) =>
    { s with client := s.client.publishFindings documents key found }
  | (.indexStatus, .indexingStarted) => { s with client := s.client.indexStarted }
  | (.indexStatus, .indexingFinished) => { s with client := s.client.indexFinished }
  | (.progress, .taskStarted task) => s.modifyProgress fun p => p.push (.start task)
  | (.progress, .taskFinished task) => s.modifyProgress fun p => p.push (.finish task)
  | _ => s

/-- Takes steps in the workspace and passes on what happens there. -/
def within {α : Type} (s : Session) (documents : Documents) (steps : WorkspaceM α) : α × Session :=
  let (result, workspace) := steps.run s.workspace
  (result, workspace.events.foldl (deliver documents)
    { s with workspace := { workspace with events := [] } })

/-- Takes steps in the workspace of which the client hears nothing. -/
def quietly {α : Type} (s : Session) (steps : WorkspaceM α) : α × Session :=
  let (result, workspace) := steps.run s.workspace
  (result, { s with workspace })

/-! ## Cancelling and binding -/

def cancelTicket (s : Session) (ticket : Nat) : Session :=
  { s with
    queue := s.queue.map fun job =>
      if job.ticket = ticket then { job with cancelled := true } else job }

/-- Cancels a request of the binding in force. -/
def cancel (s : Session) (id : RequestId) : Session :=
  match s.current, s.binding? with
  | some i, some b =>
    match b.tickets.find? (·.1 = id) with
    | some (_, ticket) => (s.modifyBinding i (·.forget id)).cancelTicket ticket
    | none => s
  | _, _ => s

/-- Cancels all requests of the binding in force. -/
def cancelAll (s : Session) : Session :=
  match s.current, s.binding? with
  | some i, some b =>
    b.tickets.foldl (fun s (_, ticket) => s.cancelTicket ticket)
      (s.modifyBinding i fun b => { b with tickets := [] })
  | _, _ => s

/-- Subscribes everyone who listens for the client. -/
def subscriptions (project : Nat) : WorkspaceM (List Nat) :=
  [Listener.diagnostics, .indexStatus, .progress].mapM (Workspace.subscribe project)

def bind (s : Session) (project : Nat) : Session :=
  let (subscriptions, s) := s.quietly (subscriptions project)
  { s with
    slot := some project
    bindings := s.bindings ++ [{ project, documents := { project }, subscriptions }]
    current := some s.bindings.length }

def forceClose (project : Nat) : WorkspaceM Unit := do
  ((← get).openFiles project).forM (Workspace.closeEditor project)
  Workspace.closeProject project

/-- Closes the project that an earlier session has left open. -/
def closeLeftover (s : Session) : Session :=
  match s.slot with
  | none => s
  | some project =>
    let s := { s with slot := none }
    if ((s.workspace.project? project).map (·.isOpen)).getD false then
      (s.quietly (forceClose project)).2
    else s

end Session

end LanguageServer
