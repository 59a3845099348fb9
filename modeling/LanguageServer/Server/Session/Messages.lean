import LanguageServer.Protocol.ServerCapabilities
import LanguageServer.Server.Session.Release

/-!
# Messages of a session

Before `initialize` and after `shutdown` requests are refused, and notifications about documents are
dropped. In between, requests about files are queued and documents are changed at once. Wherever a
project may be released, the pace says what is worked on meanwhile.
-/

namespace LanguageServer

namespace Session

/-! ## Requests -/

/-- Lets a request wait to be worked on. -/
def enqueue (s : Session) (i : Nat) (id : RequestId) (question : Question) : Session :=
  { s.modifyBinding i (·.register id s.issued) with
    queue := s.queue ++ [⟨s.issued, i, id, question, false, false⟩]
    issued := s.issued + 1 }

/-- Takes a request under a binding. -/
def ask (s : Session) (i : Nat) (r : Request) : Session :=
  match Question.ofRequest r with
  | .error refusal => s.refuse r.id refusal.code refusal.message
  | .ok (.answered result) => s.respond (.ok r.id result)
  | .ok question => s.enqueue i r.id question

/-- The wording of a refusal before `initialize`. -/
def notInitialized : Text := "server not initialized".toList

/-- The wording of a refusal after `shutdown`. -/
def isShuttingDown : Text := "server is shutting down".toList

/-- Leaves the project of before and binds the session to the one with an address. Without one the
session serves without a project. -/
def openRoot (s : Session) (root : Option Text) (pace : Pace := {}) :
    Except WorkspaceError Json × Session :=
  let s := (s.release pace).closeLeftover
  match root with
  | none => (.ok (ServerCapabilities.initializeResult ServerCapabilities.unbound), s.enter .serving)
  | some uri =>
    match s.quietly (Workspace.resolveProject (.ofUri uri)) with
    | (.error e, s) => (.error e, s)
    | (.ok project, s) =>
      (.ok (ServerCapabilities.initializeResult ServerCapabilities.bound),
        (s.bind project).enter .serving)

/-- Takes the request `initialize`. -/
def handleInitialize (s : Session) (r : Request) (pace : Pace := {}) :
    Option SessionEnd × Session :=
  if s.phase = .shuttingDown then (none, s.refuse r.id .invalidRequest isShuttingDown)
  else match Params.root? r.params with
    | none => (none, s.refuse r.id .invalidParams "invalid initialize params".toList)
    | some root =>
      match s.openRoot root pace with
      | (.ok result, s) => (none, s.respond (.ok r.id result))
      | (.error e, s) =>
        (some .initializeFailed,
          s.refuse r.id .requestFailed ("cannot open project: ".toList ++ e.message))

def shutdown (s : Session) (pace : Pace := {}) : Session :=
  (s.cancelAll.enter .shuttingDown).release pace

/-- Takes the request `shutdown`. -/
def handleShutdown (s : Session) (id : RequestId) (pace : Pace := {}) : Session :=
  if s.phase = .uninitialized then s.refuse id .serverNotInitialized notInitialized
  else (s.shutdown pace).respond (.ok id .null)

def handleRequest (s : Session) (r : Request) (pace : Pace := {}) :
    Option SessionEnd × Session :=
  if r.method = "initialize".toList then s.handleInitialize r pace
  else if r.method = "shutdown".toList then (none, s.handleShutdown r.id pace)
  else match s.phase with
    | .uninitialized => (none, s.refuse r.id .serverNotInitialized notInitialized)
    | .shuttingDown | .exited => (none, s.refuse r.id .invalidRequest isShuttingDown)
    | .serving =>
      match s.current with
      | none => (none, s.respond (.ok r.id .null))
      | some i => (none, s.ask i r)

/-! ## Notifications -/

/-- Takes steps with the documents of a binding. What happens meanwhile is passed on for the
documents as `seen`. -/
def withDocuments (s : Session) (i : Nat) (seen : Documents)
    (steps : WorkspaceM (Except DocumentError Unit × Documents)) : Session :=
  let ((_, documents), s) := s.within seen steps
  s.modifyBinding i fun b => { b with documents }

/-- Tells the client if the index is being built. -/
def announceIndexing (s : Session) : Session :=
  if s.workspace.capabilities.isIndexing then { s with client := s.client.indexStarted } else s

def didOpen (s : Session) (i : Nat) (docs : Documents) (d : Params.OpenedDocument) : Session :=
  (s.withDocuments i docs (docs.start d.uri d.text d.version)).announceIndexing

def didChange (s : Session) (i : Nat) (docs : Documents) (d : Params.ChangedDocument) : Session :=
  s.withDocuments i docs (docs.update d.uri d.version d.changes)

/-- Reads a saved document from disk again. Its version is forgotten before. -/
def didSave (s : Session) (i : Nat) (docs : Documents) (uri : Text) : Session :=
  s.withDocuments i (docs.setVersion (.ofUri uri) none) (docs.sync uri)

def didClose (s : Session) (i : Nat) (docs : Documents) (uri : Text) : Session :=
  s.withDocuments i docs (docs.stop uri)

/-- Reads files again that have been renamed, under their old and their new addresses. -/
def didRename (s : Session) (docs : Documents) (uris : List Text) : Session :=
  (s.within docs (uris.forM fun uri => discard (Workspace.refresh docs.project (.ofUri uri)))).2

/-- Takes a notification under a binding. One with parameters that are not valid is dropped. -/
def notified (s : Session) (i : Nat) (docs : Documents) (n : Notification) : Session :=
  match String.ofList n.method with
  | "textDocument/didOpen" => ((Params.opened? n.params).map (s.didOpen i docs)).getD s
  | "textDocument/didChange" => ((Params.changed? n.params).map (s.didChange i docs)).getD s
  | "textDocument/didSave" => ((Params.saved? n.params).map (s.didSave i docs)).getD s
  | "textDocument/didClose" => ((Params.closed? n.params).map (s.didClose i docs)).getD s
  | "workspace/didRenameFiles" => ((Params.renamed? n.params).map (s.didRename docs)).getD s
  | _ => s

def handleNotification (s : Session) (n : Notification) : Option SessionEnd × Session :=
  if n.method = "exit".toList then (some .exit, s)
  else if n.method = "$/cancelRequest".toList then
    (none, ((Params.cancelled? n.params).map s.cancel).getD s)
  else if n.method = "initialized".toList then (none, s)
  else match s.phase, s.current, s.binding? with
    | .serving, some i, some b => (none, s.notified i b.documents n)
    | _, _, _ => (none, s)

/-! ## All messages -/

/-- Takes a response to a request of the server. -/
def handleResponse (s : Session) (r : Response) : Session :=
  match s.client.route r with
  | (true, client) => { s with client }.modifyProgress (·.answered r.id)
  | (false, _) => s

/-- Takes a message. Says how the session ends if it ends with it. -/
def handle (s : Session) (m : Message) (pace : Pace := {}) : Option SessionEnd × Session :=
  match m with
  | .request r => s.handleRequest r pace
  | .notification n => s.handleNotification n
  | .response r => (none, s.handleResponse r)

/-- A step of a session: a message arrives, or a request that waits is worked on. -/
inductive Step
  | message (m : Message)
  | work

def step (s : Session) (next : Step) (pace : Pace := {}) : Option SessionEnd × Session :=
  match next with
  | .message m => s.handle m pace
  | .work => (none, s.workNext)

/-- Takes steps until the session ends. After the last one it ends in the given way. -/
def stepUntil (last : SessionEnd) (s : Session) : List Step → SessionEnd × Session
  | [] => (last, s)
  | next :: rest =>
    match s.step next with
    | (some ending, s) => (ending, s)
    | (none, s) => stepUntil last s rest

/-- Ends the session: what waits is cancelled and the project is released. -/
def finish (s : Session) (pace : Pace := {}) : Session :=
  { s.cancelAll.release pace with phase := .exited }

/-- Takes steps until the session ends, and ends it. -/
def serve (s : Session) (steps : List Step) (last : SessionEnd) : SessionEnd × Session :=
  let (ending, s) := stepUntil last s steps
  (ending, s.finish)

end Session

end LanguageServer
