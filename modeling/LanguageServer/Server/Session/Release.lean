import LanguageServer.Server.Session.Work

/-!
# Releasing a project

A session leaves its project in four steps: it closes the documents with the editors, takes away
those who listen for the client, ends the reports of tasks and closes the project. Requests that
wait are not held up by that: some of them may be worked on between two steps.
-/

namespace LanguageServer

namespace Session

/-- How many of the requests that wait are worked on while a project is released: after its editors
have been closed, after nobody listens to it any more, and after the reports of its tasks have
ended. -/
structure Pace where
  closed : Nat := 0
  unheard : Nat := 0
  ended : Nat := 0
deriving DecidableEq, Repr

/-- Closes the documents of a binding, with all editors of its project. -/
def closeDocuments (s : Session) (i : Nat) (b : Binding) : Session :=
  let (documents, s) := s.quietly b.documents.closeAll
  s.modifyBinding i fun b => { b with documents }

/-- Lets nobody listen to the project of a binding any more. -/
def unsubscribe (s : Session) (b : Binding) : Session :=
  (s.quietly (b.subscriptions.forM (Workspace.unsubscribe b.project))).2

/-- Closes the project of the binding in force, which is forgotten. -/
def closeBound (s : Session) (b : Binding) : Session :=
  let ((), s) := s.quietly (Workspace.closeProject b.project)
  { s with
    current := none
    slot := if s.slot = some b.project then none else s.slot }

/-- All that is done before the project of a binding is closed, and the work meanwhile. -/
def leave (s : Session) (i : Nat) (b : Binding) (pace : Pace) : Session :=
  let s := (s.closeDocuments i b).workSome pace.closed
  let s := (s.unsubscribe b).workSome pace.unheard
  (s.modifyProgress Progress.stop).workSome pace.ended

/-- Releases the project that the session is bound to. No message is taken meanwhile, so nobody sees
that the binding stays in force until the end. -/
def release (s : Session) (pace : Pace := {}) : Session :=
  match s.current, s.binding? with
  | some i, some b => (s.leave i b pace).closeBound b
  | _, _ => s

end Session

end LanguageServer
