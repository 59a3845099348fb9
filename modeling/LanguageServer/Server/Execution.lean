import LanguageServer.Protocol.Kinds
import LanguageServer.Workspace.Workspace

/-!
# Running work on a workspace

Work on a file runs with the editor of the file open and the caret at the place it is asked for.
Work that has been cancelled before it starts does not run. A search for symbols is about the whole
workspace, so no editor is needed.
-/

namespace LanguageServer

/-- Why a command gave no result. -/
inductive CommandError
  | cancelled
  | workspace (cause : WorkspaceError)
  | unavailable
deriving DecidableEq, Repr

namespace CommandError

def ofWorkspace : WorkspaceError → CommandError
  | .cancelled => cancelled
  | cause => workspace cause

/-- The error of a command whose query ended with a fault. One that broke off is never taken for
cancelled. -/
def ofFault : Fault → CommandError
  | .error cause => ofWorkspace cause
  | .panic reason => workspace (.ofPanic (some reason))

def message : CommandError → Text
  | cancelled => "request cancelled".toList
  | workspace cause => cause.message
  | unavailable => "executor is shut down".toList

def code : CommandError → ErrorCode
  | cancelled => .requestCancelled
  | workspace _ => .requestFailed
  | unavailable => .internalError

end CommandError

/-- When a piece of work is cancelled: not at all, before it starts, or while it runs. -/
inductive Cancellation
  | never
  | before
  | during
deriving DecidableEq, Repr

/-- A piece of work on a file. Only cancellable work notices that it is cancelled while it runs. -/
structure Work where
  project : Nat
  key : FileKey
  position : Option Position
  cancellable : Bool
  cancellation : Cancellation

namespace Work

/-- Opens the editor of the file and moves its caret. Gives the context of the work and what it can
read, if there is an editor. -/
def enter (w : Work) : WorkspaceM (Except Fault (Option (Sources × Context))) := do
  match ← Workspace.openEditor w.project w.key with
  | .error fault => return .error fault
  | .ok false => return .ok none
  | .ok true =>
    let workspace ← get
    match workspace.project? w.project, workspace.editor? w.project w.key with
    | some project, some editor =>
      let caret := match w.position with
        | some p => editor.text.offsetOf p
        | none => editor.caret
      Workspace.moveCaret w.project w.key caret
      return .ok (some (project.toSources,
        ⟨w.key, editor.text, caret, w.cancellable && w.cancellation = .during⟩))
    | _, _ => return .ok none

/-- Runs a piece of work, if there is an editor for its file. -/
def run {α : Type} (accepting : Bool) (w : Work) (work : Sources → Context → Except Fault α) :
    WorkspaceM (Except CommandError (Option α)) := do
  if !accepting then return .error .unavailable
  if w.cancellation = .before then return .error .cancelled
  match ← w.enter with
  | .error fault => return .error (.ofFault fault)
  | .ok none => return .ok none
  | .ok (some (sources, context)) =>
    match work sources context with
    | .error fault => return .error (.ofFault fault)
    | .ok result => return if context.cancelled then .error .cancelled else .ok (some result)

end Work

namespace SymbolMatch

/-- Whether a match comes before another one: by weight, and of equal weight the project before
libraries. -/
def le (a b : SymbolMatch) : Bool :=
  b.weight < a.weight || (a.weight == b.weight && (a.inProject || !b.inProject))

/-- The best matches, best first. Those that are equally good stay in their order. -/
def best (limit : Nat) (matches' : List SymbolMatch) : List SymbolMatch :=
  (matches'.mergeSort le).take limit

end SymbolMatch

/-- The symbols of a project that match a query, best first, at most `limit`. An empty query matches
everything; there is no answer while the index is being built. -/
def searchSymbols (project : Nat) (query : Text) (limit : Nat) (cancelled : Bool) :
    WorkspaceM (Except Fault (Option (List SymbolMatch))) := do
  let capabilities := (← get).capabilities
  if capabilities.isIndexing || !capabilities.runsUnits then return .ok none
  let pattern := if query.isEmpty then ['*'] else query
  match ← Workspace.workspaceSymbols project pattern limit cancelled with
  | .error fault => return .error fault
  | .ok found =>
    if cancelled then return .error (.error .cancelled)
    else return .ok (some (SymbolMatch.best limit found))

end LanguageServer
