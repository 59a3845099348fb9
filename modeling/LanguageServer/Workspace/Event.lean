import LanguageServer.Query.Findings
import LanguageServer.Uri.Key

/-!
# Events of a project

What a project tells its listeners, and the calls that a workspace writes down.
-/

namespace LanguageServer

/-- A long task. Its number is unique in the workspace. -/
structure TaskInfo where
  kind : Text
  id : Nat
  title : Text
deriving DecidableEq, Repr

def hexadecimal (n : Nat) : Text := Nat.toDigits 16 n

/-- The token under which the progress of a task is reported. -/
def TaskInfo.token (t : TaskInfo) : Text := t.kind ++ '@' :: hexadecimal t.id

/-- A change of a project. -/
inductive ProjectEvent
  | indexingStarted
  | indexingFinished
  | analysisFinished (key : FileKey) (findings : List Finding)
  | taskStarted (task : TaskInfo)
  | taskFinished (task : TaskInfo)
deriving DecidableEq, Repr

/-- Who listens to a project. -/
inductive Listener
  | observer
  | diagnostics
  | indexStatus
  | progress
deriving DecidableEq, Repr

/-- A call that a workspace writes down, with what it came upon: the number of the project that was
found or opened, if there is one, and the files that were open in a project about to be closed. -/
inductive Call
  | resolve (root : FileKey) (project : Option Nat)
  | closeProject (project : Nat) (root : FileKey) (openFiles : List FileKey)
  | closeEditor (key : FileKey)
  | refresh (key : FileKey)
  | workspaceSymbols (pattern : Text) (limit : Nat)
deriving DecidableEq, Repr

/-- How a call is written down. -/
def Call.text : Call → Text
  | resolve root _ => "resolve ".toList ++ root.text
  | closeProject _ root _ => "close_project ".toList ++ root.text
  | closeEditor key => "close_editor ".toList ++ key.text
  | refresh key => "refresh ".toList ++ key.text
  | workspaceSymbols pattern limit =>
    "workspace_symbols ".toList ++ pattern ++ ' ' :: (toString limit).toList

end LanguageServer
