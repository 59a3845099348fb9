import LanguageServer.Uri.Key
import LanguageServer.Workspace.FileTree

/-!
# Failures of a workspace

A request to a workspace fails with an error, or it breaks off. Whoever must answer in any case
turns a break into an error too.
-/

namespace LanguageServer

/-- Why a request to a workspace failed. -/
inductive WorkspaceError
  | projectNotFound (root : Text)
  | notADirectory (root : Text)
  | cancelled
  | unreadable (cause : ReadError)
  | failed (reason : Text)
  | panicked (reason : Text)
deriving DecidableEq, Repr

namespace WorkspaceError

def message : WorkspaceError → Text
  | projectNotFound root => "project not found: ".toList ++ root
  | notADirectory root => "project root is not a directory: ".toList ++ root
  | cancelled => "operation cancelled".toList
  | unreadable cause => "i/o error: ".toList ++ cause.message
  | failed reason => "backend failure: ".toList ++ reason
  | panicked reason => "backend panicked: ".toList ++ reason

end WorkspaceError

/-- How a request ends without a result: with an error, or broken off. -/
inductive Fault
  | error (e : WorkspaceError)
  | panic (reason : Text)
deriving DecidableEq, Repr

/-- The error for a request that broke off, with the reason if it gave one as a text. -/
def WorkspaceError.ofPanic (reason : Option Text) : WorkspaceError :=
  .panicked (reason.getD "unknown panic payload".toList)

end LanguageServer
