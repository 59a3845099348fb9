/-!
# Where a connection stands

The phase of a session, why it ended, and what the server as a whole is doing.
-/

namespace LanguageServer

/-- Where a session stands. -/
inductive Phase
  | uninitialized
  | serving
  | shuttingDown
  | exited
deriving DecidableEq, Repr

/-- Why a session ended: the client sent `exit`, its side of the connection went away, the server
was stopped, or the project could not be opened. -/
inductive SessionEnd
  | exit
  | disconnected
  | stopped
  | initializeFailed
deriving DecidableEq, Repr

/-- What the server is doing: it has its socket, waits for a client, has one without a project,
serves one, leaves one, or has ended. -/
inductive Lifecycle
  | listening
  | accepting
  | bound
  | serving
  | shuttingDown
  | closed
deriving DecidableEq, Repr

/-- What the server is doing once a session has reached a phase; nothing new in the first and the
last one. -/
def Lifecycle.after (current : Lifecycle) : Phase → Lifecycle
  | .serving => serving
  | .shuttingDown => shuttingDown
  | .uninitialized | .exited => current

end LanguageServer
