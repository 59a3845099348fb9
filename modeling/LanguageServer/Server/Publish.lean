import LanguageServer.Protocol.Encode
import LanguageServer.Server.Client
import LanguageServer.Server.Documents

/-!
# Diagnostics and the state of the index

Findings are published for the document they belong to, under the address that the client knows it
by and with the version it has at that moment.
-/

namespace LanguageServer

namespace Documents

/-- The address under which the client knows a file: its own one for an open document. -/
def uriFor? (docs : Documents) (key : FileKey) : Option Text :=
  (((docs.get? key).map (·.uri)).filter Reference.isReference).or key.uri?

/-- The version of a document, if it has one. -/
def version? (docs : Documents) (key : FileKey) : Option Int := (docs.get? key).bind (·.version)

end Documents

namespace Client

/-- Publishes the findings of a file, unless the file has no address. -/
def publishFindings (c : Client) (docs : Documents) (key : FileKey) (findings : List Finding) :
    Client :=
  match docs.uriFor? key with
  | none => c
  | some uri => c.notify "textDocument/publishDiagnostics" (.ofFields [("uri", some (.str uri)),
      ("diagnostics", some (.arr (findings.filterMap Finding.toJson?))),
      ("version", (docs.version? key).map .int)])

/-- Tells that the index is being built. -/
def indexStarted (c : Client) : Client := c.notify "experimental/indexStarted" .null

def indexFinished (c : Client) : Client := c.notify "experimental/indexFinished" .null

end Client

end LanguageServer
