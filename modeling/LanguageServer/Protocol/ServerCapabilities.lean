import LanguageServer.Protocol.Json

/-!
# What the server announces

The capabilities in the answer to `initialize`. Without a project the server can do nothing.
-/

namespace LanguageServer.ServerCapabilities

def characters (s : String) : Json := .arr (s.toList.map fun c => .str [c])

/-- The capabilities of a server that is bound to a project. -/
def bound : Json := .obj [
  ("textDocumentSync", .obj [("openClose", .bool true), ("change", .nat 2),
    ("save", .obj [("includeText", .bool true)])]),
  ("workspace", .obj [("fileOperations", .obj [("didRename", .obj [("filters", .arr [
    .obj [("scheme", .ofString "file"), ("pattern", .obj [("glob", .ofString "**/*")])]])])])]),
  ("hoverProvider", .bool true),
  ("completionProvider", .obj [
    ("resolveProvider", .bool true), ("triggerCharacters", characters ".@"),
    ("completionItem", .obj [("labelDetailsSupport", .bool true)])]),
  ("signatureHelpProvider", .obj [("triggerCharacters", characters "([")]),
  ("definitionProvider", .bool true),
  ("typeDefinitionProvider", .bool true),
  ("implementationProvider", .bool true),
  ("referencesProvider", .bool true),
  ("documentHighlightProvider", .bool true),
  ("documentSymbolProvider", .bool true),
  ("workspaceSymbolProvider", .bool true),
  ("documentFormattingProvider", .bool true),
  ("documentRangeFormattingProvider", .bool true),
  ("documentOnTypeFormattingProvider", .obj [("firstTriggerCharacter", .ofString ";"),
    ("moreTriggerCharacter", characters "\x7d)]>:,.@#?=! |&$^%*/")]),
  ("renameProvider", .bool true),
  ("codeActionProvider", .obj [("codeActionKinds", .arr [.ofString "quickfix"]),
    ("resolveProvider", .bool true)])]

/-- The capabilities of a server without a project. -/
def unbound : Json := .obj []

/-- The result of `initialize`. -/
def initializeResult (capabilities : Json) : Json :=
  .obj [("capabilities", capabilities),
    ("serverInfo", .obj [("name", .ofString "harbor"), ("version", .ofString "0.1.0")])]

end LanguageServer.ServerCapabilities
