import LanguageServer.Protocol.ClientCapabilities
import LanguageServer.Protocol.Message
import LanguageServer.Query.Capabilities
import LanguageServer.Server.CompletionCache
import LanguageServer.Server.Documents

/-!
# Parameters

Reads the parameters of requests and notifications. Every reader first brings them into their
canonical form, so that what is not valid is refused as a whole.
-/

namespace LanguageServer

namespace Shape

/-- Options of formatting. Further options are truth values, numbers or strings. -/
def layoutOptions : Shape
  | .obj fields =>
    let known := object [required "tabSize" uint32, required "insertSpaces" boolean,
      optional "trimTrailingWhitespace" boolean, optional "insertFinalNewline" boolean,
      optional "trimFinalNewlines" boolean]
    let names := ["tabSize", "insertSpaces", "trimTrailingWhitespace", "insertFinalNewline",
      "trimFinalNewlines"]
    if fields.all fun (k, v) =>
      names.contains k || (either boolean (either int32 text) v).isSome then
      known (.obj fields)
    else none
  | _ => none

def document : Shape := record [required "uri" uri]

def documentFields : List Field :=
  [required "textDocument" document, optional "workDoneToken" token]

/-- The fields of most requests about a place in a document. -/
def placeFields : List Field := required "position" position :: documentFields

def partialField : Field := optional "partialResultToken" token

def codeActionContext : Shape := record [required "diagnostics" (list diagnostic),
  optional "only" (list text), optional "triggerKind" int32]

end Shape

namespace Params

open Shape (required optional)

def text? (key : String) (j : Json) : Option Text := (j.get? key).bind Json.text?

def int? (key : String) (j : Json) : Option Int := (j.get? key).bind Json.int?

def position? (j : Json) : Option Position := do
  let j ← Shape.position j
  some ⟨← (j.get? "line").bind Json.nat?, ← (j.get? "character").bind Json.nat?⟩

def range? (j : Json) : Option Range := do
  let j ← Shape.range j
  some ⟨← (j.get? "start").bind position?, ← (j.get? "end").bind position?⟩

def textEdit? (j : Json) : Option TextEdit := do
  let j ← Shape.textEdit j
  some ⟨← (j.get? "range").bind range?, ← text? "newText" j⟩

def itemEdit? (j : Json) : Option ItemEdit :=
  ((textEdit? j).map .single).or do
    let j ← Shape.insertReplaceEdit j
    some (.insertReplace (← text? "newText" j) (← (j.get? "insert").bind range?)
      (← (j.get? "replace").bind range?))

def completionItem? (j : Json) : Option CompletionItem := do
  let fields ← (← Shape.completionItem j).fields?
  let field (key : String) := (Json.obj fields).get? key
  some {
    others := fields.filter fun (k, _) => !(["textEdit", "additionalTextEdits", "data"].contains k)
    textEdit := (field "textEdit").bind itemEdit?
    additionalEdits := ((field "additionalTextEdits").bind Json.items?).bind (·.mapM textEdit?)
    data := field "data" }

/-- The address of the document that canonical parameters are about. -/
def uri? (j : Json) : Option Text := (j.get? "textDocument").bind (text? "uri")

/-- Reads parameters about a place in a document. -/
def place? (more : List Shape.Field) (j : Json) : Option (Text × Position × Json) := do
  let j ← Shape.object (Shape.placeFields ++ more) j
  some (← uri? j, ← (j.get? "position").bind position?, j)

/-- Reads parameters about a document. -/
def document? (more : List Shape.Field) (j : Json) : Option (Text × Json) := do
  let j ← Shape.object (Shape.documentFields ++ more) j
  some (← uri? j, j)

def options? (j : Json) : Option LayoutOptions := do
  let options ← j.get? "options"
  some ⟨← (options.get? "tabSize").bind Json.nat?, ← (options.get? "insertSpaces").bind Json.bool?⟩

def optionsField : Shape.Field := required "options" Shape.layoutOptions

/-- A document that has been opened. -/
structure OpenedDocument where
  uri : Text
  text : Text
  version : Int

/-- Reads the parameters of `textDocument/didOpen`. -/
def opened? (j : Json) : Option OpenedDocument := do
  let j ← Shape.record [required "textDocument" (Shape.record [required "uri" Shape.uri,
    required "languageId" Shape.text, required "version" Shape.int32,
    required "text" Shape.text])] j
  let d ← j.get? "textDocument"
  some ⟨← text? "uri" d, ← text? "text" d, ← int? "version" d⟩

def contentChange? (j : Json) : Option ContentChange := do
  let j ← Shape.record [optional "range" Shape.range, optional "rangeLength" Shape.uint32,
    required "text" Shape.text] j
  some ⟨(j.get? "range").bind range?, ← text? "text" j⟩

/-- A document that has been changed. -/
structure ChangedDocument where
  uri : Text
  version : Int
  changes : List ContentChange

/-- Reads the parameters of `textDocument/didChange`. -/
def changed? (j : Json) : Option ChangedDocument := do
  let j ← Shape.record [required "textDocument" Shape.versionedDocument,
    required "contentChanges" Shape.any] j
  let d ← j.get? "textDocument"
  let changes ← (← (j.get? "contentChanges").bind Json.items?).mapM contentChange?
  some ⟨← text? "uri" d, ← int? "version" d, changes⟩

/-- Reads the parameters of `textDocument/didSave`. -/
def saved? (j : Json) : Option Text :=
  (Shape.record [required "textDocument" Shape.document, optional "text" Shape.text] j).bind uri?

/-- Reads the parameters of `textDocument/didClose`. -/
def closed? (j : Json) : Option Text :=
  (Shape.record [required "textDocument" Shape.document] j).bind uri?

/-- Reads the parameters of `workspace/didRenameFiles`: every old address and the new one behind it.
-/
def renamed? (j : Json) : Option (List Text) := do
  let files :=
    Shape.list (Shape.record [required "oldUri" Shape.text, required "newUri" Shape.text])
  let j ← Shape.record [required "files" files] j
  let pairs ← (← (j.get? "files").bind Json.items?).mapM fun f => do
    some [← text? "oldUri" f, ← text? "newUri" f]
  some pairs.flatten

/-- Reads the parameters of `$/cancelRequest`. -/
def cancelled? (j : Json) : Option RequestId :=
  (Shape.record [required "id" Shape.token] j).bind fun j => (j.get? "id").bind RequestId.ofJson?

/-- Reads the parameters of `initialize`: the address of the first folder, or else of the root, if
there is one. -/
def root? (j : Json) : Option (Option Text) := do
  let folder := Shape.record [required "uri" Shape.uri, required "name" Shape.text]
  let client := Shape.record [required "name" Shape.text, optional "version" Shape.text]
  let j ← Shape.object [optional "processId" Shape.uint32, optional "rootPath" Shape.text,
    optional "rootUri" Shape.uri, optional "initializationOptions" Shape.any,
    required "capabilities" Shape.clientCapabilities,
    optional "trace" (Shape.word ["off", "messages", "verbose"]),
    optional "workspaceFolders" (Shape.list folder), optional "clientInfo" client,
    optional "locale" Shape.text, optional "workDoneToken" Shape.token] j
  let folders := ((j.get? "workspaceFolders").bind Json.items?).getD []
  some ((folders.head?.bind (text? "uri")).or (text? "rootUri" j))

end Params

end LanguageServer
