import LanguageServer.Protocol.Params
import LanguageServer.Server.Command

/-!
# Questions

What a request asks of a session with a project. Requests with an unknown method or with parameters
that are not valid ask nothing and are refused.
-/

namespace LanguageServer

/-- What a request asks. Some requests are answered without looking at any file. -/
inductive Question
  | about (uri : Text) (position : Option Position) (command : Command)
  | symbols (query : Text)
  | resolveItem (item : CompletionItem)
  | answered (result : Json)

/-- Why a request is refused. -/
inductive Refusal
  | unknownMethod (method : Text)
  | invalidParams (method : Text)
  | emptyTrigger
deriving DecidableEq, Repr

namespace Refusal

def code : Refusal → ErrorCode
  | unknownMethod _ => .methodNotFound
  | _ => .invalidParams

def message : Refusal → Text
  | unknownMethod method => "method not found: ".toList ++ method
  | invalidParams method => "invalid params for ".toList ++ method
  | emptyTrigger => "empty trigger character".toList

end Refusal

namespace Question

open Shape (required optional)
open Params

def atPlace? (more : List Shape.Field) (command : Command) (params : Json) : Option Question :=
  (place? more params).map fun (uri, position, _) => about uri (some position) command

/-- A question about a whole file, which the parameters name directly. -/
def aboutFile? (command : Command) (params : Json) : Option Question :=
  ((Shape.document params).bind (text? "uri")).map fun uri => about uri none command

/-- Documents of this scheme are output of programs and have no symbols. -/
def outputScheme : Text := "output:".toList

/-- Reads a request for the symbols of a document. -/
def documentSymbols? (params : Json) : Option Question :=
  (document? [Shape.partialField] params).map fun (uri, _) =>
    if outputScheme.isPrefixOf uri then answered (.arr []) else about uri none .documentSymbols

/-- Reads a request for the symbols of the workspace. -/
def symbols? (params : Json) : Option Question :=
  ((Shape.object [
    required "query" Shape.text, optional "workDoneToken" Shape.token, Shape.partialField]
    params).bind (text? "query")).map symbols

/-- The signatures that the client shows. A parameter is named by its text or by where it begins and
ends in the label of its signature. -/
def signatureHelp : Shape :=
  let documentation := optional "documentation" (Shape.either Shape.text Shape.markup)
  let parameter := Shape.record
    [required "label" (Shape.either Shape.text (Shape.pair Shape.uint32)), documentation]
  let signature := Shape.record [required "label" Shape.text, documentation,
    optional "parameters" (Shape.list parameter), optional "activeParameter" Shape.uint32]
  Shape.record [required "signatures" (Shape.list signature),
    optional "activeSignature" Shape.uint32, optional "activeParameter" Shape.uint32]

/-- What the client sends along with a signature request. -/
def signatureContext : Shape := Shape.record [required "triggerKind" Shape.int32,
  optional "triggerCharacter" Shape.text, required "isRetrigger" Shape.boolean,
  optional "activeSignatureHelp" signatureHelp]

/-- What the client sends along with a completion request. -/
def completionContext : Shape :=
  Shape.record [required "triggerKind" Shape.int32, optional "triggerCharacter" Shape.text]

def completion? (params : Json) : Option Question :=
  (place? [Shape.partialField, optional "context" completionContext] params).map
    fun (uri, position, _) =>
    about uri (some position) (.completion position)

def codeActions? (params : Json) : Option Question := do
  let (uri, j) ← document? [Shape.partialField, required "range" Shape.range,
    required "context" Shape.codeActionContext] params
  let range ← (j.get? "range").bind range?
  some (about uri (some range.start) (.codeActions uri range))

/-- The document and the range in the data of a code action. -/
def codeActionOrigin? (action : Json) : Option (Text × Range) := do
  let data ← Shape.record [required "uri" Shape.text, required "range" Shape.range]
    (← action.get? "data")
  let uri ← text? "uri" data
  let range ← (data.get? "range").bind range?
  if Reference.isReference uri then some (uri, range) else none

/-- Reads a request to resolve a code action. An action that no data comes with is its own answer.
-/
def resolveCodeAction? (params : Json) : Option Question := do
  let action ← Shape.codeAction params
  let title ← text? "title" action
  match codeActionOrigin? action with
  | none => some (answered action)
  | some (uri, range) => some (about uri (some range.start) (.resolveCodeAction action title range))

/-- Reads a request to rename a symbol. -/
def rename? (params : Json) : Option Question := do
  let (uri, position, j) ← place? [required "newName" Shape.text] params
  some (about uri (some position) (.rename (← text? "newName" j)))

/-- Reads a request to format a document. -/
def format? (params : Json) : Option Question := do
  let (uri, j) ← document? [optionsField] params
  some (about uri none (.format none (← options? j)))

def formatRange? (params : Json) : Option Question := do
  let (uri, j) ← document? [optionsField, required "range" Shape.range] params
  let range ← (j.get? "range").bind range?
  some (about uri (some range.start) (.format (some range) (← options? j)))

def formatOnType (method : Text) (params : Json) : Except Refusal Question :=
  match place? [required "ch" Shape.text, optionsField] params with
  | none => .error (.invalidParams method)
  | some (uri, position, j) =>
    match text? "ch" j, options? j with
    | some (typed :: _), some options =>
      .ok (about uri (some position) (.formatOnType typed options))
    | _, _ => .error .emptyTrigger

/-- Reads the parameters of a request with a known method. -/
def ofParams? (method : String) : Option (Json → Option Question) :=
  match method with
  | "textDocument/definition" => some (atPlace? [Shape.partialField] (.definitions .declaration))
  | "textDocument/typeDefinition" =>
    some (atPlace? [Shape.partialField] (.definitions .typeDeclaration))
  | "textDocument/implementation" =>
    some (atPlace? [Shape.partialField] (.definitions .implementation))
  | "textDocument/references" => some (atPlace? [Shape.partialField,
      required "context" (Shape.record [required "includeDeclaration" Shape.boolean])] .usages)
  | "textDocument/documentHighlight" => some (atPlace? [Shape.partialField] .highlights)
  | "textDocument/documentSymbol" => some documentSymbols?
  | "workspace/symbol" => some symbols?
  | "textDocument/hover" => some (atPlace? [] .hover)
  | "textDocument/signatureHelp" =>
    some (atPlace? [optional "context" signatureContext] .signatureHelp)
  | "textDocument/completion" => some completion?
  | "completionItem/resolve" => some fun params => (completionItem? params).map resolveItem
  | "textDocument/codeAction" => some codeActions?
  | "codeAction/resolve" => some resolveCodeAction?
  | "textDocument/rename" => some rename?
  | "textDocument/formatting" => some format?
  | "textDocument/rangeFormatting" => some formatRange?
  | "experimental/classFileContents" => some (aboutFile? .contents)
  | "experimental/runnables" => some (aboutFile? .runnables)
  | _ => none

def ofRequest (r : Request) : Except Refusal Question :=
  if r.method = "textDocument/onTypeFormatting".toList then formatOnType r.method r.params
  else match ofParams? (String.ofList r.method) with
    | none => .error (.unknownMethod r.method)
    | some read =>
      match read r.params with
      | some question => .ok question
      | none => .error (.invalidParams r.method)

end Question

end LanguageServer
