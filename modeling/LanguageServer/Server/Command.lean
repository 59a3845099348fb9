import LanguageServer.Protocol.Encode
import LanguageServer.Server.CompletionCache

/-!
# Commands

What a client can ask about a file, and how the answer is written. Some commands can be cancelled
while they run.
-/

namespace LanguageServer

/-- A question about a file. -/
inductive Command
  | definitions (kind : DefinitionKind)
  | usages
  | highlights
  | documentSymbols
  | hover
  | signatureHelp
  | completion (position : Position)
  | codeActions (uri : Text) (range : Range)
  | resolveCodeAction (action : Json) (title : Text) (range : Range)
  | rename (newName : Text)
  | format (range : Option Range) (options : LayoutOptions)
  | formatOnType (typed : Char) (options : LayoutOptions)
  | contents
  | runnables

namespace Command

/-- Whether a command can be cancelled while it runs. -/
def cancellable : Command → Bool
  | usages | documentSymbols | signatureHelp | completion _ | format _ _ => true
  | _ => false

/-- The answer when there is no editor for the file. -/
def unresolved : Command → Json
  | resolveCodeAction action _ _ => action
  | _ => .null

/-- The data that comes back with a code action that is to be resolved. -/
def codeActionData (uri : Text) (range : Range) : Json :=
  .obj [("uri", .str uri), ("range", range.toJson)]

def offer (data : Json) (fix : QuickFix) : Json :=
  .obj [("title", .str fix.title), ("kind", .ofString "quickfix"), ("data", data)]

def completionList (items : List CompletionItem) : Json :=
  .obj [("isIncomplete", .bool false), ("items", .arr (items.map CompletionItem.toJson))]

def orNull {α : Type} (write : α → Json) (answer : Option α) : Json := (answer.map write).getD .null

/-- The edits that turn the text of a file into another one. -/
def changed (q : Capabilities) (c : Context) (after : Text) : Except Fault Json :=
  ((Text.lineEdits q.lineDiff c.text after).mapError .panic).map editsToJson

/-- The answer of a command, as the client reads it. Only a completion changes the list of
candidates. -/
def execute (command : Command) (q : Capabilities) (s : Sources) (cache : CompletionCache)
    (c : Context) :
    Except Fault (Json × CompletionCache) := do
  match command with
  | definitions kind =>
    return (.arr ((← q.definitions s c kind).filterMap DefinitionTarget.toJson?), cache)
  | usages =>
    let found ← q.usages s c
    c.check
    return (.arr (found.filterMap Location.toJson?), cache)
  | highlights => return (.arr ((← q.highlights c).map Highlight.toJson), cache)
  | documentSymbols =>
    let nodes ← q.documentSymbols c
    c.check
    return (.arr (SymbolNode.listToJson nodes), cache)
  | hover => return (orNull HoverInfo.toJson (← q.hover s c), cache)
  | signatureHelp =>
    match ← q.signatureHelp s c with
    | none => return (.null, cache)
    | some info =>
      c.check
      return (info.toJson, cache)
  | completion position =>
    let candidates ← q.completions s c
    c.check
    let cache := cache.store c.key c.text position candidates
    return (completionList cache.items, cache)
  | codeActions uri range =>
    return (.arr ((← q.codeActions c range).map (offer (codeActionData uri range))), cache)
  | resolveCodeAction action title range =>
    return (action.set "edit" (← q.applyCodeAction c title range).toJson, cache)
  | rename newName => return ((← q.rename s c newName).toJson, cache)
  | format range options =>
    let after ← q.reformat c range options
    c.check
    return (← changed q c after, cache)
  | formatOnType typed options => return (← changed q c (← q.formatOnType c typed options), cache)
  | contents => return (.str c.text, cache)
  | runnables =>
    let found := (← q.runnables s c).eraseDupsBy fun a b => a.label == b.label
    return (.arr (found.map Runnable.toJson), cache)

end Command

end LanguageServer
