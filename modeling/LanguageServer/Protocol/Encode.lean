import LanguageServer.Protocol.Json
import LanguageServer.Protocol.Kinds
import LanguageServer.Query.Capabilities
import LanguageServer.Uri.Address

/-!
# Results as protocol values

How places, edits and the results of queries are written for the client. What lies in a file that
has no address is left out.
-/

namespace LanguageServer

def Position.toJson (p : Position) : Json :=
  .obj [("line", .nat p.line), ("character", .nat p.character)]

def Range.toJson (r : Range) : Json := .obj [("start", r.start.toJson), ("end", r.stop.toJson)]

def TextEdit.toJson (e : TextEdit) : Json :=
  .obj [("range", e.range.toJson), ("newText", .str e.newText)]

def editsToJson (edits : List TextEdit) : Json := .arr (edits.map TextEdit.toJson)

/-- A location as the client reads it, if its file has an address. -/
def Location.toJson? (l : Location) : Option Json :=
  l.key.uri?.map fun uri => .obj [("uri", .str uri), ("range", l.range.toJson)]

namespace FileChanges

/-- Adds the edits of an address behind those it has. -/
def merge (uri : Text) (edits : List TextEdit) :
    List (Text × List TextEdit) → List (Text × List TextEdit)
  | [] => [(uri, edits)]
  | (u, es) :: rest => if uri = u then (u, es ++ edits) :: rest else (u, es) :: merge uri edits rest

def byUri (changes : FileChanges) : List (Text × List TextEdit) :=
  changes.files.foldl (fun out (key, edits) =>
    match key.uri? with
    | some uri => merge uri edits out
    | none => out) []

def toJson (changes : FileChanges) : Json :=
  .obj [("changes", .obj (changes.byUri.map fun (uri, edits) =>
    (String.ofList uri, editsToJson edits)))]

end FileChanges

/-- The name under which diagnostics are sent. -/
def diagnosticSource : String := "harbor"

/-- A finding as a diagnostic. Only findings that say something are sent. -/
def Finding.toJson? (f : Finding) : Option Json :=
  match f.description with
  | none | some [] => none
  | some message => some (.obj [("range", f.range.toJson), ("severity", .nat f.severity.number),
      ("source", .ofString diagnosticSource), ("message", .str message)])

/-- A link to a definition, if its file has an address. -/
def DefinitionTarget.toJson? (t : DefinitionTarget) : Option Json :=
  t.key.uri?.map fun uri => .ofFields [("originSelectionRange", t.origin.map Range.toJson),
    ("targetUri", some (.str uri)), ("targetRange", some t.range.toJson),
    ("targetSelectionRange", some t.selection.toJson)]

/-- An occurrence as the client reads it: 2 is reading, 3 is writing. -/
def Highlight.toJson (h : Highlight) : Json :=
  .obj [("range", h.range.toJson), ("kind", .nat (if h.write then 3 else 2))]

mutual

/-- An entry of an outline as the client reads it. -/
def SymbolNode.toJson : SymbolNode → Json
  | .mk name detail kind range selection children => .ofFields [("name", some (.str name)),
      ("detail", some (.str detail)), ("kind", some (.nat kind.symbolNumber)),
      ("range", some range.toJson),
      ("selectionRange", some selection.toJson),
      ("children", if children.isEmpty then none else some (.arr (SymbolNode.listToJson children)))]

/-- Entries of an outline as the client reads them. -/
def SymbolNode.listToJson : List SymbolNode → List Json
  | [] => []
  | node :: rest => node.toJson :: SymbolNode.listToJson rest

end

/-- A symbol of the workspace as the client reads it, if its file has an address. -/
def SymbolMatch.toJson? (m : SymbolMatch) : Option Json :=
  m.location.toJson?.map fun location => .ofFields [("name", some (.str m.name)),
    ("kind", some (.nat m.kind.symbolNumber)), ("containerName", m.container.map .str),
    ("location", some location)]

def HoverInfo.toJson (h : HoverInfo) : Json :=
  .obj [("contents", .obj [("kind", .ofString "markdown"), ("value", .str h.contents)]),
    ("range", h.range.toJson)]

def SignatureInfo.toJson (s : SignatureInfo) : Json :=
  let active := s.active.map .nat
  let parameters := s.parameters.map fun p => Json.obj [("label", .str p)]
  let signature := Json.ofFields [
    ("label", some (.str s.label)), ("documentation", s.documentation.map .str),
    ("parameters", some (.arr parameters)), ("activeParameter", active)]
  .ofFields [("signatures", some (.arr [signature])), ("activeSignature", some (.nat 0)),
    ("activeParameter", active)]

/-- A command to run as the client reads it. -/
def Runnable.toJson (r : Runnable) : Json :=
  .obj [
    ("label", .str r.label), ("workingDirectory", .str r.directory), ("command", .str r.command),
    ("args", .arr (r.arguments.map .str))]

end LanguageServer
