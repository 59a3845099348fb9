import LanguageServer.Protocol.Json
import LanguageServer.Uri.Reference

/-!
# Shapes of values

A shape says which JSON values are valid and gives their canonical form: fields that the protocol
does not know are dropped, and so are optional fields that are null. A record may also be given as
the list of its values, unless some of its fields are those of another record.
-/

namespace LanguageServer

/-- Gives the canonical form of a value, if the value is valid. -/
abbrev Shape := Json → Option Json

namespace Shape

/-- Every value. -/
def any : Shape := some

/-- Truth values. -/
def boolean : Shape
  | .bool b => some (.bool b)
  | _ => none

/-- Integers between two bounds. -/
def integer (low high : Int) : Shape
  | .int n => if low ≤ n && n ≤ high then some (.int n) else none
  | _ => none

/-- Integers of 32 bits with a sign. -/
def int32 : Shape := integer (-2147483648) 2147483647

/-- Integers of 32 bits without a sign. -/
def uint32 : Shape := integer 0 4294967295

/-- Strings. -/
def text : Shape
  | .str t => some (.str t)
  | _ => none

/-- Strings that are addresses. -/
def uri : Shape
  | .str t => if Reference.isReference t then some (.str t) else none
  | _ => none

def word (words : List String) : Shape
  | .str t => if words.contains (String.ofList t) then some (.str t) else none
  | _ => none

def list (item : Shape) : Shape
  | .arr items => (items.mapM item).map .arr
  | _ => none

/-- Lists of two items. -/
def pair (item : Shape) : Shape
  | .arr [first, second] => list item (.arr [first, second])
  | _ => none

/-- Values of the first shape that fits. -/
def either (a b : Shape) : Shape := fun j => (a j).or (b j)

/-- Objects with fields of any name, whose names and values have the given shapes. -/
def table (key value : Shape) : Shape
  | .obj fields =>
    (fields.mapM fun (k, v) => do
      let _ ← key (.ofString k)
      return (k, ← value v)).map .obj
  | _ => none

/-- A field of a record. -/
structure Field where
  key : String
  optional : Bool
  shape : Shape

def required (key : String) (shape : Shape) : Field := ⟨key, false, shape⟩

def optional (key : String) (shape : Shape) : Field := ⟨key, true, shape⟩

/-- Reads the value that is given for a field, if one is. -/
def Field.read (f : Field) (given : Option Json) : Option (String × Option Json) :=
  if f.optional then
    match given.filter (!·.isNull) with
    | none => some (f.key, none)
    | some v => (f.shape v).map fun v => (f.key, some v)
  else (given.bind f.shape).map fun v => (f.key, some v)

/-- The canonical form of the values that are given for some fields. -/
def ofGiven (given : List (Field × Option Json)) : Option Json :=
  (given.mapM fun (f, v) => Field.read f v).map Json.ofFields

/-- Objects with the given fields, and perhaps others. -/
def object (fields : List Field) : Shape
  | .obj all => ofGiven (fields.map fun f => (f, (Json.obj all).get? f.key))
  | _ => none

/-- Objects with the given fields, and lists of the values of all of them in their order. -/
def record (fields : List Field) : Shape
  | .arr values =>
    if values.length = fields.length then ofGiven (fields.zip (values.map some)) else none
  | j => object fields j

/-! ## Common shapes of the protocol -/

def position : Shape := record [required "line" uint32, required "character" uint32]

def range : Shape := record [required "start" position, required "end" position]

def location : Shape := record [required "uri" uri, required "range" range]

def textEdit : Shape := record [required "range" range, required "newText" text]

def insertReplaceEdit : Shape :=
  record [required "newText" text, required "insert" range, required "replace" range]

/-- Numbers or strings. -/
def token : Shape := either int32 text

def command : Shape :=
  record [required "title" text, required "command" text, optional "arguments" (list any)]

def diagnostic : Shape := record [required "range" range, optional "severity" int32,
  optional "code" token, optional "codeDescription" (record [required "href" uri]),
  optional "source" text, required "message" text,
  optional "relatedInformation"
    (list (record [required "location" location, required "message" text])),
  optional "tags" (list int32), optional "data" any]

def versionedDocument : Shape := record [required "uri" uri, required "version" int32]

/-- References to a document whose version may be unknown. -/
def optionalVersion : Shape := fun j => do
  let r ← record [required "uri" uri, optional "version" int32] j
  return if (r.get? "version").isNone then r.set "version" .null else r

def annotatedEdit : Shape := either textEdit
  (object [required "range" range, required "newText" text, required "annotationId" text])

def documentEdit : Shape :=
  record [required "textDocument" optionalVersion, required "edits" (list annotatedEdit)]

def fileOperation : Shape :=
  let options (keys : List String) : Field :=
    optional "options" (record (keys.map fun k => optional k boolean))
  let note := optional "annotationId" text
  either (record [required "kind" (word ["create"]), required "uri" uri,
      options ["overwrite", "ignoreIfExists"], note])
    (either (record [required "kind" (word ["rename"]), required "oldUri" uri,
      required "newUri" uri,
        options ["overwrite", "ignoreIfExists"], note])
      (record [required "kind" (word ["delete"]), required "uri" uri,
        optional "options" (record [optional "recursive" boolean,
          optional "ignoreIfNotExists" boolean,
          note])]))

def workspaceEdit : Shape := record [optional "changes" (table uri (list textEdit)),
  optional "documentChanges"
    (either (list documentEdit) (list (either fileOperation documentEdit))),
  optional "changeAnnotations" (table text (record [required "label" text,
    optional "needsConfirmation" boolean, optional "description" text]))]

def codeAction : Shape := record [required "title" text, optional "kind" text,
  optional "diagnostics" (list diagnostic), optional "edit" workspaceEdit,
  optional "command" command,
  optional "isPreferred" boolean, optional "disabled" (record [required "reason" text]),
  optional "data" any]

/-- Texts with a format. -/
def markup : Shape :=
  record [required "kind" (word ["plaintext", "markdown"]), required "value" text]

def completionItem : Shape := record [required "label" text,
  optional "labelDetails" (record [optional "detail" text, optional "description" text]),
  optional "kind" int32, optional "detail" text, optional "documentation" (either text markup),
  optional "deprecated" boolean, optional "preselect" boolean, optional "sortText" text,
  optional "filterText" text, optional "insertText" text, optional "insertTextFormat" int32,
  optional "insertTextMode" int32, optional "textEdit" (either textEdit insertReplaceEdit),
  optional "additionalTextEdits" (list textEdit), optional "command" command,
  optional "commitCharacters" (list text), optional "data" any, optional "tags" (list int32)]

end Shape

end LanguageServer
