import LanguageServer.Protocol.Json
import LanguageServer.Protocol.Kinds
import LanguageServer.Uri.Key

/-!
# Messages

Requests ask for a response with their id, notifications do not. A message that fits more than one
form is a request before a response before a notification. Before a message is handled, the files
that it names by their addresses are looked at on the disk.
-/

namespace LanguageServer

/-- The id of a request. -/
inductive RequestId
  | number (n : Int)
  | text (t : Text)
deriving DecidableEq, Repr

/-- A request. -/
structure Request where
  id : RequestId
  method : Text
  params : Json := .null

/-- Why a request failed. -/
structure ResponseError where
  code : Int
  message : Text
  data : Option Json := none

/-- A response to the request with an id. -/
structure Response where
  id : RequestId
  result : Option Json := none
  error : Option ResponseError := none

/-- A notification. -/
structure Notification where
  method : Text
  params : Json := .null

/-- A message of either side. -/
inductive Message
  | request (r : Request)
  | response (r : Response)
  | notification (n : Notification)

/-- Whether an integer fits into 32 bits with a sign. -/
def fitsInt32 (n : Int) : Bool := -2147483648 ≤ n && n ≤ 2147483647

namespace RequestId

def toJson : RequestId → Json
  | number n => .int n
  | text t => .str t

def ofJson? : Json → Option RequestId
  | .int n => if fitsInt32 n then some (number n) else none
  | .str t => some (text t)
  | _ => none

end RequestId

namespace ResponseError

def toJson (e : ResponseError) : Json :=
  .ofFields [("code", some (.int e.code)), ("message", some (.str e.message)), ("data", e.data)]

def ofJson? (j : Json) : Option ResponseError := do
  let code ← (j.get? "code").bind Json.int?
  let message ← (j.get? "message").bind Json.text?
  if fitsInt32 code then some ⟨code, message, j.field? "data"⟩ else none

end ResponseError

namespace Response

def ok (id : RequestId) (result : Json) : Response := ⟨id, some result, none⟩

def failure (id : RequestId) (code : ErrorCode) (message : Text) : Response :=
  ⟨id, none, some ⟨code.number, message, none⟩⟩

def toJson (r : Response) : Json :=
  .ofFields [("id", some r.id.toJson), ("result", r.result),
    ("error", r.error.map ResponseError.toJson)]

/-- Reads a response. A null result or error counts as none. -/
def ofJson? (j : Json) : Option Response := do
  let id ← (j.get? "id").bind RequestId.ofJson?
  match j.field? "error" with
  | none => some ⟨id, j.field? "result", none⟩
  | some e => some ⟨id, j.field? "result", some (← ResponseError.ofJson? e)⟩

end Response

/-- Reads the method and the parameters of a request or a notification. -/
def methodOfJson? (j : Json) : Option (Text × Json) :=
  ((j.get? "method").bind Json.text?).map (·, (j.get? "params").getD .null)

def Request.ofJson? (j : Json) : Option Request := do
  let id ← (j.get? "id").bind RequestId.ofJson?
  let (method, params) ← methodOfJson? j
  some ⟨id, method, params⟩

def Notification.ofJson? (j : Json) : Option Notification :=
  (methodOfJson? j).map fun (method, params) => ⟨method, params⟩

/-- Parameters as they are written: null ones are left out. -/
def paramsField (params : Json) : String × Option Json :=
  ("params", if params.isNull then none else some params)

namespace Message

/-- A message as it is written, without the version of the protocol. -/
def toJson : Message → Json
  | request r =>
    .ofFields [("id", some r.id.toJson), ("method", some (.str r.method)), paramsField r.params]
  | response r => r.toJson
  | notification n => .ofFields [("method", some (.str n.method)), paramsField n.params]

def ofJson? (j : Json) : Option Message :=
  ((Request.ofJson? j).map .request).or
    (((Response.ofJson? j).map .response).or ((Notification.ofJson? j).map .notification))

end Message

/-! ## Files that a message names -/

/-- The texts that stand anywhere in a value. -/
def Json.texts : Json → List Text
  | .str t => [t]
  | .arr items => ofItems items
  | .obj fields => ofObject fields
  | _ => []
where
  /-- The texts in items. -/
  ofItems : List Json → List Text
    | [] => []
    | j :: rest => j.texts ++ ofItems rest
  /-- The texts in fields. -/
  ofObject : List (String × Json) → List Text
    | [] => []
    | (_, j) :: rest => j.texts ++ ofObject rest

def Message.params : Message → Json
  | request r => r.params
  | notification n => n.params
  | response _ => .null

/-- The paths of the files that a message names. -/
def Message.mentions (m : Message) : List Text :=
  (m.params.texts.filter ("file:".toList.isPrefixOf ·)).filterMap fun t =>
    (FileKey.ofUri t).localPath?

end LanguageServer
