import LanguageServer.Protocol.Encode
import LanguageServer.Query.Capabilities
import LanguageServer.Server.Execution

/-!
# The last completion

Every completion replaces the one before and takes the next version. An item says which version it
comes from and which candidate it is, and only an item of the current version is resolved.
-/

namespace LanguageServer

/-- A list of candidates with the version it got, and where it was asked for. -/
structure Snapshot where
  version : Nat
  key : FileKey
  text : Text
  position : Position
  language : Option Text
  candidates : List Candidate

/-- The last list of candidates, if there was one. -/
structure CompletionCache where
  current : Option Snapshot := none

/-- How an item changes the text: by one edit, or by an edit with two ranges of which the client
takes one. -/
inductive ItemEdit
  | single (edit : TextEdit)
  | insertReplace (newText : Text) (insert replace : Range)
deriving DecidableEq, Repr

/-- A completion item. Fields that play no role here stay as they were written. -/
structure CompletionItem where
  others : List (String × Json)
  textEdit : Option ItemEdit
  additionalEdits : Option (List TextEdit)
  data : Option Json

namespace ItemEdit

/-- The edit with another text; its ranges stay. -/
def setText (newText : Text) : ItemEdit → ItemEdit
  | single e => single { e with newText }
  | insertReplace _ insert replace => insertReplace newText insert replace

def toJson : ItemEdit → Json
  | single e => e.toJson
  | insertReplace newText insert replace =>
    .obj [("newText", .str newText), ("insert", insert.toJson), ("replace", replace.toJson)]

end ItemEdit

namespace CompletionItem

def dataFor (version index : Nat) : Json :=
  .obj [("snapshotVersion", .nat version), ("candidateIndex", .nat index)]

/-- The version and the candidate that an item comes from. They are the fields of its data, or the
two entries of a list. -/
def origin? (item : CompletionItem) : Option (Nat × Nat) := do
  let (version, index) ← match ← item.data with
    | .arr [version, index] => some (version, index)
    | data => do some (← data.get? "snapshotVersion", ← data.get? "candidateIndex")
  some (← version.nat?, ← index.nat?)

def ofCandidate (c : Candidate) (version index : Nat) : CompletionItem where
  others := [("label", .str c.label), ("kind", .nat c.kind.completionNumber)]
    ++ (c.detail.map fun d => ("detail", Json.str d)).toList
  textEdit := some (.single ⟨c.replace, c.insertText⟩)
  additionalEdits := none
  data := some (dataFor version index)

def toJson (item : CompletionItem) : Json :=
  .ofFields (item.others.map (fun (k, v) => (k, some v)) ++
    [("textEdit", item.textEdit.map ItemEdit.toJson),
      ("additionalTextEdits", item.additionalEdits.map editsToJson), ("data", item.data)])

def apply (item : CompletionItem) (replace : Range) (r : Resolution) : CompletionItem :=
  { item with
    textEdit := some (match item.textEdit with
      | some edit => edit.setText r.newText
      | none => .single ⟨replace, r.newText⟩)
    additionalEdits := if r.additional.isEmpty then item.additionalEdits else some r.additional }

end CompletionItem

namespace CompletionCache

/-- The version of the last list, or zero. -/
def version (cache : CompletionCache) : Nat := (cache.current.map (·.version)).getD 0

/-- Puts a list in place of the last one, with the next version. -/
def store (cache : CompletionCache) (key : FileKey) (text : Text) (position : Position)
    (candidates : List Candidate) : CompletionCache :=
  ⟨some ⟨cache.version + 1, key, text, position, key.extension?, candidates⟩⟩

def items (cache : CompletionCache) : List CompletionItem :=
  match cache.current with
  | none => []
  | some s => s.candidates.zipIdx.map fun (c, i) => .ofCandidate c s.version i

/-- Fills in an item of the last list. Every other item comes back unchanged. -/
def resolve (cache : CompletionCache) (capabilities : Capabilities) (cancelled : Bool)
    (item : CompletionItem) : Except Fault CompletionItem :=
  match item.origin?, cache.current with
  | some (version, index), some s =>
    if version ≠ s.version then .ok item
    else match s.candidates[index]? with
      | none => .ok item
      | some candidate =>
        match capabilities.resolveCompletion s.candidates index cancelled with
        | .error fault => .error fault
        | .ok none => .ok item
        | .ok (some r) => .ok (item.apply candidate.replace r)
  | _, _ => .ok item

end CompletionCache

end LanguageServer
