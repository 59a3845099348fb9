import LanguageServer.Protocol.Message
import LanguageServer.Server.Execution
import LanguageServer.Workspace.Workspace

/-!
# Open documents

The documents that the client has opened in a project, with the version that the client gave the
last text. A change is only accepted if its version is the next one, counting every part of the
change; after opening with version zero and after saving any version is accepted. An operation that
fails leaves the texts of the editors as they were.
-/

namespace LanguageServer

/-- A change of a document: a new text for a range or for everything. -/
structure ContentChange where
  range : Option Range
  text : Text
deriving DecidableEq, Repr

/-- A text after a change. The range is put in terms of bytes first, so the change breaks off if
those are not the bytes of whole characters. -/
def ContentChange.apply (t : Text) (change : ContentChange) : Except Fault Text :=
  match change.range with
  | none => .ok change.text.normalizeNewlines
  | some range =>
    match
      t.replaceBytes? (t.byteSpan range).1 (t.byteSpan range).2 change.text.normalizeNewlines with
    | some t => .ok t
    | none => .error (.panic "range inside a character".toList)

/-- A document that the client has opened, with its address as the client wrote it. -/
structure ManagedDocument where
  key : FileKey
  uri : Text
  version : Option Int
  openedByClient : Bool := true
deriving DecidableEq, Repr

/-- Why an operation on a document failed. -/
inductive DocumentError
  | unsupportedScheme (uri : Text)
  | notManaged (key : FileKey)
  | versionMismatch (ours theirs : Int) (changes : Nat)
  | fileNotFound (key : FileKey)
  | noEditor (key : FileKey)
  | readOnly (key : FileKey)
  | workspace (cause : WorkspaceError)
  | command (cause : CommandError)
deriving DecidableEq, Repr

def decimalText (n : Int) : Text := (toString n).toList

def DocumentError.message : DocumentError → Text
  | unsupportedScheme uri => "unsupported uri scheme: ".toList ++ uri
  | notManaged key => "document is not managed: ".toList ++ key.text
  | versionMismatch ours theirs changes =>
    "version mismatch: stored ".toList ++ decimalText ours ++ ", received ".toList ++
      decimalText theirs
      ++ " with ".toList ++ decimalText changes ++ " change(s)".toList
  | fileNotFound key => "file not found: ".toList ++ key.text
  | noEditor key => "no editor for ".toList ++ key.text
  | readOnly key => "buffer is read-only: ".toList ++ key.text
  | workspace cause => cause.message
  | command cause => cause.message

/-- The open documents of a project by their keys. `accepting` says whether editors can
still be changed. -/
structure Documents where
  project : Nat
  accepting : Bool := true
  managed : Keyed ManagedDocument := []

/-- Steps of a workspace that can fail. -/
abbrev DocumentM := ExceptT DocumentError WorkspaceM

namespace Documents

def get? (docs : Documents) (key : FileKey) : Option ManagedDocument := docs.managed.get? key

def insert (docs : Documents) (d : ManagedDocument) : Documents :=
  { docs with managed := docs.managed.insert d.key d }

def erase (docs : Documents) (key : FileKey) : Documents :=
  { docs with managed := docs.managed.erase key }

def setVersion (docs : Documents) (key : FileKey) (version : Option Int) : Documents :=
  { docs with
    managed := docs.managed.map fun (k, d) => if k = key then (k, { d with version }) else (k, d) }

/-- Beginnings of the keys that editors can be opened for. -/
def supported : List String := ["file:/", "jar:/", "jrt:/"]

/-- Whether an editor can be opened for a key. -/
def isSupported (key : FileKey) : Bool := supported.any fun s => s.toList.isPrefixOf key.text

/-- Runs steps unless editors can no longer be changed. -/
def guarded {α : Type} (docs : Documents) (steps : DocumentM α) :
    WorkspaceM (Except DocumentError α) :=
  if docs.accepting then steps.run else return .error (.command .unavailable)

/-- The editor of a file, which is opened if needed. -/
def editorOf (docs : Documents) (key : FileKey) (missing : DocumentError) : DocumentM Editor := do
  match ← Workspace.openEditor docs.project key with
  | .error fault => throw (.command (.ofFault fault))
  | .ok false => throw missing
  | .ok true =>
    match (← get).editor? docs.project key with
    | some editor => return editor
    | none => throw missing

/-- Steps of a workspace whose failures are those of a document operation. -/
def lift (steps : WorkspaceM (Except WorkspaceError Unit)) : DocumentM Unit := do
  match ← steps with
  | .error cause => throw (.workspace cause)
  | .ok () => return ()

/-- Makes the editor of a file hold a text. Read-only files keep their own. -/
def fill (docs : Documents) (key : FileKey) (text : Text) : DocumentM Unit := do
  discard (Workspace.refresh docs.project key)
  let editor ← docs.editorOf key (.fileNotFound key)
  if editor.writable && editor.text ≠ text then
    lift (Workspace.edit docs.project key fun _ => text)

/-- Opens a document with the text that the client has. -/
def start (docs : Documents) (uri text : Text) (version : Int) :
    WorkspaceM (Except DocumentError Unit × Documents) := do
  let key := FileKey.ofUri uri
  if !isSupported key then return (.error (.unsupportedScheme uri), docs)
  match ← docs.guarded (docs.fill key text.normalizeNewlines) with
  | .error e => return (.error e, docs)
  | .ok () =>
    return (.ok (), docs.insert ⟨key, uri, if version = 0 then none else some version, true⟩)

/-- Applies changes to the editor of a file in their order. -/
def change (docs : Documents) (key : FileKey) (changes : List ContentChange) : DocumentM Unit := do
  let editor ← docs.editorOf key (.noEditor key)
  if !editor.writable then throw (.readOnly key)
  match changes.foldlM ContentChange.apply editor.text with
  | .error fault => throw (.command (.ofFault fault))
  | .ok text => lift (Workspace.edit docs.project key fun _ => text)

/-- The largest integer of 32 bits with a sign. -/
def maxInt32 : Nat := 2147483647

/-- The difference of two integers of 32 bits, unless it does not fit into 32 bits. -/
def checkedSub (a b : Int) : Option Int := if fitsInt32 (a - b) then some (a - b) else none

/-- Refuses a number of changes that does not lead from one version to another. A document without
a version takes any changes. -/
def checkVersion (ours : Option Int) (version : Int) (count : Nat) : Except DocumentError Unit :=
  match ours with
  | none => .ok ()
  | some ours =>
    if checkedSub version count = some ours then .ok ()
    else .error (.versionMismatch ours version count)

/-- Applies the changes of a document that lead to a version. -/
def update (docs : Documents) (uri : Text) (version : Int) (changes : List ContentChange) :
    WorkspaceM (Except DocumentError Unit × Documents) := do
  let key := FileKey.ofUri uri
  match docs.get? key with
  | none => return (.error (.notManaged key), docs)
  | some d =>
    match checkVersion d.version version (min changes.length maxInt32) with
    | .error e => return (.error e, docs)
    | .ok () =>
      match ← docs.guarded (docs.change key changes) with
      | .error e => return (.error e, docs)
      | .ok () => return (.ok (), docs.setVersion key (some version))

/-- Puts the text on disk into the editor of a file. -/
def reload (docs : Documents) (key : FileKey) : DocumentM Unit := do
  discard (docs.editorOf key (.noEditor key))
  lift (Workspace.reload docs.project key)

/-- Reads a document from disk again after the client has saved it. Its version is forgotten, even
if it cannot be read. -/
def sync (docs : Documents) (uri : Text) : WorkspaceM (Except DocumentError Unit × Documents) := do
  let key := FileKey.ofUri uri
  match docs.get? key with
  | none => return (.error (.notManaged key), docs)
  | some _ =>
    let docs := docs.setVersion key none
    return (← docs.guarded (docs.reload key), docs)

def stop (docs : Documents) (uri : Text) : WorkspaceM (Except DocumentError Unit × Documents) := do
  let key := FileKey.ofUri uri
  match docs.get? key with
  | none => return (.error (.notManaged key), docs)
  | some _ =>
    let docs := docs.erase key
    return (← docs.guarded (Workspace.closeEditor docs.project key : WorkspaceM Unit), docs)

/-- Puts a key into a list of keys that is in order, unless it is there. -/
def insertKey (key : FileKey) : List FileKey → List FileKey
  | [] => [key]
  | k :: rest =>
    if key = k then k :: rest
    else if key.lt k then key :: k :: rest
    else k :: insertKey key rest

/-- Closes all documents, and all editors of the project. -/
def closeAll (docs : Documents) : WorkspaceM Documents := do
  if docs.accepting then
    let keys := (docs.managed.map (·.1)).foldl (fun ks k => insertKey k ks)
      ((← get).openFiles docs.project)
    keys.forM (Workspace.closeEditor docs.project)
  return { docs with managed := [] }

end Documents

end LanguageServer
