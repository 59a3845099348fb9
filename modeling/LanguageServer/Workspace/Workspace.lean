import LanguageServer.Workspace.Project

/-!
# Workspaces

A workspace opens projects on a file tree, at most one for each root, and passes on what happens in
them. Every project ever opened keeps its number, also after it has been closed. The calls made and
the events sent are kept until they are fetched.
-/

namespace LanguageServer

/-- A workspace. `table` holds the numbers of the open projects by their roots. -/
structure Workspace where
  disk : FileTree := {}
  libraries : List Text := []
  capabilities : Capabilities := .standard
  projects : List Project := []
  table : List (FileKey × Nat) := []
  nextTask : Nat := 0
  calls : List Call := []
  events : List (Listener × ProjectEvent) := []

/-- Steps of a workspace. -/
abbrev WorkspaceM := StateM Workspace

namespace Workspace

def project? (w : Workspace) (id : Nat) : Option Project := w.projects[id]?

/-- The number of the open project with a root. -/
def tracked? (w : Workspace) (root : FileKey) : Option Nat := (w.table.find? (·.1 = root)).map (·.2)

def editor? (w : Workspace) (id : Nat) (key : FileKey) : Option Editor :=
  (w.project? id).bind (·.editors.get? key)

/-- The keys of the open files of a project, in order. -/
def openFiles (w : Workspace) (id : Nat) : List FileKey :=
  (((w.project? id).map (·.editors)).getD []).map (·.1)

/-- Puts a project in place of the one with a number. -/
def setProject (w : Workspace) (id : Nat) (p : Project) : Workspace :=
  { w with projects := w.projects.set id p }

def note (call : Call) : WorkspaceM Unit := modify fun w => { w with calls := w.calls ++ [call] }

/-- Sends events to everyone who listens to a project. -/
def emit (id : Nat) (events : List ProjectEvent) : WorkspaceM Unit := modify fun w =>
  let listeners := (((w.project? id).map (·.listeners)).getD []).map (·.2)
  { w with events := w.events ++ events.flatMap fun e => listeners.map (·, e) }

/-- Takes a new number for the task of building an index. -/
def newIndexTask (root : FileKey) : WorkspaceM TaskInfo := modifyGet fun w =>
  (⟨"indexing".toList, w.nextTask, "Indexing ".toList ++ root.text⟩,
    { w with nextTask := w.nextTask + 1 })

/-- Opens the project with a root; one that is open already stays. -/
def resolveProject (root : FileKey) : WorkspaceM (Except WorkspaceError Nat) := do
  let w ← get
  match root.localPath?.map fun path => (path, w.disk.follow path) with
  | some (path, .ok (_, .directory)) =>
    match w.tracked? root with
    | some id =>
      note (.resolve root (some id))
      return .ok id
    | none =>
      let id := w.projects.length
      note (.resolve root (some id))
      discard (newIndexTask root)
      modify fun w => { w with
        projects := w.projects ++ [.ofDirectory w.disk w.libraries root path]
        table := w.table ++ [(root, id)] }
      return .ok id
  | some (_, .ok (_, .file ..)) =>
    note (.resolve root none)
    return .error (.notADirectory root.text)
  | _ =>
    note (.resolve root none)
    return .error (.projectNotFound root.text)

/-- Closes the open project that has the root of a project. -/
def closeProject (id : Nat) : WorkspaceM Unit := do
  let w ← get
  match w.project? id with
  | none => return
  | some p =>
    note (.closeProject id p.root (w.openFiles id))
    match w.tracked? p.root with
    | none => return
    | some id => modify fun w => { w with
        table := w.table.filter (·.1 ≠ p.root)
        projects := w.projects.modify id Project.close }

/-- Begins to build the index of a project with a root anew and tells about it. -/
def beginIndexing (id : Nat) (root : FileKey) : WorkspaceM TaskInfo := do
  let task ← newIndexTask root
  emit id [.indexingStarted, .taskStarted task]
  return task

/-- Puts the index in place that has been collected for a task and tells about it. -/
def finishIndexing (id : Nat) (task : TaskInfo) (index : Index) : WorkspaceM Unit := do
  modify fun w =>
    match w.project? id with
    | none => w
    | some p => w.setProject id (p.install index)
  emit id [.taskFinished task, .indexingFinished]

/-- Builds the index of a project anew, with nothing happening in between. -/
def reindex (id : Nat) : WorkspaceM Unit := do
  match (← get).project? id with
  | none => return
  | some p =>
    let task ← beginIndexing id p.root
    let w ← get
    finishIndexing id task (p.collect w.disk w.libraries)

/-- Lets someone listen to a project; gives the number of the subscription. -/
def subscribe (id : Nat) (listener : Listener) : WorkspaceM Nat := do
  match (← get).project? id with
  | none => return 0
  | some p =>
    modify fun w => w.setProject id { p with
      listeners := p.listeners ++ [(p.nextSubscription, listener)]
      nextSubscription := p.nextSubscription + 1 }
    return p.nextSubscription

def unsubscribe (id : Nat) (subscription : Nat) : WorkspaceM Unit := modify fun w =>
  match w.project? id with
  | none => w
  | some p => w.setProject id { p with listeners := p.listeners.filter (·.1 ≠ subscription) }

/-- Reads a file or directory again, and says whether it exists. -/
def refresh (id : Nat) (key : FileKey) : WorkspaceM Bool := do
  note (.refresh key)
  let w ← get
  match w.project? id with
  | none => return false
  | some p =>
    let (p, found) := p.refresh w.disk key
    set (w.setProject id p)
    return found

/-- Opens the editor of a file, unless it is open, and says whether there is one. -/
def openEditor (id : Nat) (key : FileKey) : WorkspaceM (Except Fault Bool) := do
  let w ← get
  match w.capabilities.opensEditor key, w.project? id with
  | .error fault, _ => return .error fault
  | .ok false, _ | _, none => return .ok false
  | .ok true, some p =>
    let (p, opened, events) := p.openEditor w.disk key
    set (w.setProject id p)
    emit id events
    return .ok opened

def closeEditor (id : Nat) (key : FileKey) : WorkspaceM Unit := do
  note (.closeEditor key)
  modify fun w =>
    match w.project? id with
    | none => w
    | some p => w.setProject id (p.closeEditor w.disk key)

/-- Puts the outcome of a change of an open file in place and tells about it. -/
def settle (id : Nat) (outcome : Except WorkspaceError (Project × List ProjectEvent)) :
    WorkspaceM (Except WorkspaceError Unit) :=
  match outcome with
  | .error e => return .error e
  | .ok (p, events) => do
    modify (·.setProject id p)
    emit id events
    return .ok ()

def edit (id : Nat) (key : FileKey) (change : Text → Text) :
    WorkspaceM (Except WorkspaceError Unit) := do
  match (← get).project? id with
  | none => return .error (.failed [])
  | some p => settle id (p.edit key change)

/-- Puts the text on disk into the editor of an open file. -/
def reload (id : Nat) (key : FileKey) : WorkspaceM (Except WorkspaceError Unit) := do
  let w ← get
  match w.project? id with
  | none => return .error (.failed [])
  | some p => settle id (p.reload w.disk key)

def moveCaret (id : Nat) (key : FileKey) (offset : Nat) : WorkspaceM Unit := modify fun w =>
  match w.project? id with
  | none => w
  | some p => w.setProject id (p.moveCaret key offset)

def workspaceSymbols (id : Nat) (pattern : Text) (limit : Nat) (cancelled : Bool) :
    WorkspaceM (Except Fault (List SymbolMatch)) := do
  note (.workspaceSymbols pattern limit)
  let w ← get
  match w.project? id with
  | none => return .ok []
  | some p => return w.capabilities.workspaceSymbols p.toSources pattern limit cancelled

end Workspace

end LanguageServer
