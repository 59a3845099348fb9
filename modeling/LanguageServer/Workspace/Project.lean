import LanguageServer.Query.Capabilities
import LanguageServer.Workspace.Event

/-!
# Projects

A project is a directory with the index of its sources and the editors opened in it. An editor holds
the text of a file as it is being written, and for an open file the index holds that text instead of
the one on disk.
-/

namespace LanguageServer

/-- The text of an open file, with its caret as a byte offset. -/
structure Editor where
  text : Text
  caret : Nat
  writable : Bool
deriving DecidableEq, Repr

namespace Editor

/-- An editor of a file that has just been read. -/
def ofFile (text : Text) (writable : Bool) : Editor := ⟨text, 0, writable⟩

/-- Another text; the caret stays unless it would stand behind the end. -/
def setText (e : Editor) (text : Text) : Editor :=
  { e with text, caret := min e.caret text.byteSize }

/-- Moves the caret, at most to the end. -/
def moveCaret (e : Editor) (offset : Nat) : Editor := { e with caret := min offset e.text.byteSize }

end Editor

/-- The index of a directory and of library directories, in which open files have the texts of their
editors. -/
def Index.build (disk : FileTree) (directory : Text) (libraries : List Text)
    (editors : Keyed Editor) : Index :=
  let add (inProject : Bool) (ix : Index) (source : Text × Text) : Index :=
    ix.update (.ofLocalPath source.1) source.2 inProject
  let own := (disk.sources directory).foldl (add true) []
  let all := (libraries.flatMap disk.sources).foldl (add false) own
  editors.foldl (fun ix (key, editor) => ix.update key editor.text true) all

/-- A project with those who listen to it. -/
structure Project extends Sources where
  isOpen : Bool
  editors : Keyed Editor
  listeners : List (Nat × Listener)
  nextSubscription : Nat

namespace Project

/-- A project that has just been opened. -/
def ofDirectory (disk : FileTree) (libraries : List Text) (root : FileKey) (directory : Text) :
    Project where
  root := root
  directory := directory
  index := .build disk directory libraries []
  isOpen := true
  editors := []
  listeners := []
  nextSubscription := 1

/-- The index of the sources as they are on disk and in the editors at this moment. -/
def collect (p : Project) (disk : FileTree) (libraries : List Text) : Index :=
  .build disk p.directory libraries p.editors

/-- Puts an index in place, whatever has happened to the files since it was collected. -/
def install (p : Project) (index : Index) : Project := { p with index }

/-- Builds the index anew, with nothing happening in between. -/
def rebuild (p : Project) (disk : FileTree) (libraries : List Text) : Project :=
  p.install (p.collect disk libraries)

/-- Closes the project with all its editors. Nobody listens to it any more. -/
def close (p : Project) : Project := { p with isOpen := false, editors := [], listeners := [] }

/-- Puts an editor in place and its text into the index. -/
def setEditor (p : Project) (key : FileKey) (editor : Editor) : Project :=
  { p with
    editors := p.editors.insert key editor
    index := p.index.update key editor.text true }

/-- The event that a text in an editor leads to. -/
def analysis (key : FileKey) (editor : Editor) : ProjectEvent :=
  .analysisFinished key (findings editor.text)

/-- Reads a file again unless it is open, and says whether it exists. -/
def rescan (p : Project) (disk : FileTree) (key : FileKey) (path : Text) : Project × Bool :=
  if (p.editors.get? key).isSome then (p, disk.contains path)
  else match disk.source? path with
    | some text => ({ p with index := p.index.update key text (key.isUnder p.root) }, true)
    | none => ({ p with index := p.index.erase key }, disk.contains path)

/-- Reads a file or the sources of a directory again, and says whether it exists. -/
def refresh (p : Project) (disk : FileTree) (key : FileKey) : Project × Bool :=
  match key.localPath? with
  | none => (p, false)
  | some path =>
    if disk.isDirectory path then
      ((disk.sources path).foldl (fun p (child, _) =>
        (p.rescan disk (.ofLocalPath child) child).1) p, true)
    else p.rescan disk key path

/-- Opens the editor of a file, unless it is open. Nothing but a text can be opened, and nothing in
a closed project. -/
def openEditor (p : Project) (disk : FileTree) (key : FileKey) :
    Project × Bool × List ProjectEvent :=
  if !p.isOpen then (p, false, [])
  else if (p.editors.get? key).isSome then (p, true, [])
  else match key.localPath?.map disk.readText with
    | some (.ok (text, writable)) =>
      let editor := Editor.ofFile text writable
      (p.setEditor key editor, true, [analysis key editor])
    | _ => (p, false, [])

/-- Closes the editor of a file; the index goes back to the file on disk. -/
def closeEditor (p : Project) (disk : FileTree) (key : FileKey) : Project :=
  if (p.editors.get? key).isNone then p
  else
    let closed := { p with editors := p.editors.erase key }
    match key.localPath? with
    | some path => (closed.rescan disk key path).1
    | none => closed

def edit (p : Project) (key : FileKey) (change : Text → Text) :
    Except WorkspaceError (Project × List ProjectEvent) :=
  match p.editors.get? key with
  | none => .error (.failed [])
  | some editor =>
    if !editor.writable then .error (.failed (key.text ++ " is read-only".toList))
    else
      let editor := editor.setText (change editor.text)
      .ok (p.setEditor key editor, [analysis key editor])

/-- Puts the text on disk into the editor of an open file. -/
def reload (p : Project) (disk : FileTree) (key : FileKey) :
    Except WorkspaceError (Project × List ProjectEvent) :=
  match p.editors.get? key, key.localPath?.map disk.readText with
  | some editor, some (.ok (text, _)) =>
    let editor := editor.setText text
    .ok (p.setEditor key editor, [analysis key editor])
  | _, some (.error e) => .error (.unreadable e)
  | _, _ => .error (.unreadable .missing)

def moveCaret (p : Project) (key : FileKey) (offset : Nat) : Project :=
  match p.editors.get? key with
  | none => p
  | some editor => { p with editors := p.editors.insert key (editor.moveCaret offset) }

end Project

end LanguageServer
