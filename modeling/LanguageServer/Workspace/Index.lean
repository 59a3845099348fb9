import LanguageServer.Outline.Scan
import LanguageServer.Workspace.FileTree
import LanguageServer.Workspace.Keyed

/-!
# The word index

The texts and outlines of the files of a project and of its libraries, in the order of their keys.
Hidden files, build directories, large files and files that are no text stay out.
-/

namespace LanguageServer

/-- A file of the index. -/
structure IndexedFile where
  text : Text
  outline : Outline
  inProject : Bool
deriving DecidableEq, Repr

/-- A file of the index with the outline of its text. -/
def IndexedFile.ofText (text : Text) (inProject : Bool) : IndexedFile :=
  ⟨text, Outline.scan text, inProject⟩

/-- The indexed files by their keys. -/
abbrev Index := Keyed IndexedFile

namespace Index

def update (ix : Index) (key : FileKey) (text : Text) (inProject : Bool) : Index :=
  Keyed.insert key (.ofText text inProject) ix

/-- The files of the project, then those of libraries. -/
def files (ix : Index) : Index := ix.filter (·.2.inProject) ++ ix.filter (!·.2.inProject)

/-- The searchable declarations of a name, those of one file first. -/
def declarationsNamed (ix : Index) (name : Text) (prefer : FileKey) :
    List (FileKey × Declaration) :=
  let found := ix.files.flatMap fun (key, file) => (file.outline.named name).map (key, ·)
  found.filter (·.1 = prefer) ++ found.filter (·.1 ≠ prefer)

end Index

/-- Files larger than this number of bytes are not indexed. -/
def maxIndexedSize : Nat := 1048576

/-- The text to index, unless the file is large or no text. -/
def indexable? : Content → Option Text
  | .text t => if t.byteSize ≤ maxIndexedSize && !t.contains '\x00' then some t else none
  | .binary _ => none

def skippedDirectories : List String := ["target", "node_modules", "build", "out", "__pycache__"]

/-- Whether the file that these names lead to belongs to the sources of the directory they start
from. -/
def isSource (names : Place) : Bool :=
  names.all (fun n => n.head? != some '.')
    && names.dropLast.all fun n => !skippedDirectories.contains (String.ofList n)

/-- The sources that a path leads to: the file itself, or the files below the directory. Each has
its path and its text. -/
def FileTree.sources (t : FileTree) (path : Text) : List (Text × Text) :=
  match t.follow path with
  | .error _ => []
  | .ok (_, .file content _) => ((indexable? content).map (path, ·)).toList
  | .ok (place, .directory) =>
    ((t.below place).filter fun (names, _) => isSource names).filterMap fun (names, content) =>
      (indexable? content).map (path ++ names.flatMap ('/' :: ·), ·)

/-- The text to index of the file that a path leads to. -/
def FileTree.source? (t : FileTree) (path : Text) : Option Text :=
  match t.follow path with
  | .ok (_, .file content _) => indexable? content
  | _ => none

def languageOf? (key : FileKey) : Option String :=
  match key.extension?.map String.ofList with
  | some "rs" => some "rust"
  | some "py" => some "python"
  | some "java" => some "java"
  | some "kt" | some "kts" => some "kotlin"
  | some "js" | some "mjs" => some "javascript"
  | some "ts" => some "typescript"
  | some "go" => some "go"
  | some "c" | some "h" => some "c"
  | some "cc" | some "cpp" | some "hpp" => some "cpp"
  | some "toml" => some "toml"
  | _ => none

end LanguageServer
