import LanguageServer.Text.Basic

/-!
# File trees

The files and directories that a server can see. An entry stands under its full path, as the list of
the names on the way to it, and the entry of a file comes with all its directories. A written path
is followed name by name, so that only directories can be passed and two dots lead to the directory
above.
-/

namespace LanguageServer

/-- What a file holds. -/
inductive Content
  | text (t : Text)
  | binary (size : Nat)
deriving DecidableEq, Repr

namespace Content

def size : Content → Nat
  | text t => t.byteSize
  | binary n => n

end Content

/-- What stands at a path. -/
inductive Entry
  | directory
  | file (content : Content) (writable : Bool)
deriving DecidableEq, Repr

/-- Why a path could not be read. -/
inductive ReadError
  | missing
  | notADirectory
  | isADirectory
  | notText
deriving DecidableEq, Repr

/-- The wording of the operating system. -/
def ReadError.message : ReadError → Text
  | missing => "No such file or directory (os error 2)".toList
  | notADirectory => "Not a directory (os error 20)".toList
  | isADirectory => "Is a directory (os error 21)".toList
  | notText => "stream did not contain valid UTF-8".toList

/-- The full path of an entry. -/
abbrev Place := List Text

/-- Entries by their full path. The root is a directory that is not listed. -/
structure FileTree where
  entries : List (Place × Entry) := []
deriving DecidableEq, Repr

namespace FileTree

def get? (t : FileTree) (place : Place) : Option Entry :=
  if place = [] then some .directory else (t.entries.find? (·.1 = place)).map (·.2)

/-- The tree without a path and everything below it. -/
def erase (t : FileTree) (place : Place) : FileTree :=
  ⟨t.entries.filter fun e => !place.isPrefixOf e.1⟩

/-- Makes a directory, unless it is there. A file that is in the way is replaced. -/
def addDirectory (t : FileTree) (place : Place) : FileTree :=
  if t.get? place = some .directory then t
  else ⟨(t.erase place).entries ++ [(place, .directory)]⟩

/-- The directories on the way to an entry, outermost first. -/
def parents (place : Place) : List Place :=
  (List.range (place.length - 1)).map fun i => place.take (i + 1)

/-- Writes a file in place of whatever stands there, with the directories that it needs. -/
def write (t : FileTree) (place : Place) (content : Content) (writable : Bool) : FileTree :=
  ⟨(((parents place).foldl addDirectory t).erase place).entries ++
    [(place, .file content writable)]⟩

/-- Makes a directory with the directories that it needs. -/
def makeDirectory (t : FileTree) (place : Place) : FileTree :=
  (parents place ++ [place]).foldl addDirectory t

/-- The names that a written path follows. A slash at the end asks for a directory, as a single dot
does. -/
def steps (path : Text) : List Text :=
  let names := (path.splitOn '/').filter (· ≠ [])
  if path.getLast? = some '/' then names ++ [['.']] else names

def step (t : FileTree) : Place × Entry → Text → Except ReadError (Place × Entry)
  | (_, .file _ _), _ => .error .notADirectory
  | (place, .directory), name =>
    if name = ['.'] then .ok (place, .directory)
    else if name = ['.', '.'] then .ok (place.dropLast, .directory)
    else match t.get? (place ++ [name]) with
      | some entry => .ok (place ++ [name], entry)
      | none => .error .missing

/-- The entry that an absolute path leads to, with its full path. -/
def follow (t : FileTree) (path : Text) : Except ReadError (Place × Entry) :=
  match path with
  | '/' :: _ => (steps path).foldlM t.step ([], .directory)
  | _ => .error .missing

def contains (t : FileTree) (path : Text) : Bool := (t.follow path).isOk

def isDirectory (t : FileTree) (path : Text) : Bool :=
  match t.follow path with
  | .ok (_, .directory) => true
  | _ => false

/-- The text of a file, and whether the file may be written. -/
def readText (t : FileTree) (path : Text) : Except ReadError (Text × Bool) :=
  match t.follow path with
  | .error e => .error e
  | .ok (_, .directory) => .error .isADirectory
  | .ok (_, .file (.binary _) _) => .error .notText
  | .ok (_, .file (.text text) writable) => .ok (text, writable)

/-- The files below a directory, by the names that lead to them from there. -/
def below (t : FileTree) (place : Place) : List (Place × Content) :=
  t.entries.filterMap fun (p, e) =>
    match e with
    | .file content _ =>
      if place.isPrefixOf p && place != p then some (p.drop place.length, content) else none
    | .directory => none

end FileTree

end LanguageServer
