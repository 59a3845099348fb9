import LanguageServer.Workspace.Fault
import LanguageServer.Text.LineEdits
import LanguageServer.Text.Word

/-!
# What a query is asked and what it tells

A query knows the place it is asked for: the file, its text at that moment, and the caret as a byte
offset. What it finds are places in files, or changes of several files.
-/

namespace LanguageServer

/-- The file, text and caret of a query, and whether it has been cancelled. -/
structure Context where
  key : FileKey
  text : Text
  caret : Nat
  cancelled : Bool

namespace Context

/-- Ends a query that has been cancelled. -/
def check (c : Context) : Except Fault Unit :=
  if c.cancelled then .error (.error .cancelled) else .ok ()

/-- The identifier under the caret and its range. -/
def word? (c : Context) : Option (Text × Range) :=
  (c.text.wordAt? c.caret).map fun (i, word) => (word, c.text.rangeAt i (i + word.length))

/-- The text before the caret. The caret must not stand inside a character. -/
def before (c : Context) : Except Fault Text :=
  let caret := min c.caret c.text.byteSize
  if c.text.isBoundary caret then .ok (c.text.beforeByte caret)
  else .error (.panic "caret inside a character".toList)

end Context

/-- A range of a file. -/
structure Location where
  key : FileKey
  range : Range
deriving DecidableEq, Repr

/-- Edits of several files, in the order of the keys. The edits of a file stay in the order in which
they were added. -/
structure FileChanges where
  files : List (FileKey × List TextEdit) := []
deriving DecidableEq, Repr

namespace FileChanges

/-- Adds an edit behind the earlier ones of the same file. -/
def insert (key : FileKey) (edit : TextEdit) :
    List (FileKey × List TextEdit) → List (FileKey × List TextEdit)
  | [] => [(key, [edit])]
  | (k, edits) :: rest =>
    if key = k then (k, edits ++ [edit]) :: rest
    else if key.lt k then (key, [edit]) :: (k, edits) :: rest
    else (k, edits) :: insert key edit rest

def add (changes : FileChanges) (key : FileKey) (edit : TextEdit) : FileChanges :=
  ⟨insert key edit changes.files⟩

/-- Whether there is no edit. -/
def isEmpty (changes : FileChanges) : Bool := changes.files.all (·.2.isEmpty)

end FileChanges

end LanguageServer
