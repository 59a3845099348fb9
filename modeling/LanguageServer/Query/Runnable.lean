import LanguageServer.Query.Context
import LanguageServer.Workspace.Index

/-!
# What a file offers to run

A function behind a test mark is a test, and one named `main` starts the program.
-/

namespace LanguageServer

/-- A command that the client can start. -/
structure Runnable where
  label : Text
  directory : Text
  command : Text
  arguments : List Text
deriving DecidableEq, Repr

def marksTest (line : Text) : Bool :=
  "#[test]".toList.isPrefixOf line || "@Test".toList.isPrefixOf line

/-- Keywords of functions that can be run. -/
def isRunnableKeyword (word : Text) : Bool := ["fn", "def", "fun"].contains (String.ofList word)

/-- The name behind the first keyword of a function, both among the first four words of a line. -/
def functionName? (line : Text) : Option Text :=
  ((((Text.words line).take 4).map (·.2)).dropWhile (!isRunnableKeyword ·))[1]?

/-- What the lines of a text offer to run; `marked` says that a test mark came before. -/
def runnableLines (directory file : Text) (language : Option String) (marked : Bool) :
    List Text → List Runnable
  | [] => []
  | line :: rest =>
    let line := line.trim
    let later (marked : Bool) := runnableLines directory file language marked rest
    if marksTest line then later true
    else match marked, functionName? line with
      | true, some name =>
        ⟨"Test ".toList ++ name, directory, "cargo".toList, ["test".toList, name]⟩ :: later false
      | true, none => later true
      | false, name =>
        let main (command : String) (arguments : List Text) : Runnable :=
          ⟨"Run main".toList, directory, command.toList, arguments⟩
        if name = some "main".toList then
          (match language with
            | some "python" => main "python3" [file]
            | some "kotlin" => main "kotlin" [file]
            | _ => main "cargo" ["run".toList]) :: later false
        else if "if __name__ == ".toList.isPrefixOf line then main "python3" [file] :: later false
        else later false

namespace Query

/-- What the file offers to run in the directory of the project. -/
def runnables (directory : Text) (c : Context) : Except Fault (List Runnable) :=
  .ok (runnableLines directory (c.key.localPath?.getD c.key.text) (languageOf? c.key) false
    c.text.lines)

end Query

end LanguageServer
