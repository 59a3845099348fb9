import LanguageServer.Query.Context
import LanguageServer.Workspace.Index

/-!
# Documentation of a word
-/

namespace LanguageServer

/-- A text in Markdown about a range. -/
structure HoverInfo where
  contents : Text
  range : Range
deriving DecidableEq, Repr

def isCommentLine (line : Text) : Bool :=
  match line with
  | '/' :: '/' :: _ => true
  | '#' :: '[' :: _ => false
  | '#' :: _ => true
  | _ => false

/-- The comment lines directly above a line, without their markers. -/
def docComment? (t : Text) (line : Nat) : Option Text :=
  let above := (t.lines.take line).reverse.map Text.trim
  match above.takeWhile isCommentLine with
  | [] => none
  | comment =>
    let bare := comment.map fun (l : Text) =>
      Text.trim (l.dropWhile fun c => c == '/' || c == '#' || c == '!')
    some (Text.unlines bare.reverse)

/-- The first line of a declaration without the brackets and the blanks that `p` holds of at its
end. -/
def Declaration.heading (d : Declaration) (p : Char → Bool) : Text :=
  (d.detail.dropEndWhile p).trimEnd

namespace Query

/-- What is known about the word under the caret: its first declaration, what that lies in, and the
comment above. -/
def hover (ix : Index) (c : Context) : Except Fault (Option HoverInfo) :=
  .ok do
    let (word, range) ← c.word?
    let (key, d) ← (ix.declarationsNamed word c.key).head?
    let file ← ix.get? key
    let language := ((languageOf? key).getD "").toList
    let code := "```".toList ++ language ++ ['\n'] ++ d.heading (· == '{') ++ "\n```".toList
    let place := match file.outline.container? d with
      | some name => "\n\n*in* `".toList ++ name ++ ['`']
      | none => []
    let doc := match docComment? file.text d.range.start.line with
      | some doc => "\n\n---\n\n".toList ++ doc
      | none => []
    return ⟨code ++ place ++ doc, range⟩

end Query

end LanguageServer
