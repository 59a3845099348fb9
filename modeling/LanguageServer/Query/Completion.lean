import LanguageServer.Query.Context
import LanguageServer.Workspace.Index

/-!
# Completion

The names that go on with the identifier before the caret: searchable declarations first, then the
other words of the file.
-/

namespace LanguageServer

/-- A name to insert in place of a range. -/
structure Candidate where
  label : Text
  kind : SymbolKind
  detail : Option Text
  insertText : Text
  replace : Range
deriving DecidableEq, Repr

/-- What inserting a candidate means. -/
structure Resolution where
  newText : Text
  additional : List TextEdit
deriving DecidableEq, Repr

/-- Number of candidates that are offered at most. -/
def maxCandidates : Nat := 200

namespace Candidate

def ofDeclaration (replace : Range) (d : Declaration) : Candidate :=
  ⟨d.name, d.kind, some d.detail, d.name, replace⟩

def ofWord (replace : Range) (word : Text) : Candidate := ⟨word, .text, none, word, replace⟩

/-- The order of offering: declarations before words, then by label. -/
def le (a b : Candidate) : Bool :=
  let inOrder := !decide (b.label < a.label)
  if a.kind = .text then b.kind = .text && inOrder else b.kind = .text || inOrder

end Candidate

namespace Query

/-- The names that start like the identifier before the caret, whatever their case, each once. -/
def completions (ix : Index) (c : Context) : Except Fault (List Candidate) := do
  let before ← c.before
  let start := (before.takeEndWhile isWordChar)
  let place := before.length - start.length
  let replace := c.text.rangeAt place before.length
  let fits (name : Text) : Bool := start.toLower.isPrefixOf name.toLower
  let declared ← ix.files.mapM fun (_, file) => do
    c.check
    return file.outline.searchable.filter fun d => fits d.name
  let words := (Text.words c.text).filter fun (i, word) => i != place && word != start && fits word
  let all :=
    declared.flatten.map (.ofDeclaration replace) ++ words.map fun (_, w) => .ofWord replace w
  return ((all.eraseDupsBy fun a b => a.label == b.label).mergeSort Candidate.le).take maxCandidates

/-- What inserting the candidate with an index means: a call, if it can be called. -/
def resolveCompletion (candidates : List Candidate) (index : Nat) (cancelled : Bool) :
    Except Fault (Option Resolution) :=
  if cancelled then .error (.error .cancelled)
  else .ok do
    let candidate ← candidates[index]?
    if candidate.kind.isCallable then some ⟨candidate.insertText ++ ['(', ')'], []⟩ else none

end Query

end LanguageServer
