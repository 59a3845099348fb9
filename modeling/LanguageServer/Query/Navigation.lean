import LanguageServer.Query.Context
import LanguageServer.Workspace.Index

/-!
# Definitions, usages, highlights and renaming

Names are compared as whole words: a declaration of the word under the caret is its definition,
every occurrence of it a usage, and all of them are renamed together.
-/

namespace LanguageServer

/-- What a definition query looks for. -/
inductive DefinitionKind
  | declaration
  | typeDeclaration
  | implementation
deriving DecidableEq, Repr

/-- Where to go from the range `origin`. `selection` is the name inside `range`. -/
structure DefinitionTarget where
  origin : Option Range
  key : FileKey
  range : Range
  selection : Range
deriving DecidableEq, Repr

/-- An occurrence of the word under the caret. -/
structure Highlight where
  range : Range
  write : Bool
deriving DecidableEq, Repr

/-- Markers that a type is named behind, the stronger ones first. -/
def typeMarkers : List Text := [['-', '>'], [':'], ['=']]

/-- The type that a declaration names for what it declares: a capitalized word behind the strongest
marker after the name. -/
def Declaration.typeName? (d : Declaration) : Option Text := do
  let (start, name) ← (Text.words d.detail).find? (·.2 = d.name)
  let tail := d.detail.drop (start + name.length)
  let cut ← typeMarkers.findSome? fun m => (Text.indexOf? m tail).map (· + m.length)
  ((Text.words (tail.drop cut)).map (·.2)).find? Line.isCapitalized

/-- The names of the types of a word: the word itself, if it is declared as a type, or else what its
declarations name. -/
def typeNames (word : Text) (found : List (FileKey × Declaration)) : List Text :=
  if found.any (·.2.kind.isType) then [word]
  else (found.filterMap (·.2.typeName?)).eraseDups

/-- The edits that put a new name in place of every occurrence of a word. -/
def Text.renameEdits (t word newName : Text) : List TextEdit :=
  (t.occurrences word).map fun i => ⟨t.rangeAt i (i + word.length), newName⟩

namespace Query

/-- Where the word under the caret is declared, where its type is, or what implements it. -/
def definitions (ix : Index) (c : Context) (kind : DefinitionKind) :
    Except Fault (List DefinitionTarget) :=
  match c.word? with
  | none => .ok []
  | some (word, origin) =>
    let target (key : FileKey) (range selection : Range) : DefinitionTarget :=
      ⟨some origin, key, range, selection⟩
    match kind with
    | .declaration =>
      .ok ((ix.declarationsNamed word c.key).map fun (key, d) => target key d.range d.selection)
    | .typeDeclaration => do
      let found ← (typeNames word (ix.declarationsNamed word c.key)).mapM fun name => do
        c.check
        return (ix.declarationsNamed name c.key).filter (·.2.kind.isType)
      return found.flatten.map fun (key, d) => target key d.range d.selection
    | .implementation => do
      let found ← ix.files.mapM fun (key, file) => do
        c.check
        let those := file.outline.implementations.toList.filter (·.target = word)
        return those.map fun i => target key i.range i.selection
      return found.flatten

/-- Every occurrence of the word under the caret. -/
def usages (ix : Index) (c : Context) : Except Fault (List Location) :=
  match c.word? with
  | none => .ok []
  | some (word, _) => do
    let found ← ix.files.mapM fun (key, file) => do
      c.check
      return (file.text.occurrences word).map fun i =>
        (⟨key, file.text.rangeAt i (i + word.length)⟩ : Location)
    return found.flatten

def isAssigned (rest : Text) : Bool :=
  match rest.trimStart with
  | '=' :: '=' :: _ => false
  | '=' :: _ => true
  | _ => false

/-- The occurrences of the word under the caret in its own file. Declarations and assignments write.
-/
def highlights (c : Context) : Except Fault (List Highlight) :=
  match c.word? with
  | none => .ok []
  | some (word, _) =>
    let declared := ((Outline.scan c.text).named word).map (·.selection)
    .ok ((c.text.occurrences word).map fun i =>
      let range := c.text.rangeAt i (i + word.length)
      ⟨range, declared.contains range || isAssigned (c.text.drop (i + word.length))⟩)

/-- Renames the word under the caret wherever it occurs, if it is declared somewhere. -/
def rename (ix : Index) (c : Context) (newName : Text) : Except Fault FileChanges :=
  match c.word? with
  | none => .ok {}
  | some (word, _) =>
    if (ix.declarationsNamed word c.key).isEmpty then .ok {}
    else ix.files.foldlM (fun changes (key, file) => do
      c.check
      return (file.text.renameEdits word newName).foldl (·.add key ·) changes) {}

end Query

end LanguageServer
