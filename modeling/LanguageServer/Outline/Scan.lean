import LanguageServer.Outline.Line

/-!
# The outline of a text

The declarations of a text in the order of their lines. Blocks nest by indentation: a line closes
every open block that is indented at least as much, and a line that starts with a closing bracket
belongs to the block of its own indentation, which it ends. Inside the code of a function only
functions are declarations. As a tree, each declaration stands below the one around it.
-/

namespace LanguageServer

/-- A declaration found in a text. `detail` is its line without the indentation, `parent` the index
of the declaration around it. Only searchable declarations can be found by name. -/
structure Declaration where
  name : Text
  kind : SymbolKind
  detail : Text
  range : Range
  selection : Range
  parent : Option Nat
  searchable : Bool
deriving DecidableEq, Repr

/-- The statement that something implements or extends `target`. -/
structure Implementation where
  target : Text
  range : Range
  selection : Range
deriving DecidableEq, Repr

/-- The declarations of a text, and the statements of implementation in it. -/
structure Outline where
  declarations : Array Declaration
  implementations : Array Implementation
deriving DecidableEq, Repr

namespace Outline

/-- An open block: its indentation, the declaration it belongs to, the line it starts on, and
whether it holds code. -/
structure Block where
  indent : Nat
  declaration : Option Nat
  startLine : Nat
  isCode : Bool

/-- What has been read so far. `blocks` are the open blocks, innermost first; `lastEnd` is where the
last line that is not blank ends. -/
structure State where
  outline : Outline
  blocks : List Block
  lastEnd : Position

/-- Width of an indentation; a tab counts as four. -/
def indentWidth (line : Text) : Nat :=
  line.indentation.foldl (fun n c => n + if c = '\t' then 4 else 1) 0

def opensBlock : SymbolKind → Bool
  | .classType | .struct | .enum | .trait | .interface | .module | .nameSpace => true
  | .function | .method => true
  | _ => false

def hasMethods : SymbolKind → Bool
  | .classType | .struct | .trait | .interface | .nameSpace | .enum => true
  | _ => false

/-- The kind of a declaration inside another. -/
def kindWithin (parent : Option SymbolKind) (kind : SymbolKind) : SymbolKind :=
  match parent with
  | none => kind
  | some p =>
    if kind = .function && hasMethods p then .method
    else if kind = .variable && (p = .classType || p = .struct) then .field
    else kind

/-- Ends the declaration of a block at a position on a later line. -/
def endBlock (o : Outline) (b : Block) (stop : Position) : Outline :=
  match b.declaration with
  | none => o
  | some i =>
    if stop.line ≤ b.startLine then o
    else { o with
      declarations := o.declarations.modify i fun d => { d with range := { d.range with stop } } }

/-- Closes the blocks that a line of the given indentation ends. `closing` is where that line ends
if it starts with a closing bracket. -/
def closeBlocks (indent : Nat) (closing : Option Position) (lastEnd : Position) (o : Outline) :
    List Block → Outline × List Block
  | [] => (o, [])
  | b :: rest =>
    if b.indent < indent then (o, b :: rest)
    else match closing with
      | some stop =>
        if b.indent = indent then (endBlock o b stop, rest)
        else closeBlocks indent closing lastEnd (endBlock o b lastEnd) rest
      | none => closeBlocks indent closing lastEnd (endBlock o b lastEnd) rest

/-- The part of line `n` from the character with index `i` up to `j`, as a range. -/
def rangeOn (n : Nat) (line : Text) (i j : Nat) : Range :=
  .onLine n (Text.units (line.take i)) (Text.units (line.take j))

/-- Adds what line `n` declares. -/
def State.declare (s : State) (n : Nat) (line : Text) (found : Line.Found) : State :=
  let inCode := (s.blocks.head?.map (·.isCode)).getD false
  let parent := s.blocks.findSome? (·.declaration)
  let parentKind := (parent.bind (s.outline.declarations[·]?)).map (·.kind)
  let indent := indentWidth line
  let index := s.outline.declarations.size
  let range := rangeOn n line line.indentation.length line.length
  match found with
  | .named keyword name start =>
    if inCode && Line.keywordKind? keyword != some .function then s else
      let kind := kindWithin parentKind ((Line.keywordKind? keyword).getD .text)
      let stop := start + name.length
      let supers := if kind.isType then Line.supertypes line stop else []
      let implementations := supers.map fun (i, target) =>
        { target, range, selection := rangeOn n line i (i + target.length) : Implementation }
      { s with
        outline :=
          { declarations := s.outline.declarations.push
              { name, kind, detail := line.trimStart, range, selection := rangeOn n line start stop,
                parent, searchable := true }
            implementations := s.outline.implementations ++ implementations }
        blocks :=
          if opensBlock kind then ⟨indent, some index, n, kind.isCallable⟩ :: s.blocks
          else s.blocks }
  | .implementation label target start interface =>
    if inCode then s else
      let selection := rangeOn n line start (start + target.length)
      { s with
        outline :=
          { declarations := s.outline.declarations.push
              { name := label, kind := .nameSpace, detail := line.trimStart, range, selection,
                parent, searchable := false }
            implementations := match interface with
              | some target => s.outline.implementations.push { target, range, selection }
              | none => s.outline.implementations }
        blocks := ⟨indent, some index, n, false⟩ :: s.blocks }

/-- Reads line `n`. Blank lines change nothing. -/
def State.readLine (s : State) (n : Nat) (raw : Text) : State :=
  let line := Text.dropReturns raw
  let trimmed := line.trimStart
  match trimmed with
  | [] => s
  | c :: _ =>
    let indent := indentWidth line
    let stop : Position := ⟨n, Text.units line⟩
    let closes := c = '}' || c = ')' || c = ']'
    let (outline, blocks) :=
      closeBlocks indent (if closes then some stop else none) s.lastEnd s.outline s.blocks
    let s : State := ⟨outline, blocks, stop⟩
    if closes then s else
      match Line.declaration? line with
      | some found => s.declare n line found
      | none =>
        let inCode := (s.blocks.head?.map (·.isCode)).getD false
        if !inCode && Line.opensBlock trimmed then
          { s with blocks := ⟨indent, none, n, true⟩ :: s.blocks }
        else s

/-- Reads lines, numbered from `n`. -/
def State.readLines (s : State) (n : Nat) : List Text → State
  | [] => s
  | line :: rest => State.readLines (s.readLine n line) (n + 1) rest

def scan (t : Text) : Outline :=
  let s := State.readLines ⟨⟨#[], #[]⟩, [], .origin⟩ 0 t.lines
  s.blocks.foldl (fun o b => endBlock o b s.lastEnd) s.outline

/-- The name of the declaration around a declaration; for an `impl` block what it is for. -/
def container? (o : Outline) (d : Declaration) : Option Text := do
  let parent ← o.declarations[← d.parent]?
  some ((Text.dropHead? parent.name "impl ".toList).getD parent.name)

/-- The declarations that can be found by name. -/
def searchable (o : Outline) : List Declaration := o.declarations.toList.filter (·.searchable)

def named (o : Outline) (name : Text) : List Declaration := o.searchable.filter (·.name = name)

end Outline

/-- An entry of the outline tree. -/
inductive SymbolNode
  | mk (name detail : Text) (kind : SymbolKind) (range selection : Range)
    (children : List SymbolNode)

namespace Outline

/-- The entries directly below `parent`. A declaration comes after the one around it, so its own
entries are looked for behind it. -/
def forest (parent : Option Nat) : List (Nat × Declaration) → List SymbolNode
  | [] => []
  | (i, d) :: rest =>
    if d.parent = parent then
      .mk d.name d.detail d.kind d.range d.selection (forest (some i) rest) :: forest parent rest
    else forest parent rest

def tree (o : Outline) : List SymbolNode :=
  forest none (o.declarations.toList.zipIdx.map fun (d, i) => (i, d))

end Outline

end LanguageServer
