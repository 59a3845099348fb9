import LanguageServer.Text.Addressing

/-!
# Edits between two texts

Turns one text into another by replacing whole lines. A line diff (`LineDiffer`) says which lines
the texts have and which of them are the same. It comes from elsewhere: the edits are made of
whatever it gives, and break off where it names lines that the texts do not have. The plainest one
compares the texts from both ends only (`LineDiff.ofEnds`); for it a line ends after a line feed, a
carriage return, or the pair of them, and keeps its end.
-/

namespace LanguageServer

/-- A change of a text: what stands in a range is replaced. -/
structure TextEdit where
  range : Range
  newText : Text
deriving DecidableEq, Repr

/-- One operation of a diff, on so many elements from an index on in the old list, in the new list,
or in both. -/
inductive DiffOp
  | equal (old new size : Nat)
  | delete (old size new : Nat)
  | insert (old new size : Nat)
  | replace (old oldSize new newSize : Nat)
deriving DecidableEq, Repr

namespace DiffOp

def oldStart : DiffOp → Nat
  | equal i _ _ | delete i _ _ | insert i _ _ | replace i _ _ _ => i

def oldSize : DiffOp → Nat
  | equal _ _ n | delete _ n _ | replace _ n _ _ => n
  | insert .. => 0

def newStart : DiffOp → Nat
  | equal _ j _ | delete _ _ j | insert _ j _ | replace _ _ j _ => j

def newSize : DiffOp → Nat
  | equal _ _ n | insert _ _ n | replace _ _ _ n => n
  | delete .. => 0

def isEqual : DiffOp → Bool
  | equal .. => true
  | _ => false

end DiffOp

/-- The lines of two texts, and the operations that lead from the old ones to the new ones. -/
structure LineDiff where
  oldLines : List Text
  newLines : List Text
  ops : List DiffOp
deriving DecidableEq, Repr

/-- A way to compare two texts line by line. -/
abbrev LineDiffer := Text → Text → LineDiff

namespace Text

/-! ### Edits from a diff -/

/-- Byte offsets of the starts of lines that follow one another from an offset on, and of the end of
the last one. -/
def lineStartsFrom (offset : Nat) : List Text → List Nat
  | [] => [offset]
  | line :: rest => offset :: lineStartsFrom (offset + byteSize line) rest

/-- An element of a list, or why there is none. -/
def elementAt {α : Type} (xs : List α) (i : Nat) : Except Text α :=
  match xs[i]? with
  | some x => .ok x
  | none => .error ("index out of bounds: the len is ".toList ++ (toString xs.length).toList
      ++ " but the index is ".toList ++ (toString i).toList)

/-- So many elements of a list from an index on, or why it does not have them. -/
def elementsAt {α : Type} (xs : List α) (i size : Nat) : Except Text (List α) :=
  if i + size ≤ xs.length then .ok ((xs.drop i).take size)
  else .error ("range end index ".toList ++ (toString (i + size)).toList
    ++ " out of range for slice of length ".toList ++ (toString xs.length).toList)

/-- The edit that an operation of a diff is. -/
def editOf (before : Text) (diff : LineDiff) (op : DiffOp) : Except Text TextEdit := do
  let starts := lineStartsFrom 0 diff.oldLines
  let start ← elementAt starts op.oldStart
  let stop ← elementAt starts (op.oldStart + op.oldSize)
  let lines ← elementsAt diff.newLines op.newStart op.newSize
  return ⟨⟨before.positionOf start, before.positionOf stop⟩, lines.flatten⟩

/-- Edits of whole lines that turn `before` into `after`; none if the texts are equal. -/
def lineEdits (differ : LineDiffer) (before after : Text) : Except Text (List TextEdit) :=
  if before = after then .ok [] else
    let diff := differ before after
    (diff.ops.filter (!·.isEqual)).mapM (editOf before diff)

/-! ### Lines with their ends -/

/-- The loop of `terminatedLines`; `line` holds the current line and `out` the earlier ones, both
last first. -/
def terminatedLinesFrom (out : List Text) (line : Text) : Text → List Text
  | [] => (if line.isEmpty then out else line.reverse :: out).reverse
  | '\r' :: '\n' :: rest => terminatedLinesFrom (('\n' :: '\r' :: line).reverse :: out) [] rest
  | c :: rest =>
    if c = '\r' || c = '\n' then terminatedLinesFrom ((c :: line).reverse :: out) [] rest
    else terminatedLinesFrom out (c :: line) rest

def terminatedLines (t : Text) : List Text := terminatedLinesFrom [] [] t

end Text

namespace LineDiff

/-- Number of equal elements at the start of two lists. -/
def commonStart {α : Type} [DecidableEq α] : List α → List α → Nat
  | a :: as, b :: bs => if a = b then commonStart as bs + 1 else 0
  | _, _ => 0

/-- Keeps the lines that both texts start and end with, and replaces what is between them. -/
def ofEnds : LineDiffer := fun before after =>
  let old := before.terminatedLines
  let new := after.terminatedLines
  let p := commonStart old new
  let s := commonStart (old.drop p).reverse (new.drop p).reverse
  let m := old.length - p - s
  let n := new.length - p - s
  ⟨old, new, [.equal 0 0 p, .replace p m p n, .equal (p + m) (p + n) s]⟩

end LineDiff

end LanguageServer
