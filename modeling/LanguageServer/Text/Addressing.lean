import LanguageServer.Text.Basic
import LanguageServer.Text.Position

/-!
# Addressing a text by line and column

A position names the place in a text that `beforePosition` ends at. Positions that the text does not
have are moved to one it has: a line past the end means the end of the text, a column past the end
of a line means the end of that line, and a column inside a surrogate pair means the start of that
character. A carriage return at the end of a line belongs to the line break.
-/

namespace LanguageServer

/-- The position right after a text that starts at the origin. -/
def Position.after (t : Text) : Position :=
  ⟨t.count '\n', Text.units (t.reverse.takeWhile (· != '\n'))⟩

namespace Text

/-- A line without the carriage return of its line break. -/
def lineContent (line : Text) : Text := if line.getLast? = some '\r' then line.dropLast else line

def beforePosition (t : Text) (p : Position) : Text :=
  match (lines t)[p.line]? with
  | none => t
  | some line =>
    ((lines t).take p.line).flatMap (· ++ ['\n'])
      ++ (splitWithin unitsOf p.character (lineContent line)).1

def offsetOf (t : Text) (p : Position) : Nat := byteSize (beforePosition t p)

def positionOf (t : Text) (offset : Nat) : Position := .after (beforeByte t offset)

/-- Position before the character with index `i`. -/
def positionAt (t : Text) (i : Nat) : Position := .after (t.take i)

/-- The range of the characters with index `i` up to, but without, `j`. -/
def rangeAt (t : Text) (i j : Nat) : Range := ⟨positionAt t i, positionAt t j⟩

/-- Byte offsets of the content of a line, without its line break. -/
def lineSpan? (t : Text) (line : Nat) : Option (Nat × Nat) :=
  (lines t)[line]?.map fun l =>
    let start := byteSize (((lines t).take line).flatMap (· ++ ['\n']))
    (start, start + byteSize (lineContent l))

/-- The two ends of a range as numbers of characters before them, in order. -/
def charSpan (t : Text) (r : Range) : Nat × Nat :=
  let a := (beforePosition t r.start).length
  let b := (beforePosition t r.stop).length
  (min a b, max a b)

/-- The two ends of a range as byte offsets, in order. -/
def byteSpan (t : Text) (r : Range) : Nat × Nat :=
  let a := offsetOf t r.start
  let b := offsetOf t r.stop
  (min a b, max a b)

/-- Puts `new` in place of the characters with index `i` up to, but without, `j`. -/
def splice (t : Text) (i j : Nat) (new : Text) : Text := t.take i ++ new ++ t.drop j

/-- Puts `new` in place of a range. -/
def replaceRange (t : Text) (r : Range) (new : Text) : Text :=
  t.splice (charSpan t r).1 (charSpan t r).2 new

end Text

end LanguageServer
