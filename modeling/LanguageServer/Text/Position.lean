/-!
# Positions and ranges

A position is a line and a column, both from zero; columns count UTF-16 code units. Positions are
ordered by line, then column.
-/

namespace LanguageServer

/-- A line and a column, both from zero. -/
structure Position where
  line : Nat
  character : Nat
deriving DecidableEq, Repr, Inhabited

namespace Position

/-- The order of reading: by line, then by column. -/
def le (a b : Position) : Bool :=
  a.line < b.line || (a.line == b.line && a.character ≤ b.character)

def origin : Position := ⟨0, 0⟩

end Position

/-- The positions from `start` up to `stop`, which need not be in order. -/
structure Range where
  start : Position
  stop : Position
deriving DecidableEq, Repr, Inhabited

namespace Range

/-- Whether a position lies in the range, both ends included. -/
def contains (r : Range) (p : Position) : Bool := r.start.le p && p.le r.stop

/-- The range from one column of a line to another. -/
def onLine (line start stop : Nat) : Range := ⟨⟨line, start⟩, ⟨line, stop⟩⟩

end Range

end LanguageServer
