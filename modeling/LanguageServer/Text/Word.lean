import LanguageServer.Text.Letter
import LanguageServer.Text.Position

/-!
# Identifiers in a text

Every text is cut into maximal runs of identifier characters and maximal runs of other characters.
The words of a text are its identifier runs that do not start with a digit. Because the runs put
together give back the text, replacing some of them changes nothing else.
-/

namespace LanguageServer

/-- Letters, digits and the underscore. -/
def isWordChar (c : Char) : Bool := isAlphanumeric c || c == '_'

namespace Text

/-- The maximal runs of characters that are all identifier characters or all not. -/
def runs (t : Text) : List Text := t.splitBy fun a b => isWordChar a == isWordChar b

/-- Whether a run is a word: an identifier that does not start with a digit. -/
def isWordRun : Text → Bool
  | [] => false
  | c :: _ => isWordChar c && !c.isDigit

/-- The loop of `located`; `out` holds the result so far, last first. -/
def locatedFrom (out : List (Nat × Text)) (i : Nat) : List Text → List (Nat × Text)
  | [] => out.reverse
  | piece :: rest => locatedFrom ((i, piece) :: out) (i + piece.length) rest

/-- Each piece together with the number of characters in the pieces before it. -/
def located (pieces : List Text) : List (Nat × Text) := locatedFrom [] 0 pieces

/-- The words of a text, each with the index of its first character. -/
def words (t : Text) : List (Nat × Text) := (located (runs t)).filter (isWordRun ·.2)

/-- The identifier characters around a byte offset, with the index of the first of them. -/
def wordAt? (t : Text) (offset : Nat) : Option (Nat × Text) :=
  let before := t.beforeByte offset
  let left := before.takeEndWhile isWordChar
  let word := left ++ (t.drop before.length).takeWhile isWordChar
  if word.isEmpty then none else some (before.length - left.length, word)

/-- Where a word occurs in a text, as the indexes of its first characters. -/
def occurrences (t word : Text) : List Nat :=
  (words t).filterMap fun (i, w) => if w = word then some i else none

end Text

end LanguageServer
