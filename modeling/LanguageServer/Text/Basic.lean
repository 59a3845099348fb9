/-!
# Texts

A text is the list of its characters. Offsets that leave the library are counted in bytes of the
UTF-8 form and columns in UTF-16 code units, so both sizes of a text are defined here, together with
the one way in which a text is cut at such a size: `splitWithin` gives the longest beginning that
fits. The rest of the library works with characters and only measures at its edge.
-/

namespace LanguageServer

/-- A text, as its characters in order. -/
abbrev Text := List Char

namespace Text

/-- Total width of a text, when every character has the given width. -/
def width (w : Char → Nat) (t : Text) : Nat := t.foldl (fun n c => n + w c) 0

theorem foldl_width (w : Char → Nat) (t : Text) (n : Nat) :
    t.foldl (fun n c => n + w c) n = n + width w t := by
  induction t generalizing n with
  | nil => simp [width]
  | cons c t ih =>
    simp only [width, List.foldl_cons]
    rw [ih, ih (0 + w c)]
    omega

@[simp] theorem width_nil (w : Char → Nat) : width w [] = 0 := rfl

@[simp] theorem width_cons (w : Char → Nat) (c : Char) (t : Text) :
    width w (c :: t) = w c + width w t := by
  simp [width, foldl_width w t (w c)]

@[simp] theorem width_append (w : Char → Nat) (s t : Text) :
    width w (s ++ t) = width w s + width w t := by
  induction s with
  | nil => simp
  | cons c s ih => simp [ih]; omega

/-- Number of bytes of the UTF-8 form. -/
def byteSize (t : Text) : Nat := width Char.utf8Size t

/-- UTF-16 code units of one character: two outside the basic plane. -/
def unitsOf (c : Char) : Nat := if c.toNat < 0x10000 then 1 else 2

/-- Number of UTF-16 code units. -/
def units (t : Text) : Nat := width unitsOf t

@[simp] theorem byteSize_nil : byteSize [] = 0 := rfl

@[simp] theorem byteSize_cons (c : Char) (t : Text) : byteSize (c :: t) = c.utf8Size + byteSize t :=
  width_cons _ c t

@[simp] theorem byteSize_append (s t : Text) : byteSize (s ++ t) = byteSize s + byteSize t :=
  width_append _ s t

@[simp] theorem units_nil : units [] = 0 := rfl

@[simp] theorem units_cons (c : Char) (t : Text) : units (c :: t) = unitsOf c + units t :=
  width_cons _ c t

@[simp] theorem units_append (s t : Text) : units (s ++ t) = units s + units t :=
  width_append _ s t

/-- The loop of `splitWithin`; `taken` holds the characters taken so far, last first. -/
def splitWithinFrom (w : Char → Nat) (taken : Text) : Nat → Text → Text × Text
  | _, [] => (taken.reverse, [])
  | budget, c :: rest =>
    if w c ≤ budget then splitWithinFrom w (c :: taken) (budget - w c) rest
    else (taken.reverse, c :: rest)

/-- The longest beginning whose width is at most `budget`, and what follows it. -/
def splitWithin (w : Char → Nat) (budget : Nat) (t : Text) : Text × Text :=
  splitWithinFrom w [] budget t

theorem splitWithinFrom_append (w : Char → Nat) (taken : Text) (budget : Nat) (t : Text) :
    (splitWithinFrom w taken budget t).1 ++ (splitWithinFrom w taken budget t).2
      = taken.reverse ++ t := by
  induction t generalizing taken budget with
  | nil => simp [splitWithinFrom]
  | cons c t ih =>
    rw [splitWithinFrom]
    split
    · simp [ih]
    · rfl

/-- Cutting loses nothing. -/
@[simp] theorem splitWithin_append (w : Char → Nat) (budget : Nat) (t : Text) :
    (splitWithin w budget t).1 ++ (splitWithin w budget t).2 = t :=
  splitWithinFrom_append w [] budget t

/-- The part of a text before a byte offset. An offset inside a character counts as the start of
that character, and one past the end as the end. -/
def beforeByte (t : Text) (offset : Nat) : Text := (splitWithin Char.utf8Size offset t).1

/-- The part of a text after a byte offset, from the start of the character that it lies in. -/
def afterByte (t : Text) (offset : Nat) : Text := (splitWithin Char.utf8Size offset t).2

/-- Whether a byte offset lies between two characters of the text, or at one of its ends. -/
def isBoundary (t : Text) (offset : Nat) : Bool := byteSize (beforeByte t offset) == offset

/-- Puts `new` in place of the bytes from offset `start` up to, but without, `stop`. That breaks off
if the offsets are not in order, lie inside a character, or lie past the end. -/
def replaceBytes? (t : Text) (start stop : Nat) (new : Text) : Option Text :=
  if start ≤ stop && t.isBoundary start && t.isBoundary stop then
    some (t.beforeByte start ++ new ++ t.afterByte stop)
  else none

/-- The lines of a text: the pieces between its line feeds. There is always at least one. -/
def lines (t : Text) : List Text := t.splitOn '\n'

theorem lines_ne_nil (t : Text) : lines t ≠ [] := List.splitOn_ne_nil _ _

/-- Joins lines by line feeds, which undoes `lines`. -/
def unlines (ls : List Text) : Text := ['\n'].intercalate ls

@[simp] theorem unlines_lines (t : Text) : unlines (lines t) = t := List.intercalate_splitOn _

/-- Drops the characters at the end that satisfy `p`. -/
def dropEndWhile (p : Char → Bool) (t : Text) : Text := (t.reverse.dropWhile p).reverse

/-- The longest end whose characters all satisfy `p`. -/
def takeEndWhile (p : Char → Bool) (t : Text) : Text := (t.reverse.takeWhile p).reverse

theorem dropEndWhile_append_takeEndWhile (p : Char → Bool) (t : Text) :
    dropEndWhile p t ++ takeEndWhile p t = t := by
  rw [dropEndWhile, takeEndWhile, ← List.reverse_append, List.takeWhile_append_dropWhile,
    List.reverse_reverse]

/-- A line without the carriage returns at its end. -/
def dropReturns (line : Text) : Text := dropEndWhile (· == '\r') line

/-- What is left after `head`, if the text starts with it. -/
def dropHead? : Text → Text → Option Text
  | t, [] => some t
  | [], _ :: _ => none
  | c :: t, h :: head => if c = h then dropHead? t head else none

/-- The loop of `indexOf?`, counting from `i`. -/
def indexFrom? (pattern : Text) (i : Nat) : Text → Option Nat
  | [] => if pattern.isEmpty then some i else none
  | c :: rest => if pattern.isPrefixOf (c :: rest) then some i else indexFrom? pattern (i + 1) rest

/-- Number of characters before the first occurrence of `pattern`. -/
def indexOf? (pattern t : Text) : Option Nat := indexFrom? pattern 0 t

/-- Whether `pattern` occurs in the text. -/
def includes (pattern t : Text) : Bool := (indexOf? pattern t).isSome

/-- Replaces every carriage return and line feed pair by a line feed. -/
def normalizeNewlines : Text → Text := go []
where
  /-- The loop; `done` holds the result so far, last character first. -/
  go (done : Text) : Text → Text
    | [] => done.reverse
    | '\r' :: '\n' :: rest => go ('\n' :: done) rest
    | c :: rest => go (c :: done) rest

end Text

end LanguageServer
