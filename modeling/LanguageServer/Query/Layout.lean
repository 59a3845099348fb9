import LanguageServer.Query.Context

/-!
# Layout of lines

Formatting changes blanks only: it writes the indentation of a line anew, drops trailing whitespace,
and lets a text end with one line feed. Typing a closing brace aligns it with the line of its
opening brace, and typing a semicolon drops the blanks before it.
-/

namespace LanguageServer

/-- How indentation is written. -/
structure LayoutOptions where
  tabSize : Nat
  insertSpaces : Bool
deriving DecidableEq, Repr

/-- Spaces and tabs. -/
def isIndent (c : Char) : Bool := c == ' ' || c == '\t'

namespace LayoutOptions

def widthOf (options : LayoutOptions) (blanks : Text) : Nat :=
  Text.width (fun c => if c = '\t' then options.tabSize else 1) blanks

def indentation (options : LayoutOptions) (width : Nat) : Text :=
  if options.insertSpaces || options.tabSize = 0 then List.replicate width ' '
  else List.replicate (width / options.tabSize) '\t' ++ List.replicate (width % options.tabSize) ' '

/-- A line with its indentation written anew. -/
def reindent (options : LayoutOptions) (line : Text) : Text :=
  options.indentation (options.widthOf (line.takeWhile isIndent)) ++ line.dropWhile isIndent

end LayoutOptions

/-- Drops empty lines at the end and lets the last line end with a line feed, unless nothing is
left. -/
def endWithNewline (lines : List Text) : List Text :=
  match (lines.reverse.dropWhile (·.isEmpty)).reverse with
  | [] => [[]]
  | kept => kept ++ [[]]

/-- The indentation of the line with the brace that a closing brace at the end of a text would
close. Reads the text reversed; `depth` counts closed braces whose openings are still to come. -/
def openBraceIndent? (depth : Nat) : Text → Option Text
  | [] => none
  | c :: rest =>
    if c = '}' then openBraceIndent? (depth + 1) rest
    else if c = '{' then
      if depth = 0 then some (Text.indentation (rest.takeWhile (· != '\n')).reverse)
      else openBraceIndent? (depth - 1) rest
    else openBraceIndent? depth rest

/-- Drops the blanks before each semicolon; `done` holds the result so far, last character first. -/
def tightenFrom (done : Text) : Text → Text
  | [] => done.reverse
  | c :: rest => tightenFrom (c :: if c = ';' then done.dropWhile isIndent else done) rest

def tightenSemicolons (line : Text) : Text := tightenFrom [] line

namespace Query

/-- The text with the lines of a range, or all of them, laid out. -/
def reformat (c : Context) (range : Option Range) (options : LayoutOptions) : Except Fault Text :=
  let tidy (line : Text) : Text := options.reindent line.trimEnd
  .ok (Text.unlines (match range with
    | none => endWithNewline (c.text.lines.map tidy)
    | some r => c.text.lines.zipIdx.map fun (line, n) =>
      if r.start.line ≤ n && n ≤ r.stop.line then tidy line else line))

/-- The line around the caret after a character has been typed, if it changes; `above` is the text
before the line. -/
def retyped? (above line : Text) (typed : Char) (options : LayoutOptions) : Option Text :=
  if typed = '}' && line.trimStart.head? = some '}' then
    (openBraceIndent? 0 above.reverse).map fun indent => options.reindent (indent ++ line.trimStart)
  else if typed = ';' then some (tightenSemicolons line)
  else none

/-- The text after a character has been typed at the caret. -/
def formatOnType (c : Context) (typed : Char) (options : LayoutOptions) : Except Fault Text :=
  let n := (c.text.positionOf c.caret).line
  let above := (c.text.lines.take n).flatMap (· ++ ['\n'])
  let line := Text.lineContent ((c.text.lines[n]?).getD [])
  .ok (match retyped? above line typed options with
    | none => c.text
    | some new => above ++ new ++ c.text.drop (above.length + line.length))

end Query

end LanguageServer
