import LanguageServer.Text.Addressing
import LanguageServer.Text.Word

/-!
# Findings

What is worth telling about a text without being asked: marks of open work, long lines, trailing
whitespace, one highlighted keyword, and brackets that do not match. Brackets in comments and in
double quotes do not count; a quote never goes on over the end of a line.
-/

namespace LanguageServer

/-- How serious a finding is. `weak` findings are only shown in the text. -/
inductive Severity
  | weak
  | info
  | warning
  | error
deriving DecidableEq, Repr

/-- A finding in a range. Without a description it is only a highlight. -/
structure Finding where
  range : Range
  severity : Severity
  description : Option Text
deriving DecidableEq, Repr

def maxLineLength : Nat := 120

/-- A bracket with its position. -/
abbrev Bracket := Char × Position

/-- The brackets of a line with their columns; `column` counts the code units before the rest. -/
def bracketsFrom (column : Nat) (quoted escaped : Bool) : Text → List (Char × Nat)
  | [] => []
  | c :: rest =>
    let next := column + Text.unitsOf c
    if quoted then
      if escaped then bracketsFrom next true false rest
      else bracketsFrom next (c != '"') (c == '\\') rest
    else if c = '"' then bracketsFrom next true false rest
    else if ['(', ')', '[', ']', '{', '}'].contains c then
      (c, column) :: bracketsFrom next false false rest
    else bracketsFrom next false false rest

def beforeComment (line : Text) : Text :=
  line.take ((Text.indexOf? ['/', '/'] line).getD line.length)

/-- The brackets of line `n` that count. -/
def lineBrackets (n : Nat) (line : Text) : List Bracket :=
  (bracketsFrom 0 false false (beforeComment line)).map fun (c, column) => (c, ⟨n, column⟩)

/-- The bracket that a closing bracket closes. -/
def opening? : Char → Option Char
  | ')' => some '('
  | ']' => some '['
  | '}' => some '{'
  | _ => none

/-- Matches brackets: `opened` are the open ones, innermost first. Gives those that are still open
and the closing ones that match none. -/
def matchBrackets (opened : List Bracket) : List Bracket → List Bracket × List Bracket
  | [] => (opened, [])
  | (c, p) :: rest =>
    match opening? c with
    | none => matchBrackets ((c, p) :: opened) rest
    | some o =>
      match opened with
      | (top, q) :: below =>
        if top = o then matchBrackets below rest
        else
          let (still, bad) := matchBrackets ((top, q) :: below) rest
          (still, (c, p) :: bad)
      | [] =>
        let (still, bad) := matchBrackets [] rest
        (still, (c, p) :: bad)

def bracketFinding (word : String) : Bracket → Finding
  | (c, p) =>
    ⟨.onLine p.line p.character (p.character + 1), .error,
      some (word.toList ++ " '".toList ++ [c, '\''])⟩

/-- The mark of open work in a line, as the number of characters before it. -/
def openWork? (line : Text) : Option Nat :=
  (Text.indexOf? "TODO".toList line).or (Text.indexOf? "FIXME".toList line)

/-- The findings of line `n` that are not about brackets. -/
def lineFindings (n : Nat) (line : Text) : List Finding :=
  let width := line.units
  let work := (openWork? line).toList.map fun i =>
    (⟨.onLine n (Text.units (line.take i)) width, .info, some (Text.trim (line.drop i))⟩ : Finding)
  let long := if line.length ≤ maxLineLength then [] else
    [⟨.onLine n 0 width, .warning,
      some ("Line exceeds ".toList ++ (toString maxLineLength).toList ++ " characters".toList)⟩]
  let kept := line.trimEnd
  let trailing := if kept = line then [] else
    [⟨.onLine n kept.units width, .weak, some "Trailing whitespace".toList⟩]
  let highlighted := (line.occurrences "unsafe".toList).map fun i =>
    (⟨.onLine n (Text.units (line.take i)) (Text.units (line.take (i + 6))), .weak, none⟩ : Finding)
  work ++ long ++ trailing ++ highlighted

/-- The findings of the lines from number `n` on, line by line, and last the brackets that are never
closed, outermost first. -/
def findingsFrom (opened : List Bracket) (n : Nat) : List Text → List Finding
  | [] => opened.reverse.map (bracketFinding "Unclosed")
  | raw :: rest =>
    let line := Text.dropReturns raw
    let (opened, bad) := matchBrackets opened (lineBrackets n line)
    lineFindings n line ++ bad.map (bracketFinding "Unmatched") ++ findingsFrom opened (n + 1) rest

def findings (t : Text) : List Finding := findingsFrom [] 0 t.lines

end LanguageServer
