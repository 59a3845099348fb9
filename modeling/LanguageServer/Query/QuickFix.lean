import LanguageServer.Query.Context

/-!
# Quick fixes

Two fixes of blanks: trailing whitespace goes away, and each tab that a line starts with becomes
four spaces.
-/

namespace LanguageServer

/-- A fix that is offered for a range. -/
structure QuickFix where
  title : Text
  range : Range
deriving DecidableEq, Repr

/-- What a fix does. -/
inductive BlankFix
  | removeTrailing
  | convertTabs
deriving DecidableEq, Repr

namespace BlankFix

/-- The name under which a fix is offered. -/
def title : BlankFix → Text
  | removeTrailing => "Remove trailing whitespace".toList
  | convertTabs => "Convert indentation tabs to spaces".toList

def ofTitle? (t : Text) : Option BlankFix := [removeTrailing, convertTabs].find? (·.title = t)

/-- Whether a line makes the fix be offered. -/
def appliesTo (fix : BlankFix) (line : Text) : Bool :=
  match fix with
  | removeTrailing => line.trimEnd != line
  | convertTabs => line.head? == some '\t'

/-- The edit of line `n`, if the fix has something to do there. -/
def edit? (fix : BlankFix) (n : Nat) (line : Text) : Option TextEdit :=
  match fix with
  | removeTrailing =>
    let kept := line.trimEnd
    if kept = line then none else some ⟨.onLine n kept.units line.units, []⟩
  | convertTabs =>
    let tabs := (line.takeWhile (· == '\t')).length
    if tabs = 0 then none else some ⟨.onLine n 0 tabs, List.replicate (tabs * 4) ' '⟩

end BlankFix

/-- The lines that a range touches with their numbers, without carriage returns at their ends. -/
def Text.selectedLines (t : Text) (range : Range) : List (Nat × Text) :=
  (t.lines.zipIdx.filter fun (_, n) => range.start.line ≤ n && n ≤ range.stop.line).map
    fun (line, n) => (n, line.dropReturns)

def BlankFix.edits (fix : BlankFix) (t : Text) (range : Range) : List TextEdit :=
  (t.selectedLines range).filterMap fun (n, line) => fix.edit? n line

namespace Query

/-- The fixes that have something to do in a range. -/
def codeActions (c : Context) (range : Range) : Except Fault (List QuickFix) :=
  let lines := (c.text.selectedLines range).map (·.2)
  .ok (([BlankFix.removeTrailing, .convertTabs].filter (lines.any ·.appliesTo)).map fun fix =>
    ⟨fix.title, range⟩)

def applyCodeAction (c : Context) (title : Text) (range : Range) : Except Fault FileChanges :=
  match BlankFix.ofTitle? title with
  | none => .error (.error (.failed ("unknown quick fix: ".toList ++ title)))
  | some fix => .ok ((fix.edits c.text range).foldl (·.add c.key ·) {})

end Query

end LanguageServer
