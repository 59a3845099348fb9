import LanguageServer.Text.Letter

/-!
# Filters of the log

A filter is a list of directives with commas between them. A directive names a level, a target, a
span with fields, or a target or span with the level for it. Whether a name is that of a target is
not checked.
-/

namespace LanguageServer

namespace LogFilter

/-- Why a filter is not valid: a directive has no known form, or names no level. -/
inductive Flaw
  | directive
  | level
deriving DecidableEq, Repr

def Flaw.message : Flaw → Text
  | directive => "invalid filter directive".toList
  | level => ("error parsing level filter: expected one of \"off\", \"error\", \"warn\", ".toList
      ++ "\"info\", \"debug\", \"trace\", or a number 0-5".toList)

/-- Where the reading of a directive stands, with what has been read of the part that is open. -/
inductive State
  | start
  | target
  | span
  | field (empty : Bool)
  | fields
  | closed
  | level (name : Text)
deriving DecidableEq, Repr

def State.next : State → Char → Option State
  | start, '[' => some span
  | start, c => if c = '-' || c = ':' || c = '_' || isAlphanumeric c then some target else none
  | target, '=' => some (level [])
  | target, '[' => some span
  | target, _ => some target
  | span, ']' => some closed
  | span, '\x7b' => some (field true)
  | span, _ => some span
  | field empty, '\x7d' => if empty then none else some fields
  | field _, _ => some (field false)
  | fields, ']' => some closed
  | fields, _ => none
  | closed, '=' => some (level [])
  | closed, _ => none
  | level name, c => some (level (name ++ [c]))

def levels : List String := ["off", "error", "warn", "info", "debug", "trace"]

/-- Whether a text names a level, in capitals or not, or by its number. -/
def isLevel (name : Text) : Bool :=
  let digits : Text := match name with
    | '+' :: rest => rest
    | _ => name
  let number := digits.foldl (fun n c => n * 10 + (c.toNat - 48)) 0
  levels.contains (String.ofList (name.map Char.toLower))
    || (!digits.isEmpty && digits.all Char.isDigit && number ≤ 5)

def checkDirective (t : Text) : Except Flaw Unit :=
  match (Text.trim t).foldlM State.next .start with
  | some .target | some .closed | some (.level []) => .ok ()
  | some (.level name) => if isLevel name then .ok () else .error .level
  | _ => .error .directive

def check (t : Text) : Except Flaw Unit :=
  ((t.splitOn ',').filter (!·.isEmpty)).forM checkDirective

end LogFilter

end LanguageServer
