import LanguageServer.Query.Hover

/-!
# The signature of a call

The call around the caret is found backwards from it, by matching round and square brackets. What it
calls is looked up by name.
-/

namespace LanguageServer

/-- A signature with its parameters, and the one that the caret stands in. -/
structure SignatureInfo where
  label : Text
  documentation : Option Text
  parameters : List Text
  active : Option Nat
deriving DecidableEq, Repr

/-- Searches a reversed text for the bracket that opens the call. `depth` counts closed brackets
whose openings are still to come, `commas` the commas outside them. Gives what stands before the
bracket, still reversed. -/
def openCall? (depth commas : Nat) : Text → Option (Text × Nat)
  | [] => none
  | c :: rest =>
    if c = ')' || c = ']' then openCall? (depth + 1) commas rest
    else if (c = '(' || c = '[') && 0 < depth then openCall? (depth - 1) commas rest
    else if c = '(' then some (rest, commas)
    else if c = '[' then none
    else if c = ',' && depth = 0 then openCall? depth (commas + 1) rest
    else if c = ';' || c = '{' || c = '}' then none
    else openCall? depth commas rest

/-- What stands before the bracket that opens the call around the end of a text, and the number of
commas between its arguments. -/
def enclosingCall? (before : Text) : Option (Text × Nat) :=
  (openCall? 0 0 before.reverse).map fun (callee, commas) => (callee.reverse, commas)

/-- Cuts a parameter list at its outer commas. `current` holds the parameter being read, last
character first, and `done` the earlier ones, last first. -/
def splitParameters (depth : Int) (current : Text) (done : List Text) : Text → List Text
  | [] => (current.reverse :: done).reverse
  | c :: rest =>
    if c = '(' || c = '<' || c = '[' then splitParameters (depth + 1) (c :: current) done rest
    else if c = ')' && depth = 0 then (current.reverse :: done).reverse
    else if c = ')' || c = '>' || c = ']' then splitParameters (depth - 1) (c :: current) done rest
    else if c = ',' && depth = 0 then splitParameters depth [] (current.reverse :: done) rest
    else splitParameters depth (c :: current) done rest

/-- The parameters of a signature: what stands between the commas behind its first bracket. -/
def parameterList (label : Text) : List Text :=
  match label.dropWhile (· != '(') with
  | [] => []
  | _ :: rest => ((splitParameters 0 [] [] rest).map Text.trim).filter (· ≠ [])

namespace Query

/-- The signature of the call around the caret. -/
def signatureHelp (ix : Index) (c : Context) : Except Fault (Option SignatureInfo) := do
  let before ← c.before
  return do
    let (callee, commas) ← enclosingCall? before
    let name := callee.trimEnd.takeEndWhile isWordChar
    let (key, d) ← (ix.declarationsNamed name c.key).find? (·.2.kind.isCallable)
    let label := d.heading fun c => c == '{' || c == ':'
    let parameters := parameterList label
    let documentation := (ix.get? key).bind fun file => docComment? file.text d.range.start.line
    let active := if parameters.isEmpty then none else some (min commas (parameters.length - 1))
    return ⟨label, documentation, parameters, active⟩

end Query

end LanguageServer
