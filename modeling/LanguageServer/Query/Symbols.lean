import LanguageServer.Query.Context
import LanguageServer.Workspace.Index
import LanguageServer.Outline.Scan

/-!
# Symbols of a file and of the workspace
-/

namespace LanguageServer

/-- A declaration that a symbol search found. A higher weight is a better match. -/
structure SymbolMatch where
  name : Text
  kind : SymbolKind
  container : Option Text
  location : Location
  weight : Nat
  inProject : Bool
deriving DecidableEq, Repr

/-- Whether the characters of the first text occur in the second in the same order. -/
def isSubsequence : Text → Text → Bool
  | [], _ => true
  | _ :: _, [] => false
  | c :: needle, h :: hay =>
    if c = h then isSubsequence needle hay else isSubsequence (c :: needle) hay

/-- How well a name matches a pattern, if it does. -/
def matchWeight? (needle name : Text) : Option Nat :=
  let lowName := name.toLower
  let lowNeedle := needle.toLower
  if needle.isEmpty then some 1
  else if name = needle then some 100
  else if lowName = lowNeedle then some 90
  else if needle.isPrefixOf name then some 70
  else if lowNeedle.isPrefixOf lowName then some 60
  else if Text.includes lowNeedle lowName then some 40
  else if isSubsequence lowNeedle lowName then some 10
  else none

namespace Query

def documentSymbols (c : Context) : Except Fault (List SymbolNode) := .ok (Outline.scan c.text).tree

def matchesIn (root : FileKey) (needle : Text) (key : FileKey) (file : IndexedFile) :
    List SymbolMatch :=
  file.outline.searchable.filterMap fun d =>
    (matchWeight? needle d.name).map fun weight =>
      ⟨d.name, d.kind, file.outline.container? d, ⟨key, d.selection⟩, weight,
        file.inProject && key.isUnder root⟩

/-- The searchable declarations that match a pattern, project files first, at most `limit` but at
least one. Asterisks in the pattern mean nothing. -/
def workspaceSymbols (root : FileKey) (ix : Index) (pattern : Text) (limit : Nat)
    (cancelled : Bool) :
    Except Fault (List SymbolMatch) :=
  if cancelled && !ix.files.isEmpty then .error (.error .cancelled)
  else
    let needle := pattern.filter (· != '*')
    .ok ((ix.files.flatMap fun (key, file) => matchesIn root needle key file).take (max 1 limit))

end Query

end LanguageServer
