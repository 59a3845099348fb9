import LanguageServer.Query.Completion
import LanguageServer.Query.Findings
import LanguageServer.Query.Hover
import LanguageServer.Query.Layout
import LanguageServer.Query.Navigation
import LanguageServer.Query.QuickFix
import LanguageServer.Query.Runnable
import LanguageServer.Query.Signature
import LanguageServer.Query.Symbols

/-!
# What a workspace can answer

The queries of a workspace as one record, so that the server does not depend on how they are
answered. Every query can also fail, notice that it has been cancelled, or break off. The standard
queries compare words. The record also has the line diff that edits of a whole text are made with.
-/

namespace LanguageServer

/-- The part of a project that queries read. -/
structure Sources where
  root : FileKey
  directory : Text
  index : Index

/-- The queries that a project answers. `opensEditor` says whether a file may be opened,
`isIndexing` whether the index is reported as being built, and `runsUnits` whether work that waits
for the index is run at all. -/
structure Capabilities where
  opensEditor : FileKey → Except Fault Bool
  isIndexing : Bool
  runsUnits : Bool
  completions : Sources → Context → Except Fault (List Candidate)
  resolveCompletion : List Candidate → Nat → Bool → Except Fault (Option Resolution)
  hover : Sources → Context → Except Fault (Option HoverInfo)
  signatureHelp : Sources → Context → Except Fault (Option SignatureInfo)
  definitions : Sources → Context → DefinitionKind → Except Fault (List DefinitionTarget)
  usages : Sources → Context → Except Fault (List Location)
  highlights : Context → Except Fault (List Highlight)
  documentSymbols : Context → Except Fault (List SymbolNode)
  workspaceSymbols : Sources → Text → Nat → Bool → Except Fault (List SymbolMatch)
  codeActions : Context → Range → Except Fault (List QuickFix)
  applyCodeAction : Context → Text → Range → Except Fault FileChanges
  rename : Sources → Context → Text → Except Fault FileChanges
  reformat : Context → Option Range → LayoutOptions → Except Fault Text
  formatOnType : Context → Char → LayoutOptions → Except Fault Text
  runnables : Sources → Context → Except Fault (List Runnable)
  lineDiff : LineDiffer

namespace Capabilities

/-- The queries that compare words, with any line diff. -/
def standard (lineDiff : LineDiffer := LineDiff.ofEnds) : Capabilities where
  opensEditor _ := .ok true
  isIndexing := false
  runsUnits := true
  completions s := Query.completions s.index
  resolveCompletion := Query.resolveCompletion
  hover s := Query.hover s.index
  signatureHelp s := Query.signatureHelp s.index
  definitions s := Query.definitions s.index
  usages s := Query.usages s.index
  highlights := Query.highlights
  documentSymbols := Query.documentSymbols
  workspaceSymbols s := Query.workspaceSymbols s.root s.index
  codeActions := Query.codeActions
  applyCodeAction := Query.applyCodeAction
  rename s := Query.rename s.index
  reformat := Query.reformat
  formatOnType := Query.formatOnType
  runnables s := Query.runnables s.directory
  lineDiff := lineDiff

end Capabilities

end LanguageServer
