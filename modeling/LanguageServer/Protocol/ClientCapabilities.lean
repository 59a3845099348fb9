import LanguageServer.Protocol.Shape

/-!
# Capabilities of a client

A client says what it can do when it opens a project. Nothing depends on it here, but what is not of
the right shape is refused. Fields stand in the order in which a list gives their values.
-/

namespace LanguageServer

namespace Shape

/-! ## Parts of capabilities -/

/-- Fields that say whether something can be done. -/
def flags (keys : List String) : List Field := keys.map (optional · boolean)

/-- Capabilities that a server may register later. -/
def registrable (fields : List Field) : Shape := record (flags ["dynamicRegistration"] ++ fields)

/-- Capabilities of a list that the client may be asked to get anew. -/
def refreshable : Shape := record (flags ["refreshSupport"])

def valueSet (value : Shape) : Shape := record [optional "valueSet" (list value)]

/-- The properties that may be filled in later. -/
def lateProperties : Field :=
  optional "resolveSupport" (record [required "properties" (list text)])

/-- The tags that are known. Clients used to say only whether there are any. -/
def tagSupport : Field :=
  optional "tagSupport" (either boolean (record [required "valueSet" (list int32)]))

def symbolKinds : Field := optional "symbolKind" (valueSet int32)

/-- The formats of texts that can be shown. -/
def formats (key : String) : Field := optional key (list (word ["plaintext", "markdown"]))

/-! ## Capabilities of the workspace -/

def workspaceEdits : Shape := record [optional "documentChanges" boolean,
  optional "resourceOperations" (list (word ["create", "rename", "delete"])),
  optional "failureHandling"
    (word ["abort", "transactional", "textOnlyTransactional", "undo"]),
  optional "normalizesLineEndings" boolean,
  optional "changeAnnotationSupport" (record (flags ["groupsOnLabel"]))]

def workspaceCapabilities : Shape := record [optional "applyEdit" boolean,
  optional "workspaceEdit" workspaceEdits, optional "didChangeConfiguration" (registrable []),
  optional "didChangeWatchedFiles" (registrable (flags ["relativePatternSupport"])),
  optional "symbol" (registrable [symbolKinds, tagSupport, lateProperties]),
  optional "executeCommand" (registrable []), optional "workspaceFolders" boolean,
  optional "configuration" boolean, optional "semanticTokens" refreshable,
  optional "codeLens" refreshable,
  optional "fileOperations" (registrable
    (flags ["didCreate", "willCreate", "didRename", "willRename", "didDelete", "willDelete"])),
  optional "inlineValue" refreshable, optional "inlayHint" refreshable,
  optional "diagnostic" refreshable]

/-! ## Capabilities for documents -/

def completionItems : Shape := record (flags ["snippetSupport", "commitCharactersSupport"] ++
  [formats "documentationFormat"] ++ flags ["deprecatedSupport", "preselectSupport"] ++
  [tagSupport, optional "insertReplaceSupport" boolean, lateProperties,
    optional "insertTextModeSupport" (record [required "valueSet" (list int32)]),
    optional "labelDetailsSupport" boolean])

def completions : Shape := registrable [optional "completionItem" completionItems,
  optional "completionItemKind" (valueSet int32), optional "contextSupport" boolean,
  optional "insertTextMode" int32,
  optional "completionList" (record [optional "itemDefaults" (list text)])]

def signatures : Shape :=
  let parameters := record (flags ["labelOffsetSupport"])
  registrable [
    optional "signatureInformation" (record [formats "documentationFormat",
      optional "parameterInformation" parameters, optional "activeParameterSupport" boolean]),
    optional "contextSupport" boolean]

def codeActions : Shape :=
  let kinds := record [required "valueSet" (list text)]
  registrable ([
    optional "codeActionLiteralSupport" (record [required "codeActionKind" kinds])] ++
    flags ["isPreferredSupport", "disabledSupport", "dataSupport"] ++
    [lateProperties, optional "honorsChangeAnnotations" boolean])

def foldingRanges : Shape := registrable [optional "rangeLimit" uint32,
  optional "lineFoldingOnly" boolean,
  optional "foldingRangeKind" (valueSet (word ["comment", "imports", "region"])),
  optional "foldingRange" (record (flags ["collapsedText"]))]

def semanticTokens : Shape :=
  let whole := either boolean (record (flags ["delta"]))
  registrable ([
    required "requests" (record [optional "range" boolean, optional "full" whole]),
    required "tokenTypes" (list text), required "tokenModifiers" (list text),
    required "formats" (list text)] ++
    flags ["overlappingTokenSupport", "multilineTokenSupport", "serverCancelSupport",
      "augmentsSyntaxTokens"])

def documentCapabilities : Shape :=
  let navigation := registrable (flags ["linkSupport"])
  record [
    optional "synchronization"
      (registrable (flags ["willSave", "willSaveWaitUntil", "didSave"])),
    optional "completion" completions, optional "hover" (registrable [formats "contentFormat"]),
    optional "signatureHelp" signatures, optional "references" (registrable []),
    optional "documentHighlight" (registrable []),
    optional "documentSymbol" (registrable
      [symbolKinds, optional "hierarchicalDocumentSymbolSupport" boolean, tagSupport]),
    optional "formatting" (registrable []), optional "rangeFormatting" (registrable []),
    optional "onTypeFormatting" (registrable []), optional "declaration" navigation,
    optional "definition" navigation, optional "typeDefinition" navigation,
    optional "implementation" navigation, optional "codeAction" codeActions,
    optional "codeLens" (registrable []),
    optional "documentLink" (registrable (flags ["tooltipSupport"])),
    optional "colorProvider" (registrable []),
    optional "rename" (registrable [optional "prepareSupport" boolean,
      optional "prepareSupportDefaultBehavior" int32,
      optional "honorsChangeAnnotations" boolean]),
    optional "publishDiagnostics" (record (flags ["relatedInformation"] ++ [tagSupport] ++
      flags ["versionSupport", "codeDescriptionSupport", "dataSupport"])),
    optional "foldingRange" foldingRanges, optional "selectionRange" (registrable []),
    optional "linkedEditingRange" (registrable []), optional "callHierarchy" (registrable []),
    optional "semanticTokens" semanticTokens, optional "moniker" (registrable []),
    optional "typeHierarchy" (registrable []), optional "inlineValue" (registrable []),
    optional "inlayHint" (registrable [lateProperties]),
    optional "diagnostic" (registrable (flags ["relatedDocumentSupport"]))]

/-! ## All capabilities -/

def windowCapabilities : Shape :=
  let actions := record (flags ["additionalPropertiesSupport"])
  record [optional "workDoneProgress" boolean,
    optional "showMessage" (record [optional "messageActionItem" actions]),
    optional "showDocument" (record [required "support" boolean])]

def generalCapabilities : Shape := record [
  optional "regularExpressions" (record [required "engine" text, optional "version" text]),
  optional "markdown" (record [required "parser" text, optional "version" text,
    optional "allowedTags" (list text)]),
  optional "staleRequestSupport" (record [required "cancel" boolean,
    required "retryOnContentModified" (list text)]),
  optional "positionEncodings" (list text)]

def notebookCapabilities : Shape :=
  record [required "synchronization" (registrable (flags ["executionSummarySupport"]))]

def clientCapabilities : Shape := record [optional "workspace" workspaceCapabilities,
  optional "textDocument" documentCapabilities,
  optional "notebookDocument" notebookCapabilities, optional "window" windowCapabilities,
  optional "general" generalCapabilities, optional "experimental" any]

end Shape

end LanguageServer
