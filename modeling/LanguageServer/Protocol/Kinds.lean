import LanguageServer.Outline.Kind
import LanguageServer.Query.Findings

/-!
# Numbers of the protocol

The Language Server Protocol writes kinds and severities as numbers. Kinds that it does not know are
written as the nearest one that it knows.
-/

namespace LanguageServer

def SymbolKind.symbolNumber : SymbolKind → Nat
  | .file => 1
  | .module => 2
  | .nameSpace => 3
  | .package => 4
  | .classType | .typeAlias => 5
  | .method => 6
  | .property => 7
  | .field => 8
  | .constructor => 9
  | .enum => 10
  | .interface | .trait => 11
  | .function => 12
  | .variable => 13
  | .constant => 14
  | .keyword | .text => 15
  | .enumMember => 22
  | .struct => 23
  | .typeParameter => 26

def SymbolKind.completionNumber : SymbolKind → Nat
  | .text => 1
  | .method => 2
  | .function => 3
  | .constructor => 4
  | .field => 5
  | .variable => 6
  | .classType | .typeAlias => 7
  | .interface | .trait => 8
  | .module | .nameSpace | .package => 9
  | .property => 10
  | .enum => 13
  | .keyword => 14
  | .file => 17
  | .enumMember => 20
  | .constant => 21
  | .struct => 22
  | .typeParameter => 25

def Severity.number : Severity → Nat
  | .error => 1
  | .warning => 2
  | .info => 3
  | .weak => 4

/-- Codes of error responses. -/
inductive ErrorCode
  | methodNotFound
  | invalidRequest
  | invalidParams
  | internalError
  | serverNotInitialized
  | requestCancelled
  | requestFailed
deriving DecidableEq, Repr

def ErrorCode.number : ErrorCode → Int
  | .methodNotFound => -32601
  | .invalidRequest => -32600
  | .invalidParams => -32602
  | .internalError => -32603
  | .serverNotInitialized => -32002
  | .requestCancelled => -32800
  | .requestFailed => -32803

end LanguageServer
