/-!
# Kinds of symbols

What a named thing in a source text is. The numbers of the protocol are in `Protocol.Kinds`.
-/

namespace LanguageServer

/-- What a symbol names. -/
inductive SymbolKind
  | file
  | module
  | nameSpace
  | package
  | classType
  | interface
  | enum
  | enumMember
  | struct
  | trait
  | typeAlias
  | typeParameter
  | function
  | method
  | constructor
  | field
  | property
  | variable
  | constant
  | keyword
  | text
deriving DecidableEq, Repr

namespace SymbolKind

/-- Every kind, in the order of declaration. -/
def all : List SymbolKind :=
  [.file, .module, .nameSpace, .package, .classType, .interface, .enum, .enumMember, .struct,
    .trait, .typeAlias, .typeParameter, .function, .method, .constructor, .field, .property,
    .variable, .constant, .keyword, .text]

def isType : SymbolKind → Bool
  | .classType | .interface | .enum | .struct | .trait | .typeAlias => true
  | _ => false

def isCallable : SymbolKind → Bool
  | .function | .method | .constructor => true
  | _ => false

end SymbolKind

end LanguageServer
