import LanguageServer.Text.Case
import LanguageServer.Text.Word
import LanguageServer.Outline.Kind

/-!
# Declarations on one line

There is no grammar: a line declares something when its first word that is no modifier is a
declaring keyword and a name follows it, or when it opens an `impl` block. Comments are cut off
first. All places in a line are numbers of characters before them.
-/

namespace LanguageServer.Line

/-- Words that may stand before a declaring keyword. -/
def modifiers : List String :=
  ["pub", "crate", "super", "private", "public", "protected", "internal", "export", "default",
    "async", "unsafe", "extern", "abstract", "final", "override", "open", "data", "sealed",
    "inline", "suspend", "static", "readonly", "mut"]

def isModifier (word : Text) : Bool := modifiers.contains (String.ofList word)

def keywordKind? (word : Text) : Option SymbolKind :=
  match String.ofList word with
  | "fn" | "def" | "function" | "fun" => some .function
  | "struct" => some .struct
  | "enum" => some .enum
  | "trait" => some .trait
  | "interface" => some .interface
  | "class" | "object" => some .classType
  | "type" | "typealias" => some .typeAlias
  | "mod" | "module" => some .module
  | "namespace" => some .nameSpace
  | "const" => some .constant
  | "let" | "var" | "val" => some .variable
  | _ => none

/-- Whether what follows a number sign makes it code: an attribute or a line for the preprocessor.
-/
def isCodeAfterHash (rest : Text) : Bool :=
  match rest with
  | '[' :: _ | '!' :: _ => true
  | _ => "include".toList.isPrefixOf rest || "define".toList.isPrefixOf rest

/-- A line up to the first comment sign, which is two slashes or a number sign. -/
def code (line : Text) : Text :=
  let slashes := (Text.indexOf? ['/', '/'] line).getD line.length
  let beforeHash := line.takeWhile (· != '#')
  match line.drop beforeHash.length with
  | [] => line.take slashes
  | _ :: rest =>
    if isCodeAfterHash rest then line.take slashes else line.take (min slashes beforeHash.length)

/-- Whether a word starts with a capital letter. -/
def isCapitalized : Text → Bool
  | [] => false
  | c :: _ => isUppercase c

/-- What a line declares. -/
inductive Found
  | named (keyword name : Text) (start : Nat)
  | implementation (label target : Text) (start : Nat) (interface : Option Text)
deriving DecidableEq, Repr

/-- Number of characters up to and with the sign that closes the first one, if it is closed. -/
def closingAngle? (depth i : Nat) : Text → Option Nat
  | [] => none
  | c :: rest =>
    if c = '<' then closingAngle? (depth + 1) (i + 1) rest
    else if c = '>' then
      if depth ≤ 1 then some (i + 1) else closingAngle? (depth - 1) (i + 1) rest
    else closingAngle? depth (i + 1) rest

/-- Where the names of an `impl` block start: behind its type parameters, if it has some. -/
def namesStart (code : Text) (start : Nat) : Nat :=
  let rest := code.drop start
  match Text.trimStart rest with
  | '<' :: _ =>
    let blanks := (rest.takeWhile (· != '<')).length
    match closingAngle? 0 0 (rest.drop blanks) with
    | some n => start + blanks + n
    | none => start
  | _ => start

/-- An `impl` block whose keyword ends at `start`. The interface is the last word before `for`;
without `for` the first capitalized word is meant. -/
def implementation? (code : Text) (start : Nat) : Option Found :=
  let start := namesStart code start
  let names := (Text.words (code.drop start)).map fun (i, w) => (start + i, w)
  match names with
  | [] => none
  | (first, firstName) :: _ =>
    let before := names.takeWhile fun (_, w) => w != "for".toList
    match names.drop before.length with
    | [] =>
      let (at', target) := (names.find? (isCapitalized ·.2)).getD (first, firstName)
      some (.implementation ("impl ".toList ++ target) target at' none)
    | [_] => none
    | _ :: (at', target) :: _ =>
      let interface := (before.getLast?.map (·.2)).getD firstName
      some (.implementation ("impl ".toList ++ interface ++ " for ".toList ++ target) target at'
        (some interface))

/-- The declaration that the given words of a line make. Nothing but blanks may stand between
keyword and name. -/
def declarationOf? (code : Text) : List (Nat × Text) → Option Found
  | [] => none
  | (i, word) :: rest =>
    if isModifier word then declarationOf? code rest
    else if word = "impl".toList then implementation? code (i + word.length)
    else if (keywordKind? word).isNone then none
    else match rest with
      | [] => none
      | (j, name) :: more =>
        let gap := (code.drop (i + word.length)).take (j - (i + word.length))
        if !gap.all isSpace then none
        else if isModifier name then
          match more with
          | [] => none
          | (k, later) :: _ => some (.named word later k)
        else some (.named word name j)

/-- What a line declares, if it declares something. -/
def declaration? (line : Text) : Option Found := declarationOf? (code line) (Text.words (code line))

/-- State while the words behind a type's name are read: where the last word ended, how many
brackets are open, whether supertypes have begun, and those found, last first. -/
structure Heading where
  lastEnd : Nat
  depth : Nat
  collecting : Bool
  found : List (Nat × Text)

/-- Brackets open after a text, when `depth` were open before. -/
def bracketDepth (depth : Nat) (t : Text) : Nat :=
  t.foldl (fun d c =>
    if c = '(' || c = '<' then d + 1 else if c = ')' || c = '>' then d - 1 else d) depth

def Heading.read (head : Text) (start : Nat) (h : Heading) (i : Nat) (word : Text) : Heading :=
  let between := (head.drop h.lastEnd).take (i - h.lastEnd)
  let depth := bracketDepth h.depth between
  let lastEnd := i + word.length
  if word = "extends".toList || word = "implements".toList then
    { h with lastEnd, depth, collecting := true }
  else
    let collecting := h.collecting ||
      (depth == 0 && between.contains ':' && !Text.includes [':', ':'] between)
    if collecting && depth == 0 && isCapitalized word then
      { lastEnd, depth, collecting, found := (start + i, word) :: h.found }
    else { h with lastEnd, depth, collecting }

/-- Supertypes named behind a type's name that ends at `start`: capitalized words outside brackets,
after `extends`, `implements` or a single colon, up to the body. -/
def supertypes (line : Text) (start : Nat) : List (Nat × Text) :=
  let head := ((code line).drop start).takeWhile fun c => c != '{' && c != '='
  let heading := (Text.words head).foldl (fun (h : Heading) (i, w) => h.read head start i w)
    ⟨0, 0, false, []⟩
  heading.found.reverse

/-- Whether a line that declares nothing opens a block: its code ends with a brace or a colon. -/
def opensBlock (trimmed : Text) : Bool :=
  match (code trimmed).trimEnd.getLast? with
  | some '{' | some ':' => true
  | _ => false

end LanguageServer.Line
