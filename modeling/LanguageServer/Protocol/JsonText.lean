import LanguageServer.Protocol.Json
import LanguageServer.Uri.Percent

/-!
# Written JSON

Reading follows RFC 8259 and limits how deep values may be nested. Writing uses no blanks and
escapes only what must be escaped.
-/

namespace LanguageServer.Json

/-! ## Writing -/

/-- The escape of a control character without a short one. -/
def unicodeEscape (c : Char) : Text :=
  let digit (n : Nat) := (Percent.hexDigit n).toLower
  ['\\', 'u', '0', '0', digit (c.toNat / 16), digit (c.toNat % 16)]

def escapeChar (c : Char) : Text :=
  if c = '"' then ['\\', '"']
  else if c = '\\' then ['\\', '\\']
  else if c = '\n' then ['\\', 'n']
  else if c = '\r' then ['\\', 'r']
  else if c = '\t' then ['\\', 't']
  else if c = '\x08' then ['\\', 'b']
  else if c = '\x0c' then ['\\', 'f']
  else if c < ' ' then unicodeEscape c
  else [c]

/-- A string with its quotes. -/
def renderText (t : Text) : Text := '"' :: t.flatMap escapeChar ++ ['"']

/-- The written form without blanks. -/
def render : Json → Text
  | .null => "null".toList
  | .bool true => "true".toList
  | .bool false => "false".toList
  | .int n => (toString n).toList
  | .decimal literal => literal.toList
  | .str t => renderText t
  | .arr items => '[' :: renderItems items ++ [']']
  | .obj fields => '{' :: renderFields fields ++ ['}']
where
  /-- Items with commas between them. -/
  renderItems : List Json → Text
    | [] => []
    | [j] => render j
    | j :: rest => render j ++ ',' :: renderItems rest
  /-- Fields with commas between them. -/
  renderFields : List (String × Json) → Text
    | [] => []
    | [(k, j)] => renderText k.toList ++ ':' :: render j
    | (k, j) :: rest => renderText k.toList ++ ':' :: render j ++ ',' :: renderFields rest

/-! ## Reading -/

def isBlank (c : Char) : Bool := c == ' ' || c == '\t' || c == '\n' || c == '\r'

def skip (t : Text) : Text := t.dropWhile isBlank

/-- Reads four hexadecimal digits. -/
def readUnit? : Text → Option (Nat × Text)
  | a :: b :: c :: d :: rest => do
    let a ← Percent.hexValue? a
    let b ← Percent.hexValue? b
    let c ← Percent.hexValue? c
    let d ← Percent.hexValue? d
    some (a * 0x1000 + b * 0x100 + c * 0x10 + d, rest)
  | _ => none

/-- Reads a character behind `\u`. Two halves of a surrogate pair make one character, and a half
alone is refused. -/
def readUnicode? (t : Text) : Option (Char × Text) :=
  match readUnit? t with
  | none => none
  | some (high, rest) =>
    if high < 0xD800 || 0xDFFF < high then some (Char.ofNat high, rest)
    else if 0xDC00 ≤ high then none
    else match rest with
      | '\\' :: 'u' :: rest =>
        match readUnit? rest with
        | some (low, rest) =>
          if 0xDC00 ≤ low && low ≤ 0xDFFF then
            some (Char.ofNat (0x10000 + (high - 0xD800) * 0x400 + (low - 0xDC00)), rest)
          else none
        | none => none
      | _ => none

def shortEscape? : Char → Option Char
  | '"' => some '"'
  | '\\' => some '\\'
  | '/' => some '/'
  | 'b' => some '\x08'
  | 'f' => some '\x0c'
  | 'n' => some '\n'
  | 'r' => some '\r'
  | 't' => some '\t'
  | _ => none

/-- Reads a string behind its first quote; `out` holds the characters read so far, last first, and
`fuel` bounds their number. -/
def readText? (out : Text) : Nat → Text → Option (Text × Text)
  | 0, _ => none
  | _, [] => none
  | fuel + 1, c :: rest =>
    if c = '"' then some (out.reverse, rest)
    else if c < ' ' then none
    else if c = '\\' then
      match rest with
      | 'u' :: rest =>
        match readUnicode? rest with
        | some (u, rest) => readText? (u :: out) fuel rest
        | none => none
      | e :: rest =>
        match shortEscape? e with
        | some d => readText? (d :: out) fuel rest
        | none => none
      | [] => none
    else readText? (c :: out) fuel rest

/-- Decimal digits at the start, and the rest. -/
def digits (t : Text) : Text × Text := t.span Char.isDigit

def digitsValue (t : Text) : Nat := t.foldl (fun n c => n * 10 + (c.toNat - 48)) 0

def fitsWord (n : Int) : Bool := -9223372036854775808 ≤ n && n ≤ 18446744073709551615

/-- Reads a fraction, if there is one. -/
def readFraction? : Text → Option (Text × Text)
  | '.' :: rest =>
    match digits rest with
    | ([], _) => none
    | (ds, rest) => some ('.' :: ds, rest)
  | t => some ([], t)

/-- Reads an exponent, if there is one. -/
def readExponent? : Text → Option (Text × Text)
  | e :: rest =>
    if e = 'e' || e = 'E' then
      let (sign, rest) := match rest with
        | '+' :: rest => (['+'], rest)
        | '-' :: rest => (['-'], rest)
        | rest => ([], rest)
      match digits rest with
      | ([], _) => none
      | (ds, rest) => some (e :: sign ++ ds, rest)
    else some ([], e :: rest)
  | [] => some ([], [])

def readNumber? (t : Text) : Option (Json × Text) := do
  let (negative, t) := match t with
    | '-' :: rest => (true, rest)
    | t => (false, t)
  let (whole, rest) := digits t
  if whole.isEmpty || (whole.head? = some '0' && whole != ['0']) then none else
    let (fraction, rest) ← readFraction? rest
    let (exponent, rest) ← readExponent? rest
    let value : Int := if negative then -(digitsValue whole) else digitsValue whole
    if fraction.isEmpty && exponent.isEmpty && fitsWord value && !(negative && value == 0) then
      some (.int value, rest)
    else
      let literal := (if negative then ['-'] else []) ++ whole ++ fraction ++ exponent
      some (.decimal (String.ofList literal), rest)

def readWord? (word : String) (value : Json) (t : Text) : Option (Json × Text) :=
  (Text.dropHead? t word.toList).map (value, ·)

mutual

/-- Reads a value, nested at most `depth` deep; `fuel` bounds the number of its parts. -/
def readValue? (depth : Nat) : Nat → Text → Option (Json × Text)
  | 0, _ => none
  | fuel + 1, t =>
    match skip t with
    | '"' :: rest => (readText? [] fuel rest).map fun (s, rest) => (.str s, rest)
    | '[' :: rest =>
      if depth ≤ 1 then none
      else match skip rest with
        | ']' :: rest => some (.arr [], rest)
        | rest => (readItems? (depth - 1) [] fuel rest).map fun (items, rest) => (.arr items, rest)
    | '{' :: rest =>
      if depth ≤ 1 then none
      else match skip rest with
        | '}' :: rest => some (.obj [], rest)
        | rest =>
          (readFields? (depth - 1) [] fuel rest).map fun (fields, rest) => (.obj fields, rest)
    | 'n' :: rest => readWord? "ull" .null rest
    | 't' :: rest => readWord? "rue" (.bool true) rest
    | 'f' :: rest => readWord? "alse" (.bool false) rest
    | t => readNumber? t

/-- Reads the items of an array up to its bracket; `out` holds the items read so far, last first. -/
def readItems? (depth : Nat) (out : List Json) : Nat → Text → Option (List Json × Text)
  | 0, _ => none
  | fuel + 1, t =>
    match readValue? depth fuel t with
    | none => none
    | some (j, rest) =>
      match skip rest with
      | ',' :: rest => readItems? depth (j :: out) fuel rest
      | ']' :: rest => some ((j :: out).reverse, rest)
      | _ => none

/-- Reads the fields of an object up to its brace; `out` holds the fields read so far, last first.
-/
def readFields? (depth : Nat) (out : List (String × Json)) :
    Nat → Text → Option (List (String × Json) × Text)
  | 0, _ => none
  | fuel + 1, t =>
    match skip t with
    | '"' :: rest =>
      match readText? [] fuel rest with
      | none => none
      | some (key, rest) =>
        match skip rest with
        | ':' :: rest =>
          match readValue? depth fuel rest with
          | none => none
          | some (j, rest) =>
            let out := (String.ofList key, j) :: out
            match skip rest with
            | ',' :: rest => readFields? depth out fuel rest
            | '}' :: rest => some (out.reverse, rest)
            | _ => none
        | _ => none
    | _ => none

end

/-- Reads a text that is one value, nested at most `depth` deep. -/
def parse? (depth : Nat) (t : Text) : Option Json :=
  match readValue? depth (2 * t.length + 2) t with
  | some (j, rest) => if (skip rest).isEmpty then some j else none
  | none => none

end LanguageServer.Json
