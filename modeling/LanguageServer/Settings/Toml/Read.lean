import LanguageServer.Settings.IpAddress
import LanguageServer.Settings.Toml.Basic

/-!
# Reading TOML

Version 1.0 of the format. Every reader gives what it has read and the rest of the text.
-/

namespace LanguageServer.Toml

/-! ## Blanks and ends of lines -/

def isBlank (c : Char) : Bool := c = ' ' || c = '\t'

def skip (t : Text) : Text := t.dropWhile isBlank

/-- Characters that a comment may hold, and strings besides quotes and escapes. -/
def isPlain (c : Char) : Bool := c = '\t' || (' ' ≤ c && c ≠ '\x7f')

def skipComment : Text → Text
  | '#' :: rest => rest.dropWhile isPlain
  | t => t

def readNewline? : Text → Option Text
  | '\n' :: rest => some rest
  | '\r' :: '\n' :: rest => some rest
  | _ => none

/-- Drops blanks, comments and ends of lines. -/
def skipLines : Nat → Text → Text
  | 0, t => t
  | fuel + 1, t =>
    let rest := skipComment (skip t)
    match readNewline? rest with
    | some rest => skipLines fuel rest
    | none => rest

/-! ## Strings -/

/-- Reads a given number of hexadecimal digits as the number of a character. -/
def readCode? (n : Nat) (t : Text) : Option (Char × Text) :=
  let digits := t.take n
  let code := IpAddress.digitsValue 16 digits
  if digits.length = n && digits.all (fun c => (Percent.hexValue? c).isSome) &&
      code.isValidChar then
    some (Char.ofNat code, t.drop n)
  else none

def readEscape? : Text → Option (Char × Text)
  | 'b' :: rest => some ('\x08', rest)
  | 't' :: rest => some ('\t', rest)
  | 'n' :: rest => some ('\n', rest)
  | 'f' :: rest => some ('\x0c', rest)
  | 'r' :: rest => some ('\r', rest)
  | '"' :: rest => some ('"', rest)
  | '\\' :: rest => some ('\\', rest)
  | 'u' :: rest => readCode? 4 rest
  | 'U' :: rest => readCode? 8 rest
  | _ => none

/-- Reads a string of one line behind its first quote. -/
def readLineString? (quote : Char) (out : Text) : Nat → Text → Option (Text × Text)
  | 0, _ | _, [] => none
  | fuel + 1, c :: rest =>
    if c = quote then some (out.reverse, rest)
    else if c = '\\' && quote = '"' then
      match readEscape? rest with
      | some (e, rest) => readLineString? quote (e :: out) fuel rest
      | none => none
    else if isPlain c then readLineString? quote (c :: out) fuel rest
    else none

/-- Drops the blanks and ends of lines behind a backslash at the end of a line. There must be an end
of a line. -/
def skipContinuation? (t : Text) : Option Text :=
  let isSpace (c : Char) : Bool := isBlank c || c = '\n' || c = '\r'
  match readNewline? (skip t) with
  | some rest => some (rest.dropWhile isSpace)
  | none => none

/-- Reads a string of several lines behind its first quotes. Up to two quotes may stand before the
last three. -/
def readBlockString? (quote : Char) (out : Text) : Nat → Text → Option (Text × Text)
  | 0, _ | _, [] => none
  | fuel + 1, c :: rest =>
    if c = quote then
      let run := (c :: rest).takeWhile (· = quote)
      let behind := (c :: rest).dropWhile (· = quote)
      if run.length < 3 then readBlockString? quote (run ++ out) fuel behind
      else if run.length ≤ 5 then some ((run.drop 3 ++ out).reverse, behind)
      else none
    else if c = '\\' && quote = '"' then
      match readEscape? rest with
      | some (e, rest) => readBlockString? quote (e :: out) fuel rest
      | none =>
        match skipContinuation? rest with
        | some rest => readBlockString? quote out fuel rest
        | none => none
    else if isPlain c then readBlockString? quote (c :: out) fuel rest
    else match readNewline? (c :: rest) with
      | some rest => readBlockString? quote ('\n' :: out) fuel rest
      | none => none

/-- Reads a string. The first end of a line of a string of several lines does not belong to it. -/
def readString? : Text → Option (Text × Text)
  | '"' :: '"' :: '"' :: rest =>
    readBlockString? '"' [] rest.length ((readNewline? rest).getD rest)
  | '\'' :: '\'' :: '\'' :: rest =>
    readBlockString? '\'' [] rest.length ((readNewline? rest).getD rest)
  | '"' :: rest => readLineString? '"' [] rest.length rest
  | '\'' :: rest => readLineString? '\'' [] rest.length rest
  | _ => none

/-! ## Keys -/

def isKeyChar (c : Char) : Bool := c.isAlphanum || c = '-' || c = '_'

def readKeyPart? : Text → Option (Text × Text)
  | '"' :: rest => readLineString? '"' [] rest.length rest
  | '\'' :: rest => readLineString? '\'' [] rest.length rest
  | t =>
    match t.span isKeyChar with
    | ([], _) => none
    | (key, rest) => some (key, rest)

/-- Reads a key with all its parts. Blanks behind it are dropped. -/
def readKey? : Nat → Text → Option (List Text × Text)
  | 0, _ => none
  | fuel + 1, t => do
    let (part, rest) ← readKeyPart? (skip t)
    match skip rest with
    | '.' :: rest =>
      let (parts, rest) ← readKey? fuel rest
      some (part :: parts, rest)
    | rest => some ([part], rest)

/-! ## Numbers and points in time -/

/-- The digits of a number whose digits may be separated by single low lines. -/
def plainDigits? (isDigit : Char → Bool) (t : Text) : Option Text :=
  let parts := t.splitOn '_'
  if parts.all fun part => !part.isEmpty && part.all isDigit then some parts.flatten else none

/-- Whether digits start with a zero that is not alone. -/
def hasLeadingZero (digits : Text) : Bool := digits.head? = some '0' && 1 < digits.length

/-- Integers have 64 bits. -/
def boundedInt? (n : Int) : Option Toml :=
  if -9223372036854775808 ≤ n && n ≤ 9223372036854775807 then some (.int n) else none

def intInBase? (base : Nat) (digits : Text) : Option Toml := do
  let digits ← plainDigits? (fun c => match Percent.hexValue? c with
    | some d => d < base
    | none => false) digits
  boundedInt? (IpAddress.digitsValue base digits)

/-- The sign of a number, and the number without it. -/
def splitSign : Text → Int × Text
  | '-' :: rest => (-1, rest)
  | '+' :: rest => (1, rest)
  | t => (1, t)

def decimalInt? (t : Text) : Option Toml := do
  let (sign, rest) := splitSign t
  let digits ← plainDigits? Char.isDigit rest
  if hasLeadingZero digits then none else boundedInt? (sign * IpAddress.digitsValue 10 digits)

/-- Whether a text is a fraction or an exponent: digits behind what starts it. -/
def areDigits (t : Text) : Bool := (plainDigits? Char.isDigit t).isSome

/-- Whether a text is a number with a fraction, an exponent or both, or a name for no number or one
beyond all. -/
def isFloat (t : Text) : Bool :=
  let (_, t) := splitSign t
  if t = "inf".toList || t = "nan".toList then true
  else
    let (mantissa, exponent) := t.span fun c => c ≠ 'e' && c ≠ 'E'
    let (whole, fraction) := mantissa.span (· ≠ '.')
    areDigits whole && !hasLeadingZero whole
      && (fraction.isEmpty || areDigits (fraction.drop 1))
      && (exponent.isEmpty || areDigits (splitSign (exponent.drop 1)).2)
      && !(fraction.isEmpty && exponent.isEmpty)

/-- Two digits that stand for a number in a range. -/
def isPair (low high : Nat) (t : Text) : Bool :=
  let n := IpAddress.digitsValue 10 t
  t.length = 2 && t.all Char.isDigit && low ≤ n && n ≤ high

def daysOf (year month : Nat) : Nat :=
  if month = 2 then
    if year % 4 = 0 && (year % 100 ≠ 0 || year % 400 = 0) then 29 else 28
  else if month = 4 || month = 6 || month = 9 || month = 11 then 30
  else 31

def isDate (t : Text) : Bool :=
  match t.splitOn '-' with
  | [year, month, day] =>
    year.length = 4 && year.all Char.isDigit && isPair 1 12 month
      && isPair 1 (daysOf (IpAddress.digitsValue 10 year) (IpAddress.digitsValue 10 month)) day
  | _ => false

def isTime (t : Text) : Bool :=
  let (clock, fraction) := t.span (· ≠ '.')
  match clock.splitOn ':' with
  | [hour, minute, second] =>
    isPair 0 23 hour && isPair 0 59 minute && isPair 0 60 second
      && (fraction.isEmpty || (1 < fraction.length && (fraction.drop 1).all Char.isDigit))
  | _ => false

/-- Whether a text is a distance from universal time. -/
def isOffset (t : Text) : Bool :=
  match t with
  | ['Z'] | ['z'] => true
  | sign :: rest =>
    (sign = '+' || sign = '-') &&
      match rest.splitOn ':' with
      | [hour, minute] => isPair 0 23 hour && isPair 0 59 minute
      | _ => false
  | [] => false

/-- Whether a text is a date, a time of day or both. -/
def isMoment (t : Text) : Bool :=
  if isDate t || isTime t then true
  else
    let (date, rest) := (t.take 10, t.drop 10)
    match rest with
    | separator :: rest =>
      let (time, offset) := rest.span fun c => c.isDigit || c = ':' || c = '.'
      isDate date && (separator = 'T' || separator = 't' || separator = ' ') && isTime time
        && (offset.isEmpty || isOffset offset)
    | [] => false

/-- Reads a number or a point in time that makes up a whole text. -/
def scalar? (t : Text) : Option Toml :=
  match t with
  | '0' :: 'x' :: digits => intInBase? 16 digits
  | '0' :: 'o' :: digits => intInBase? 8 digits
  | '0' :: 'b' :: digits => intInBase? 2 digits
  | _ => (decimalInt? t).or (if isFloat t || isMoment t then some .other else none)

/-- Characters of numbers and points in time. -/
def isScalarChar (c : Char) : Bool :=
  c.isAlphanum || c = '+' || c = '-' || c = '_' || c = '.' || c = ':'

/-- Reads a number, a point in time or a truth value. A single blank may stand between a date and a
time. -/
def readScalar? (t : Text) : Option (Toml × Text) :=
  let (token, rest) := t.span isScalarChar
  if token = "true".toList then some (.bool true, rest)
  else if token = "false".toList then some (.bool false, rest)
  else
    let (time, behind) := (rest.drop 1).span isScalarChar
    if isDate token && rest.head? = some ' ' && isMoment (token ++ ' ' :: time) then
      some (.other, behind)
    else (scalar? token).map (·, rest)

/-! ## Values -/

/-- The table of fields that have been read one by one. -/
def tableOf? (fields : List (List Text × Toml)) : Option Toml :=
  let start : Node.Table := (.written, [])
  (fields.foldlM (fun t (path, value) => Node.assign path value t) start).map
    fun (t : Node.Table) => .table (Node.fieldsToToml t.2)

mutual

/-- Reads a value; `fuel` bounds how many values there are. -/
def readValue? : Nat → Text → Option (Toml × Text)
  | 0, _ => none
  | fuel + 1, t =>
    match t with
    | '"' :: _ | '\'' :: _ => (readString? t).map fun (s, rest) => (.text s, rest)
    | '[' :: rest => (readItems? fuel rest).map fun (items, rest) => (.list items, rest)
    | '\x7b' :: rest =>
      match skip rest with
      | '\x7d' :: rest => some (.table [], rest)
      | rest => do
        let (fields, rest) ← readFields? fuel rest
        some (← tableOf? fields, rest)
    | t => readScalar? t

/-- Reads the items of a list and its last bracket. -/
def readItems? : Nat → Text → Option (List Toml × Text)
  | 0, _ => none
  | fuel + 1, t =>
    match skipLines t.length t with
    | ']' :: rest => some ([], rest)
    | t => do
      let (item, rest) ← readValue? fuel t
      match skipLines rest.length rest with
      | ',' :: rest =>
        let (items, rest) ← readItems? fuel rest
        some (item :: items, rest)
      | ']' :: rest => some ([item], rest)
      | _ => none

/-- Reads the fields of a table on one line and its last brace. -/
def readFields? : Nat → Text → Option (List (List Text × Toml) × Text)
  | 0, _ => none
  | fuel + 1, t => do
    let (path, rest) ← readKey? t.length t
    match rest with
    | '=' :: rest =>
      let (value, rest) ← readValue? fuel (skip rest)
      match skip rest with
      | ',' :: rest =>
        let (fields, rest) ← readFields? fuel rest
        some ((path, value) :: fields, rest)
      | '\x7d' :: rest => some ([(path, value)], rest)
      | _ => none
    | _ => none

end

/-! ## Documents -/

/-- A line of a document that says something. -/
inductive Line
  | heading (path : List Text)
  | listHeading (path : List Text)
  | field (path : List Text) (value : Toml)

def readLine? (t : Text) : Option (Line × Text) :=
  match t with
  | '[' :: '[' :: rest => do
    match ← readKey? rest.length rest with
    | (path, ']' :: ']' :: rest) => some (.listHeading path, rest)
    | _ => none
  | '[' :: rest => do
    match ← readKey? rest.length rest with
    | (path, ']' :: rest) => some (.heading path, rest)
    | _ => none
  | t => do
    match ← readKey? t.length t with
    | (path, '=' :: rest) =>
      let (value, rest) ← readValue? rest.length (skip rest)
      some (.field path value, rest)
    | _ => none

/-- Reads the lines of a document. Behind what a line says there may only be a comment. -/
def readLines? : Nat → Text → Option (List Line)
  | 0, t => if t.isEmpty then some [] else none
  | fuel + 1, t =>
    match skipLines t.length t with
    | [] => some []
    | t => do
      let (line, rest) ← readLine? t
      match skipComment (skip rest) with
      | [] => some [line]
      | rest => do
        let rest ← readNewline? rest
        some (line :: (← readLines? fuel rest))

/-- Adds a line to the tables of a document, under the heading that stands above it. -/
def addLine (state : List Text × Node.Table) : Line → Option (List Text × Node.Table)
  | .heading path => do
    let table ← Node.alter false (Node.openTable (← path.getLast?)) path.dropLast state.2
    some (path, table)
  | .listHeading path => do
    let table ← Node.alter false (Node.addTable (← path.getLast?)) path.dropLast state.2
    some (path, table)
  | .field path value => do
    let table ← Node.alter false (Node.assign path value) state.1 state.2
    some (state.1, table)

/-- A document without the mark for the order of bytes. -/
def withoutMark : Text → Text
  | '\uFEFF' :: rest => rest
  | t => t

def read? (t : Text) : Option (List (Text × Toml)) := do
  let t := withoutMark t
  let lines ← readLines? (t.length + 1) t
  let (_, _, fields) ← lines.foldlM addLine ([], Origin.written, [])
  some (Node.fieldsToToml fields)

end LanguageServer.Toml
