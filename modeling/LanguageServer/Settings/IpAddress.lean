import LanguageServer.Uri.Percent

/-!
# Internet addresses

Addresses of both versions, as they are read and written. The numbers of a version 4 address have no
leading zeros. A version 6 address may leave out one run of zeros and may end with a version 4
address; it is written with its first longest run of at least two zeros left out.
-/

namespace LanguageServer

/-- An address, as four numbers below 256 or eight numbers below 65536. -/
inductive IpAddress
  | v4 (parts : List Nat)
  | v6 (groups : List Nat)
deriving DecidableEq, Repr

namespace IpAddress

/-! ## Reading -/

def digitsValue (base : Nat) (digits : Text) : Nat :=
  digits.foldl (fun n c => n * base + (Percent.hexValue? c).getD 0) 0

/-- Reads at least one and at most `most` digits that satisfy `p`. -/
def readDigits? (p : Char → Bool) (most : Nat) (t : Text) : Option (Text × Text) :=
  match t.span p with
  | ([], _) => none
  | (digits, rest) => if digits.length ≤ most then some (digits, rest) else none

/-- Reads a part of a version 4 address. -/
def readPart? (t : Text) : Option (Nat × Text) := do
  let (digits, rest) ← readDigits? Char.isDigit 3 t
  let n := digitsValue 10 digits
  if n < 256 && (digits.length = 1 || digits.head? ≠ some '0') then some (n, rest) else none

def readChar? (c : Char) : Text → Option Text
  | d :: rest => if c = d then some rest else none
  | [] => none

/-- Reads a version 4 address. -/
def readV4? (t : Text) : Option (List Nat × Text) := do
  let (a, t) ← readPart? t
  let (b, t) ← readPart? (← readChar? '.' t)
  let (c, t) ← readPart? (← readChar? '.' t)
  let (d, t) ← readPart? (← readChar? '.' t)
  some ([a, b, c, d], t)

/-- Reads a group of a version 6 address. -/
def readGroup? (t : Text) : Option (Nat × Text) := do
  let (digits, rest) ← readDigits? (fun c => (Percent.hexValue? c).isSome) 4 t
  some (digitsValue 16 digits, rest)

/-- The two groups that a version 4 address fills. -/
def groupsOfV4 : List Nat → List Nat
  | [a, b, c, d] => [a * 256 + b, c * 256 + d]
  | _ => []

/-- Reads at most `room` groups; all but the first stand behind a colon. A version 4 address fills
the last two, and it is told whether there is one. -/
def readGroups (first : Bool) : Nat → Text → List Nat × Bool × Text
  | 0, t => ([], false, t)
  | room + 1, t =>
    match if first then some t else readChar? ':' t with
    | none => ([], false, t)
    | some inner =>
      match if room = 0 then none else readV4? inner with
      | some (parts, rest) => (groupsOfV4 parts, true, rest)
      | none =>
        match readGroup? inner with
        | none => ([], false, t)
        | some (g, rest) =>
          let (gs, embedded, rest) := readGroups false room rest
          (g :: gs, embedded, rest)

/-- Reads a version 6 address. -/
def readV6? (t : Text) : Option (List Nat × Text) :=
  let (head, embedded, rest) := readGroups true 8 t
  if head.length = 8 then some (head, rest)
  else if embedded then none
  else do
    let rest ← readChar? ':' (← readChar? ':' rest)
    let (tail, _, rest) := readGroups true (7 - head.length) rest
    some (head ++ List.replicate (8 - head.length - tail.length) 0 ++ tail, rest)

/-- Reads an address that makes up a whole text. -/
def ofText? (t : Text) : Option IpAddress :=
  match readV4? t with
  | some (parts, []) => some (v4 parts)
  | some _ => none
  | none =>
    match readV6? t with
    | some (groups, []) => some (v6 groups)
    | _ => none

/-! ## Writing -/

def joined (separator : Char) (parts : List Text) : Text := [separator].intercalate parts

/-- A version 4 address as it is written. -/
def v4Text (parts : List Nat) : Text := joined '.' (parts.map (Nat.toDigits 10))

def groupsText (groups : List Nat) : Text := joined ':' (groups.map (Nat.toDigits 16))

def zeros (groups : List Nat) : Nat := (groups.takeWhile (· = 0)).length

/-- Where the first longest run of zeros starts, and its length. -/
def longestZeros (groups : List Nat) : Nat × Nat :=
  (List.range groups.length).foldl (fun best i =>
    let n := zeros (groups.drop i)
    if best.2 < n then (i, n) else best) (0, 0)

/-- A version 6 address as it is written. One that stands for a version 4 address shows it. -/
def v6Text : List Nat → Text
  | [0, 0, 0, 0, 0, 65535, a, b] =>
    "::ffff:".toList ++ v4Text [a / 256, a % 256, b / 256, b % 256]
  | groups =>
    let (start, n) := longestZeros groups
    if 1 < n then
      groupsText (groups.take start) ++ "::".toList ++ groupsText (groups.drop (start + n))
    else groupsText groups

def text : IpAddress → Text
  | v4 parts => v4Text parts
  | v6 groups => v6Text groups

/-- An address with a port as they are written. -/
def withPort (ip : IpAddress) (port : Nat) : Text :=
  match ip with
  | v4 parts => v4Text parts ++ ':' :: Nat.toDigits 10 port
  | v6 groups => '[' :: v6Text groups ++ "]:".toList ++ Nat.toDigits 10 port

end IpAddress

end LanguageServer
