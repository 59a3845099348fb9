import LanguageServer.Uri.Percent

/-!
# References of RFC 3986

Which texts are URI references: an optional scheme, an optional authority behind two slashes, a
path, an optional query and an optional fragment, each of characters that its part admits. Percent
signs must be followed by two hexadecimal digits.
-/

namespace LanguageServer.Reference

/-- Characters that need no escape in any part. -/
def isUnreserved (c : Char) : Bool := c.isAlphanum || c == '-' || c == '.' || c == '_' || c == '~'

/-- Characters that may separate within a part. -/
def isSubDelimiter (c : Char) : Bool :=
  ['!', '$', '&', '\'', '(', ')', '*', '+', ',', ';', '='].contains c

/-- Characters of a path, slashes included. -/
def isPathChar (c : Char) : Bool :=
  isUnreserved c || isSubDelimiter c || c == ':' || c == '@' || c == '/'

def isQueryChar (c : Char) : Bool := isPathChar c || c == '?'

def isHostChar (c : Char) : Bool := isUnreserved c || isSubDelimiter c

/-- Whether a text consists of escapes and of characters that satisfy `p`. -/
def isMadeOf (p : Char → Bool) : Text → Bool
  | [] => true
  | '%' :: high :: low :: rest => (Percent.escaped? high low).isSome && isMadeOf p rest
  | c :: rest => p c && c != '%' && isMadeOf p rest

/-- A letter, then letters, digits, `+`, `-` and `.`. -/
def isScheme : Text → Bool
  | [] => false
  | c :: rest => c.isAlpha && rest.all fun d => d.isAlphanum || d == '+' || d == '-' || d == '.'

/-- One to four hexadecimal digits. -/
def isHexGroup (t : Text) : Bool :=
  1 ≤ t.length && t.length ≤ 4 && t.all fun c => (Percent.hexValue? c).isSome

/-- A decimal number up to 255 without leading zeros. -/
def isOctet (t : Text) : Bool :=
  t.all Char.isDigit && 1 ≤ t.length && t.length ≤ 3 && (t.length == 1 || t.head? != some '0')
    && t.foldl (fun n c => n * 10 + (c.toNat - 48)) 0 ≤ 255

/-- Four octets with dots between them. -/
def isIPv4 (t : Text) : Bool :=
  let parts := t.splitOn '.'
  parts.length == 4 && parts.all isOctet

/-- Number of 16-bit groups that a colon separated list gives, if its groups are well formed; dotted
octets may only come last. -/
def groupCount? (dottedLast : Bool) (t : Text) : Option Nat :=
  if t.isEmpty then some 0 else
    let parts := t.splitOn ':'
    match parts.getLast? with
    | none => none
    | some last =>
      if parts.dropLast.all isHexGroup then
        if isHexGroup last then some parts.length
        else if dottedLast && isIPv4 last then some (parts.length + 1)
        else none
      else none

/-- The IPv6 notations: eight groups, or fewer around one double colon. -/
def isIPv6 (t : Text) : Bool :=
  match Text.indexOf? [':', ':'] t with
  | none => groupCount? true t == some 8
  | some i =>
    match groupCount? false (t.take i), groupCount? true (t.drop (i + 2)) with
    | some a, some b => a + b ≤ 7
    | _, _ => false

/-- What may stand between brackets: an IPv6 address or one of a future version. -/
def isBracketed : Text → Bool
  | 'v' :: rest | 'V' :: rest =>
    let version := rest.takeWhile (· != '.')
    let tail := rest.drop (version.length + 1)
    !version.isEmpty && version.all (fun c => (Percent.hexValue? c).isSome)
      && rest.contains '.' && !tail.isEmpty && tail.all fun c => isHostChar c || c == ':'
  | t => isIPv6 t

/-- An empty text, or a colon and decimal digits. -/
def isPortPart : Text → Bool
  | [] => true
  | ':' :: digits => digits.all Char.isDigit
  | _ => false

def isHostPort : Text → Bool
  | '[' :: rest =>
    let inner := rest.takeWhile (· != ']')
    rest.contains ']' && isBracketed inner && isPortPart (rest.drop (inner.length + 1))
  | t =>
    let host := t.takeWhile (· != ':')
    isMadeOf isHostChar host && isPortPart (t.drop host.length)

/-- Optional user information, a host and an optional port. -/
def isAuthority (t : Text) : Bool :=
  if t.contains '@' then
    let user := t.takeWhile (· != '@')
    isMadeOf (fun c => isHostChar c || c == ':') user && isHostPort (t.drop (user.length + 1))
  else isHostPort t

/-- An optional authority and a path. -/
def isHierarchy : Text → Bool
  | '/' :: '/' :: rest =>
    let authority := rest.takeWhile (· != '/')
    isAuthority authority && isMadeOf isPathChar (rest.drop authority.length)
  | path => isMadeOf isPathChar path

/-- Whether a text is a URI reference. A colon before any slash ends a scheme. -/
def isReference (t : Text) : Bool :=
  let beforeFragment := t.takeWhile (· != '#')
  let beforeQuery := beforeFragment.takeWhile (· != '?')
  let first := beforeQuery.takeWhile (· != '/')
  let hierarchy :=
    if first.contains ':' then
      let scheme := first.takeWhile (· != ':')
      isScheme scheme && isHierarchy (beforeQuery.drop (scheme.length + 1))
    else isHierarchy beforeQuery
  hierarchy && isMadeOf isQueryChar (beforeFragment.drop (beforeQuery.length + 1))
    && isMadeOf isQueryChar (t.drop (beforeFragment.length + 1))

end LanguageServer.Reference
