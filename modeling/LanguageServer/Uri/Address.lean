import LanguageServer.Uri.Key
import LanguageServer.Uri.Reference

/-!
# Addresses sent to the client

A key is decoded, so it is not yet a URI. Its address is what a browser makes of the key: tabs and
line breaks are dropped, dot segments are resolved, characters that a part does not admit are
escaped, and a scheme is small. A key without such an address, or with one that RFC 3986 does not
admit, has none.
-/

namespace LanguageServer

/-- The parts of an address. A path of several segments starts with a slash; an opaque path has
none. -/
structure Address where
  scheme : Text
  authority : Option Text
  path : Text
  query : Option Text
  fragment : Option Text
deriving DecidableEq, Repr

namespace Address

/-- The written form. An address without authority whose path starts with two slashes gets a dot
segment, or its path would read as an authority. -/
def render (a : Address) : Text :=
  a.scheme ++ [':']
    ++ (match a.authority with
      | some host => '/' :: '/' :: host
      | none => if ['/', '/'].isPrefixOf a.path then ['/', '.'] else [])
    ++ a.path
    ++ (match a.query with | some q => '?' :: q | none => [])
    ++ (match a.fragment with | some f => '#' :: f | none => [])

/-- Control characters, and everything outside ASCII. -/
def isControl (c : Char) : Bool := c < ' ' || '\x7e' < c

def escapedInFragment (c : Char) : Bool := isControl c || [' ', '"', '<', '>', '`'].contains c

def escapedInPath (c : Char) : Bool := escapedInFragment c || ['#', '?', '{', '}'].contains c

def escapedInUser (c : Char) : Bool :=
  escapedInPath c || ['/', ':', ';', '=', '@', '[', '\\', ']', '^', '|'].contains c

/-- What a query escapes; an apostrophe only in addresses of the web. -/
def escapedInQuery (web : Bool) (c : Char) : Bool :=
  isControl c || [' ', '"', '#', '<', '>'].contains c || (web && c == '\'')

/-- The kinds of schemes that are read differently. -/
inductive Kind
  | file
  | web (port : Nat)
  | other
deriving DecidableEq

def kindOf (scheme : Text) : Kind :=
  match String.ofList scheme with
  | "file" => .file
  | "http" | "ws" => .web 80
  | "https" | "wss" => .web 443
  | "ftp" => .web 21
  | _ => .other

/-- Segments that mean the directory itself. -/
def isSingleDot (s : Text) : Bool :=
  [".", "%2e"].contains (String.ofList (s.map Char.toLower))

/-- Segments that mean the directory above. -/
def isDoubleDot (s : Text) : Bool :=
  ["..", "%2e.", ".%2e", "%2e%2e"].contains (String.ofList (s.map Char.toLower))

/-- A letter followed by a colon or a bar. -/
def isDrive : Text → Bool
  | [d, ':'] | [d, '|'] => d.isAlpha
  | _ => false

/-- The directories left after going up from them. A drive of a local address is never left. -/
def goUp (kind : Kind) (dirs : List Text) : List Text :=
  match dirs.getLast? with
  | some d => if kind = .file && isDrive d then dirs else dirs.dropLast
  | none => []

/-- Resolves dot segments; `dirs` are the directories passed so far. The last segment of the result
is the file name, empty if a directory is meant. -/
def resolve (kind : Kind) (dirs : List Text) : List Text → List Text
  | [] => dirs
  | [s] =>
    if isDoubleDot s then goUp kind dirs ++ [[]]
    else if isSingleDot s then dirs ++ [[]]
    else dirs ++ [s]
  | s :: rest =>
    if isDoubleDot s then resolve kind (goUp kind dirs) rest
    else if isSingleDot s then resolve kind dirs rest
    else resolve kind (dirs ++ [s]) rest

/-- The written path of the segments behind its first slash. -/
def pathOf (kind : Kind) (segments : Text) : Text :=
  let escaped := Percent.encode escapedInPath segments
  let path := (resolve kind [] (escaped.splitOn '/')).flatMap ('/' :: ·)
  match kind with
  | .file => '/' :: path.dropWhile (· == '/')
  | _ => path

/-- Cuts off query and fragment, escaping them. -/
def splitTail (kind : Kind) (t : Text) : Text × Option Text × Option Text :=
  let body := t.takeWhile fun c => c != '?' && c != '#'
  let rest := t.drop body.length
  let web := kind != .other
  let query := rest.takeWhile (· != '#')
  let fragment := match rest.drop query.length with
    | '#' :: f => some (Percent.encode escapedInFragment f)
    | _ => none
  match query with
  | '?' :: q => (body, some (Percent.encode (escapedInQuery web) q), fragment)
  | _ => (body, none, fragment)

/-- Value of a number in an IPv4 address: decimal, octal after `0`, hexadecimal after `0x`. -/
def hostNumber? (t : Text) : Option Nat :=
  let read (base : Nat) (digits : Text) : Option Nat :=
    digits.foldl (fun n c => do
      let n ← n
      let d ← Percent.hexValue? c
      if d < base then some (n * base + d) else none) (some 0)
  match t with
  | [] => none
  | '0' :: 'x' :: digits | '0' :: 'X' :: digits => read 16 digits
  | '0' :: d :: digits => read 8 (d :: digits)
  | _ => read 10 t

/-- The numbers of an IPv4 address as four octets: the last number fills what the others leave. -/
def octets? (numbers : List Nat) : Option (List Nat) :=
  let n := numbers.length
  if n = 0 || 4 < n then none else
    let last := numbers.getLastD 0
    if numbers.dropLast.all (· ≤ 255) && last < Nat.pow 256 (5 - n) then
      some (numbers.dropLast ++
        (List.range (5 - n)).reverse.map fun i => last / Nat.pow 256 i % 256)
    else none

def decimal (n : Nat) : Text := (toString n).toList

/-- The host of a web address: a name in small letters, or an IPv4 address. Names outside ASCII have
none. -/
def webHost? (t : Text) : Option Text :=
  match t with
  | '[' :: _ =>
    if t.getLast? = some ']' && Reference.isIPv6 (t.drop 1).dropLast then some (t.map Char.toLower)
    else none
  | _ =>
    let name := (Percent.decode t).map Char.toLower
    let refused (c : Char) := isControl c
      || [' ', '#', '/', ':', '<', '>', '?', '@', '[', '\\', ']', '^', '|', '%'].contains c
    if name.isEmpty || name.any refused then none else
      let labels := name.splitOn '.'
      let labels :=
        if labels.getLast? = some [] && 1 < labels.length then labels.dropLast else labels
      let last := labels.getLastD []
      if (!last.isEmpty && last.all Char.isDigit) || (hostNumber? last).isSome then do
        let numbers ← labels.mapM hostNumber?
        let octets ← octets? numbers
        some (['.'].intercalate (octets.map decimal))
      else some name

/-- The host of an address that is neither local nor of the web. -/
def opaqueHost? (t : Text) : Option Text :=
  match t with
  | '[' :: _ =>
    if t.getLast? = some ']' && Reference.isIPv6 (t.drop 1).dropLast then some (t.map Char.toLower)
    else none
  | _ =>
    let refused (c : Char) :=
      ['\x00', '\t', '\n', '\r', ' ', '#', '/', ':', '<', '>', '?', '@', '[', '\\', ']', '^',
        '|'].contains c
    if t.any refused then none else some (Percent.encode isControl t)

/-- Length of the host at the start of a text: up to a colon outside brackets. -/
def hostLength (bracketed : Bool) : Text → Nat
  | [] => 0
  | c :: rest =>
    if c = ':' && !bracketed then 0
    else 1 + hostLength (if c = '[' then true else if c = ']' then false else bracketed) rest

/-- The written user information, with its at sign. An empty password is left out. -/
def userPart (t : Text) : Text :=
  let name := t.takeWhile (· != ':')
  let password := t.drop (name.length + 1)
  let user := Percent.encode escapedInUser name
    ++ (if password.isEmpty then [] else ':' :: Percent.encode escapedInUser password)
  if user.isEmpty then [] else user ++ ['@']

/-- The written port with its colon, if it is a port number; the usual one is left out. -/
def portPart? (kind : Kind) : Text → Option Text
  | [] => some []
  | ':' :: digits =>
    if digits.all Char.isDigit then
      let port := digits.foldl (fun n c => n * 10 + (c.toNat - 48)) 0
      if 65535 < port then none
      else if digits.isEmpty || kind = .web port then some []
      else some (':' :: decimal port)
    else none
  | _ => none

/-- The written authority, if it is one. Only addresses outside the web may leave the host empty,
and then without user and port. -/
def authority? (kind : Kind) (t : Text) : Option Text := do
  let hostPort := t.takeEndWhile (· != '@')
  let userText := (t.take (t.length - hostPort.length)).dropLast
  let hostText := hostPort.take (hostLength false hostPort)
  let portText := hostPort.drop hostText.length
  if hostText.isEmpty && (t != [] || kind != .other) then none else
    let host ← if kind = .other then opaqueHost? hostText else webHost? hostText
    let port ← portPart? kind portText
    some (userPart userText ++ host ++ port)

def isDropped (c : Char) : Bool := c == '\t' || c == '\n' || c == '\r'

/-- Reads what follows the two slashes of an address that is not local. -/
def afterSlashes? (scheme : Text) (kind : Kind) (t : Text) : Option Address := do
  let (body, query, fragment) := splitTail kind t
  let authorityText := body.takeWhile (· != '/')
  let authority ← authority? kind authorityText
  let path := match body.drop authorityText.length with
    | '/' :: segments => pathOf kind segments
    | _ => if kind = .other then [] else ['/']
  some ⟨scheme, some authority, path, query, fragment⟩

/-- The host of a local address. A drive is none, and the machine itself is not named. -/
def localHost? (t : Text) : Option Text :=
  if t.isEmpty then some []
  else (webHost? t).map fun host => if host = "localhost".toList then [] else host

/-- Reads what follows the colon of a local address. -/
def local? (scheme : Text) (t : Text) : Option Address := do
  let (body, query, fragment) := splitTail .file t
  let hostText := match body with
    | '/' :: '/' :: more => more.takeWhile (· != '/')
    | _ => []
  let named := !isDrive hostText
  let host ← if named then localHost? hostText else some []
  let segments := match body with
    | '/' :: '/' :: more => if named then (more.drop hostText.length).drop 1 else more
    | '/' :: segments => segments
    | segments => segments
  some ⟨scheme, some host, pathOf .file segments, query, fragment⟩

def parse? (raw : Text) : Option Address :=
  let isEdge (c : Char) : Bool := c ≤ ' '
  let t := (Text.dropEndWhile isEdge (raw.dropWhile isEdge)).filter (!isDropped ·)
  let scheme := t.takeWhile (· != ':')
  if !(t.contains ':' && Reference.isScheme scheme) then none else
    let scheme' := scheme.map Char.toLower
    let kind := kindOf scheme'
    let rest := t.drop (scheme.length + 1)
    match kind, rest with
    | .file, _ => local? scheme' rest
    | .web _, _ => afterSlashes? scheme' kind (rest.dropWhile (· == '/'))
    | .other, '/' :: '/' :: more => afterSlashes? scheme' kind more
    | .other, _ =>
      let (body, query, fragment) := splitTail kind rest
      let path := match body with
        | '/' :: segments => pathOf kind segments
        | body => Percent.encode isControl body
      some ⟨scheme', none, path, query, fragment⟩

end Address

/-- The address under which the client knows a key. -/
def FileKey.uri? (k : FileKey) : Option Text := do
  let address ← Address.parse? k.text
  let uri := address.render
  if Reference.isReference uri then some uri else none

end LanguageServer
