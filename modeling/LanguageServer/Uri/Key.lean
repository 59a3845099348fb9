import LanguageServer.Uri.Percent

/-!
# Canonical keys of files

Clients and the local file system spell the same file in many ways. Every spelling is turned into
one key: separators are forward slashes, none of them at the end, exactly three follow the scheme,
escapes are decoded except that a percent sign itself stays `%25`, and a drive letter is small. A
spelling without a recognizable scheme only has its slashes cleaned.
-/

namespace LanguageServer

/-- The canonical spelling of a file or directory. -/
structure FileKey where
  text : Text
deriving DecidableEq, Repr, Inhabited

namespace FileKey

/-- Turns backslashes into slashes and drops the slashes at the end. -/
def cleanSlashes (t : Text) : Text :=
  Text.dropEndWhile (· == '/') (t.map fun c => if c = '\\' then '/' else c)

/-- Letters and digits of ASCII, and the underscore. -/
def isSchemeStart (c : Char) : Bool := c.isAlphanum || c == '_'

def isSchemeChar (c : Char) : Bool := isSchemeStart c || c == '+' || c == '-' || c == '.'

/-- Cuts a spelling into its scheme, of two or more characters, and what follows the colon and the
one or more slashes behind it. -/
def splitScheme? (t : Text) : Option (Text × Text) :=
  let scheme := t.takeWhile (· != ':')
  match scheme, t.dropWhile (· != ':') with
  | first :: second :: more, _ :: '/' :: rest =>
    if isSchemeStart first && (second :: more).all isSchemeChar then
      some (scheme, rest.dropWhile (· == '/'))
    else none
  | _, _ => none

/-- Whether a path starts with a drive letter and a colon. -/
def hasDrive : Text → Bool
  | d :: ':' :: _ => d.isAlpha
  | _ => false

/-- Makes a drive letter at the start small. -/
def lowerDrive : Text → Text
  | d :: ':' :: rest => d.toLower :: ':' :: rest
  | t => t

def escapePercent (t : Text) : Text := t.flatMap fun c => if c = '%' then ['%', '2', '5'] else [c]

/-- Undoes `escapePercent`. -/
def unescapePercent (t : Text) : Text := if t.contains '%' then Percent.decode t else t

/-- The canonical spelling. Decoding may bring up new slashes, so they are cleaned twice. -/
def normalize (raw : Text) : Text :=
  let cleaned := cleanSlashes raw
  match splitScheme? cleaned with
  | none => cleaned
  | some (scheme, rest) =>
    scheme ++ [':', '/', '/', '/']
      ++ lowerDrive (escapePercent (cleanSlashes (Percent.decode rest)))

/-- The key of a file that a client names. -/
def ofUri (uri : Text) : FileKey := ⟨normalize uri⟩

/-- The components of an absolute local path; empty ones and single dots mean nothing. -/
def components (path : Text) : List Text :=
  (path.splitOn '/').filter fun s => s ≠ [] && s ≠ ['.']

/-- Characters of a path component that are escaped in a file address. -/
def escapedInComponent (c : Char) : Bool :=
  c ≤ ' ' || '\x7e' < c ||
    ['"', '#', '<', '>', '?', '`', '{', '}', '/', '%', '\\'].contains c

def fileAddress (path : Text) : Text :=
  match components path with
  | [] => "file:///".toList
  | names => "file://".toList ++ names.flatMap fun s => '/' :: Percent.encode escapedInComponent s

def ofLocalPath (path : Text) : FileKey :=
  match path with
  | '/' :: _ => ⟨normalize (fileAddress path)⟩
  | _ => ⟨normalize ("file:///".toList ++ path)⟩

def scheme? (k : FileKey) : Option Text := (splitScheme? k.text).map (·.1)

/-- The local path of a key whose scheme is `file`. -/
def localPath? (k : FileKey) : Option Text :=
  match splitScheme? k.text with
  | none => none
  | some (scheme, rest) =>
    if scheme = "file".toList then
      let path := unescapePercent rest
      if hasDrive path then some path else some ('/' :: path)
    else none

/-- What follows the last slash or exclamation mark. -/
def lastSegment (k : FileKey) : Text := k.text.takeEndWhile fun c => c != '/' && c != '!'

/-- The name of the file, if there is one. -/
def fileName? (k : FileKey) : Option Text :=
  let name := k.lastSegment
  if name.isEmpty || name.getLast? = some ':' then none else some (unescapePercent name)

/-- What follows the last dot of the file name, when both parts are not empty. -/
def extension? (k : FileKey) : Option Text :=
  let name := k.lastSegment
  let ext := name.takeEndWhile (· != '.')
  let stem := (name.take (name.length - ext.length)).dropLast
  if name.contains '.' && !stem.isEmpty && !ext.isEmpty then some ext else none

/-- Whether a key is the ancestor or lies below it. -/
def isUnder (k ancestor : FileKey) : Bool :=
  match Text.dropHead? k.text ancestor.text with
  | some [] => true
  | some ('/' :: _) => true
  | _ => false

/-- Keys are ordered by code points, which is also the order of their bytes. -/
def lt (a b : FileKey) : Bool := decide (a.text < b.text)

end FileKey

end LanguageServer
