import LanguageServer.Settings.Toml.Read
import LanguageServer.Workspace.FileTree

/-!
# Settings

What can be set in the configuration file and on the command line. The file has four sections, every
section and every setting may be left out, and a setting that is not known is refused. A section may
also be written as a list of its values in their order. What the command line says wins.
-/

namespace LanguageServer

/-- The settings of a configuration file. -/
structure FileSettings where
  host : IpAddress := .v4 [127, 0, 0, 1]
  port : Nat := 8989
  keepListening : Bool := true
  workers : Nat := 4
  handshakeMs : Nat := 500
  symbolLimit : Nat := 100
  filter : Text := "info".toList
  logFile : Option Text := none
deriving DecidableEq, Repr

/-- The settings of the command line. -/
structure Overrides where
  host : Option IpAddress := none
  port : Option Nat := none
  once : Bool := false
  workers : Option Nat := none
deriving DecidableEq, Repr

/-- The settings of a server. -/
structure ServerSettings where
  host : IpAddress
  port : Nat
  keepListening : Bool
  workers : Nat
  handshakeMs : Nat
  symbolLimit : Nat
deriving DecidableEq, Repr

def ServerSettings.address (s : ServerSettings) : Text := s.host.withPort s.port

namespace FileSettings

/-- The settings of a server. There is at least one worker. -/
def server (file : FileSettings) (o : Overrides) : ServerSettings where
  host := o.host.getD file.host
  port := o.port.getD file.port
  keepListening := file.keepListening && !o.once
  workers := max 1 (o.workers.getD file.workers)
  handshakeMs := file.handshakeMs
  symbolLimit := file.symbolLimit

/-! ## Reading a file -/

/-- Changes settings to have a value, if the value is valid. -/
abbrev Setter := Toml → FileSettings → Option FileSettings

def text (set : Text → FileSettings → FileSettings) : Setter
  | .text t, s => some (set t s)
  | _, _ => none

def number (bound : Nat) (set : Nat → FileSettings → FileSettings) : Setter
  | .int (.ofNat n), s => if n ≤ bound then some (set n s) else none
  | _, _ => none

def flag (set : Bool → FileSettings → FileSettings) : Setter
  | .bool b, s => some (set b s)
  | _, _ => none

def address (set : IpAddress → FileSettings → FileSettings) : Setter
  | .text t, s => (IpAddress.ofText? t).map (set · s)
  | _, _ => none

/-- The settings of a section in their order. -/
abbrev Section := List (String × Setter)

/-- The largest number of 64 bits. -/
def maxWord : Nat := 18446744073709551615

def sections : List (String × Section) := [
  ("server", [
    ("host", address fun v s => { s with host := v }),
    ("port", number 65535 fun v s => { s with port := v }),
    ("keep_listening", flag fun v s => { s with keepListening := v }),
    ("workers", number maxWord fun v s => { s with workers := v })]),
  ("progress", [("handshake_timeout_ms", number maxWord fun v s => { s with handshakeMs := v })]),
  ("symbols", [("workspace_limit", number maxWord fun v s => { s with symbolLimit := v })]),
  ("log", [
    ("filter", text fun v s => { s with filter := v }),
    ("file", text fun v s => { s with logFile := some v })])]

def lookup? {α : Type} (name : Text) (known : List (String × α)) : Option α :=
  (known.find? (·.1.toList = name)).map (·.2)

def readSection (known : Section) (value : Toml) (s : FileSettings) : Option FileSettings :=
  match value with
  | .table fields => fields.foldlM (fun s (name, v) => do (← lookup? name known) v s) s
  | .list items => (known.zip items).foldlM (fun s ((_, set), v) => set v s) s
  | _ => none

def ofText? (t : Text) : Option FileSettings := do
  let fields ← Toml.read? t
  fields.foldlM (fun s (name, v) => do readSection (← lookup? name sections) v s) {}

end FileSettings

/-- Why settings could not be loaded. -/
inductive SettingsError
  | unreadable (path : Text) (cause : ReadError)
  | unparsable (path : Text)
deriving DecidableEq, Repr

def quoted (t : Text) : Text := '\'' :: t ++ ['\'']

def SettingsError.message : SettingsError → Text
  | unreadable path cause => "could not read ".toList ++ quoted path ++ ": ".toList ++ cause.message
  | unparsable path => "could not parse ".toList ++ quoted path

namespace FileSettings

/-- The file that is read if none is named. -/
def defaultPath : Text := "harbor.toml".toList

/-- The absolute form of a path that is meant from a directory. An empty path has none and leads
nowhere. -/
def absolute (directory path : Text) : Text :=
  match path with
  | [] | '/' :: _ => path
  | _ => directory ++ '/' :: path

def read (disk : FileTree) (directory path : Text) : Except SettingsError FileSettings :=
  match disk.readText (absolute directory path) with
  | .error cause => .error (.unreadable path cause)
  | .ok (content, _) =>
    match ofText? content with
    | some settings => .ok settings
    | none => .error (.unparsable path)

/-- Loads the settings of the file that is named, or else of the default file if there is one. -/
def load (disk : FileTree) (directory : Text) (path : Option Text) :
    Except SettingsError FileSettings :=
  match path with
  | some path => read disk directory path
  | none =>
    match disk.follow (absolute directory defaultPath) with
    | .ok (_, .file ..) => read disk directory defaultPath
    | _ => .ok {}

end FileSettings

end LanguageServer
