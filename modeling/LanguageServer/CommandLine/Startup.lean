import LanguageServer.CommandLine.Arguments
import LanguageServer.Settings.LogFilter

/-!
# Starting up

What happens before the server listens: arguments and settings are read, and the log is set up.
Every failure ends the program with a message.
-/

namespace LanguageServer

/-- Why an address cannot be listened on. -/
inductive BindFlaw
  | inUse
  | unavailable
  | forbidden
  | other (reason : Text)
deriving DecidableEq, Repr

/-- The wording of the operating system. -/
def BindFlaw.message : BindFlaw → Text
  | inUse => "Address already in use (os error 98)".toList
  | unavailable => "Cannot assign requested address (os error 99)".toList
  | forbidden => "Permission denied (os error 13)".toList
  | other reason => reason

/-- Why the program cannot start. -/
inductive StartupError
  | settings (cause : SettingsError)
  | badFilter (filter : Text) (flaw : LogFilter.Flaw)
  | logFile (path : Text) (cause : ReadError)
  | cannotBind (address : Text) (flaw : BindFlaw)
deriving DecidableEq, Repr

def StartupError.message : StartupError → Text
  | settings cause => cause.message
  | badFilter filter flaw =>
    "invalid log filter ".toList ++ quoted filter ++ ": ".toList ++ flaw.message
  | logFile path cause =>
    "could not open log file ".toList ++ quoted path ++ ": ".toList ++ cause.message
  | cannotBind address flaw => "cannot bind ".toList ++ address ++ ": ".toList ++ flaw.message

/-- How the program ends, and what it writes. -/
structure Exit where
  code : Nat
  output : Text := []
  errors : Text := []
deriving DecidableEq, Repr

/-- What the server is started with. -/
structure Startup where
  server : ServerSettings
  libraries : List Text
  filter : Text
  logFile : Option Text
deriving DecidableEq, Repr

namespace Exit

def helpText : Text := "\n".toList.intercalate (List.map String.toList [
  "Harbor language server over a loopback TCP socket",
  "",
  "Usage: harbor [OPTIONS]",
  "",
  "Options:",
  "      --port <PORT>          Port to listen on (0 picks a free port)",
  "      --host <HOST>          Address to listen on",
  "      --once                 Serve a single client, then exit",
  "      --workers <WORKERS>    Number of request worker threads",
  "      --config <CONFIG>      Configuration file (defaults to ./harbor.toml when present)",
  "      --log-file <LOG_FILE>  Write logs to this file instead of stderr",
  "      --library <DIR>        Directory indexed as library sources (repeatable)",
  "  -h, --help                 Print help",
  "  -V, --version              Print version",
  ""])

def versionText : Text := "harbor 0.1.0\n".toList

def errorLine (message : Text) : Text := "error: ".toList ++ message ++ ['\n']

/-- The end of the program when no arguments come out. -/
def ofStop : ArgumentStop → Exit
  | .help => { code := 0, output := helpText }
  | .version => { code := 0, output := versionText }
  | .refused e =>
    { code := 2, errors := errorLine e.message ++ "\nFor more information, try '--help'.\n".toList }

/-- The end of the program when it cannot start. -/
def ofError (e : StartupError) : Exit := { code := 1, errors := errorLine e.message }

end Exit

namespace Startup

/-- Why a file cannot be created, if it cannot. -/
def creationFlaw? (disk : FileTree) (path : Text) : Option ReadError :=
  let names := FileTree.steps path
  match path, names.dropLast.foldlM disk.step ([], .directory), names.getLast? with
  | '/' :: _, .ok parent, some name =>
    match disk.step parent name with
    | .ok (_, .directory) => some .isADirectory
    | .ok (_, .file ..) => none
    | .error .missing => none
    | .error cause => some cause
  | '/' :: _, .ok _, none => some .isADirectory
  | '/' :: _, .error cause, _ => some cause
  | _, _, _ => some .missing

def checkFilter (filter : Text) : Except StartupError Text :=
  match LogFilter.check filter with
  | .ok () => .ok filter
  | .error flaw => .error (.badFilter filter flaw)

/-- Loads the settings and sets up the log. -/
def prepare (disk : FileTree) (directory : Text) (a : Arguments) : Except StartupError Startup := do
  let file ← (FileSettings.load disk directory a.config).mapError .settings
  let filter ← checkFilter file.filter
  let logFile := a.logFile.or file.logFile
  if let some path := logFile then
    if let some cause := creationFlaw? disk (FileSettings.absolute directory path) then
      throw (.logFile path cause)
  return {
    server := file.server { host := a.host, port := a.port, once := a.once, workers := a.workers }
    libraries := a.libraries
    filter := filter
    logFile := logFile }

/-- Reads the command line and prepares the server. -/
def run (disk : FileTree) (directory : Text) (arguments : List Text) : Except Exit Startup := do
  let a ← (Arguments.read arguments).mapError .ofStop
  (prepare disk directory a).mapError .ofError

/-- The paths that are looked at on the way, as far as the settings are known. -/
def paths (disk : FileTree) (directory : Text) (arguments : List Text) : List Text :=
  match Arguments.read arguments with
  | .error _ => []
  | .ok a =>
    let logFile := a.logFile.or <|
      match FileSettings.load disk directory a.config with
      | .ok file => file.logFile
      | .error _ => none
    (a.config.getD FileSettings.defaultPath :: logFile.toList).map (FileSettings.absolute directory)

end Startup

end LanguageServer
