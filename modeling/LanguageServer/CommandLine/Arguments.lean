import LanguageServer.Settings.Basic

/-!
# Arguments

The arguments of the command line from left to right. An option takes its value from behind an
equals sign or from the next argument, and the value is only looked at when the next option or the
end is reached. An argument that is not known is refused at once.
-/

namespace LanguageServer

/-- What the command line asks for. -/
structure Arguments where
  port : Option Nat := none
  host : Option IpAddress := none
  once : Bool := false
  workers : Option Nat := none
  config : Option Text := none
  logFile : Option Text := none
  libraries : List Text := []
deriving DecidableEq, Repr

/-- The options. -/
inductive Flag
  | port
  | host
  | once
  | workers
  | config
  | logFile
  | library
  | help
  | version
deriving DecidableEq, Repr

/-- Why a number could not be read. -/
inductive NumberFlaw
  | empty
  | invalidDigit
  | tooLarge
  | tooSmall
deriving DecidableEq, Repr

/-- Why the value of an option is not valid. -/
inductive ValueFlaw
  | number (flaw : NumberFlaw)
  | outside (n : Int) (last : Nat)
  | address
deriving DecidableEq, Repr

/-- Why arguments are refused. -/
inductive ArgumentError
  | unexpected (argument : Text)
  | valueMissing (flag : Flag)
  | invalidValue (flag : Flag) (value : Text) (flaw : ValueFlaw)
  | repeated (flag : Flag)
  | valueRefused (flag : Flag) (value : Text)
deriving DecidableEq, Repr

/-- Why no arguments come out: they are refused, or they only ask for a text. -/
inductive ArgumentStop
  | refused (e : ArgumentError)
  | help
  | version
deriving DecidableEq, Repr

namespace Flag

/-- The name of an option and of its value. -/
def names : Flag → String × Option String
  | port => ("--port", some "PORT")
  | host => ("--host", some "HOST")
  | once => ("--once", none)
  | workers => ("--workers", some "WORKERS")
  | config => ("--config", some "CONFIG")
  | logFile => ("--log-file", some "LOG_FILE")
  | library => ("--library", some "DIR")
  | help => ("--help", none)
  | version => ("--version", none)

/-- Every option. -/
def all : List Flag := [port, host, once, workers, config, logFile, library, help, version]

def takesValue (f : Flag) : Bool := f.names.2.isSome

/-- An option as messages name it. -/
def text (f : Flag) : Text :=
  match f.names with
  | (name, some value) => name.toList ++ " <".toList ++ value.toList ++ ['>']
  | (name, none) => name.toList

def ofName? (name : Text) : Option Flag := all.find? (·.names.1.toList = name)

def ofLetter? : Char → Option Flag
  | 'h' => some help
  | 'V' => some version
  | _ => none

end Flag

def NumberFlaw.message : NumberFlaw → Text
  | empty => "cannot parse integer from empty string".toList
  | invalidDigit => "invalid digit found in string".toList
  | tooLarge => "number too large to fit in target type".toList
  | tooSmall => "number too small to fit in target type".toList

def ValueFlaw.message : ValueFlaw → Text
  | number flaw => flaw.message
  | outside n last =>
    (toString n).toList ++ " is not in 0..=".toList ++ Nat.toDigits 10 last
  | address => "invalid IP address syntax".toList

def ArgumentError.message : ArgumentError → Text
  | unexpected argument => "unexpected argument ".toList ++ quoted argument ++ " found".toList
  | valueMissing flag =>
    "a value is required for ".toList ++ quoted flag.text ++ " but none was supplied".toList
  | invalidValue flag value flaw =>
    "invalid value ".toList ++ quoted value ++ " for ".toList ++ quoted flag.text ++ ": ".toList ++
      flaw.message
  | repeated flag =>
    "the argument ".toList ++ quoted flag.text ++ " cannot be used multiple times".toList
  | valueRefused flag value =>
    "unexpected value ".toList ++ quoted value ++ " for ".toList ++ quoted flag.text
      ++ " found; no more were expected".toList

/-! ## Numbers -/

/-- Reads digits up to the first flaw; no number on the way may exceed the bound. -/
def readDigits (bound : Nat) (tooFar : NumberFlaw) (t : Text) : Except NumberFlaw Nat :=
  t.foldlM (fun n c =>
    if !c.isDigit then .error .invalidDigit
    else if bound < n * 10 + (c.toNat - 48) then .error tooFar
    else .ok (n * 10 + (c.toNat - 48))) 0

/-- Reads a number without a sign or with a plus sign. -/
def readNatural (bound : Nat) : Text → Except NumberFlaw Nat
  | [] => .error .empty
  | ['+'] => .error .invalidDigit
  | '+' :: rest => readDigits bound .tooLarge rest
  | t => readDigits bound .tooLarge t

/-- Reads a number of 64 bits that may have a sign. -/
def readInteger : Text → Except NumberFlaw Int
  | ['-'] => .error .invalidDigit
  | '-' :: rest => (readDigits 9223372036854775808 .tooSmall rest).map fun n => -(n : Int)
  | t => (readNatural 9223372036854775807 t).map fun n => (n : Int)

def readPort (t : Text) : Except ValueFlaw Nat :=
  match readInteger t with
  | .error flaw => .error (.number flaw)
  | .ok n => if 0 ≤ n && n ≤ 65535 then .ok n.toNat else .error (.outside n 65535)

def readWorkers (t : Text) : Except ValueFlaw Nat :=
  (readNatural FileSettings.maxWord t).mapError .number

def readHost (t : Text) : Except ValueFlaw IpAddress :=
  match IpAddress.ofText? t with
  | some ip => .ok ip
  | none => .error .address

/-! ## Arguments -/

namespace Arguments

/-- Reads the value of an option that may be given once. -/
def once? {α : Type} (flag : Flag) (present : Bool) (value : Text)
    (read : Text → Except ValueFlaw α) :
    Except ArgumentError α :=
  if present then .error (.repeated flag)
  else (read value).mapError (.invalidValue flag value)

/-- Reads the path of an option that may be given once. -/
def oncePath? (flag : Flag) (present : Bool) (value : Text) : Except ArgumentError Text :=
  if present then .error (.repeated flag)
  else if value.isEmpty then .error (.valueMissing flag)
  else .ok value

def set (a : Arguments) (flag : Flag) (value : Text) : Except ArgumentError Arguments := do
  match flag with
  | .port => return { a with port := some (← once? flag a.port.isSome value readPort) }
  | .host => return { a with host := some (← once? flag a.host.isSome value readHost) }
  | .workers => return { a with workers := some (← once? flag a.workers.isSome value readWorkers) }
  | .config => return { a with config := some (← oncePath? flag a.config.isSome value) }
  | .logFile => return { a with logFile := some (← oncePath? flag a.logFile.isSome value) }
  | .library => return { a with libraries := a.libraries ++ [← oncePath? flag false value] }
  | .once | .help | .version => .error (.valueRefused flag value)

/-- The arguments read so far, with the option that was named last and the value it has got. -/
structure Reading where
  arguments : Arguments := {}
  pending : Option (Flag × Option Text) := none
  onlyPlain : Bool := false

namespace Reading

def refuse {α : Type} (e : ArgumentError) : Except ArgumentStop α := .error (.refused e)

/-- Finishes the option that was named last. -/
def settle (r : Reading) : Except ArgumentStop Reading :=
  match r.pending with
  | none => .ok r
  | some (flag, none) => refuse (.valueMissing flag)
  | some (flag, some value) =>
    match r.arguments.set flag value with
    | .ok arguments => .ok { r with arguments, pending := none }
    | .error e => refuse e

/-- Takes an option without a value. -/
def switch (r : Reading) (flag : Flag) : Except ArgumentStop Reading := do
  let r ← r.settle
  match flag with
  | .help => .error .help
  | .version => .error .version
  | _ =>
    if r.arguments.once then refuse (.repeated flag)
    else .ok { r with arguments := { r.arguments with once := true } }

/-- Takes an option by its long name, perhaps with a value behind an equals sign. -/
def long (r : Reading) (argument : Text) : Except ArgumentStop Reading :=
  let (name, value) := argument.span (· ≠ '=')
  match Flag.ofName? name, value with
  | none, _ => refuse (.unexpected name)
  | some flag, '=' :: value =>
    if flag.takesValue then do
      let r ← r.settle
      match r.arguments.set flag value with
      | .ok arguments => .ok { r with arguments }
      | .error e => refuse e
    else refuse (.valueRefused flag value)
  | some flag, _ =>
    if flag.takesValue then do
      let r ← r.settle
      .ok { r with pending := some (flag, none) }
    else r.switch flag

/-- Takes options by their short names. -/
def short (r : Reading) (letters : Text) : Except ArgumentStop Reading :=
  letters.foldlM (fun r letter =>
    match Flag.ofLetter? letter with
    | some flag => switch r flag
    | none => refuse (.unexpected ['-', letter])) r

/-- Takes an argument that names no option. -/
def plain (r : Reading) (argument : Text) : Except ArgumentStop Reading :=
  match r.pending with
  | some (flag, none) => .ok { r with pending := some (flag, some argument) }
  | _ => refuse (.unexpected argument)

/-- Takes an argument. Behind two dashes no argument names an option or is the value of one. -/
def take (r : Reading) (argument : Text) : Except ArgumentStop Reading :=
  if r.onlyPlain then refuse (.unexpected argument)
  else match argument with
    | ['-', '-'] => .ok { r with onlyPlain := true }
    | '-' :: '-' :: _ => r.long argument
    | '-' :: letter :: letters => r.short (letter :: letters)
    | _ => r.plain argument

end Reading

def read (arguments : List Text) : Except ArgumentStop Arguments := do
  let r ← arguments.foldlM Reading.take {}
  return (← r.settle).arguments

end Arguments

end LanguageServer
