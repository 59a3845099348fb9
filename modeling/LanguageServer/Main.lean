import LanguageServer.CommandLine.Startup
import LanguageServer.Protocol.Message
import LanguageServer.Server.Outbox
import LanguageServer.Server.Service
import Std.Async.TCP

/-!
# The command line

Starts the server, listens on its address and serves one client after another. Everything here is
reading and writing: the disk is looked at where a message or the settings point, bytes are received
and sent, and what to do about them is decided elsewhere.
-/

namespace LanguageServer.Main

open Std.Async Std.Net

/-! ## The disk -/

/-- Whether a file can be written. -/
def isWritable (path : String) : IO Bool := do
  try
    discard (IO.FS.Handle.mk path .readWrite)
    return true
  catch _ => return false

def entryAt? (path : String) : IO (Option Entry) := do
  try
    let bytes := (← IO.FS.readBinFile path).toList
    let content := match Utf8.decode? bytes with
      | some text => Content.text text
      | none => .binary bytes.length
    return some (.file content (← isWritable path))
  catch
    | .inappropriateType _ 21 _ => return some .directory
    | _ => return none

def lookAt (disk : FileTree) (place : Place) : IO FileTree := do
  match ← entryAt? (String.ofList ('/' :: ['/'].intercalate place)) with
  | some .directory => return disk.makeDirectory place
  | some (.file content writable) => return disk.write place content writable
  | none => return disk.erase place

/-- Looks at what a path leads to, and at the directories on the way to it. -/
def look (disk : FileTree) (path : Text) : IO FileTree :=
  let place := (path.splitOn '/').filter fun name => name ≠ [] && name ≠ ['.']
  (FileTree.parents place ++ [place]).foldlM lookAt disk

/-- Looks again at everything that is known, and at the files that a message names. -/
def lookAround (disk : FileTree) (m : Message) : IO FileTree := do
  let disk ← (disk.entries.map (·.1)).foldlM lookAt disk
  m.mentions.foldlM look disk

/-! ## Talking to a client -/

def flush (socket : TCP.Socket.Client) (s : Session) : IO Session := do
  let outbox : Outbox := { waiting := s.client.sent }
  let bytes := outbox.drain.written
  unless bytes.isEmpty do
    (socket.send (ByteArray.mk bytes.toArray)).block
  return { s with
    client := { s.client with sent := [] }
    workspace := { s.workspace with calls := [] } }

/-- Receives the next message, and gives it with the bytes behind it. There is none at the end and
after an error. -/
partial def receive (socket : TCP.Socket.Client) (bytes : Bytes) :
    IO (Option (Message × Bytes)) := do
  match Framing.read bytes with
  | .ok (some found) => return some found
  | .error e => if e.isUnfinished then more else return none
  | .ok none => more
where
  /-- Waits for more bytes. -/
  more : IO (Option (Message × Bytes)) := do
    match ← (socket.recv? 65536).block with
    | some chunk => receive socket (bytes ++ chunk.toList)
    | none => return none

/-- Handles messages until the session ends. -/
partial def converse (socket : TCP.Socket.Client) (s : Session) (bytes : Bytes) : IO Session := do
  match ← receive socket bytes with
  | none => return s
  | some (m, rest) =>
    let disk ← lookAround s.workspace.disk m
    let (ending, s) := { s with workspace := { s.workspace with disk } }.handle m
    let s ← flush socket s.workOff
    if ending.isSome then return s else converse socket s rest

def attend (socket : TCP.Socket.Client) (s : Session) : IO Session := do
  let s ← try converse socket s [] catch _ => pure s
  let s := s.finish
  try
    let s ← flush socket s
    socket.shutdown.block
    return s
  catch _ => return s

/-- Serves clients until the service ends. -/
partial def attendAll (server : TCP.Socket.Server) (service : Service) : IO Unit := do
  if service.lifecycle = .accepting then
    let socket ← server.accept.block
    attendAll server (service.leave (← attend socket service.session))

/-! ## Listening -/

def socketAddress? (host : IpAddress) (port : Nat) : Option SocketAddress :=
  let text := String.ofList host.text
  match host with
  | .v4 _ => (IPv4Addr.ofString text).map fun addr => .v4 ⟨addr, port.toUInt16⟩
  | .v6 _ => (IPv6Addr.ofString text).map fun addr => .v6 ⟨addr, port.toUInt16⟩

def portOf : SocketAddress → Nat
  | .v4 a => a.port.toNat
  | .v6 a => a.port.toNat

/-- Why listening failed. -/
def bindFlaw : IO.Error → BindFlaw
  | .resourceBusy .. => .inUse
  | .permissionDenied .. => .forbidden
  | e => .other (toString e).toList

/-- Opens the socket of the server, and tells its port. -/
def listen (s : ServerSettings) : IO (Except StartupError (TCP.Socket.Server × Nat)) := do
  match socketAddress? s.host s.port with
  | none => return .error (.cannotBind s.address .unavailable)
  | some address =>
    try
      let server ← TCP.Socket.Server.mk
      server.bind address
      server.listen 128
      return .ok (server, portOf (← server.getSockName))
    catch e => return .error (.cannotBind s.address (bindFlaw e))

/-- Ends the program. -/
def leave (exit : Exit) : IO UInt32 := do
  (← IO.getStdout).putStr (String.ofList exit.output)
  (← IO.getStderr).putStr (String.ofList exit.errors)
  return exit.code.toUInt32

def serve (startup : Startup) : IO UInt32 := do
  match ← listen startup.server with
  | .error e => leave (.ofError e)
  | .ok (server, port) =>
    let stdout ← IO.getStdout
    stdout.putStrLn (String.ofList ("listening on ".toList ++ startup.server.host.withPort port))
    stdout.flush
    let service : Service := {
      keepListening := startup.server.keepListening
      symbolLimit := startup.server.symbolLimit
      workspace := { libraries := startup.libraries } }
    attendAll server service.await
    return 0

def run (arguments : List Text) : IO UInt32 := do
  let directory := (toString (← IO.currentDir)).toList
  let disk ← (Startup.paths {} directory arguments).foldlM look {}
  let disk ← (Startup.paths disk directory arguments).foldlM look disk
  match Startup.run disk directory arguments with
  | .error exit => leave exit
  | .ok startup =>
    if let some path := startup.logFile then
      IO.FS.writeFile (String.ofList (FileSettings.absolute directory path)) ""
    serve startup

end LanguageServer.Main

/-- Starts the server. -/
def main (arguments : List String) : IO UInt32 :=
  LanguageServer.Main.run (arguments.map String.toList)
