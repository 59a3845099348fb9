import LanguageServer.Protocol.JsonText
import LanguageServer.Protocol.Message
import LanguageServer.Text.Utf8

/-!
# Messages as bytes

On the wire a message is a header, an empty line and a body. The header tells how many bytes the
body has, and the body is the message in JSON. Readers return the bytes behind what they have read,
and those are always fewer, so that a whole stream is read message by message.
-/

namespace LanguageServer

/-- Bytes in the order in which they are sent. -/
abbrev Bytes := List UInt8

/-- Why bytes cannot be read as a message. -/
inductive FrameError
  | unfinishedLine
  | brokenLine
  | notText
  | noSeparator
  | badLength
  | noLength
  | shortBody
  | notAMessage
deriving DecidableEq, Repr

/-- Whether more bytes could still make a message. -/
def FrameError.isUnfinished : FrameError → Bool
  | unfinishedLine | shortBody => true
  | _ => false

namespace Framing

/-! ## Writing -/

/-- The body of a message: its JSON with the version of the protocol in front. -/
def body (m : Message) : Text :=
  (Json.obj (("jsonrpc", .ofString "2.0") :: (m.toJson.fields?).getD [])).render

/-- The header of a body with a number of bytes. -/
def header (size : Nat) : Text :=
  "Content-Length: ".toList ++ (toString size).toList ++ "\r\n\r\n".toList

def encode (m : Message) : Bytes :=
  let content := Utf8.encode (body m)
  Utf8.encode (header content.length) ++ content

def encodeAll (ms : List Message) : Bytes := ms.flatMap encode

/-! ## Reading a header -/

/-- Reads a line up to its carriage return and line feed. There is none at the end of the bytes. -/
def readLine (bytes : Bytes) : Except FrameError (Option (Text × Bytes)) :=
  match bytes.dropWhile (· ≠ 0x0A) with
  | [] => if bytes.isEmpty then .ok none else .error .unfinishedLine
  | _ :: rest =>
    match Utf8.decode? (bytes.takeWhile (· ≠ 0x0A)) with
    | none => .error .notText
    | some line =>
      if line.getLast? = some '\r' then .ok (some (line.dropLast, rest)) else .error .brokenLine

theorem length_lt_of_readLine {bytes rest : Bytes} {line : Text}
    (h : readLine bytes = .ok (some (line, rest))) : rest.length < bytes.length := by
  have hle := (List.dropWhile_suffix (l := bytes) (· ≠ 0x0A)).length_le
  unfold readLine at h
  split at h
  · split at h <;> cases h
  · rename_i heq
    rw [heq, List.length_cons] at hle
    split at h
    · cases h
    · split at h
      · cases h; omega
      · cases h

/-- A number of bytes as it stands in a header: decimal digits, with a plus sign in front or not,
that fit into 64 bits. -/
def size? (value : Text) : Option Nat :=
  let digits := (Text.dropHead? value ['+']).getD value
  if digits.isEmpty || !digits.all Char.isDigit then none
  else
    let n := Json.digitsValue digits
    if n ≤ 18446744073709551615 then some n else none

/-- What stands between the name of a header line and its value. -/
def separator : Text := [':', ' ']

/-- Takes a line of a header. The length that is told last counts, and other lines tell nothing. -/
def takeLine (size : Option Nat) (line : Text) : Except FrameError (Option Nat) :=
  match Text.indexOf? separator line with
  | none => .error .noSeparator
  | some i =>
    if (line.take i).map Char.toLower = "content-length".toList then
      match size? (line.drop (i + separator.length)) with
      | some n => .ok (some n)
      | none => .error .badLength
    else .ok size

/-- Reads the lines of a header up to the empty one, and the number of bytes that they tell. -/
def readHeader (size : Option Nat) (bytes : Bytes) : Except FrameError (Option (Nat × Bytes)) :=
  match _h : readLine bytes with
  | .error e => .error e
  | .ok none => .ok none
  | .ok (some ([], rest)) =>
    match size with
    | some n => .ok (some (n, rest))
    | none => .error .noLength
  | .ok (some (line, rest)) =>
    match takeLine size line with
    | .error e => .error e
    | .ok size => readHeader size rest
termination_by bytes.length
decreasing_by exact length_lt_of_readLine ‹_›

theorem length_lt_of_readHeader {size : Option Nat} {bytes rest : Bytes} {n : Nat}
    (h : readHeader size bytes = .ok (some (n, rest))) : rest.length < bytes.length := by
  fun_induction readHeader size bytes with
  | case1 => cases h
  | case2 => cases h
  | case3 => cases h; exact length_lt_of_readLine ‹readLine _ = _›
  | case4 => cases h
  | case5 => cases h
  | case6 =>
    rename_i ih
    exact Nat.lt_trans (ih h) (length_lt_of_readLine ‹readLine _ = _›)

/-! ## Reading messages -/

/-- How deep the values of a message may be nested. -/
def depth : Nat := 128

def readBody (content : Bytes) : Except FrameError Message :=
  match Utf8.decode? content with
  | none => .error .notText
  | some text =>
    match (Json.parse? depth text).bind Message.ofJson? with
    | none => .error .notAMessage
    | some m => .ok m

/-- Reads a message. There is none when the bytes end before a line of the header. -/
def read (bytes : Bytes) : Except FrameError (Option (Message × Bytes)) :=
  match readHeader none bytes with
  | .error e => .error e
  | .ok none => .ok none
  | .ok (some (size, rest)) =>
    if rest.length < size then .error .shortBody
    else (readBody (rest.take size)).map fun m => some (m, rest.drop size)

theorem length_lt_of_read {bytes rest : Bytes} {m : Message}
    (h : read bytes = .ok (some (m, rest))) : rest.length < bytes.length := by
  unfold read at h
  split at h
  · cases h
  · cases h
  · rename_i hheader
    have hlt := length_lt_of_readHeader hheader
    split at h
    · cases h
    · rename_i size behind _
      cases hbody : readBody (behind.take size) with
      | error e => rw [hbody] at h; cases h
      | ok m' =>
        rw [hbody] at h
        cases h
        rw [List.length_drop]
        omega

/-- Whether a message is the notification `exit`. -/
def isExit : Message → Bool
  | .notification n => n.method = "exit".toList
  | _ => false

/-- The messages of a stream up to the first `exit`, and what stopped the reading if it was an
error. -/
def readAll (bytes : Bytes) : List Message × Option FrameError :=
  match _h : read bytes with
  | .error e => ([], some e)
  | .ok none => ([], none)
  | .ok (some (m, rest)) =>
    if isExit m then ([m], none)
    else
      let (ms, e) := readAll rest
      (m :: ms, e)
termination_by bytes.length
decreasing_by exact length_lt_of_read ‹_›

end Framing

end LanguageServer
