import LanguageServer.Text.Basic

/-!
# UTF-8

Reading characters from bytes. A sequence that is not UTF-8 is refused by `decode?`. `decodeLossy`
reads every byte sequence and puts one replacement character for each longest beginning of a
character that is not completed, and for each byte that starts none.
-/

namespace LanguageServer.Utf8

def encodeChar (c : Char) : List UInt8 := String.utf8EncodeChar c

def encode (t : Text) : List UInt8 := t.flatMap encodeChar

/-- What a first byte announces: how many bytes follow, the bounds of the byte after it, and its own
share of the code point. -/
def lead? (b : Nat) : Option (Nat × Nat × Nat × Nat) :=
  if b < 0x80 then some (0, 0x80, 0xBF, b)
  else if b < 0xC2 then none
  else if b < 0xE0 then some (1, 0x80, 0xBF, b % 0x20)
  else if b = 0xE0 then some (2, 0xA0, 0xBF, 0)
  else if b = 0xED then some (2, 0x80, 0x9F, 0xD)
  else if b < 0xF0 then some (2, 0x80, 0xBF, b % 0x10)
  else if b = 0xF0 then some (3, 0x90, 0xBF, 0)
  else if b < 0xF4 then some (3, 0x80, 0xBF, b % 8)
  else if b = 0xF4 then some (3, 0x80, 0x8F, 4)
  else none

/-- A character that is being read: the bytes still owed, the bounds of the next one, and the code
point so far. -/
structure Partial where
  owed : Nat
  low : Nat
  high : Nat
  code : Nat

/-- The character put in place of bytes that are not UTF-8. -/
def replacement : Char := '\ufffd'

/-- Reads one byte between characters; `out` holds the characters read so far, last first. -/
def start (out : Text) (b : Nat) : Text × Option Partial :=
  match lead? b with
  | none => (replacement :: out, none)
  | some (0, _, _, code) => (Char.ofNat code :: out, none)
  | some (owed, low, high, code) => (out, some ⟨owed, low, high, code⟩)

/-- Reads one byte. -/
def step : Text × Option Partial → UInt8 → Text × Option Partial
  | (out, none), b => start out b.toNat
  | (out, some p), b =>
    if p.low ≤ b.toNat && b.toNat ≤ p.high then
      let code := p.code * 0x40 + b.toNat % 0x40
      if p.owed ≤ 1 then (Char.ofNat code :: out, none)
      else (out, some ⟨p.owed - 1, 0x80, 0xBF, code⟩)
    else start (replacement :: out) b.toNat

/-- The text of any bytes, with replacement characters for what is not UTF-8. -/
def decodeLossy (bytes : List UInt8) : Text :=
  match bytes.foldl step ([], none) with
  | (out, none) => out.reverse
  | (out, some _) => (replacement :: out).reverse

/-- The text whose UTF-8 form the bytes are. -/
def decode? (bytes : List UInt8) : Option Text :=
  let t := decodeLossy bytes
  if encode t = bytes then some t else none

end LanguageServer.Utf8
