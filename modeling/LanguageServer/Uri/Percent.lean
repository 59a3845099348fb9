import LanguageServer.Text.Utf8

/-!
# Percent escapes

A percent sign followed by two hexadecimal digits stands for a byte. Decoding turns all such escapes
into bytes and reads the result as UTF-8; a percent sign without two digits stands for itself.
-/

namespace LanguageServer.Percent

/-- Value of a hexadecimal digit of either case. -/
def hexValue? (c : Char) : Option Nat :=
  if '0' ≤ c && c ≤ '9' then some (c.toNat - 48)
  else if 'a' ≤ c && c ≤ 'f' then some (c.toNat - 87)
  else if 'A' ≤ c && c ≤ 'F' then some (c.toNat - 55)
  else none

/-- The byte that a percent sign followed by these two characters stands for. -/
def escaped? (high low : Char) : Option UInt8 :=
  match hexValue? high, hexValue? low with
  | some h, some l => some (UInt8.ofNat (h * 16 + l))
  | _, _ => none

/-- The loop of `decodeBytes`; `out` holds the bytes so far, last first. -/
def decodeBytesFrom (out : List UInt8) : Text → List UInt8
  | [] => out.reverse
  | '%' :: high :: low :: rest =>
    match escaped? high low with
    | some b => decodeBytesFrom (b :: out) rest
    | none => decodeBytesFrom (37 :: out) (high :: low :: rest)
  | c :: rest => decodeBytesFrom ((Utf8.encodeChar c).reverse ++ out) rest

/-- The bytes that a text with escapes stands for. -/
def decodeBytes (t : Text) : List UInt8 := decodeBytesFrom [] t

/-- The text that a text with escapes stands for. -/
def decode (t : Text) : Text := Utf8.decodeLossy (decodeBytes t)

def hexDigit (n : Nat) : Char := if n < 10 then Char.ofNat (48 + n) else Char.ofNat (55 + n)

def escapeByte (b : UInt8) : Text := ['%', hexDigit (b.toNat / 16), hexDigit (b.toNat % 16)]

/-- Escapes every byte of the characters that satisfy `p`. -/
def encode (p : Char → Bool) (t : Text) : Text :=
  t.flatMap fun c => if p c then (Utf8.encodeChar c).flatMap escapeByte else [c]

end LanguageServer.Percent
