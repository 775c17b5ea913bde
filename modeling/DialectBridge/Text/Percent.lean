import DialectBridge.Text.Utf8

/-!
# Percent escapes

Letters, digits and `-_.~` stand for themselves; every other byte of the UTF-8 form is written as a
percent sign and two hexadecimal digits.  Decoding leaves a percent sign without two such digits
alone, and fails only if the bytes are no UTF-8.
-/

namespace DialectBridge.Text.Percent

/-- The characters that need no escape, by their byte. -/
def isPlain (b : UInt8) : Bool :=
  ('A'.toNat ≤ b.toNat && b.toNat ≤ 'Z'.toNat) || ('a'.toNat ≤ b.toNat && b.toNat ≤ 'z'.toNat) ||
  ('0'.toNat ≤ b.toNat && b.toNat ≤ '9'.toNat) ||
  b.toNat = '-'.toNat || b.toNat = '_'.toNat || b.toNat = '.'.toNat || b.toNat = '~'.toNat

/-- An upper-case hexadecimal digit. -/
def hexDigit (n : Nat) : Char :=
  if n < 10 then Char.ofNat ('0'.toNat + n) else Char.ofNat ('A'.toNat + (n - 10))

/-- The value of a hexadecimal digit of either case. -/
def hexValue? (b : UInt8) : Option Nat :=
  let n := b.toNat
  if '0'.toNat ≤ n ∧ n ≤ '9'.toNat then some (n - '0'.toNat)
  else if 'a'.toNat ≤ n ∧ n ≤ 'f'.toNat then some (n - 'a'.toNat + 10)
  else if 'A'.toNat ≤ n ∧ n ≤ 'F'.toNat then some (n - 'A'.toNat + 10)
  else none

/-- One byte, escaped if need be. -/
def encodeByte (b : UInt8) : List Char :=
  if isPlain b then [Char.ofNat b.toNat]
  else ['%', hexDigit (b.toNat / 16), hexDigit (b.toNat % 16)]

/-- Escapes a text. -/
def encode (cs : List Char) : List Char :=
  (Utf8.encode cs).flatMap encodeByte

/-- The byte of a percent sign. -/
def percentSign : UInt8 := 37

/-- Resolves the escapes of a byte string. -/
def decodeBytes : List UInt8 → List UInt8
  | b :: h :: l :: rest =>
    match hexValue? h, hexValue? l with
    | some high, some low =>
      if b = percentSign then UInt8.ofNat (16 * high + low) :: decodeBytes rest
      else b :: decodeBytes (h :: l :: rest)
    | _, _ => b :: decodeBytes (h :: l :: rest)
  | bs => bs

/-- Resolves the escapes of a text. -/
def decode? (cs : List Char) : Option (List Char) :=
  Utf8.decode? (decodeBytes (Utf8.encode cs))

end DialectBridge.Text.Percent
