/-!
# Numerals

A numeral is an optional plus sign and one or more ASCII digits.  Leading zeros are allowed; a
value outside the expected width is not a numeral of that width.
-/

namespace DialectBridge.Text

/-- The value of a run of ASCII digits, read as base ten. -/
def digitsValue (cs : List Char) : Nat :=
  cs.foldl (fun n c => 10 * n + (c.toNat - '0'.toNat)) 0

/-- Reads a run of ASCII digits whose value is below `bound`. -/
def digits? (bound : Nat) (cs : List Char) : Option Nat :=
  if cs.isEmpty || !cs.all Char.isDigit then none
  else if digitsValue cs < bound then some (digitsValue cs) else none

/-- Reads an unsigned numeral below `bound`, with an optional plus sign. -/
def numeral? (bound : Nat) : List Char → Option Nat
  | '+' :: cs => digits? bound cs
  | cs => digits? bound cs

/-- The decimal digits of a number. -/
def decimal (n : Nat) : List Char :=
  Nat.toDigits 10 n

end DialectBridge.Text
