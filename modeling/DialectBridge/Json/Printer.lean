import DialectBridge.Json.Basic
import DialectBridge.Text.Utf8

/-!
# Writing JSON

Values are written without white space, fields in their stored order.  In a string only the
quotation mark, the backslash and the control characters below the space are escaped; every other
character stands for itself.  A decimal fraction is written with its own digits, positionally
while its point lies among or near them and with an exponent otherwise, and always so that it
reads back as a fraction.
-/

namespace DialectBridge.Json

/-- The lower-case hexadecimal digit of a number below sixteen. -/
def hexDigit (n : Nat) : Char :=
  if n < 10 then Char.ofNat ('0'.toNat + n) else Char.ofNat ('a'.toNat + (n - 10))

/-- A character of a string as it is written. -/
def escape (c : Char) : String :=
  match c with
  | '"' => "\\\""
  | '\\' => "\\\\"
  | '\x08' => "\\b"
  | '\x0c' => "\\f"
  | '\n' => "\\n"
  | '\r' => "\\r"
  | '\t' => "\\t"
  | c =>
    if c.toNat < 0x20 then
      String.ofList ['\\', 'u', '0', '0', hexDigit (c.toNat / 16), hexDigit (c.toNat % 16)]
    else c.toString

/-- A string between quotation marks, added to what is written already. -/
def writeString (out : String) (s : String) : String :=
  (s.toList.foldl (fun out c => out ++ escape c) (out.push '"')).push '"'

/-- Removes the zeros a number of digits ends in and counts them; at most `fuel` of them. -/
def stripZeros : Nat → Nat → Nat × Nat
  | 0, n => (n, 0)
  | fuel + 1, n =>
    if n % 10 = 0 ∧ n ≠ 0 then
      let (m, k) := stripZeros fuel (n / 10)
      (m, k + 1)
    else (n, 0)

/-- The digits of a decimal fraction without sign.  `point` is where the point stands, counted from
the first digit: between -4 and 16 the fraction is written positionally. -/
def writeDigits (digits : List Char) (point : Int) : String :=
  let n := digits.length
  if n ≤ point ∧ point ≤ 16 then
    String.ofList (digits ++ List.replicate (point.toNat - n) '0') ++ ".0"
  else if 0 < point ∧ point ≤ 16 then
    String.ofList (digits.take point.toNat ++ ['.'] ++ digits.drop point.toNat)
  else if -5 < point ∧ point ≤ 0 then
    "0." ++ String.ofList (List.replicate (-point).toNat '0' ++ digits)
  else
    let mantissa := match digits with
      | d :: e :: rest => String.ofList (d :: '.' :: e :: rest)
      | short => String.ofList short
    mantissa ++ "e" ++ toString (point - 1)

/-- A decimal fraction. -/
def writeDecimal (d : Decimal) : String :=
  let (digits, zeros) := stripZeros (Nat.toDigits 10 d.digits).length d.digits
  let text :=
    if digits = 0 then "0.0"
    else
      let shown := Nat.toDigits 10 digits
      writeDigits shown (shown.length + (d.exponent + zeros))
  if d.negative then "-" ++ text else text

mutual

/-- A value, added to what is written already. -/
def write (out : String) : Json → String
  | .null => out ++ "null"
  | .bool true => out ++ "true"
  | .bool false => out ++ "false"
  | .int n => out ++ toString n
  | .real d => out ++ writeDecimal d
  | .str s => writeString out s
  | .arr [] => out ++ "[]"
  | .arr (item :: rest) => (writeItems (write (out.push '[') item) rest).push ']'
  | .obj [] => out ++ "\x7b\x7d"
  | .obj ((name, value) :: rest) =>
    (writeFields (write ((writeString (out.push '\x7b') name).push ':') value) rest).push '\x7d'

/-- The items after the first one of an array. -/
def writeItems (out : String) : List Json → String
  | [] => out
  | item :: rest => writeItems (write (out.push ',') item) rest

/-- The fields after the first one of an object. -/
def writeFields (out : String) : List (String × Json) → String
  | [] => out
  | (name, value) :: rest =>
    writeFields (write ((writeString (out.push ',') name).push ':') value) rest

end

/-- The text of a value. -/
def render (j : Json) : String :=
  write "" j

/-- The text of a value in UTF-8. -/
def bytes (j : Json) : List UInt8 :=
  Text.Utf8.bytesOf j.render

end DialectBridge.Json
