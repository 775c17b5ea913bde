import DialectBridge.Text.Numeral

/-!
# JSON tokens

The scanner reads a text one character at a time.  It is strict: no leading zeros, no control
characters inside strings, no white space but blank, tab, line feed and carriage return.  A string
whose escapes name half of a surrogate pair is still a token, but one without a value, so that a
reader that skips it need not care.

* `Scanner.step` reads one character, `tokens?` a whole text.
-/

namespace DialectBridge.Json

/-- A number as it is written. -/
structure Numeral where
  negative : Bool
  /-- All digits of the integer part and the fraction. -/
  digits : Nat
  /-- How many of the digits belong to the fraction. -/
  scale : Nat
  exponentNegative : Bool
  exponent : Nat
  /-- Neither a fraction nor an exponent is written. -/
  plain : Bool
  deriving DecidableEq, Repr, Inhabited

/-- The parts a JSON text is made of. -/
inductive Token where
  | openArray
  | closeArray
  | openObject
  | closeObject
  | comma
  | colon
  | null
  | bool (value : Bool)
  | number (value : Numeral)
  | string (value : Option String)
  deriving DecidableEq, Repr, Inhabited

/-- How far a number has been read. -/
inductive NumberPart where
  | sign
  | zero
  | integer
  | point
  | fraction
  | mark
  | markSign
  | power
  deriving DecidableEq, Repr

/-- A string being read: its characters, last one first, whether all its escapes had a value, and
the first half of a surrogate pair that still waits for the second. -/
structure OpenString where
  chars : List Char
  sound : Bool
  half : Option Nat
  deriving DecidableEq, Repr, Inhabited

/-- What the scanner is inside of. -/
inductive Inside where
  | nothing
  | word (rest : List Char) (token : Token)
  | number (part : NumberPart) (value : Numeral)
  | string (s : OpenString)
  | escape (s : OpenString)
  | code (s : OpenString) (count : Nat) (value : Nat)
  deriving Repr

/-- The scanner between two characters, with the tokens so far, last one first. -/
structure Scanner where
  tokens : List Token
  inside : Inside
  deriving Repr

namespace OpenString

/-- Adds a character; a waiting half of a pair can no longer be completed. -/
def add (s : OpenString) (c : Char) : OpenString :=
  ⟨c :: s.chars, s.sound && s.half.isNone, none⟩

/-- Adds a code unit given by an escape. -/
def addUnit (s : OpenString) (unit : Nat) : OpenString :=
  if 0xD800 ≤ unit ∧ unit < 0xDC00 then ⟨s.chars, s.sound && s.half.isNone, some unit⟩
  else if 0xDC00 ≤ unit ∧ unit < 0xE000 then
    match s.half with
    | some high =>
      ⟨Char.ofNat (0x10000 + (high - 0xD800) * 0x400 + (unit - 0xDC00)) :: s.chars, s.sound, none⟩
    | none => ⟨s.chars, false, none⟩
  else s.add (Char.ofNat unit)

/-- The token of a string that has ended. -/
def close (s : OpenString) : Token :=
  .string (if s.sound && s.half.isNone then some (String.ofList s.chars.reverse) else none)

end OpenString

/-- The value of a hexadecimal digit. -/
def hexValue? (c : Char) : Option Nat :=
  if '0' ≤ c ∧ c ≤ '9' then some (c.toNat - '0'.toNat)
  else if 'a' ≤ c ∧ c ≤ 'f' then some (c.toNat - 'a'.toNat + 10)
  else if 'A' ≤ c ∧ c ≤ 'F' then some (c.toNat - 'A'.toNat + 10)
  else none

/-- The value of a decimal digit. -/
def digitValue (c : Char) : Nat :=
  c.toNat - '0'.toNat

/-- The number after one more digit of the integer part. -/
def Numeral.addDigit (n : Numeral) (c : Char) : Numeral :=
  { n with digits := 10 * n.digits + digitValue c }

/-- The number after one more digit of the fraction. -/
def Numeral.addFraction (n : Numeral) (c : Char) : Numeral :=
  { n with digits := 10 * n.digits + digitValue c, scale := n.scale + 1 }

/-- The number after one more digit of the exponent. -/
def Numeral.addPower (n : Numeral) (c : Char) : Numeral :=
  { n with exponent := 10 * n.exponent + digitValue c }

/-- A number with nothing read. -/
def Numeral.start (negative : Bool) : Numeral :=
  ⟨negative, 0, 0, false, 0, true⟩

/-- A number may end after this part. -/
def NumberPart.complete : NumberPart → Bool
  | .zero | .integer | .fraction | .power => true
  | _ => false

/-- The character continues the number, as this part of it. -/
def continueNumber? (part : NumberPart) (n : Numeral) (c : Char) :
    Option (NumberPart × Numeral) :=
  match part with
  | .sign =>
    if c = '0' then some (.zero, n)
    else if c.isDigit then some (.integer, n.addDigit c)
    else none
  | .zero =>
    if c = '.' then some (.point, { n with plain := false })
    else if c = 'e' ∨ c = 'E' then some (.mark, { n with plain := false })
    else none
  | .integer =>
    if c.isDigit then some (.integer, n.addDigit c)
    else if c = '.' then some (.point, { n with plain := false })
    else if c = 'e' ∨ c = 'E' then some (.mark, { n with plain := false })
    else none
  | .point => if c.isDigit then some (.fraction, n.addFraction c) else none
  | .fraction =>
    if c.isDigit then some (.fraction, n.addFraction c)
    else if c = 'e' ∨ c = 'E' then some (.mark, n)
    else none
  | .mark =>
    if c = '+' then some (.markSign, n)
    else if c = '-' then some (.markSign, { n with exponentNegative := true })
    else if c.isDigit then some (.power, n.addPower c)
    else none
  | .markSign | .power => if c.isDigit then some (.power, n.addPower c) else none

namespace Scanner

/-- Reads a character outside of every token. -/
def begin? (tokens : List Token) (c : Char) : Option Scanner :=
  match c with
  | ' ' | '\t' | '\n' | '\r' => some ⟨tokens, .nothing⟩
  | '[' => some ⟨.openArray :: tokens, .nothing⟩
  | ']' => some ⟨.closeArray :: tokens, .nothing⟩
  | '\x7b' => some ⟨.openObject :: tokens, .nothing⟩
  | '\x7d' => some ⟨.closeObject :: tokens, .nothing⟩
  | ',' => some ⟨.comma :: tokens, .nothing⟩
  | ':' => some ⟨.colon :: tokens, .nothing⟩
  | 'n' => some ⟨tokens, .word ['u', 'l', 'l'] .null⟩
  | 't' => some ⟨tokens, .word ['r', 'u', 'e'] (.bool true)⟩
  | 'f' => some ⟨tokens, .word ['a', 'l', 's', 'e'] (.bool false)⟩
  | '"' => some ⟨tokens, .string ⟨[], true, none⟩⟩
  | '-' => some ⟨tokens, .number .sign (.start true)⟩
  | c =>
    (continueNumber? .sign (.start false) c).map fun next =>
      ⟨tokens, .number next.1 next.2⟩

/-- Reads the character after a backslash. -/
def escaped? (tokens : List Token) (s : OpenString) (c : Char) : Option Scanner :=
  match c with
  | '"' => some ⟨tokens, .string (s.add '"')⟩
  | '\\' => some ⟨tokens, .string (s.add '\\')⟩
  | '/' => some ⟨tokens, .string (s.add '/')⟩
  | 'b' => some ⟨tokens, .string (s.add '\x08')⟩
  | 'f' => some ⟨tokens, .string (s.add '\x0c')⟩
  | 'n' => some ⟨tokens, .string (s.add '\n')⟩
  | 'r' => some ⟨tokens, .string (s.add '\r')⟩
  | 't' => some ⟨tokens, .string (s.add '\t')⟩
  | 'u' => some ⟨tokens, .code s 0 0⟩
  | _ => none

/-- Reads one character; `none` where no JSON text goes on so. -/
def step (scanner : Scanner) (c : Char) : Option Scanner :=
  match scanner.inside with
  | .nothing => begin? scanner.tokens c
  | .word [] token => begin? (token :: scanner.tokens) c
  | .word [last] token => if c = last then some ⟨token :: scanner.tokens, .nothing⟩ else none
  | .word (next :: rest) token =>
    if c = next then some ⟨scanner.tokens, .word rest token⟩ else none
  | .number part n =>
    match continueNumber? part n c with
    | some next => some ⟨scanner.tokens, .number next.1 next.2⟩
    | none => if part.complete then begin? (.number n :: scanner.tokens) c else none
  | .string s =>
    if c = '"' then some ⟨s.close :: scanner.tokens, .nothing⟩
    else if c = '\\' then some ⟨scanner.tokens, .escape s⟩
    else if c.toNat < 0x20 then none
    else some ⟨scanner.tokens, .string (s.add c)⟩
  | .escape s => escaped? scanner.tokens s c
  | .code s count value =>
    match hexValue? c with
    | none => none
    | some digit =>
      let value := 16 * value + digit
      if count = 3 then some ⟨scanner.tokens, .string (s.addUnit value)⟩
      else some ⟨scanner.tokens, .code s (count + 1) value⟩

/-- The tokens of a text that has ended. -/
def finish? (scanner : Scanner) : Option (List Token) :=
  match scanner.inside with
  | .nothing => some scanner.tokens.reverse
  | .number part n =>
    if part.complete then some (.number n :: scanner.tokens).reverse else none
  | _ => none

end Scanner

/-- Reads characters as long as each of them is accepted. -/
def scan? : Scanner → List Char → Option Scanner
  | scanner, [] => some scanner
  | scanner, c :: cs =>
    match scanner.step c with
    | some next => scan? next cs
    | none => none

/-- The tokens of a text. -/
def tokens? (cs : List Char) : Option (List Token) :=
  (scan? ⟨[], .nothing⟩ cs).bind Scanner.finish?

end DialectBridge.Json
