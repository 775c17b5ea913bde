import DialectBridge.Text.Base64
import DialectBridge.Text.Utf8

/-!
# Variable-length quantities in base 64

A segment of a source map is a sequence of signed numbers.  Each number is a group of base-64
digits, least significant first: five bits a digit, the sixth bit set on every digit but the last
one of the group, the sign in the lowest bit of the whole.  The running value is a 64-bit word:
a group may use shifts up to 60, and what its last digit adds beyond the word is dropped.

* `decode` reads a segment, or says what is wrong with it first.
-/

namespace DialectBridge.SourceMap

/-- What can be wrong with the digits of a segment. -/
inductive DigitError where
  | badDigit (byte : UInt8)
  | overflow
  | unterminated
  deriving DecidableEq, Repr

namespace Vlq

/-- The value of a base-64 digit. -/
def digit? (b : UInt8) : Option Nat :=
  Text.Base64.digit? (Char.ofNat b.toNat)

/-- The largest shift a digit may have. -/
def maxShift : Nat := 60

/-- The part of a number that fits a signed 64-bit word. -/
def wrap (n : Int) : Int :=
  n.bmod UInt64.size

/-- The number a finished group stands for: its lowest bit is the sign, the rest the magnitude. -/
def signed (value : Int) : Int :=
  if value % 2 = 1 then -(value / 2) else value / 2

/-- The decoder between two digits: the finished fields, last one first, and the open group. -/
structure State where
  fields : List Int
  value : Int
  shift : Nat
  isOpen : Bool
  deriving DecidableEq, Repr

/-- The decoder before the first digit. -/
def State.start : State :=
  ⟨[], 0, 0, false⟩

/-- Reads one digit. -/
def step (s : State) (b : UInt8) : Except DigitError State :=
  match digit? b with
  | none => .error (.badDigit b)
  | some d =>
    if maxShift < s.shift then .error .overflow
    else
      let value := s.value + wrap ((d % 32) <<< s.shift : Nat)
      if 32 ≤ d then .ok ⟨s.fields, value, s.shift + 5, true⟩
      else .ok ⟨signed value :: s.fields, 0, 0, false⟩

/-- Reads all digits of a byte string. -/
def run : State → List UInt8 → Except DigitError State
  | s, [] => .ok s
  | s, b :: bs =>
    match step s b with
    | .ok next => run next bs
    | .error e => .error e

/-- The numbers of a segment. -/
def decode (segment : List Char) : Except DigitError (List Int) :=
  match run State.start (Text.Utf8.encode segment) with
  | .ok s => if s.isOpen then .error .unterminated else .ok s.fields.reverse
  | .error e => .error e

end Vlq

end DialectBridge.SourceMap
