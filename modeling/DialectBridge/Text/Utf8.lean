/-!
# UTF-8

A byte string is read as a sequence of items: well-formed characters, and one ill-formed item for
each longest run of bytes that starts a character but does not complete it.

* `items` is that reading;
* `decode?` succeeds when every item is a character;
* `decodeLossy` puts U+FFFD for each ill-formed item;
* `encode` writes a text.
-/

namespace DialectBridge.Text.Utf8

/-- The bytes of a text. -/
def encode (cs : List Char) : List UInt8 :=
  cs.flatMap String.utf8EncodeChar

/-- The bytes of a string. -/
def bytesOf (s : String) : List UInt8 :=
  encode s.toList

/-- A character that has been started: how many bytes it still needs, the bounds of the next one,
and the bits read so far. -/
structure Started where
  missing : Nat
  lower : UInt8
  upper : UInt8
  bits : Nat
  deriving DecidableEq, Repr

/-- The reader between two bytes: the items so far, last one first, and a started character. -/
structure Reader where
  items : List (Option Char)
  started : Option Started
  deriving DecidableEq, Repr

/-- What a byte begins. -/
def Reader.lead (items : List (Option Char)) (b : UInt8) : Reader :=
  if b < 0x80 then ⟨some (Char.ofNat b.toNat) :: items, none⟩
  else if b < 0xC2 then ⟨none :: items, none⟩
  else if b < 0xE0 then ⟨items, some ⟨1, 0x80, 0xBF, b.toNat % 32⟩⟩
  else if b = 0xE0 then ⟨items, some ⟨2, 0xA0, 0xBF, 0⟩⟩
  else if b = 0xED then ⟨items, some ⟨2, 0x80, 0x9F, 13⟩⟩
  else if b < 0xF0 then ⟨items, some ⟨2, 0x80, 0xBF, b.toNat % 16⟩⟩
  else if b = 0xF0 then ⟨items, some ⟨3, 0x90, 0xBF, 0⟩⟩
  else if b < 0xF4 then ⟨items, some ⟨3, 0x80, 0xBF, b.toNat % 8⟩⟩
  else if b = 0xF4 then ⟨items, some ⟨3, 0x80, 0x8F, 4⟩⟩
  else ⟨none :: items, none⟩

/-- Reads one byte.  A byte that cannot continue the started character ends it as ill-formed and is
then read as the beginning of the next one. -/
def Reader.step (r : Reader) (b : UInt8) : Reader :=
  match r.started with
  | none => .lead r.items b
  | some s =>
    if s.lower ≤ b ∧ b ≤ s.upper then
      let bits := 64 * s.bits + b.toNat % 64
      if s.missing ≤ 1 then ⟨some (Char.ofNat bits) :: r.items, none⟩
      else ⟨r.items, some ⟨s.missing - 1, 0x80, 0xBF, bits⟩⟩
    else .lead (none :: r.items) b

/-- The items once the bytes have ended. -/
def Reader.finish (r : Reader) : List (Option Char) :=
  (match r.started with
    | none => r.items
    | some _ => none :: r.items).reverse

/-- The items of a byte string; `none` is an ill-formed one. -/
def items (bs : List UInt8) : List (Option Char) :=
  (bs.foldl Reader.step ⟨[], none⟩).finish

/-- The text of a well-formed byte string. -/
def decode? (bs : List UInt8) : Option (List Char) :=
  (items bs).mapM id

/-- The text of any byte string, with U+FFFD for what is ill-formed. -/
def decodeLossy (bs : List UInt8) : List Char :=
  (items bs).map fun c => c.getD '�'

end DialectBridge.Text.Utf8
