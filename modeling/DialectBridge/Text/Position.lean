import DialectBridge.Text.Lines

/-!
# Positions

A position is a line and a column of UTF-16 units, both 32-bit.  A range is a pair of positions.

* `byteOffset?` is the UTF-8 offset of a position: a column past the end of its line stands for
  the end of the line, a line past the end of the text has no offset;
* `byteSpan` is the span of a range, clamped to the text and never inverted.
-/

namespace DialectBridge

/-- A place in a text. -/
structure Position where
  line : UInt32
  character : UInt32
  deriving DecidableEq, Repr, Inhabited

/-- A stretch of a text. -/
structure Range where
  start : Position
  stop : Position
  deriving DecidableEq, Repr, Inhabited

/-- The range of whole line `line`, `length` columns long. -/
def Range.wholeLine (line length : UInt32) : Range :=
  ⟨⟨line, 0⟩, ⟨line, length⟩⟩

/-- The empty range at a position. -/
def Range.at (p : Position) : Range :=
  ⟨p, p⟩

namespace Text

/-- The walk behind `byteOffset?`, at a given line, column and byte.  Lines and columns are counted in
32 bits, like those of the position. -/
def offsetFrom (pos : Position) : List Char → UInt32 → UInt32 → Nat → Option Nat
  | [], line, _, byte => if line = pos.line then some byte else none
  | c :: cs, line, column, byte =>
    if line = pos.line ∧ pos.character ≤ column then some byte
    else if c = '\n' then
      if line = pos.line then some byte
      else offsetFrom pos cs (line + 1) 0 (byte + c.utf8Size)
    else offsetFrom pos cs line (column + UInt32.ofNat (units c)) (byte + c.utf8Size)

/-- The UTF-8 offset of a position. -/
def byteOffset? (cs : List Char) (pos : Position) : Option Nat :=
  offsetFrom pos cs 0 0 0

/-- The number of bytes of a text in UTF-8. -/
def utf8Length (cs : List Char) : Nat :=
  cs.foldr (fun c n => c.utf8Size + n) 0

/-- The offset of a position, and the end of the text for a line that does not exist. -/
def clampedOffset (cs : List Char) (pos : Position) : Nat :=
  (byteOffset? cs pos).getD (utf8Length cs)

/-- The byte span of a range; a range that ends before it starts is empty at its start. -/
def byteSpan (cs : List Char) (r : Range) : Nat × Nat :=
  (clampedOffset cs r.start, max (clampedOffset cs r.stop) (clampedOffset cs r.start))

end Text

end DialectBridge
