import DialectBridge.SourceMap.Basic
import DialectBridge.Text.Position

/-!
# Moving positions through a source map

Host lines without mappings borrow the mapping of a neighbour at most two lines away, the one below
before the one above (`nearest`).  Ranges are moved as whole lines (`toDialect`).  The way back asks
for an exact match (`toHost?`).
-/

namespace DialectBridge

/-- No line near a host line has a mapping. -/
structure MappingMiss where
  line : UInt32
  deriving DecidableEq, Repr

/-- How far away a mapping may be borrowed from. -/
def SourceMap.neighbourhood : Nat := 2

/-- The wording of a miss. -/
def MappingMiss.message (miss : MappingMiss) : String :=
  s!"no source mapping within {SourceMap.neighbourhood} lines of host line {miss.line}"

namespace SourceMap

/-- The lines at distance `d` from `n`, the one below first. -/
def atDistance (n d : Nat) : List Nat :=
  if d = 0 then [n] else (n + d) :: if d ≤ n then [n - d] else []

/-- The lines to look at, nearest first; line numbers have 32 bits. -/
def neighbours (n : UInt32) : List Nat :=
  ((List.range (neighbourhood + 1)).flatMap (atDistance n.toNat)).filter fun k => k < UInt32.size

/-- The first mapping of the nearest host line that has any. -/
def nearest (m : SourceMap) (n : UInt32) : Except MappingMiss ColumnMapping :=
  match (neighbours n).findSome? m.first? with
  | some mapping => .ok mapping
  | none => .error ⟨n⟩

/-- The dialect lines a host range comes from, from the start of the first to the end of the last
one; `text` is the dialect text. -/
def toDialect (m : SourceMap) (host : Range) (text : List Char) : Except MappingMiss Range := do
  let start ← m.nearest host.start.line
  let stop ← m.nearest host.stop.line
  let first := min start.dialectLine stop.dialectLine
  let last := max start.dialectLine stop.dialectLine
  return ⟨⟨first, 0⟩, ⟨last, UInt32.ofNat (Text.lineLength text last.toNat)⟩⟩

/-- The first host line with a mapping to exactly this dialect position. -/
def toHost? (m : SourceMap) (p : Position) : Option UInt32 :=
  (m.lines.findIdx? fun columns =>
    columns.any fun c => c.dialectLine = p.line && c.dialectColumn = p.character).map UInt32.ofNat

end SourceMap

end DialectBridge
