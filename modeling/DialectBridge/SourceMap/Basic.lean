import DialectBridge.Text.Numeral

/-!
# Source maps

For every line of the host text a source map lists which host column comes from which place of the
dialect text.  Lines that the compiler makes up have no mappings.

* `fit` makes a map cover a given number of host lines;
* `render` is the readable table, one row for each host line.
-/

namespace DialectBridge

/-- One correspondence on a host line. -/
structure ColumnMapping where
  hostColumn : UInt32
  dialectLine : UInt32
  dialectColumn : UInt32
  deriving DecidableEq, Repr, Inhabited

/-- The mappings of each host line. -/
structure SourceMap where
  lines : List (List ColumnMapping)
  deriving DecidableEq, Repr, Inhabited

namespace SourceMap

/-- The mappings of one host line, if the map covers it. -/
def line? (m : SourceMap) (n : Nat) : Option (List ColumnMapping) :=
  m.lines[n]?

/-- The first mapping of a host line. -/
def first? (m : SourceMap) (n : Nat) : Option ColumnMapping :=
  (m.line? n).bind List.head?

/-- Cuts the map, or adds lines without mappings, so that it covers `count` host lines. -/
def fit (m : SourceMap) (count : Nat) : SourceMap :=
  ⟨m.lines.take count ++ List.replicate (count - m.lines.length) []⟩

/-- A mapping in the table. -/
def renderMapping (c : ColumnMapping) : String :=
  s!" {c.hostColumn}->{c.dialectLine}:{c.dialectColumn}"

/-- A row of the table. -/
def renderRow (number : Nat) (columns : List ColumnMapping) : String :=
  s!"{number}:" ++ String.join (columns.map renderMapping) ++ "\n"

/-- The readable table. -/
def render (m : SourceMap) : String :=
  String.join (m.lines.mapIdx renderRow)

/-- The map of a list of lines covers as many lines as asked for. -/
@[simp] theorem length_lines_fit (m : SourceMap) (count : Nat) :
    (m.fit count).lines.length = count := by
  simp only [fit, List.length_append, List.length_take, List.length_replicate]
  omega

end SourceMap

end DialectBridge
