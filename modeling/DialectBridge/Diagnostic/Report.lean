import DialectBridge.Diagnostic.Basic

/-!
# Diagnostic reports on the terminal

Each diagnostic is reported on its own: its message under a header, its origin as the label of its
span and, if the place can be found in the source, a location line with the file name and the line
and column, counted from one.  The span of the diagnostic is computed in bytes and looked up among
the characters of the source; lines are counted with their terminators, of which there are more kinds
than the line feed.

* `location?` finds a span, `render` makes the report of a diagnostic, `renderAll` those of all.
-/

namespace DialectBridge.Diagnostic

/-- A character that ends a line of a report's source. -/
def isTerminator (c : Char) : Bool :=
  c = '\n' || c = '\r' || c = '\x0b' || c = '\x0c' || c = '\x85' || c = '\u2028' || c = '\u2029'

/-- The lengths of the lines of a text, terminators included, after `length` characters of the
first one.  A carriage return and a line feed together are one terminator. -/
def lineLengthsFrom : Nat → List Char → List Nat
  | length, [] => if length = 0 then [] else [length]
  | length, '\r' :: '\n' :: rest => (length + 2) :: lineLengthsFrom 0 rest
  | length, c :: rest =>
    if isTerminator c then (length + 1) :: lineLengthsFrom 0 rest
    else lineLengthsFrom (length + 1) rest

/-- The lengths of the lines that have characters. -/
def lineLengths (source : List Char) : List Nat :=
  lineLengthsFrom 0 source

/-- Line and column of a character offset, from zero; the end of the text belongs to its last
line. -/
def place? (offset : Nat) : (line : Nat) → List Nat → Option (Nat × Nat)
  | _, [] => none
  | line, [length] => if offset ≤ length then some (line, offset) else none
  | line, length :: rest =>
    if offset < length then some (line, offset) else place? (offset - length) (line + 1) rest

/-- Line and column of a span, from one, if both its ends lie in the source. -/
def location? (source : List Char) (span : Nat × Nat) : Option (Nat × Nat) :=
  if span.1 < span.2 ∧ source.length < span.2 - 1 then none
  else (place? span.1 0 (lineLengths source)).map fun place => (place.1 + 1, place.2 + 1)

/-- The place of a diagnostic in the report. -/
def location (d : Diagnostic) (source : List Char) : Option (Nat × Nat) :=
  location? source (Text.byteSpan source d.range)

/-- The report of a diagnostic. -/
structure Report where
  filename : String
  message : String
  /-- What stands at the span: who reports the diagnostic. -/
  label : String
  span : Nat × Nat
  place : Option (Nat × Nat)
  deriving DecidableEq, Repr, Inhabited

/-- The location line of a report. -/
def locationLine (filename : String) (place : Nat × Nat) : String :=
  s!"╭─[{filename}:{place.1}:{place.2}]"

/-- The header of a report. -/
def Report.header (r : Report) : String :=
  "Error: " ++ r.message

/-- The lines of a report down to its location. -/
def Report.lines (r : Report) : List String :=
  (Text.split '\n' r.header.toList).map String.ofList ++
    (r.place.map (locationLine r.filename)).toList

/-- The report of a diagnostic of a file. -/
def render (d : Diagnostic) (filename : String) (source : List Char) : Report where
  filename := filename
  message := d.message
  label := d.origin.label
  span := Text.byteSpan source d.range
  place := d.location source

/-- The reports of all diagnostics of a file, in order. -/
def renderAll (diagnostics : List Diagnostic) (filename : String) (source : List Char) :
    List Report :=
  diagnostics.map fun d => d.render filename source

end DialectBridge.Diagnostic
