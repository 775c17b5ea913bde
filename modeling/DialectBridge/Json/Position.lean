import DialectBridge.Json.Record
import DialectBridge.Text.Position

/-!
# Positions and ranges in JSON

The form in which editors and language servers exchange places in a text.
-/

namespace DialectBridge

/-- The JSON form of a position. -/
def Position.toJson (p : Position) : Json :=
  .object [("line", .word p.line), ("character", .word p.character)]

/-- Reads a position. -/
def Position.ofJson? (j : Json) : Option Position := do
  let fields ← j.fields? ["line", "character"] 0
  return ⟨← fields.required "line" Json.asUInt32?, ← fields.required "character" Json.asUInt32?⟩

/-- The JSON form of a range. -/
def Range.toJson (r : Range) : Json :=
  .object [("start", r.start.toJson), ("end", r.stop.toJson)]

/-- Reads a range. -/
def Range.ofJson? (j : Json) : Option Range := do
  let fields ← j.fields? ["start", "end"] 0
  return ⟨← fields.required "start" Position.ofJson?, ← fields.required "end" Position.ofJson?⟩

end DialectBridge
