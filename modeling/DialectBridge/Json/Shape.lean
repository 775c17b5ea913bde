import DialectBridge.Json.Record

/-!
# Shapes of JSON values

A shape accepts some values and brings them to a normal form, in which fields that a record does not
know and optional fields without a value are gone.
-/

namespace DialectBridge.Json

/-- Accepts a value and gives its normal form, or refuses it. -/
abbrev Shape := Json → Option Json

namespace Shape

/-- Any value. -/
def any : Shape := some

/-- A string. -/
def string : Shape
  | .str s => some (.str s)
  | _ => none

/-- One of some words: a string, or an object whose one field has the word for a name and holds
`null`. -/
def word (words : List String) : Shape
  | .str s => if words.contains s then some (.str s) else none
  | .obj [(s, .null)] => if words.contains s then some (.str s) else none
  | _ => none

/-- A truth value. -/
def bool : Shape
  | .bool b => some (.bool b)
  | _ => none

/-- A signed integer of 32 bits. -/
def int32 : Shape
  | .int n =>
    if Int32.minValue.toInt ≤ n ∧ n ≤ Int32.maxValue.toInt then some (.int n) else none
  | _ => none

/-- A list of values of one shape. -/
def list (item : Shape) : Shape
  | .arr items => (items.mapM item).map .arr
  | _ => none

/-- The first shape that accepts the value. -/
def firstOf (shapes : List Shape) : Shape := fun j =>
  shapes.findSome? fun shape => shape j

/-- A field of a record. -/
structure Field where
  name : String
  required : Bool
  shape : Shape

/-- A field that has to be there. -/
def field (name : String) (shape : Shape) : Field :=
  ⟨name, true, shape⟩

/-- A field that may be absent or `null`. -/
def option (name : String) (shape : Shape) : Field :=
  ⟨name, false, shape⟩

/-- The normal form of a field: nothing for an optional field without a value. -/
def Field.read? (f : Field) (fields : Fields) : Option (Option (String × Json)) :=
  if f.required then (fields.required f.name f.shape).map fun value => some (f.name, value)
  else (fields.optional f.name f.shape).map fun value => value.map fun j => (f.name, j)

/-- The normal forms of the fields of a record. -/
def fieldsOf? (known : List Field) (j : Json) : Option (List (String × Json)) := do
  let fields ← j.fields? (known.map Field.name) 0
  let values ← known.mapM fun f => f.read? fields
  return values.filterMap id

/-- A record with the given fields. -/
def record (known : List Field) : Shape := fun j =>
  (fieldsOf? known j).map object

end Shape

end DialectBridge.Json
