import DialectBridge.Json.Basic

/-!
# Records in JSON

A record has named fields in a fixed order.  It is written as an object, in which other fields do
not matter, or as an array of the values in order.  In an array every field has to be there, apart
from trailing ones that have a default.
-/

namespace DialectBridge.Json

/-- The fields of a record, by name. -/
abbrev Fields := String → Option Json

/-- The fields of a written record; the last `defaulted` of its names may be left out of an
array. -/
def fields? (names : List String) (defaulted : Nat) : Json → Option Fields
  | .obj fields => some fun name => (Json.obj fields).get? name
  | .arr items =>
    if items.length ≤ names.length ∧ names.length ≤ items.length + defaulted then
      some fun name => ((names.zip items).find? fun field => field.1 = name).map (·.2)
    else none
  | _ => none

namespace Fields

/-- A field that has to be there. -/
def required {α : Type} (fields : Fields) (name : String) (read : Json → Option α) : Option α :=
  (fields name).bind read

/-- A field that may be absent or `null`. -/
def optional {α : Type} (fields : Fields) (name : String) (read : Json → Option α) :
    Option (Option α) :=
  match fields name with
  | none => some none
  | some .null => some none
  | some j => (read j).map some

/-- A field with a default, which only stands for an absent field. -/
def defaulting {α : Type} (fields : Fields) (name : String) (default : α)
    (read : Json → Option α) : Option α :=
  match fields name with
  | none => some default
  | some j => read j

end Fields

/-- Reads every item of an array. -/
def listOf? {α : Type} (read : Json → Option α) : Json → Option (List α)
  | .arr items => items.mapM read
  | _ => none

end DialectBridge.Json
