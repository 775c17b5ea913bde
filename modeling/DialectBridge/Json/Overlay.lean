import DialectBridge.Json.Basic

/-!
# Laying one JSON value over another

Objects are merged field by field, at any depth; anything else replaces what is below it.
-/

namespace DialectBridge.Json

mutual

/-- `top` laid over `base`. -/
def overlay : (top base : Json) → Json
  | .obj fields, .obj base => .obj (overlayFields fields base)
  | top, _ => top

/-- The fields of `top` laid over those of `base`, one after the other. -/
def overlayFields : (top base : List (String × Json)) → List (String × Json)
  | [], base => base
  | (name, value) :: rest, base =>
    let merged :=
      match (Json.obj base).get? name with
      | some below => overlay value below
      | none => value
    overlayFields rest (insertField name merged base)

end

end DialectBridge.Json
