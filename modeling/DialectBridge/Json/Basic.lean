/-!
# JSON values

A number is an integer when it is written without point and exponent and fits 64 bits, signed or
unsigned; every other number is a decimal fraction.  The fields of an object are kept sorted by
name, each name once: `Json.object` brings a list of fields into that form, a later field of a
name replacing an earlier one.
-/

namespace DialectBridge

/-- A decimal fraction: `digits · 10 ^ exponent`, with a sign of its own so that a negative zero
keeps it. -/
structure Decimal where
  negative : Bool
  digits : Nat
  exponent : Int
  deriving DecidableEq, Repr, Inhabited

/-- A JSON value. -/
inductive Json where
  | null
  | bool (value : Bool)
  | int (value : Int)
  | real (value : Decimal)
  | str (value : String)
  | arr (items : List Json)
  | obj (fields : List (String × Json))
  deriving Inhabited

namespace Json

/-- Puts a field at its place among sorted fields, replacing a field of the same name. -/
def insertField (name : String) (value : Json) : List (String × Json) → List (String × Json)
  | [] => [(name, value)]
  | field :: rest =>
    if name = field.1 then (name, value) :: rest
    else if name < field.1 then (name, value) :: field :: rest
    else field :: insertField name value rest

/-- The object with the given fields; of several fields of one name the last one counts. -/
def object (fields : List (String × Json)) : Json :=
  .obj (fields.foldl (fun sorted field => insertField field.1 field.2 sorted) [])

/-- The value of a named field; a value that is no object has none. -/
def get? (name : String) : Json → Option Json
  | .obj fields => (fields.find? fun field => field.1 = name).map (·.2)
  | _ => none

/-- The value of a named field, where `null` counts as absent. -/
def present? (name : String) (j : Json) : Option Json :=
  match j.get? name with
  | some .null => none
  | value => value

/-- The text of a string. -/
def asString? : Json → Option String
  | .str s => some s
  | _ => none

/-- The integer below `bound` and not negative. -/
def asNat? (bound : Nat) : Json → Option Nat
  | .int n => if 0 ≤ n ∧ n < bound then some n.toNat else none
  | _ => none

/-- A 32-bit unsigned integer. -/
def asUInt32? (j : Json) : Option UInt32 :=
  (j.asNat? UInt32.size).map UInt32.ofNat

/-- A 64-bit signed integer. -/
def asInt64? : Json → Option Int
  | .int n => if Int64.minValue.toInt ≤ n ∧ n ≤ Int64.maxValue.toInt then some n else none
  | _ => none

/-- A truth value. -/
def asBool? : Json → Option Bool
  | .bool b => some b
  | _ => none

/-- The value is `null`. -/
def isNull : Json → Bool
  | .null => true
  | _ => false

/-- A number of any size as a value. -/
def nat (n : Nat) : Json :=
  .int n

/-- A 32-bit number as a value. -/
def word (n : UInt32) : Json :=
  .int n.toNat

/-- A value that may be absent, `null` when it is. -/
def orNull : Option Json → Json
  | some j => j
  | none => .null

end Json

end DialectBridge
