import DialectBridge.Json.Basic
import DialectBridge.Json.Token
import DialectBridge.Text.Utf8

/-!
# JSON documents

A document is the tree of a JSON text as it is written: fields in their order, repeated names
included.  `Tree.ofTokens?` builds it from tokens with an explicit stack.  Most readers want the
value of the whole tree (`Tree.value?`): all strings must have a value, fractions must not be too
large for a double-precision number, and containers may nest 127 deep.  A reader that needs only
some fields may look at the tree itself.

* `parse?` reads a text as a value, `parseBytes?` a byte string.
-/

namespace DialectBridge.Json

/-- A JSON text as it is written. -/
inductive Tree where
  | null
  | bool (value : Bool)
  | number (value : Numeral)
  | string (value : Option String)
  | array (items : List Tree)
  | object (fields : List (Option String × Tree))
  deriving Inhabited

/-- A container that is still open, its parts last one first. -/
inductive OpenNode where
  | array (items : List Tree)
  | object (fields : List (Option String × Tree)) (name : Option String)

/-- What may come next. -/
inductive Expected where
  | value
  | valueOrClose
  | nameOrClose
  | name
  | colon
  | commaOrClose
  | nothing (whole : Tree)

/-- The builder between two tokens: the open containers, innermost first. -/
structure Builder where
  stack : List OpenNode
  expected : Expected

namespace Builder

/-- A value is complete: it is the whole document or goes into the innermost container. -/
def complete (stack : List OpenNode) (t : Tree) : Builder :=
  match stack with
  | [] => ⟨[], .nothing t⟩
  | .array items :: outer => ⟨.array (t :: items) :: outer, .commaOrClose⟩
  | .object fields name :: outer => ⟨.object ((name, t) :: fields) none :: outer, .commaOrClose⟩

/-- Reads a token where a value is due. -/
def value? (stack : List OpenNode) : Token → Option Builder
  | .openArray => some ⟨.array [] :: stack, .valueOrClose⟩
  | .openObject => some ⟨.object [] none :: stack, .nameOrClose⟩
  | .null => some (complete stack .null)
  | .bool b => some (complete stack (.bool b))
  | .number n => some (complete stack (.number n))
  | .string s => some (complete stack (.string s))
  | _ => none

/-- Closes the innermost container. -/
def close? (stack : List OpenNode) : Token → Option Builder
  | .closeArray =>
    match stack with
    | .array items :: outer => some (complete outer (.array items.reverse))
    | _ => none
  | .closeObject =>
    match stack with
    | .object fields _ :: outer => some (complete outer (.object fields.reverse))
    | _ => none
  | _ => none

/-- Reads the name of a field. -/
def name? (stack : List OpenNode) : Token → Option Builder
  | .string s =>
    match stack with
    | .object fields _ :: outer => some ⟨.object fields s :: outer, .colon⟩
    | _ => none
  | _ => none

/-- Reads a comma inside a container. -/
def comma? (stack : List OpenNode) : Option Builder :=
  match stack with
  | .array items :: outer => some ⟨.array items :: outer, .value⟩
  | .object fields name :: outer => some ⟨.object fields name :: outer, .name⟩
  | [] => none

/-- Reads one token; `none` where no document goes on so. -/
def step (builder : Builder) (token : Token) : Option Builder :=
  match builder.expected with
  | .value => value? builder.stack token
  | .valueOrClose =>
    match token with
    | .closeArray => close? builder.stack token
    | _ => value? builder.stack token
  | .nameOrClose =>
    match token with
    | .closeObject => close? builder.stack token
    | _ => name? builder.stack token
  | .name => name? builder.stack token
  | .colon =>
    match token with
    | .colon => some ⟨builder.stack, .value⟩
    | _ => none
  | .commaOrClose =>
    match token with
    | .comma => comma? builder.stack
    | _ => close? builder.stack token
  | .nothing _ => none

end Builder

/-- Reads tokens as long as each of them is accepted. -/
def build? : Builder → List Token → Option Builder
  | builder, [] => some builder
  | builder, token :: rest =>
    match builder.step token with
    | some next => build? next rest
    | none => none

namespace Tree

/-- The document of a list of tokens. -/
def ofTokens? (tokens : List Token) : Option Tree :=
  match build? ⟨[], .value⟩ tokens with
  | some ⟨_, .nothing whole⟩ => some whole
  | _ => none

/-- The document of a text. -/
def parse? (cs : List Char) : Option Tree :=
  (tokens? cs).bind ofTokens?

end Tree

namespace Numeral

/-- The integer, if the number is written as one and fits 64 bits; a negative zero is none. -/
def int? (n : Numeral) : Option Int :=
  if !n.plain then none
  else if n.negative then
    let value : Int := -n.digits
    if n.digits ≠ 0 ∧ Int64.minValue.toInt ≤ value then some value else none
  else if n.digits < UInt64.size then some n.digits else none

/-- The decimal fraction. -/
def decimal (n : Numeral) : Decimal :=
  let power : Int := if n.exponentNegative then -(n.exponent : Int) else n.exponent
  ⟨n.negative, n.digits, power - n.scale⟩

/-- The least number that is too large for double precision. -/
def overflow : Nat :=
  1 <<< 1024 - 1 <<< 970

/-- The fraction rounds to a finite double-precision number.  Only a fraction of about 310 digits
before its point needs the exact comparison. -/
def finite (d : Decimal) : Bool :=
  let magnitude : Int := (Nat.toDigits 10 d.digits).length + d.exponent
  if d.digits = 0 || magnitude < 300 then true
  else if 310 < magnitude then false
  else if 0 ≤ d.exponent then d.digits * Nat.pow 10 d.exponent.toNat < overflow
  else d.digits < overflow * Nat.pow 10 (-d.exponent).toNat

/-- The value of a number. -/
def value? (n : Numeral) : Option Json :=
  match n.int? with
  | some i => some (.int i)
  | none => if finite n.decimal then some (.real n.decimal) else none

end Numeral

mutual

/-- The value of a document whose containers nest at most `depth` deep. -/
def Tree.value? (depth : Nat) : Tree → Option Json
  | .null => some .null
  | .bool b => some (.bool b)
  | .number n => n.value?
  | .string s => s.map .str
  | .array items =>
    match depth with
    | 0 => none
    | depth + 1 => (valuesOf? depth items).map .arr
  | .object fields =>
    match depth with
    | 0 => none
    | depth + 1 => (fieldsOf? depth fields).map Json.object

/-- The values of a list of documents. -/
def valuesOf? (depth : Nat) : List Tree → Option (List Json)
  | [] => some []
  | t :: rest =>
    match t.value? depth with
    | none => none
    | some j => (valuesOf? depth rest).map (j :: ·)

/-- The values of a list of fields. -/
def fieldsOf? (depth : Nat) : List (Option String × Tree) → Option (List (String × Json))
  | [] => some []
  | (name, t) :: rest =>
    match name, t.value? depth with
    | some name, some j => (fieldsOf? depth rest).map ((name, j) :: ·)
    | _, _ => none

end

/-- How deep containers may nest. -/
def maxDepth : Nat := 127

/-- The value of a text. -/
def parse? (cs : List Char) : Option Json :=
  (Tree.parse? cs).bind (Tree.value? maxDepth)

/-- The value of a byte string in UTF-8. -/
def parseBytes? (bs : List UInt8) : Option Json :=
  (Text.Utf8.decode? bs).bind parse?

end DialectBridge.Json
