import DialectBridge.Json.Tree
import DialectBridge.SourceMap.Basic
import DialectBridge.SourceMap.Vlq
import DialectBridge.Text.Lines

/-!
# Decoding version 3 source maps

The mappings of a version 3 document are text: semicolons separate host lines, commas separate
segments.  The first field of a segment moves the host column, which starts over on every line; the
third and fourth move the dialect line and column, which run on through the whole text.  A segment
of one field only moves the column.  The other two fields a segment may have (source and name) play
no part here.  Like the fields, the running sums are signed 64-bit words.

* `ofMappings` decodes the text, `ofDocument` the JSON document around it;
* the mappings of a line are sorted by host column, the first one written winning among equals.
-/

namespace DialectBridge.SourceMap

/-- Why a source map cannot be decoded. -/
inductive DecodeError where
  | badDigit (byte : UInt8)
  | overflow (segment : String)
  | unterminated (segment : String)
  | fieldCount (segment : String) (count : Nat)
  | negative (segment : String)
  | malformed
  | unsupportedVersion (version : Nat)
  deriving DecidableEq, Repr

namespace DecodeError

/-- The wording of each cause. -/
def message : DecodeError → String
  | .badDigit byte => s!"invalid base64 VLQ digit '{Char.ofNat byte.toNat}'"
  | .overflow segment => s!"VLQ value overflows in segment '{segment}'"
  | .unterminated segment => s!"unterminated VLQ value in segment '{segment}'"
  | .fieldCount segment count => s!"segment '{segment}' has {count} fields"
  | .negative segment => s!"negative position in segment '{segment}'"
  | .malformed => "malformed source map"
  | .unsupportedVersion version => s!"unsupported source map version {version}"

/-- A digit error, told of a segment. -/
def ofDigit (segment : List Char) : DigitError → DecodeError
  | .badDigit byte => .badDigit byte
  | .overflow => .overflow (String.ofList segment)
  | .unterminated => .unterminated (String.ofList segment)

end DecodeError

/-- The fields of a segment. -/
def decodeSegment (segment : List Char) : Except DecodeError (List Int) :=
  match Vlq.decode segment with
  | .ok fields => .ok fields
  | .error e => .error (.ofDigit segment e)

/-- The running sums: the host column of the line, the dialect line and column of the text. -/
structure Cursor where
  hostColumn : Int
  dialectLine : Int
  dialectColumn : Int
  deriving DecidableEq, Repr, Inhabited

/-- A coordinate is stored in 32 bits; higher bits are dropped. -/
def coordinate (n : Int) : UInt32 :=
  UInt32.ofNat n.toNat

/-- The mapping at a cursor. -/
def Cursor.mapping (c : Cursor) : ColumnMapping :=
  ⟨coordinate c.hostColumn, coordinate c.dialectLine, coordinate c.dialectColumn⟩

/-- None of the coordinates is negative. -/
def Cursor.valid (c : Cursor) : Bool :=
  0 ≤ c.hostColumn && 0 ≤ c.dialectLine && 0 ≤ c.dialectColumn

/-- Moves the cursor by the fields of a segment; a segment that maps also gives its mapping. -/
def Cursor.advance (c : Cursor) (segment : List Char) (fields : List Int) :
    Except DecodeError (Cursor × Option ColumnMapping) :=
  let mapped (column line character : Int) : Except DecodeError (Cursor × Option ColumnMapping) :=
    let next : Cursor := ⟨Vlq.wrap (c.hostColumn + column), Vlq.wrap (c.dialectLine + line),
      Vlq.wrap (c.dialectColumn + character)⟩
    if next.valid then .ok (next, some next.mapping)
    else .error (.negative (String.ofList segment))
  match fields with
  | [column] => .ok ({ c with hostColumn := Vlq.wrap (c.hostColumn + column) }, none)
  | [column, _, line, character] => mapped column line character
  | [column, _, line, character, _] => mapped column line character
  | other => .error (.fieldCount (String.ofList segment) other.length)

/-- Decodes the segments of a line; the mappings so far come last one first. -/
def decodeSegments : Cursor → List ColumnMapping → List (List Char) →
    Except DecodeError (Cursor × List ColumnMapping)
  | c, found, [] => .ok (c, found.reverse)
  | c, found, segment :: rest =>
    match decodeSegment segment with
    | .error e => .error e
    | .ok fields =>
      match c.advance segment fields with
      | .error e => .error e
      | .ok (next, mapping) => decodeSegments next (mapping.toList ++ found) rest

/-- Drops the mappings that repeat the column of the one before. -/
def dropRepeats : List ColumnMapping → List ColumnMapping
  | [] => []
  | m :: rest => m :: go m.hostColumn rest
where
  /-- The same, after a mapping of column `last`. -/
  go (last : UInt32) : List ColumnMapping → List ColumnMapping
    | [] => []
    | m :: rest => if m.hostColumn = last then go last rest else m :: go m.hostColumn rest

/-- The mappings of a line by column; of equal columns the first one written stays. -/
def arrange (found : List ColumnMapping) : List ColumnMapping :=
  dropRepeats (found.mergeSort fun a b => a.hostColumn ≤ b.hostColumn)

/-- Decodes one line; the host column starts at zero. -/
def decodeLine (c : Cursor) (line : List Char) :
    Except DecodeError (Cursor × List ColumnMapping) :=
  let segments := (Text.split ',' line).filter fun s => !s.isEmpty
  match decodeSegments { c with hostColumn := 0 } [] segments with
  | .ok (next, found) => .ok (next, arrange found)
  | .error e => .error e

/-- Decodes lines in order; those done come last one first. -/
def decodeLines : Cursor → List (List ColumnMapping) → List (List Char) →
    Except DecodeError (List (List ColumnMapping))
  | _, done, [] => .ok done.reverse
  | c, done, line :: rest =>
    match decodeLine c line with
    | .ok (next, columns) => decodeLines next (columns :: done) rest
    | .error e => .error e

/-- Decodes a `mappings` text. -/
def ofMappings (mappings : List Char) : Except DecodeError SourceMap :=
  match decodeLines ⟨0, 0, 0⟩ [] (Text.split ';' mappings) with
  | .ok lines => .ok ⟨lines⟩
  | .error e => .error e

/-- The two fields of a version 3 document that matter here. -/
structure Document where
  version : Nat
  mappings : String
  deriving DecidableEq, Repr

namespace Document

/-- The version: an integer of one byte. -/
def version? : Json.Tree → Option Nat
  | .number n => n.int?.bind fun v => if 0 ≤ v ∧ v < 256 then some v.toNat else none
  | _ => none

/-- The mappings: a string. -/
def mappings? : Json.Tree → Option String
  | .string s => s
  | _ => none

/-- The values of all fields of a name, if every field has a name that can be read. -/
def named (name : String) (fields : List (Option String × Json.Tree)) : List Json.Tree :=
  (fields.filter fun f => f.1 = some name).map (·.2)

/-- Reads a document from its tree: an object that has both fields once, whatever else it has, or a
list of the two values. -/
def ofTree? : Json.Tree → Option Document
  | .object fields =>
    if fields.any fun f => f.1.isNone then none
    else match named "version" fields, named "mappings" fields with
      | [v], [m] => (version? v).bind fun version => (mappings? m).map fun text => ⟨version, text⟩
      | _, _ => none
  | .array [v, m] => (version? v).bind fun version => (mappings? m).map fun text => ⟨version, text⟩
  | _ => none

end Document

/-- Decodes a version 3 document. -/
def ofDocument (text : List Char) : Except DecodeError SourceMap :=
  match (Json.Tree.parse? text).bind Document.ofTree? with
  | none => .error .malformed
  | some doc =>
    if doc.version = 3 then ofMappings doc.mappings.toList
    else .error (.unsupportedVersion doc.version)

end DialectBridge.SourceMap
