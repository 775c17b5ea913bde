import DialectBridge.Text.Position

/-!
# Probe texts

The line under the cursor is usually half typed and does not compile.  A probe replaces it by an
expression that does, keeping its indentation, so that the block structure of the text stays as it
is.  Once the probe has compiled, the host line it became is overwritten with the real line, which
the host language service can complete.

* `Probe.at?` builds the probe for a cursor;
* `emulate?` puts the real line into the host text.
-/

namespace DialectBridge

/-- A text that stands in for one with a half-typed line. -/
structure Probe where
  /-- The dialect text with the cursor line replaced. -/
  text : String
  /-- Where the stand-in expression starts. -/
  position : Position
  /-- The real cursor line, without its terminator. -/
  line : String
  deriving DecidableEq, Repr, Inhabited

namespace Probe

/-- The expression put in place of the cursor line. -/
def placeholder : List Char :=
  "true".toList

/-- A line replaced by the placeholder: its indentation stays, and so does a carriage return. -/
def standIn (raw : List Char) : List Char :=
  Text.indentation (Text.dropReturn raw) ++ placeholder ++
    if raw.getLast? = some '\r' then ['\r'] else []

/-- The probe for a cursor; the cursor's column plays no part. -/
def at? (text : List Char) (cursor : Position) : Option Probe :=
  let n := cursor.line.toNat
  (Text.rawLine? text n).map fun raw =>
    let line := Text.dropReturn raw
    { text := String.ofList (Text.joinLines ((Text.split '\n' text).set n (standIn raw)))
      position := ⟨cursor.line, UInt32.ofNat (Text.utf16Length (Text.indentation line))⟩
      line := String.ofList line }

end Probe

/-- A host text prepared for completion, and the cursor in it. -/
structure Emulation where
  text : String
  cursor : Position
  deriving DecidableEq, Repr, Inhabited

/-- Overwrites line `n` of a host text; the cursor goes to the end of the line put there. -/
def emulate? (host : List Char) (n : UInt32) (line : List Char) : Option Emulation :=
  let lines := Text.split '\n' host
  if n.toNat < lines.length then
    some ⟨String.ofList (Text.joinLines (lines.set n.toNat line)),
      ⟨n, UInt32.ofNat (Text.utf16Length line)⟩⟩
  else none

end DialectBridge
