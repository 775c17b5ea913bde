import DialectBridge.Compiler.Outcome
import DialectBridge.Text.Base64
import DialectBridge.Text.Blank
import DialectBridge.Text.Utf8

/-!
# The inline source map

The compiler writes the host text and appends the source map as a comment, in base 64.  `split`
takes the two apart: every comment line of a map or of a source address is left out of the host
text, the last map counts, and blanks at the end of the host text are cut.
-/

namespace DialectBridge.Compiler.InlineMap

/-- How the comment with the map starts. -/
def mapMark : List Char := "//# sourceMappingURL=".toList

/-- How the comment with the source address starts. -/
def addressMark : List Char := "//# sourceURL=".toList

/-- What stands before the map itself. -/
def payloadMark : List Char := "base64,".toList

/-- What follows the first occurrence of `mark`. -/
def after? (mark : List Char) : List Char → Option (List Char)
  | [] => if mark.isEmpty then some [] else none
  | c :: cs =>
    match mark.isPrefixOf? (c :: cs) with
    | some rest => some rest
    | none => after? mark cs

/-- The reason given for a map that is no base 64. -/
def notBase64 : String := "base64"

/-- The map of a comment, given what follows its mark. -/
def payload (address : List Char) : Except Fault (List Char) :=
  match after? payloadMark address with
  | none => .error .missingSourceMap
  | some data =>
    match Text.Base64.decode? (Text.trim data) with
    | none => .error (.invalidSourceMap notBase64)
    | some bytes =>
      match Text.Utf8.decode? bytes with
      | none => .error .notUtf8
      | some text => .ok text

/-- What one line of output is. -/
inductive Line where
  | host (text : List Char)
  | map (address : List Char)
  | address
  deriving DecidableEq, Repr

/-- Tells the kind of a line by its start, blanks aside. -/
def classify (line : List Char) : Line :=
  let trimmed := Text.trim line
  match mapMark.isPrefixOf? trimmed with
  | some address => .map address
  | none => if addressMark.isPrefixOf trimmed then .address else .host line

/-- Collects host lines, last one first, and the last map. -/
def collect : List (List Char) → Option (List Char) → List (List Char) →
    Except Fault (List (List Char) × Option (List Char))
  | host, map, [] => .ok (host.reverse, map)
  | host, map, line :: rest =>
    match classify line with
    | .host text => collect (text :: host) map rest
    | .address => collect host map rest
    | .map address =>
      match payload address with
      | .ok text => collect host (some text) rest
      | .error fault => .error fault

/-- Host text and map of the compiler's output. -/
def split (output : List Char) : Except Fault (List Char × List Char) :=
  match collect [] none (Text.terminatedLines output) with
  | .error fault => .error fault
  | .ok (_, none) => .error .missingSourceMap
  | .ok (host, some map) => .ok (Text.trimEnd (Text.joinLines host), map)

end DialectBridge.Compiler.InlineMap
