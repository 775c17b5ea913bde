import DialectBridge.Diagnostic.Basic
import DialectBridge.Text.Blank
import DialectBridge.Text.DecimalDigit
import DialectBridge.Text.Lines
import DialectBridge.Text.Numeral

/-!
# The compiler's report of a syntax error

The report is a header `label:line:column: error: message`, the offending line, and a line of carets
under the error, as wide as it.  `diagnostic?` recognises it; other output of a compiler that failed
is no report.
-/

namespace DialectBridge.Compiler.SyntaxReport

/-- The parts of a header; the numbers as written. -/
structure Header where
  line : List Char
  column : List Char
  message : List Char
  deriving DecidableEq, Repr

/-- What stands between the column and the message. -/
def errorMark : List Char := ": error: ".toList

/-- A header from the colon before its line number on. -/
def headerAt? (cs : List Char) : Option Header := do
  let afterColon ← [':'].isPrefixOf? cs
  let (line, afterLine) ← Text.digitRun? afterColon
  let afterColon ← [':'].isPrefixOf? afterLine
  let (column, afterColumn) ← Text.digitRun? afterColon
  let message ← errorMark.isPrefixOf? afterColumn
  return ⟨line, column, message⟩

/-- The header of a line; the first place where one can start counts. -/
def header? : List Char → Option Header
  | [] => none
  | c :: cs =>
    match headerAt? (c :: cs) with
    | some header => some header
    | none => header? cs

/-- The first line that is a header, and the lines after it. -/
def findHeader? : List (List Char) → Option (Header × List (List Char))
  | [] => none
  | line :: rest =>
    match header? (Text.trimEnd line) with
    | some header => some (header, rest)
    | none => findHeader? rest

/-- The number of carets of a line of nothing else, blanks aside. -/
def carets? (line : List Char) : Option Nat :=
  let trimmed := Text.trim line
  if !trimmed.isEmpty && trimmed.all (· = '^') then some trimmed.length else none

/-- The width of the error: the carets two lines below the header, or one column. -/
def width (rest : List (List Char)) : UInt32 :=
  UInt32.ofNat ((rest[1]?.bind carets?).getD 1)

/-- A number of the header, which counts from one, as an index. -/
def index? (digits : List Char) : Option UInt32 :=
  match Text.numeral? UInt32.size digits with
  | some (n + 1) => some (UInt32.ofNat n)
  | _ => none

/-- The diagnostic of a report. -/
def diagnostic? (report : List Char) : Option Diagnostic := do
  let (header, rest) ← findHeader? (Text.terminatedLines report)
  let line ← index? header.line
  let column ← index? header.column
  return { range := ⟨⟨line, column⟩, ⟨line, column + width rest⟩⟩
           message := String.ofList (Text.trim header.message)
           origin := .compiler }

end DialectBridge.Compiler.SyntaxReport
