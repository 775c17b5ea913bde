import DialectBridge.Text.Blank
import DialectBridge.Text.DecimalDigit
import DialectBridge.Text.Lines
import DialectBridge.Text.Numeral
import DialectBridge.Verifier.Finding

/-!
# The verifier's report

Each line of the report is `file(line,column): error TS1: message`, or `error TS1: message` for a
problem of the whole program; a warning is written alike.  Indented lines continue a message and are
left out, and so are messages about modules that cannot be found: the checked file stands alone.
Only lines of the checked file have a host line.

* `findings` reads a report.
-/

namespace DialectBridge.Verifier.TypeReport

/-- The name of the file that is checked. -/
def checkedFile : List Char := "brewline-verify.ts".toList

/-- How messages start that do not count. -/
def ignoredStart : List Char := "Cannot find module".toList

/-- The word that tells the severity, and what follows it. -/
def severity? (cs : List Char) : Option (List Char) :=
  ("error".toList.isPrefixOf? cs).or ("warning".toList.isPrefixOf? cs)

/-- The message of a problem, from its severity on. -/
def problem? (cs : List Char) : Option (List Char) := do
  let afterWord ← severity? cs
  let afterCode ← " TS".toList.isPrefixOf? afterWord
  let (_, afterDigits) ← Text.digitRun? afterCode
  ": ".toList.isPrefixOf? afterDigits

/-- The line number and the message of a located problem, from the parenthesis on. -/
def locatedAt? (cs : List Char) : Option (List Char × List Char) := do
  let afterOpen ← ['('].isPrefixOf? cs
  let (line, afterLine) ← Text.digitRun? afterOpen
  let afterComma ← [','].isPrefixOf? afterLine
  let (_, afterColumn) ← Text.digitRun? afterComma
  let afterClose ← "): ".toList.isPrefixOf? afterColumn
  let message ← problem? afterClose
  return (line, message)

/-- The parts of a located problem. -/
structure Located where
  file : List Char
  line : List Char
  message : List Char
  deriving DecidableEq, Repr

/-- Looks for the last place where a located problem can be read; `before` is what has been passed,
last character first, and `best` the last place so far. -/
def lastLocated (before : List Char) (best : Option Located) : List Char → Option Located
  | [] => best
  | c :: cs =>
    let best :=
      match locatedAt? (c :: cs) with
      | some (line, message) => some ⟨before.reverse, line, message⟩
      | none => best
    lastLocated (c :: before) best cs

/-- The parts of a located problem; the file name is as long as possible. -/
def located? (line : List Char) : Option Located :=
  lastLocated [] none line

/-- The host line of a located problem: the line number less one, in the checked file only. -/
def hostLine? (l : Located) : Option UInt32 :=
  if checkedFile.isSuffixOf l.file then
    (Text.numeral? UInt32.size l.line).map fun n => UInt32.ofNat (n - 1)
  else none

/-- A finding, unless its message does not count. -/
def finding? (message : List Char) (line : Option UInt32) : Option Finding :=
  if ignoredStart.isPrefixOf message then none else some ⟨String.ofList message, line⟩

/-- A line that continues the message before it. -/
def continues : List Char → Bool
  | [] => false
  | c :: _ => Text.isBlank c

/-- The finding of one line of the report. -/
def lineFinding? (line : List Char) : Option Finding :=
  if continues line then none
  else
    let line := Text.trimEnd line
    match located? line with
    | some l => finding? l.message (hostLine? l)
    | none => (problem? line).bind fun message => finding? message none

/-- The findings of a report, in order. -/
def findings (report : List Char) : List Finding :=
  (Text.terminatedLines report).filterMap lineFinding?

end DialectBridge.Verifier.TypeReport
