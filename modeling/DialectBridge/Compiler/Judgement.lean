import DialectBridge.Compiler.InlineMap
import DialectBridge.Compiler.SyntaxReport
import DialectBridge.SourceMap.Decode

/-!
# From the compiler's output to an answer

`judge` reads what the compiler left behind.  A compiler that ended well gave a host text and its
map; one that failed gave a report of a syntax error, or it crashed.
-/

namespace DialectBridge.Compiler

/-- What became of a compiler that was started. -/
structure Run where
  output : ProgramOutput
  /-- Why the dialect text could not be written to it, if it could not. -/
  inputError : Option OsError
  deriving DecidableEq, Repr, Inhabited

/-- The answer in the output of a compiler that ended well. -/
def readOutput (stdout : List UInt8) : Answer := do
  match Text.Utf8.decode? stdout with
  | none => .error .notUtf8
  | some text =>
    let (host, json) ← InlineMap.split text
    match SourceMap.ofDocument json with
    | .ok map => .ok (Outcome.ofHost (String.ofList host) map)
    | .error e => .error (.invalidSourceMap e.message)

/-- The answer in the messages of a compiler that failed. -/
def readFailure (status : ExitStatus) (stderr : List UInt8) : Answer :=
  let text := Text.Utf8.decodeLossy stderr
  match SyntaxReport.diagnostic? text with
  | some diagnostic => .ok (.rejected [diagnostic])
  | none => .error (.crashed status.describe (String.ofList (Text.trimEnd text)))

/-- The answer of a compiler run. -/
def judge (run : Run) : Answer :=
  if run.output.status.success then
    match run.inputError with
    | some cause => .error (.io cause)
    | none => readOutput run.output.stdout
  else readFailure run.output.status run.output.stderr

/-- The answer when the compiler is `program`, which may not start. -/
def answer (program : String) : Except OsError Run → Answer
  | .error cause => .error (.spawn program cause)
  | .ok run => judge run

end DialectBridge.Compiler
