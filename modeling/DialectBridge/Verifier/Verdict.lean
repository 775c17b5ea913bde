import DialectBridge.Host.ServiceError
import DialectBridge.Text.Utf8
import DialectBridge.Verifier.TypeReport

/-!
# From the verifier's output to an answer

A verifier ends with status 0, or with 1 or 2 when it found something.  Any other status, and a
status of 1 or 2 without anything found, is a failure of the tool and not a clean program; only
messages about missing modules may explain an empty report.
-/

namespace DialectBridge.Verifier

/-- A text that has `part` in it. -/
def mentions (part : List Char) : List Char → Bool
  | [] => part.isEmpty
  | c :: cs => part.isPrefixOf (c :: cs) || mentions part cs

/-- A status that says that something was found. -/
def reportedErrors (status : ExitStatus) : Bool :=
  status = .code 1 || status = .code 2

/-- The answer in the output of a verifier that ended. -/
def judge (output : ProgramOutput) : Answer :=
  let stdout := Text.Utf8.decodeLossy output.stdout
  let stderr := Text.Utf8.decodeLossy output.stderr
  let found := TypeReport.findings stdout
  if !output.status.success && !reportedErrors output.status then
    let detail := String.ofList (Text.trim stderr)
    .error (.protocol s!"verifier exited with {output.status.describe}: {detail}")
  else if reportedErrors output.status && found.isEmpty &&
      !mentions TypeReport.ignoredStart stdout then
    let detail := String.ofList (Text.trim (if Text.isBlankText stdout then stderr else stdout))
    .error (.protocol s!"verifier failed without diagnostics: {detail}")
  else .ok found

/-- What became of a verifier. -/
inductive Run where
  | notStarted (cause : OsError)
  | expired
  | ended (output : ProgramOutput)
  deriving DecidableEq, Repr, Inhabited

/-- The answer of the verifier `program`, which has `limit` milliseconds. -/
def answer (program : String) (limit : Nat) : Run → Answer
  | .notStarted cause => .error (.spawn program cause)
  | .expired => .error (.timeout limit)
  | .ended output => judge output

end DialectBridge.Verifier
