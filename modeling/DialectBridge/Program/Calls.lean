import DialectBridge.Compiler.Judgement
import DialectBridge.Timing.Timed
import DialectBridge.Verifier.Verdict

/-!
# Calls of compiler and verifier

`Programs` is what can be started.  A compiler may take as long as it likes; a verifier that has not
ended before its limit is stopped, and its output is not looked at.
-/

namespace DialectBridge

/-- The programs that can be started: what they leave behind for a text, and when. -/
structure Programs where
  compiler : Command → String → Except OsError (Timed Compiler.Run)
  verifier : Command → String → Except OsError (Timed ProgramOutput)

/-- A call of a program. -/
inductive ToolCall where
  | compile (command : Command) (text : String)
  | verify (command : Command) (host : String)
  deriving DecidableEq, Repr

/-- What became of a verifier that has `limit` milliseconds. -/
def Verifier.watch (limit : Nat) : Except OsError (Timed ProgramOutput) → Timed Verifier.Run
  | .error cause => ⟨0, .notStarted cause⟩
  | .ok run => if limit ≤ run.delay then ⟨limit, .expired⟩ else run.map .ended

namespace Programs

/-- Compiles a dialect text. -/
def compile (p : Programs) (command : Command) (text : String) : Timed Compiler.Answer :=
  match p.compiler command text with
  | .error cause => ⟨0, Compiler.answer command.program (.error cause)⟩
  | .ok run => run.map fun r => Compiler.answer command.program (.ok r)

/-- Verifies a host text. -/
def verify (p : Programs) (command : Command) (limit : Nat) (host : String) :
    Timed Verifier.Answer :=
  (Verifier.watch limit (p.verifier command host)).map (Verifier.answer command.program limit)

/-- No program can be started. -/
def unavailable : Programs where
  compiler _ _ := .error .notFound
  verifier _ _ := .error .notFound

end Programs

end DialectBridge
