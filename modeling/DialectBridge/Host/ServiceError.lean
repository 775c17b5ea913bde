import DialectBridge.Program.Basic

/-!
# Failures of the host language tools

The language server and the verifier of the host language fail in the same ways.
-/

namespace DialectBridge

/-- A time in milliseconds, in the largest unit of seconds and milliseconds that it fills. -/
def describeDuration (ms : Nat) : String :=
  if ms = 0 then "0ns"
  else if ms < 1000 then s!"{ms}ms"
  else if ms % 1000 = 0 then s!"{ms / 1000}s"
  else
    let thousandths := (toString (1000 + ms % 1000)).toList.drop 1
    let trimmed := (thousandths.reverse.dropWhile (· = '0')).reverse
    s!"{ms / 1000}." ++ String.ofList trimmed ++ "s"

/-- Why a host language tool gave no answer. -/
inductive ServiceError where
  | spawn (program : String) (cause : OsError)
  | io (cause : OsError)
  | timeout (ms : Nat)
  | noVirtualDocument (uri : String)
  | badShape
  | protocol (detail : String)
  | server (code : Int) (message : String)
  | closed
  deriving DecidableEq, Repr, Inhabited

/-- The wording of a failure. -/
def ServiceError.message : ServiceError → String
  | .spawn program cause => s!"cannot start '{program}': {cause.message}"
  | .io cause => s!"I/O error talking to the host service: {cause.message}"
  | .timeout ms => s!"host service did not answer within {describeDuration ms}"
  | .noVirtualDocument uri =>
    s!"host service sent an unexpected message: no virtual document for {uri}"
  | .badShape => "host service sent an unexpected message: shape"
  | .protocol detail => s!"host service sent an unexpected message: {detail}"
  | .server code message => s!"host service error {code}: {message}"
  | .closed => "host service connection closed"

end DialectBridge
