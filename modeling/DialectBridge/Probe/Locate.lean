import DialectBridge.Compiler.Outcome
import DialectBridge.Probe
import DialectBridge.SourceMap.Lookup

/-!
# The place of a probe in the host text

A completion request in a dialect text is forwarded to the host language service at an emulated
cursor.  `Probe.locate` finds it from the outcome of compiling the probe, or says why there is none.
-/

namespace DialectBridge

/-- Why a probe has no place in the host text. -/
inductive ProbeMiss where
  | rejected (diagnostics : List Diagnostic)
  | unmapped (position : Position)
  | noHostLine (line : UInt32)
  deriving DecidableEq, Repr

/-- The host text with the real line in the place of the probe, and the cursor in it. -/
def Probe.locate (probe : Probe) : Compiler.Outcome → Except ProbeMiss Emulation
  | .rejected diagnostics => .error (.rejected diagnostics)
  | .compiled host map =>
    match map.toHost? probe.position with
    | none => .error (.unmapped probe.position)
    | some line =>
      match emulate? host.toList line probe.line.toList with
      | none => .error (.noHostLine line)
      | some emulation => .ok emulation

end DialectBridge
