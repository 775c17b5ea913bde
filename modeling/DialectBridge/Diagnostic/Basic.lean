import DialectBridge.Json.Position

/-!
# Diagnostics

A diagnostic is an error message for a range of the dialect text, from the dialect compiler or from
the verifier of the host language.
-/

namespace DialectBridge

/-- Who reports a diagnostic. -/
inductive Origin where
  | compiler
  | verifier
  deriving DecidableEq, Repr, Inhabited

/-- The name of the reporting tool. -/
def Origin.label : Origin → String
  | .compiler => "coffee"
  | .verifier => "tsc"

/-- An error in a text. -/
structure Diagnostic where
  range : Range
  message : String
  origin : Origin
  deriving DecidableEq, Repr, Inhabited

namespace Diagnostic

/-- The severity of an error in the editor's numbering. -/
def errorSeverity : Nat := 1

/-- The form in which the editor gets a diagnostic. -/
def toJson (d : Diagnostic) : Json :=
  .object
    [("range", d.range.toJson), ("severity", .nat errorSeverity),
      ("source", .str s!"brewline ({d.origin.label})"), ("message", .str d.message)]

end Diagnostic

end DialectBridge
