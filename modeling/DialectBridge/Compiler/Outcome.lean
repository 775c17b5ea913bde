import DialectBridge.Diagnostic.Basic
import DialectBridge.Program.Basic
import DialectBridge.SourceMap.Basic
import DialectBridge.Text.Lines

/-!
# What a compilation gives

A dialect text is compiled to a host text with a source map, or rejected with a diagnostic.
Everything else that can happen is a fault of the compiler, which says nothing about the text.
-/

namespace DialectBridge.Compiler

/-- The answer of the compiler to a text. -/
inductive Outcome where
  | compiled (host : String) (map : SourceMap)
  | rejected (diagnostics : List Diagnostic)
  deriving DecidableEq, Repr, Inhabited

/-- The outcome of a compilation, with the map made to cover the lines of the host text. -/
def Outcome.ofHost (host : String) (map : SourceMap) : Outcome :=
  .compiled host (map.fit (Text.lineCount host.toList))

/-- Why there is no answer. -/
inductive Fault where
  | spawn (program : String) (cause : OsError)
  | io (cause : OsError)
  | crashed (status : String) (stderr : String)
  | missingSourceMap
  | invalidSourceMap (reason : String)
  | notUtf8
  deriving DecidableEq, Repr, Inhabited

/-- The wording of a fault. -/
def Fault.message : Fault → String
  | .spawn program cause => s!"cannot run dialect compiler '{program}': {cause.message}"
  | .io cause => s!"I/O error talking to the dialect compiler: {cause.message}"
  | .crashed status stderr => s!"dialect compiler exited with {status}: {stderr}"
  | .missingSourceMap => "dialect compiler output has no inline source map"
  | .invalidSourceMap reason => s!"invalid source map from dialect compiler: {reason}"
  | .notUtf8 => "dialect compiler produced non UTF-8 output"

/-- The causes behind a fault. -/
def Fault.causes : Fault → List String
  | .spawn _ cause => [cause.message]
  | .io cause => [cause.message]
  | _ => []

/-- An answer or a fault. -/
abbrev Answer := Except Fault Outcome

end DialectBridge.Compiler
