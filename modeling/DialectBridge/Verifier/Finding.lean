import DialectBridge.Diagnostic.Basic
import DialectBridge.Host.ServiceError
import DialectBridge.SourceMap.Lookup
import DialectBridge.Text.Runs

/-!
# Findings of the verifier

The verifier checks a host text and tells what it found by host line.  `place` moves a finding to
the dialect line its host line comes from; what has no such line goes to the first one.  All that
matters of the dialect text is how long its lines are, so `placeRuns` does the same for a text in
runs.
-/

namespace DialectBridge

/-- A problem of the host text, on a line of it or of the text as a whole. -/
structure Finding where
  message : String
  line : Option UInt32
  deriving DecidableEq, Repr, Inhabited

/-- What the verifier answers: findings, or why it has none to tell. -/
abbrev Verifier.Answer := Except ServiceError (List Finding)

namespace Finding

/-- The first line of a dialect text. -/
def fallback (text : List Char) : Range :=
  Range.wholeLine 0 (UInt32.ofNat (Text.lineLength text 0))

/-- The dialect range of a finding. -/
def range (map : SourceMap) (text : List Char) (f : Finding) : Range :=
  match f.line with
  | none => fallback text
  | some line =>
    match map.toDialect (Range.at ⟨line, 0⟩) text with
    | .ok range => range
    | .error _ => fallback text

/-- The finding as a diagnostic of the dialect text. -/
def place (map : SourceMap) (text : List Char) (f : Finding) : Diagnostic :=
  { range := f.range map text, message := f.message, origin := .verifier }

/-- All findings as diagnostics of the dialect text, in order. -/
def placeAll (map : SourceMap) (found : List Finding) (text : List Char) : List Diagnostic :=
  found.map (place map text)

/-- The dialect line of a finding: that of the mapping nearest to its host line, and the first line
if it has no host line or there is no mapping near it. -/
def dialectLine (map : SourceMap) (f : Finding) : UInt32 :=
  match f.line.map map.nearest with
  | some (.ok mapping) => mapping.dialectLine
  | _ => 0

/-- All findings as diagnostics of a dialect text in runs. -/
def placeRuns (map : SourceMap) (found : List Finding) (runs : List Text.Run) : List Diagnostic :=
  found.map fun f =>
    let line := f.dialectLine map
    let length := UInt32.ofNat (Text.Run.lineLength runs line.toNat)
    { range := Range.wholeLine line length, message := f.message, origin := .verifier }

end Finding

end DialectBridge
