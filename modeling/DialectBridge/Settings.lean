import DialectBridge.Json.Overlay
import DialectBridge.Program.Basic

/-!
# Settings

Settings come in layers: the defaults, a file, command-line flags, the options the editor sends.
Each layer is a JSON object laid over the one below, so it needs to name only what it changes, and
a command may be changed in part.  `Settings.merge` adds one layer.
-/

namespace DialectBridge

/-- What can be set. -/
structure Settings where
  /-- Quiet time after an edit before the dialect text is compiled, in milliseconds. -/
  compileDebounceMs : Nat := 500
  /-- Quiet time after a compilation before the host text is verified, in milliseconds. -/
  verifyDebounceMs : Nat := 300
  /-- How long results are kept, in seconds. -/
  cacheTtlSecs : Nat := 180
  /-- How long a request to the host language service may take, in milliseconds. -/
  hostTimeoutMs : Nat := 5000
  /-- How long a verification may take, in milliseconds. -/
  verifyTimeoutMs : Nat := 30000
  /-- Whether the host text is verified at all. -/
  verify : Bool := true
  /-- The dialect compiler. -/
  compiler : Command := ⟨"coffee", ["--bare", "--compile", "--inline-map", "--stdio"]⟩
  /-- The verifier of the host language. -/
  verifier : Command :=
    ⟨"tsc", ["--noEmit", "--pretty", "false", "--allowJs", "--alwaysStrict", "--strictNullChecks",
      "--target", "esnext"]⟩
  /-- The language server of the host language. -/
  hostServer : Command := ⟨"typescript-language-server", ["--stdio"]⟩
  deriving DecidableEq, Repr, Inhabited

/-- Why a layer is refused. -/
inductive SettingsError where
  | notAnObject (found : String)
  | invalid
  deriving DecidableEq, Repr

/-- The wording of a refusal. -/
def SettingsError.message : SettingsError → String
  | .notAnObject found => s!"initialization options must be a JSON object, got {found}"
  | .invalid => "invalid initialization options"

namespace Settings

/-- How long results are kept, in milliseconds. -/
def cacheTtlMs (s : Settings) : Nat :=
  s.cacheTtlSecs * 1000

/-- The JSON form. -/
def toJson (s : Settings) : Json :=
  .object
    [("compileDebounceMs", .nat s.compileDebounceMs),
      ("verifyDebounceMs", .nat s.verifyDebounceMs),
      ("cacheTtlSecs", .nat s.cacheTtlSecs),
      ("hostTimeoutMs", .nat s.hostTimeoutMs),
      ("verifyTimeoutMs", .nat s.verifyTimeoutMs),
      ("verify", .bool s.verify),
      ("compiler", s.compiler.toJson),
      ("verifier", s.verifier.toJson),
      ("hostServer", s.hostServer.toJson)]

/-- A number of 64 bits. -/
def number? (j : Json) : Option Nat :=
  j.asNat? UInt64.size

/-- Reads the JSON form; what is absent has its default. -/
def ofJson? (j : Json) : Option Settings := do
  let fields : Json.Fields := fun name => j.get? name
  let defaults : Settings := {}
  let compileDebounceMs ← fields.defaulting "compileDebounceMs" defaults.compileDebounceMs number?
  let verifyDebounceMs ← fields.defaulting "verifyDebounceMs" defaults.verifyDebounceMs number?
  let cacheTtlSecs ← fields.defaulting "cacheTtlSecs" defaults.cacheTtlSecs number?
  let hostTimeoutMs ← fields.defaulting "hostTimeoutMs" defaults.hostTimeoutMs number?
  let verifyTimeoutMs ← fields.defaulting "verifyTimeoutMs" defaults.verifyTimeoutMs number?
  let verify ← fields.defaulting "verify" defaults.verify Json.asBool?
  let compiler ← fields.defaulting "compiler" defaults.compiler Command.ofJson?
  let verifier ← fields.defaulting "verifier" defaults.verifier Command.ofJson?
  let hostServer ← fields.defaulting "hostServer" defaults.hostServer Command.ofJson?
  return { compileDebounceMs, verifyDebounceMs, cacheTtlSecs, hostTimeoutMs, verifyTimeoutMs,
           verify, compiler, verifier, hostServer }

/-- Adds a layer; `null` is the empty one. -/
def merge (s : Settings) (layer : Json) : Except SettingsError Settings :=
  match layer with
  | .null => .ok s
  | .bool _ => .error (.notAnObject "a boolean")
  | .int _ => .error (.notAnObject "a number")
  | .real _ => .error (.notAnObject "a number")
  | .str _ => .error (.notAnObject "a string")
  | .arr _ => .error (.notAnObject "an array")
  | .obj fields =>
    match ofJson? ((Json.obj fields).overlay s.toJson) with
    | some merged => .ok merged
    | none => .error .invalid

end Settings

end DialectBridge
