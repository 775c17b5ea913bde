import DialectBridge.Command.Arguments
import DialectBridge.Command.LogFilter
import DialectBridge.Diagnostic.Report
import DialectBridge.Json.Tree
import DialectBridge.Probe.Locate
import DialectBridge.Program.Calls
import DialectBridge.Program.Files
import DialectBridge.Settings

/-!
# The commands

* `compile` prints the host text of a dialect file, and its source map if asked for;
* `check` reports what compiler and verifier have against a file;
* `probe` shows where a completion at a position would be asked for;
* serving an editor is left to the caller, with the settings that hold.

Files and programs are reached through a `World`.  Every call of a program is listed in the result.
-/

namespace DialectBridge.CommandLine

/-- Why a file cannot be read as text. -/
inductive FileError where
  | os (cause : OsError)
  | notUtf8
  deriving DecidableEq, Repr

/-- The wording of an error. -/
def FileError.message : FileError → String
  | .os cause => cause.message
  | .notUtf8 => "stream did not contain valid UTF-8"

/-- The text in the bytes of a file. -/
def decodeFile (bytes : List UInt8) : Except FileError String :=
  match Text.Utf8.decode? bytes with
  | some text => .ok (String.ofList text)
  | none => .error .notUtf8

/-- What the commands reach: files, programs, and the log filter that is set. -/
structure World where
  readFile : String → Except FileError String
  programs : Programs
  logFilter : Option String

/-- The world with the files of a tree. -/
def World.ofFiles (files : FileTree) (programs : Programs) (logFilter : Option String) : World where
  readFile path :=
    match files.read path with
    | .ok bytes => decodeFile bytes
    | .error cause => .error (.os cause)
  programs := programs
  logFilter := logFilter

/-- What a command leaves behind. -/
structure Result where
  exit : Nat := 0
  stdout : String := ""
  stderr : List String := []
  /-- The diagnostics that are reported. -/
  reports : List Diagnostic.Report := []
  calls : List ToolCall := []
  deriving DecidableEq, Repr, Inhabited

/-- A failure: what went wrong, and what was behind it. -/
structure Failure where
  message : String
  causes : List String := []
  deriving DecidableEq, Repr, Inhabited

namespace Failure

/-- The lines of a text. -/
def linesOf (s : String) : List String :=
  (Text.split '\n' s.toList).map String.ofList

/-- A cause, indented; several causes are numbered. -/
def causeLines (numbered : Bool) (index : Nat) (cause : String) : List String :=
  match linesOf cause with
  | [] => []
  | first :: rest =>
    let head := if numbered then s!"    {index}: " ++ first else "    " ++ first
    let indent := if numbered then "       " else "    "
    head :: rest.map (indent ++ ·)

/-- The lines in which a failure is told. -/
def lines (f : Failure) : List String :=
  linesOf ("Error: " ++ f.message) ++
    if f.causes.isEmpty then []
    else
      ["", "Caused by:"] ++
        (f.causes.mapIdx (causeLines (decide (1 < f.causes.length)))).flatten

/-- A command that fails. -/
def result (f : Failure) (calls : List ToolCall) : Result :=
  { exit := 1, stderr := f.lines, calls }

/-- A fault of the compiler. -/
def ofFault (fault : Compiler.Fault) : Failure :=
  ⟨fault.message, fault.causes⟩

end Failure

/-- Reads a dialect file. -/
def readSource (w : World) (input : String) : Except Failure String :=
  match w.readFile input with
  | .ok text => .ok text
  | .error e => .error ⟨s!"cannot read '{input}'", [e.message]⟩

/-- The settings in a file. -/
def loadSettings (w : World) (file : String) : Except Failure Settings :=
  match w.readFile file with
  | .error e => .error ⟨s!"cannot read config file '{file}'", [e.message]⟩
  | .ok text =>
    match Json.parse? text.toList with
    | none => .error ⟨s!"'{file}' is not valid JSON", ["json"]⟩
    | some options =>
      match ({} : Settings).merge options with
      | .ok settings => .ok settings
      | .error e => .error ⟨s!"invalid config file '{file}'", [e.message]⟩

/-- The settings with those of the flags laid over them. -/
def Flags.apply (f : Flags) (s : Settings) : Settings :=
  { s with
    compiler := { s.compiler with program := f.compiler.getD s.compiler.program }
    verifier := { s.verifier with program := f.verifier.getD s.verifier.program }
    hostServer := { s.hostServer with program := f.hostServer.getD s.hostServer.program }
    compileDebounceMs := f.compileDebounceMs.getD s.compileDebounceMs
    verifyDebounceMs := f.verifyDebounceMs.getD s.verifyDebounceMs
    cacheTtlSecs := f.cacheTtlSecs.getD s.cacheTtlSecs }

/-- The settings that hold: the defaults, those of a file, those of the flags. -/
def resolve (w : World) (f : Flags) : Except Failure Settings :=
  match f.config with
  | none => .ok (f.apply {})
  | some file =>
    match loadSettings w file with
    | .ok settings => .ok (f.apply settings)
    | .error failure => .error failure

/-- The table of a source map, with its title. -/
def mapListing (map : SourceMap) : String :=
  "\n// source map (host line: host col->dialect line:col)\n" ++ map.render

/-- Compiles a file. -/
def compile (w : World) (s : Settings) (input : String) (map : Bool) : Result :=
  match readSource w input with
  | .error failure => failure.result []
  | .ok source =>
    let calls := [ToolCall.compile s.compiler source]
    match (w.programs.compile s.compiler source).value with
    | .error fault => (Failure.ofFault fault).result calls
    | .ok (.rejected diagnostics) =>
      { exit := 1, reports := Diagnostic.renderAll diagnostics input source.toList, calls }
    | .ok (.compiled host sourceMap) =>
      { stdout := host ++ "\n" ++ if map then mapListing sourceMap else "", calls }

/-- The diagnostics of a dialect text, and the calls made for them.  A verifier that fails finds
nothing. -/
def diagnose (w : World) (s : Settings) (verify : Bool) (source : String) :
    Except Compiler.Fault (List Diagnostic) × List ToolCall :=
  let compiling := ToolCall.compile s.compiler source
  match (w.programs.compile s.compiler source).value with
  | .error fault => (.error fault, [compiling])
  | .ok (.rejected diagnostics) => (.ok diagnostics, [compiling])
  | .ok (.compiled host map) =>
    if verify then
      let found :=
        match (w.programs.verify s.verifier s.verifyTimeoutMs host).value with
        | .ok found => Finding.placeAll map found source.toList
        | .error _ => []
      (.ok found, [compiling, .verify s.verifier host])
    else (.ok [], [compiling])

/-- Checks a file. -/
def check (w : World) (s : Settings) (input : String) (noVerify : Bool) : Result :=
  match readSource w input with
  | .error failure => failure.result []
  | .ok source =>
    match diagnose w s (s.verify && !noVerify) source with
    | (.error fault, calls) => (Failure.ofFault fault).result calls
    | (.ok [], calls) => { stderr := [s!"OK: {input}"], calls }
    | (.ok diagnostics, calls) =>
      { exit := 1, reports := Diagnostic.renderAll diagnostics input source.toList, calls }

/-- The wording of a probe without a place in the host text. -/
def missMessage : ProbeMiss → String
  | .rejected diagnostics =>
    "probe buffer does not compile: " ++ ((diagnostics.head?.map Diagnostic.message).getD "")
  | .unmapped position => s!"probe at {position.line}:{position.character} has no host mapping"
  | .noHostLine line => s!"host line {line} is out of range"

/-- Shows where a completion would be asked for. -/
def probe (w : World) (s : Settings) (input : String) (cursor : Position) : Result :=
  match readSource w input with
  | .error failure => failure.result []
  | .ok source =>
    match Probe.at? source.toList cursor with
    | none => Failure.result ⟨s!"line {cursor.line} is past the end of '{input}'", []⟩ []
    | some probe =>
      let calls := [ToolCall.compile s.compiler probe.text]
      match (w.programs.compile s.compiler probe.text).value with
      | .error fault => (Failure.ofFault fault).result calls
      | .ok outcome =>
        match probe.locate outcome with
        | .error miss => Failure.result ⟨missMessage miss, []⟩ calls
        | .ok e =>
          { stdout := e.text ++ "\n"
            stderr := [s!"cursor: dialect {cursor.line}:{cursor.character} -> host " ++
              s!"{e.cursor.line}:{e.cursor.character}"]
            calls }

/-- What is left to do. -/
inductive Plan where
  | finish (result : Result)
  | serve (settings : Settings)
  deriving DecidableEq, Repr

/-- The exit code of a command line that makes no sense. -/
def usageExit : Nat := 2

/-- The line that tells the version. -/
def versionLine : String := "brewline 0.1.0\n"

/-- The exit code of a command that breaks off. -/
def abortExit : Nat := 101

/-- What is left of a command whose log filter is wrong: a filter that cannot be cut into its parts
breaks it off. -/
def FilterError.result (e : FilterError) : Result :=
  match e with
  | .cut => { exit := abortExit, stderr := [e.message] }
  | _ => Failure.result ⟨e.message, e.causes⟩ []

/-- Checks the log filter that is set. -/
def checkFilter (w : World) : Except FilterError Unit :=
  match w.logFilter with
  | none => .ok ()
  | some filter => LogFilter.check filter

/-- Carries out a request: the log filter is looked at first, then the settings, then the files. -/
def perform (w : World) (flags : Flags) (subcommand : Subcommand) : Plan :=
  match checkFilter w with
  | .error e => .finish e.result
  | .ok _ =>
    match resolve w flags with
    | .error failure => .finish (failure.result [])
    | .ok settings =>
      match subcommand with
      | .serve => .serve settings
      | .compile input map => .finish (compile w settings input map)
      | .check input noVerify => .finish (check w settings input noVerify)
      | .probe input line column => .finish (probe w settings input ⟨line, column⟩)

/-- Carries out a command line. -/
def run (w : World) (args : List String) : Plan :=
  match parse args with
  | .error _ => .finish { exit := usageExit }
  | .ok .version => .finish { stdout := versionLine }
  | .ok .help => .finish {}
  | .ok (.run flags subcommand) => perform w flags subcommand

/-- The files a command line names. -/
def filesOf (args : List String) : List String :=
  match parse args with
  | .ok (.run flags subcommand) =>
    flags.config.toList ++
      match subcommand with
      | .serve => []
      | .compile input _ => [input]
      | .check input _ => [input]
      | .probe input _ _ => [input]
  | _ => []

end DialectBridge.CommandLine
