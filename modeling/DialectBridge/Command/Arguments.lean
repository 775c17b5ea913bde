import DialectBridge.Text.Numeral

/-!
# Command-line arguments

The command line is a subcommand with its arguments.  The flags that change settings may stand
before or after the subcommand, once on either side; the one after it counts.  Arguments are read
from left to right, and the first mistake or call for help decides.  Only a value that stands alone
right before the subcommand is looked at last.

* `parse` reads the arguments.
-/

namespace DialectBridge.CommandLine

/-- The flags that change settings. -/
structure Flags where
  config : Option String := none
  compiler : Option String := none
  verifier : Option String := none
  hostServer : Option String := none
  compileDebounceMs : Option Nat := none
  verifyDebounceMs : Option Nat := none
  cacheTtlSecs : Option Nat := none
  verbose : Bool := false
  deriving DecidableEq, Repr, Inhabited

/-- The flags of the inner side, and those of the outer side where it has none. -/
def Flags.over (inner outer : Flags) : Flags :=
  { config := inner.config.or outer.config
    compiler := inner.compiler.or outer.compiler
    verifier := inner.verifier.or outer.verifier
    hostServer := inner.hostServer.or outer.hostServer
    compileDebounceMs := inner.compileDebounceMs.or outer.compileDebounceMs
    verifyDebounceMs := inner.verifyDebounceMs.or outer.verifyDebounceMs
    cacheTtlSecs := inner.cacheTtlSecs.or outer.cacheTtlSecs
    verbose := inner.verbose || outer.verbose }

/-- What is to be done. -/
inductive Subcommand where
  | serve
  | compile (input : String) (map : Bool)
  | check (input : String) (noVerify : Bool)
  | probe (input : String) (line column : UInt32)
  deriving DecidableEq, Repr

/-- What a command line asks for. -/
inductive Request where
  | version
  | help
  | run (flags : Flags) (subcommand : Subcommand)
  deriving DecidableEq, Repr

/-- The arguments make no sense. -/
inductive UsageError where
  | usage
  deriving DecidableEq, Repr

/-- The subcommands by name. -/
inductive Name where
  | lsp
  | compile
  | check
  | probe
  deriving DecidableEq, Repr

/-- Reads the name of a subcommand. -/
def Name.ofString? : String → Option Name
  | "lsp" => some .lsp
  | "compile" => some .compile
  | "check" => some .check
  | "probe" => some .probe
  | _ => none

/-- What has been read on one side of the subcommand. -/
structure Side where
  flags : Flags := {}
  input : Option String := none
  map : Bool := false
  noVerify : Bool := false
  line : Option UInt32 := none
  column : Option UInt32 := none
  deriving DecidableEq, Repr, Inhabited

/-- Sets a value that is not set yet. -/
def setOnce {α : Type} (old : Option α) (value : α) : Except UsageError (Option α) :=
  match old with
  | none => .ok (some value)
  | some _ => .error .usage

/-- Raises a mark that is not up yet. -/
def raiseOnce (old : Bool) : Except UsageError Bool :=
  if old then .error .usage else .ok true

/-- A path, which is not empty. -/
def path (value : String) : Except UsageError String :=
  if value.isEmpty then .error .usage else .ok value

/-- A number of 64 bits. -/
def number (value : String) : Except UsageError Nat :=
  match Text.numeral? UInt64.size value.toList with
  | some n => .ok n
  | none => .error .usage

/-- A coordinate: a number of 32 bits; only zero may have a minus sign. -/
def coordinate (value : String) : Except UsageError UInt32 :=
  let read : Option Nat :=
    match value.toList with
    | '-' :: digits => Text.digits? 1 digits
    | digits => Text.numeral? UInt32.size digits
  match read with
  | some n => .ok (UInt32.ofNat n)
  | none => .error .usage

/-- Sets the value of a long flag; `none` for a flag that takes no value here. -/
def Side.setValue (s : Side) (name : Option Name) (flag value : String) :
    Option (Except UsageError Side) :=
  match flag with
  | "config" => some do
    return { s with flags := { s.flags with config := ← setOnce s.flags.config (← path value) } }
  | "coffee" => some do
    return { s with flags := { s.flags with compiler := ← setOnce s.flags.compiler value } }
  | "tsc" => some do
    return { s with flags := { s.flags with verifier := ← setOnce s.flags.verifier value } }
  | "host-server" => some do
    return { s with flags := { s.flags with hostServer := ← setOnce s.flags.hostServer value } }
  | "compile-debounce-ms" => some do
    let ms ← number value
    return { s with flags :=
      { s.flags with compileDebounceMs := ← setOnce s.flags.compileDebounceMs ms } }
  | "verify-debounce-ms" => some do
    let ms ← number value
    return { s with flags :=
      { s.flags with verifyDebounceMs := ← setOnce s.flags.verifyDebounceMs ms } }
  | "cache-ttl-secs" => some do
    let secs ← number value
    return { s with flags := { s.flags with cacheTtlSecs := ← setOnce s.flags.cacheTtlSecs secs } }
  | "line" =>
    if name = some .probe then
      some do return { s with line := ← setOnce s.line (← coordinate value) }
    else none
  | "column" =>
    if name = some .probe then
      some do return { s with column := ← setOnce s.column (← coordinate value) }
    else none
  | _ => none

/-- The flag takes a value. -/
def takesValue (name : Option Name) (flag : String) : Bool :=
  ((default : Side).setValue name flag "").isSome

/-- Raises a long flag without a value. -/
def Side.raise (s : Side) (name : Option Name) (flag : String) : Except UsageError Side :=
  match flag with
  | "verbose" => do
    return { s with flags := { s.flags with verbose := ← raiseOnce s.flags.verbose } }
  | "map" => do
    if name = some .compile then return { s with map := ← raiseOnce s.map } else .error .usage
  | "no-verify" => do
    if name = some .check then return { s with noVerify := ← raiseOnce s.noVerify }
    else .error .usage
  | _ => .error .usage

/-- Takes a positional argument: every subcommand but one has a single input. -/
def Side.position (s : Side) (name : Name) (value : String) : Except UsageError Side := do
  if name = .lsp then .error .usage
  else return { s with input := ← setOnce s.input (← path value) }

/-- How far the arguments have been read. -/
structure Reader where
  outer : Side := {}
  /-- A flag and its value that are looked at last. -/
  deferred : Option (String × String) := none
  /-- The subcommand and what stands after it. -/
  inner : Option (Name × Side) := none
  deriving DecidableEq, Repr, Inhabited

/-- The subcommand, if it has been read. -/
def Reader.name? (r : Reader) : Option Name :=
  r.inner.map (·.1)

/-- The side that is being read. -/
def Reader.side (r : Reader) : Side :=
  match r.inner with
  | some (_, side) => side
  | none => r.outer

/-- Puts back the side that is being read. -/
def Reader.setSide (r : Reader) (side : Side) : Reader :=
  match r.inner with
  | some (name, _) => { r with inner := some (name, side) }
  | none => { r with outer := side }

/-- An argument by its form. -/
inductive Argument where
  | escape
  | long (flag : String) (value : Option String)
  | short (letters : List Char)
  | plain (value : String)
  deriving DecidableEq, Repr

/-- Tells the form of an argument; a single dash is a plain one. -/
def Argument.ofString (s : String) : Argument :=
  match s.toList with
  | ['-', '-'] => .escape
  | '-' :: '-' :: rest =>
    let flag := rest.takeWhile (· ≠ '=')
    match rest.drop flag.length with
    | _ :: value => .long (String.ofList flag) (some (String.ofList value))
    | [] => .long (String.ofList flag) none
  | '-' :: letter :: rest => .short (letter :: rest)
  | _ => .plain s

/-- What reading short flags ends in. -/
inductive ShortResult where
  | go (reader : Reader)
  | stop (request : Request)

/-- Reads short flags: `v` is verbose, `h` asks for help, and `V`, before the subcommand, for the
version. -/
def readShort : Reader → List Char → Except UsageError ShortResult
  | r, [] => .ok (.go r)
  | r, 'v' :: rest => do readShort (r.setSide (← r.side.raise r.name? "verbose")) rest
  | _, 'h' :: _ => .ok (.stop .help)
  | r, 'V' :: _ => if r.inner.isNone then .ok (.stop .version) else .error .usage
  | _, _ => .error .usage

/-- What stands before the subcommand, with the flag that was put off. -/
def Reader.settled (r : Reader) : Except UsageError Side :=
  match r.deferred with
  | none => .ok r.outer
  | some (flag, value) => (r.outer.setValue none flag value).getD (.error .usage)

/-- The subcommand that has been read, with all it needs. -/
def Reader.finish (r : Reader) : Except UsageError Request := do
  let outer ← r.settled
  match r.inner with
  | none => .error .usage
  | some (name, side) =>
    let flags := side.flags.over outer.flags
    match name, side.input, side.line, side.column with
    | .lsp, _, _, _ => .ok (.run flags .serve)
    | .compile, some input, _, _ => .ok (.run flags (.compile input side.map))
    | .check, some input, _, _ => .ok (.run flags (.check input side.noVerify))
    | .probe, some input, some line, some column => .ok (.run flags (.probe input line column))
    | _, _, _, _ => .error .usage

/-- Reads positional arguments only. -/
def readPlain : Reader → List String → Except UsageError Request
  | r, [] => r.finish
  | r, value :: rest =>
    match r.inner with
    | none => .error .usage
    | some (name, side) => do readPlain (r.setSide (← side.position name value)) rest

/-- A value that stands alone may not look like a flag. -/
def looksLikeFlag (s : String) : Bool :=
  match Argument.ofString s with
  | .plain _ => false
  | _ => true

/-- The word stands for a subcommand, which may be the one that tells about the others. -/
def isSubcommand (word : String) : Bool :=
  word = "help" || (Name.ofString? word).isSome

/-- Whether there is a subcommand to tell about; subcommands have none of their own, so at most one
can be named. -/
def helpTopic : List String → Except UsageError Request
  | [] => .ok .help
  | [word] => if isSubcommand word then .ok .help else .error .usage
  | _ => .error .usage

/-- Reads the arguments that are left. -/
def read : Reader → List String → Except UsageError Request
  | r, [] => r.finish
  | r, arg :: rest =>
    match Argument.ofString arg with
    | .escape => readPlain r rest
    | .plain value =>
      match r.inner with
      | some (name, side) => do read (r.setSide (← side.position name value)) rest
      | none =>
        match Name.ofString? value with
        | some name => read { r with inner := some (name, {}) } rest
        | none => if value = "help" then helpTopic rest else .error .usage
    | .short letters => do
      match ← readShort r letters with
      | .go r => read r rest
      | .stop request => .ok request
    | .long "help" none => .ok .help
    | .long "version" none => if r.inner.isNone then .ok .version else .error .usage
    | .long flag (some value) =>
      match r.side.setValue r.name? flag value with
      | some side => do read (r.setSide (← side)) rest
      | none => .error .usage
    | .long flag none =>
      if takesValue r.name? flag then
        match rest with
        | [] => .error .usage
        | value :: rest =>
          if looksLikeFlag value then .error .usage
          else if r.inner.isNone && rest.head?.any isSubcommand then
            read { r with deferred := some (flag, value) } rest
          else
            match r.side.setValue r.name? flag value with
            | some side => do read (r.setSide (← side)) rest
            | none => .error .usage
      else do read (r.setSide (← r.side.raise r.name? flag)) rest

/-- Reads a command line. -/
def parse (args : List String) : Except UsageError Request :=
  read {} args

end DialectBridge.CommandLine
