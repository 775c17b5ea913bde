import DialectBridge.Json.Record

/-!
# External programs

What is said of the programs outside: the command that starts one, why one does not start, and how
one ended.
-/

namespace DialectBridge

/-- A program and its fixed arguments. -/
structure Command where
  program : String
  args : List String
  deriving DecidableEq, Repr, Inhabited

namespace Command

/-- The JSON form. -/
def toJson (c : Command) : Json :=
  .object [("program", .str c.program), ("args", .arr (c.args.map .str))]

/-- Reads the JSON form; the arguments may be left out. -/
def ofJson? (j : Json) : Option Command := do
  let fields ← j.fields? ["program", "args"] 1
  let program ← fields.required "program" Json.asString?
  let args ← fields.defaulting "args" [] (Json.listOf? Json.asString?)
  return ⟨program, args⟩

/-- The command holds a NUL, which no program can be handed. -/
def holdsNul (c : Command) : Bool :=
  (c.program :: c.args).any fun part => part.contains '\x00'

end Command

/-- What the operating system refuses. -/
inductive OsError where
  | notFound
  | permissionDenied
  | notDirectory
  | isDirectory
  | brokenPipe
  | nameTooLong
  /-- What is handed over holds a NUL. -/
  | nulByte
  deriving DecidableEq, Repr, Inhabited

/-- The wording of the operating system. -/
def OsError.message : OsError → String
  | .notFound => "No such file or directory (os error 2)"
  | .permissionDenied => "Permission denied (os error 13)"
  | .notDirectory => "Not a directory (os error 20)"
  | .isDirectory => "Is a directory (os error 21)"
  | .brokenPipe => "Broken pipe (os error 32)"
  | .nameTooLong => "File name too long (os error 36)"
  | .nulByte => "nul byte found in provided data"

/-- How a program ended. -/
inductive ExitStatus where
  | code (n : Nat)
  | signal (n : Nat)
  deriving DecidableEq, Repr, Inhabited

namespace ExitStatus

/-- The program ended well. -/
def success (s : ExitStatus) : Bool :=
  s = .code 0

/-- The names of the signals, from the first on. -/
def signalNames : List String :=
  ["SIGHUP", "SIGINT", "SIGQUIT", "SIGILL", "SIGTRAP", "SIGABRT", "SIGBUS", "SIGFPE", "SIGKILL",
    "SIGUSR1", "SIGSEGV", "SIGUSR2", "SIGPIPE", "SIGALRM", "SIGTERM", "SIGSTKFLT", "SIGCHLD",
    "SIGCONT", "SIGSTOP", "SIGTSTP", "SIGTTIN", "SIGTTOU", "SIGURG", "SIGXCPU", "SIGXFSZ",
    "SIGVTALRM", "SIGPROF", "SIGWINCH", "SIGIO", "SIGPWR", "SIGSYS"]

/-- The written form. -/
def describe : ExitStatus → String
  | .code n => s!"exit status: {n}"
  | .signal n =>
    match n with
    | 0 => s!"signal: {n}"
    | k + 1 =>
      match signalNames[k]? with
      | some name => s!"signal: {n} ({name})"
      | none => s!"signal: {n}"

end ExitStatus

/-- What a program that ended left behind. -/
structure ProgramOutput where
  status : ExitStatus
  stdout : List UInt8
  stderr : List UInt8
  deriving DecidableEq, Repr, Inhabited

end DialectBridge
