import DialectBridge.Command.Run
import DialectBridge.Editor.Alone

/-!
# The command line

The outer layer: reads arguments, files and standard input, and writes what comes out.  It starts no
programs.
-/

namespace DialectBridge.Main

/-- What the operating system said. -/
def osError : IO.Error → OsError
  | .noFileOrDirectory .. => .notFound
  | .inappropriateType _ code _ => if code = 20 then .notDirectory else .isDirectory
  | .permissionDenied .. => .permissionDenied
  | _ => .notFound

/-- Reads a file as text. -/
def load (name : String) : IO (Except CommandLine.FileError String) := do
  try
    let bytes ← IO.FS.readBinFile name
    return CommandLine.decodeFile bytes.toList
  catch e => return .error (.os (osError e))

/-- A file among those that were read. -/
def lookUp (files : List (String × Except CommandLine.FileError String)) (name : String) :
    Except CommandLine.FileError String :=
  ((files.find? fun file => file.1 = name).map (·.2)).getD (.error (.os .notFound))

/-- Writes messages as frames. -/
def send (output : IO.FS.Stream) (messages : List Json) : IO Unit := do
  for message in messages do
    output.write (ByteArray.mk (Host.Frame.write message).toArray)
  output.flush

/-- What has come in and is not taken yet, and whether no more will come. -/
abbrev Mailbox := IO.Ref (ByteArray × Bool)

/-- Fills the mailbox until the input ends. -/
partial def gather (input : IO.FS.Stream) (box : Mailbox) : IO Unit := do
  let bytes ← input.read 1
  if bytes.isEmpty then box.modify fun held => (held.1, true)
  else
    box.modify fun held => (held.1 ++ bytes, held.2)
    gather input box

/-- Serves the editor until it is gone. -/
partial def serve (output : IO.FS.Stream) (box : Mailbox)
    (inbox : Editor.Inbox (Host.Exchange Unit)) (last : Nat) : IO Unit := do
  let now ← IO.monoMsNow
  let (bytes, closed) ← box.modifyGet fun held => (held, (ByteArray.empty, held.2))
  let fed := { inbox with bytes := inbox.bytes ++ bytes.toList, closed }
  let (inbox, messages) := fed.work Editor.alone (now - last)
  send output messages
  if inbox.finished then return ()
  IO.sleep 2
  serve output box inbox now

/-- Carries out a plan; gives the exit code. -/
def carryOut : CommandLine.Plan → IO UInt32
  | .finish result => do
    let output ← IO.getStdout
    output.putStr result.stdout
    output.flush
    for line in result.stderr ++ result.reports.flatMap Diagnostic.Report.lines do
      IO.eprintln line
    return UInt32.ofNat result.exit
  | .serve settings => do
    let box ← IO.mkRef (ByteArray.empty, false)
    let _ ← IO.asTask (gather (← IO.getStdin) box) Task.Priority.dedicated
    serve (← IO.getStdout) box ⟨.start settings, [], false⟩ (← IO.monoMsNow)
    return 0

end DialectBridge.Main

/-- Carries out the command line. -/
def main (args : List String) : IO UInt32 := do
  let named := DialectBridge.CommandLine.filesOf args
  let files ← named.mapM fun name => return (name, ← DialectBridge.Main.load name)
  DialectBridge.Main.carryOut
    (DialectBridge.CommandLine.run
      { readFile := DialectBridge.Main.lookUp files
        programs := .unavailable
        logFilter := ← IO.getEnv "BREWLINE_LOG" }
      args)
