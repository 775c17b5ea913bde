import DialectBridge.Compiler.Outcome
import DialectBridge.Session
import DialectBridge.Verifier.Finding

/-!
# The diagnostic pipeline of one document

An edit is compiled after a quiet time.  A rejected text is announced with its diagnostics; for a
compiled one the diagnostics are cleared, and after another quiet time the host text is verified and
what was found is announced in dialect coordinates.  Compilers and verifiers answer when they like:
every answer passes a gate that lets it through only while its generation is the current one.

A `Desk` is the session of a document and its runs under way.  `Desk.act` takes one step, and what
has to be asked or told to others is its output.  A timer that fires and the work it starts, a gate
and the announcement behind it, an announcement and what is scheduled after it are steps of their
own, so that other steps may come between them.  An `Operation` is a row of steps that nothing
interrupts.
-/

namespace DialectBridge.Pipeline

/-- A dialect text with the host text and map compiled from it. -/
structure Translation where
  text : String
  host : String
  map : SourceMap
  deriving DecidableEq, Repr, Inhabited

/-- A verification to be done for a generation. -/
structure VerifyJob extends Translation where
  generation : Nat
  deriving DecidableEq, Repr, Inhabited

/-- A session whose compile jobs are generations. -/
abbrev DocumentSession := Session Nat VerifyJob

/-- What is told about a document. -/
inductive Announcement where
  | publish (diagnostics : List Diagnostic)
  | clear
  | fault (message : String)
  deriving DecidableEq, Repr

/-- Work under way. -/
inductive Run where
  /-- The compile timer has fired. -/
  | starting (generation : Nat)
  /-- The compiler is at work on a text. -/
  | compiling (generation : Nat) (text : String)
  /-- The gate is passed: something is to be told, and then perhaps a verification scheduled. -/
  | announcing (generation : Nat) (what : Announcement) (next : Option Translation)
  /-- A verification is to be scheduled. -/
  | scheduling (job : VerifyJob)
  /-- The verify timer has fired. -/
  | checking (job : VerifyJob)
  /-- The verifier is at work. -/
  | verifying (job : VerifyJob)
  /-- The verifier has found something, which is to be put in dialect coordinates. -/
  | mapping (job : VerifyJob) (found : List Finding)
  deriving DecidableEq, Repr

/-- The generation a run works for. -/
def Run.generation : Run → Nat
  | .starting generation => generation
  | .compiling generation _ => generation
  | .announcing generation _ _ => generation
  | .scheduling job => job.generation
  | .checking job => job.generation
  | .verifying job => job.generation
  | .mapping job _ => job.generation

/-- A document and the work on it. -/
structure Desk where
  session : DocumentSession
  runs : List Run
  deriving DecidableEq, Repr, Inhabited

/-- How a run goes on. -/
inductive Step where
  | begin
  | compiled (answer : Compiler.Answer)
  | announce
  | schedule
  | check
  | verified (answer : Verifier.Answer)
  | map

/-- A step of the pipeline. -/
inductive Action where
  | edit (text : String)
  | close
  | compileTimer
  | verifyTimer
  | run (generation : Nat) (step : Step)

/-- What a step asks of others or tells them. -/
inductive Output where
  | compile (generation : Nat) (text : String)
  | verify (job : VerifyJob)
  | tell (generation : Nat) (what : Announcement)
  deriving DecidableEq, Repr

/-- What comes of a step of a run: the session, the run that goes on, and what is asked or told. -/
structure Progress where
  session : DocumentSession
  next : Option Run
  output : List Output

/-- The phase after a compilation that gave a host text. -/
def compiledPhase (verify : Bool) : Phase :=
  if verify then .compilingHostVerify else .published

/-- What lies behind a gate: the phase to enter, what to tell, and what to verify later on. -/
structure Passage where
  phase : Phase
  what : Announcement
  next : Option Translation
  deriving DecidableEq, Repr

/-- The gate that an answer of the compiler to a text opens. -/
def compileGate (verify : Bool) (text : String) : Compiler.Answer → Passage
  | .error fault => ⟨.idle, .fault fault.message, none⟩
  | .ok (.rejected diagnostics) => ⟨.failedDialect, .publish diagnostics, none⟩
  | .ok (.compiled host map) =>
    ⟨compiledPhase verify, .clear, if verify then some ⟨text, host, map⟩ else none⟩

namespace Run

/-- The gate of a generation: a phase is entered and the run goes on, or it ends here. -/
def pass (session : DocumentSession) (generation : Nat) (phase : Phase) (next : Run) : Progress :=
  match session.advance generation phase with
  | (session, true) => ⟨session, some next, []⟩
  | (session, false) => ⟨session, none, []⟩

/-- A compilation begins, with the text of its generation. -/
def begin (session : DocumentSession) (generation : Nat) : Progress :=
  match session.advanceWithText generation .compilingDialect with
  | (session, none) => ⟨session, none, []⟩
  | (session, some text) => ⟨session, some (.compiling generation text), [.compile generation text]⟩

/-- The compiler has answered. -/
def compiled (verify : Bool) (session : DocumentSession) (generation : Nat) (text : String)
    (answer : Compiler.Answer) : Progress :=
  let gate := compileGate verify text answer
  pass session generation gate.phase (.announcing generation gate.what gate.next)

/-- A verification begins, if its generation is still the current one. -/
def check (session : DocumentSession) (job : VerifyJob) : Progress :=
  if session.isCurrent job.generation then ⟨session, some (.verifying job), [.verify job]⟩
  else ⟨session, none, []⟩

/-- The verifier has answered.  Without findings to map the document counts as published. -/
def verified (session : DocumentSession) (job : VerifyJob) : Verifier.Answer → Progress
  | .error _ => ⟨(session.advance job.generation .published).1, none, []⟩
  | .ok found => pass session job.generation .mapping (.mapping job found)

/-- The findings are in dialect coordinates. -/
def map (session : DocumentSession) (job : VerifyJob) (found : List Finding) : Progress :=
  let mapped := Finding.placeAll job.map found job.text.toList
  pass session job.generation .published (.announcing job.generation (.publish mapped) none)

/-- Takes a step, if it is the one the run is waiting for; `verify` tells whether host texts are
verified. -/
def take? (verify : Bool) (now : Nat) (session : DocumentSession) : Step → Run → Option Progress
  | .begin, .starting generation => some (begin session generation)
  | .compiled answer, .compiling generation text =>
    some (compiled verify session generation text answer)
  | .announce, .announcing generation what next =>
    some ⟨session, next.map fun t => .scheduling ⟨t, generation⟩, [.tell generation what]⟩
  | .schedule, .scheduling job =>
    some ⟨(session.scheduleVerify now job.generation job).1, none, []⟩
  | .check, .checking job => some (check session job)
  | .verified answer, .verifying job => some (verified session job answer)
  | .map, .mapping job found => some (map session job found)
  | _, _ => none

end Run

/-- Lets the first run that can go on do so; gives what comes of it, and the other runs. -/
def takeRun? (go : Run → Option Progress) : List Run → Option (Progress × List Run)
  | [] => none
  | run :: rest =>
    match go run with
    | some progress => some (progress, rest)
    | none => (takeRun? go rest).map fun found => (found.1, run :: found.2)

namespace Desk

/-- The desk of a new document. -/
def fresh (compileDelay verifyDelay : Nat) : Desk :=
  ⟨.fresh compileDelay verifyDelay, []⟩

/-- A new text: its compilation is scheduled. -/
def edit (d : Desk) (now : Nat) (text : String) : Desk :=
  let session := d.session.edit text
  { d with session := session.scheduleCompile now session.generation }

/-- The compile timer fires. -/
def compileTimer (d : Desk) : Desk :=
  let (timer, job) := d.session.compileTimer.fire
  ⟨{ d.session with compileTimer := timer }, d.runs ++ (job.map .starting).toList⟩

/-- The verify timer fires. -/
def verifyTimer (d : Desk) : Desk :=
  let (timer, job) := d.session.verifyTimer.fire
  ⟨{ d.session with verifyTimer := timer }, d.runs ++ (job.map .checking).toList⟩

/-- The step that the run of a generation takes, and the runs beside it. -/
def resume? (verify : Bool) (now : Nat) (d : Desk) (generation : Nat) (step : Step) :
    Option (Progress × List Run) :=
  let go (run : Run) : Option Progress :=
    if run.generation = generation then run.take? verify now d.session step else none
  takeRun? go d.runs

/-- The run of a generation goes on, if it is waiting for this step. -/
def resume (verify : Bool) (now : Nat) (d : Desk) (generation : Nat) (step : Step) :
    Desk × List Output :=
  match d.resume? verify now generation step with
  | none => (d, [])
  | some (progress, rest) =>
    (⟨progress.session, rest ++ progress.next.toList⟩, progress.output)

/-- Takes a step at a time. -/
def act (verify : Bool) (now : Nat) (d : Desk) : Action → Desk × List Output
  | .edit text => (d.edit now text, [])
  | .close => ({ d with session := d.session.close }, [])
  | .compileTimer => (d.compileTimer, [])
  | .verifyTimer => (d.verifyTimer, [])
  | .run generation step => d.resume verify now generation step

/-- Takes steps in a row. -/
def perform (verify : Bool) (now : Nat) : Desk → List Action → Desk × List Output
  | d, [] => (d, [])
  | d, action :: rest =>
    let (d, output) := d.act verify now action
    let (d, later) := perform verify now d rest
    (d, output ++ later)

end Desk

/-- What happens to a document without interruption. -/
inductive Operation where
  | edit (text : String)
  | close
  /-- The compile timer fires and its compilation begins. -/
  | compileTimer
  /-- The verify timer fires and its verification begins. -/
  | verifyTimer
  /-- The compiler answers; what there is to tell is told, and a verification scheduled. -/
  | compileReturn (generation : Nat) (answer : Compiler.Answer)
  /-- The verifier answers; what there is to tell is told. -/
  | verifyReturn (generation : Nat) (answer : Verifier.Answer)

/-- The steps of an operation on a desk. -/
def Operation.actions (d : Desk) : Operation → List Action
  | .edit text => [.edit text]
  | .close => [.close]
  | .compileTimer =>
    match d.session.compileTimer.waiting with
    | none => []
    | some timer => [.compileTimer, .run timer.job .begin]
  | .verifyTimer =>
    match d.session.verifyTimer.waiting with
    | none => []
    | some timer => [.verifyTimer, .run timer.job.generation .check]
  | .compileReturn generation answer =>
    [.run generation (.compiled answer), .run generation .announce, .run generation .schedule]
  | .verifyReturn generation answer =>
    [.run generation (.verified answer), .run generation .map, .run generation .announce]

/-- Does an operation at a time. -/
def Desk.operate (verify : Bool) (now : Nat) (d : Desk) (operation : Operation) :
    Desk × List Output :=
  d.perform verify now (operation.actions d)

end DialectBridge.Pipeline
