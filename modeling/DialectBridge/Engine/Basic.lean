import DialectBridge.Pipeline.Desk
import DialectBridge.Program.Calls
import DialectBridge.Settings
import DialectBridge.Timing.Guarded
import DialectBridge.VirtualDocument

/-!
# The engine

The engine works on all documents at once.  It owns the caches of compiled and verified texts, the
virtual documents, one desk for each session, and the calls to compiler and verifier that have not
come back yet.  A result enters its cache when it comes back, whether or not its session still wants
it.  A run whose cache fails is lost: nothing more is heard of it, and its session stays as it is.
The desk of a session that has been closed stays for the calls that belong to it.

* `edit` and `close` change a session;
* `advance` lets time pass, in which timers fire and calls come back;
* `compile` and `verify` ask for a result at once, and let the time pass that it takes.
-/

namespace DialectBridge

/-- The programs the engine calls: what they answer to a text, and when. -/
structure Toolchain where
  compile : String → Timed Compiler.Answer
  verify : String → Timed Verifier.Answer

/-- The programs that the settings name. -/
def Programs.toolchain (p : Programs) (settings : Settings) : Toolchain where
  compile := p.compile settings.compiler
  verify := p.verify settings.verifier settings.verifyTimeoutMs

/-- A session, by the document it is for and its number among all sessions. -/
structure SessionId where
  uri : Uri
  number : Nat
  deriving DecidableEq, Repr, Inhabited

namespace Engine

open Pipeline

/-- A call that has not come back yet. -/
inductive Call where
  | compile (sid : SessionId) (generation : Nat) (text : String) (answer : Compiler.Answer)
  | verify (sid : SessionId) (job : VerifyJob) (answer : Verifier.Answer)

/-- What is seen of the engine. -/
inductive Event where
  | compile (text : String)
  | verify (host : String)
  | tell (sid : SessionId) (what : Announcement)
  deriving DecidableEq, Repr

/-- The call of a program that is seen, by the settings that hold. -/
def Event.call? (settings : Settings) : Event → Option ToolCall
  | .compile text => some (.compile settings.compiler text)
  | .verify host => some (.verify settings.verifier host)
  | .tell _ _ => none

end Engine

/-- The engine with all it owns. -/
structure Engine where
  settings : Settings
  now : Nat
  compiled : Guarded Compiler.Outcome
  verified : Guarded (List Finding)
  documents : VirtualDocument.Registry
  desks : List (SessionId × Pipeline.Desk)
  calls : List (Timer Engine.Call)

namespace Engine

open Pipeline

/-- An engine at the start. -/
def start (settings : Settings) : Engine :=
  { settings
    now := 0
    compiled := .empty "compile" settings.cacheTtlMs
    verified := .empty "verify" settings.cacheTtlMs
    documents := .empty
    desks := []
    calls := [] }

/-- The desk of a session; a session never seen has a fresh one. -/
def desk (e : Engine) (sid : SessionId) : Desk :=
  match e.desks.find? fun entry => entry.1 = sid with
  | some entry => entry.2
  | none => .fresh e.settings.compileDebounceMs e.settings.verifyDebounceMs

/-- Puts the desk of a session in its place. -/
def putDesk (sid : SessionId) (desk : Desk) : List (SessionId × Desk) → List (SessionId × Desk)
  | [] => [(sid, desk)]
  | entry :: rest =>
    if entry.1 = sid then (sid, desk) :: rest else entry :: putDesk sid desk rest

/-- Does an operation on a session. -/
def operate (e : Engine) (sid : SessionId) (operation : Operation) : Engine × List Output :=
  let (desk, output) := (e.desk sid).operate e.settings.verify e.now operation
  ({ e with desks := putDesk sid desk e.desks }, output)

/-- What a session tells. -/
def tellings (sid : SessionId) (output : List Output) : List Event :=
  output.filterMap fun
    | .tell _ what => some (.tell sid what)
    | _ => none

/-- Hands a compiler's answer to its session, which tells what there is to tell. -/
def settleCompile (e : Engine) (sid : SessionId) (generation : Nat) (answer : Compiler.Answer) :
    Engine × List Event :=
  let (e, output) := e.operate sid (.compileReturn generation answer)
  (e, tellings sid output)

/-- Hands a verifier's answer to its session, which tells what there is to tell. -/
def settleVerify (e : Engine) (sid : SessionId) (generation : Nat) (answer : Verifier.Answer) :
    Engine × List Event :=
  let (e, output) := e.operate sid (.verifyReturn generation answer)
  (e, tellings sid output)

/-- Keeps an outcome in the cache; a fault is not kept.  Gives the answer that counts, unless the
cache fails. -/
def keepCompiled (e : Engine) (text : String) : Compiler.Answer → Engine × Option Compiler.Answer
  | .error fault => (e, some (.error fault))
  | .ok outcome =>
    let (kept, compiled) := e.compiled.put e.now text outcome
    ({ e with compiled }, kept.map .ok)

/-- Keeps findings in the cache; a failure is not kept.  Gives the answer that counts, unless the
cache fails. -/
def keepVerified (e : Engine) (host : String) : Verifier.Answer → Engine × Option Verifier.Answer
  | .error failure => (e, some (.error failure))
  | .ok found =>
    let (kept, verified) := e.verified.put e.now host found
    ({ e with verified }, kept.map .ok)

/-- A compilation comes back. -/
def landCompile (e : Engine) (sid : SessionId) (generation : Nat) (text : String)
    (answer : Compiler.Answer) : Engine × List Event :=
  match e.keepCompiled text answer with
  | (e, none) => (e, [])
  | (e, some answer) => e.settleCompile sid generation answer

/-- A verification comes back. -/
def landVerify (e : Engine) (sid : SessionId) (job : VerifyJob) (answer : Verifier.Answer) :
    Engine × List Event :=
  match e.keepVerified job.host answer with
  | (e, none) => (e, [])
  | (e, some answer) => e.settleVerify sid job.generation answer

/-- A call comes back. -/
def land (e : Engine) : Call → Engine × List Event
  | .compile sid generation text answer => e.landCompile sid generation text answer
  | .verify sid job answer => e.landVerify sid job answer

/-- Waits for a call, or lets it come back at once if it takes no time. -/
def dispatch (e : Engine) (delay : Nat) (call : Call) : Engine × List Event :=
  if delay = 0 then e.land call
  else ({ e with calls := e.calls ++ [⟨e.now + delay, call⟩] }, [])

/-- Does what a step of a pipeline asks for; results in a cache need no call. -/
def serve (tools : Toolchain) (sid : SessionId) (e : Engine) : Output → Engine × List Event
  | .tell _ what => (e, [.tell sid what])
  | .compile generation text =>
    match e.compiled.get e.now text with
    | (.failed, compiled) => ({ e with compiled }, [])
    | (.hit outcome, compiled) => settleCompile { e with compiled } sid generation (.ok outcome)
    | (.miss, compiled) =>
      let timed := tools.compile text
      let (e, later) :=
        dispatch { e with compiled } timed.delay (.compile sid generation text timed.value)
      (e, .compile text :: later)
  | .verify job =>
    match e.verified.get e.now job.host with
    | (.failed, verified) => ({ e with verified }, [])
    | (.hit found, verified) => settleVerify { e with verified } sid job.generation (.ok found)
    | (.miss, verified) =>
      let timed := tools.verify job.host
      let (e, later) := dispatch { e with verified } timed.delay (.verify sid job timed.value)
      (e, .verify job.host :: later)

/-- Does all that a step of a pipeline asks for. -/
def serveAll (tools : Toolchain) (sid : SessionId) : Engine → List Output → Engine × List Event
  | e, [] => (e, [])
  | e, output :: rest =>
    let (e, seen) := e.serve tools sid output
    let (e, later) := serveAll tools sid e rest
    (e, seen ++ later)

/-- The document of a session has a new text. -/
def edit (e : Engine) (sid : SessionId) (text : String) : Engine :=
  (e.operate sid (.edit text)).1

/-- A session is closed. -/
def close (e : Engine) (sid : SessionId) : Engine :=
  (e.operate sid .close).1

/-- What happens next. -/
inductive Due where
  | compileTimer (sid : SessionId)
  | verifyTimer (sid : SessionId)
  | call (index : Nat)
  deriving DecidableEq, Repr

/-- The armed timers of a session, by the time they are due. -/
def deskDues (entry : SessionId × Desk) : List (Timer Due) :=
  (entry.2.session.compileTimer.due?.map fun due => ⟨due, .compileTimer entry.1⟩).toList ++
    (entry.2.session.verifyTimer.due?.map fun due => ⟨due, .verifyTimer entry.1⟩).toList

/-- All that is to happen, by the time it is due. -/
def dues (e : Engine) : List (Timer Due) :=
  e.calls.mapIdx (fun index call => ⟨call.due, .call index⟩) ++ e.desks.flatMap deskDues

/-- The first of the earliest. -/
def earliest? : List (Timer Due) → Option (Timer Due)
  | [] => none
  | timer :: rest =>
    match earliest? rest with
    | none => some timer
    | some other => if other.due < timer.due then some other else some timer

/-- Does what is due next. -/
def step (tools : Toolchain) (e : Engine) : Engine × List Event :=
  match earliest? e.dues with
  | none => (e, [])
  | some next =>
    let e := { e with now := next.due }
    match next.job with
    | .compileTimer sid =>
      let (e, output) := e.operate sid .compileTimer
      e.serveAll tools sid output
    | .verifyTimer sid =>
      let (e, output) := e.operate sid .verifyTimer
      e.serveAll tools sid output
    | .call index =>
      match e.calls[index]? with
      | none => (e, [])
      | some call => land { e with calls := e.calls.eraseIdx index } call.job

/-- The steps that a desk's timers can still cause: a compilation and its return, a verification
and its return. -/
def deskSteps (desk : Desk) : Nat :=
  (if desk.session.compileTimer.waiting.isSome then 4 else 0) +
    (if desk.session.verifyTimer.waiting.isSome then 2 else 0)

/-- The steps that a call can still cause. -/
def callSteps : Call → Nat
  | .compile .. => 3
  | .verify .. => 1

/-- The engine as a machine with a clock. -/
def clockwork (tools : Toolchain) : Clockwork Engine Event where
  due? e := (earliest? e.dues).map Timer.due
  step := step tools
  remaining e :=
    e.desks.foldr (fun entry n => deskSteps entry.2 + n) 0 +
      e.calls.foldr (fun c n => callSteps c.job + n) 0

/-- Lets `ms` milliseconds pass. -/
def advance (tools : Toolchain) (e : Engine) (ms : Nat) : Engine × List Event :=
  let (last, seen) := (clockwork tools).runTo (e.now + ms) e
  ({ last with now := e.now + ms }, seen)

/-- Lets the time pass that an answer takes; no time is no step. -/
def await (tools : Toolchain) (e : Engine) (ms : Nat) : Engine × List Event :=
  if ms = 0 then (e, []) else e.advance tools ms

/-- Compiles a text, through the cache; there is no answer if the cache fails. -/
def compile (tools : Toolchain) (e : Engine) (text : String) :
    Engine × List Event × Option Compiler.Answer :=
  match e.compiled.get e.now text with
  | (.failed, compiled) => ({ e with compiled }, [], none)
  | (.hit outcome, compiled) => ({ e with compiled }, [], some (.ok outcome))
  | (.miss, compiled) =>
    let timed := tools.compile text
    let (e, seen) := await tools { e with compiled } timed.delay
    let (e, answer) := e.keepCompiled text timed.value
    (e, .compile text :: seen, answer)

/-- Verifies a host text, through the cache; there is no answer if the cache fails. -/
def verify (tools : Toolchain) (e : Engine) (host : String) :
    Engine × List Event × Option Verifier.Answer :=
  match e.verified.get e.now host with
  | (.failed, verified) => ({ e with verified }, [], none)
  | (.hit found, verified) => ({ e with verified }, [], some (.ok found))
  | (.miss, verified) =>
    let timed := tools.verify host
    let (e, seen) := await tools { e with verified } timed.delay
    let (e, answer) := e.keepVerified host timed.value
    (e, .verify host :: seen, answer)

end Engine

end DialectBridge
