import DialectBridge.Engine.Forward
import DialectBridge.Host.Server

/-!
# Talking to a server process

An exchange is the host language server together with the process behind it.  The process is given
by how it takes messages: it may write bytes and it may end.  Messages take no time; only a request
that nobody answers does, namely the time limit.

* `ask` carries one task through;
* `service` makes a host language service of an exchange.
-/

namespace DialectBridge.Host

namespace Call

/-- Asks about a position of a text. -/
def ofPosition (method : String) (r : PositionRequest) : Call :=
  ⟨r.uri, r.text, method, Request.positionParams r.uri r.position⟩

/-- Asks for completion in a virtual document, with the text it has now. -/
def ofCompletion? (documents : VirtualDocument.Registry) (r : CompletionRequest) : Option Call :=
  (documents.resolve? r.uri).map fun text =>
    ⟨r.uri, text, "textDocument/completion", Request.completionParams r.uri r.position r.trigger⟩

/-- Asks where what stands at a position is defined. -/
def definition : PositionRequest → Call :=
  ofPosition "textDocument/definition"

/-- Asks what is known of what stands at a position. -/
def hover : PositionRequest → Call :=
  ofPosition "textDocument/hover"

end Call

/-- What a process does on a message. -/
inductive PeerAct where
  | write (bytes : List UInt8)
  | exit

/-- A server process, with a state that outlives restarts. -/
structure Peer (σ : Type) where
  /-- The process is started, or fails to start. -/
  start : σ → Except OsError σ
  /-- The process takes a message. -/
  receive : σ → Json → σ × List PeerAct

/-- The server and the state of its process. -/
structure Exchange (σ : Type) where
  server : Server
  state : σ

namespace Exchange

variable {σ : Type}

/-- What is left to do, and the answer if there is one. -/
structure Pump (σ : Type) where
  exchange : Exchange σ
  todo : List ServerOutput
  answer : Option Reply

/-- Lets the server take a step. -/
def Pump.act (p : Pump σ) (action : ServerAction) : Pump σ :=
  let (server, output) := p.exchange.server.act action
  { p with exchange := { p.exchange with server }, todo := p.todo ++ output }

/-- The process has ended, and its output with it. -/
def Pump.gone (p : Pump σ) (n : Nat) : Pump σ :=
  (p.act (.died n)).act (.ended n)

/-- Lets the process do things, until it ends. -/
def Pump.perform (n : Nat) : Pump σ → List PeerAct → Pump σ
  | p, [] => p
  | p, .write bytes :: rest => Pump.perform n (p.act (.bytes n bytes)) rest
  | p, .exit :: _ => p.gone n

/-- Lets the caller that has the connection go on, before anything else is done. -/
def Pump.proceed (p : Pump σ) : Pump σ :=
  let q := Pump.act { p with todo := [] } .proceed
  { q with todo := q.todo ++ p.todo }

/-- Does one thing the server asks for.  Messages to a process that has ended are lost. -/
def Pump.serve (peer : Peer σ) (p : Pump σ) : ServerOutput → Pump σ
  | .start _ => p
  | .proceed => p.proceed
  | .send n message =>
    if p.exchange.server.alive? n then
      let (state, acts) := peer.receive p.exchange.state message
      Pump.perform n { p with exchange := { p.exchange with state } } acts
    else p
  | .stop n => p.gone n
  | .wake n id => p.act (.resume n id)
  | .answer _ reply => { p with answer := some reply }

/-- Does all that is left to do, at most `fuel` things. -/
def Pump.run (peer : Peer σ) : Nat → Pump σ → Pump σ
  | 0, p => p
  | fuel + 1, p =>
    match p.todo with
    | [] => p
    | output :: rest => Pump.run peer fuel (Pump.serve peer { p with todo := rest } output)

/-- How many things one task may lead to. -/
def patience : Nat := 100000

/-- The request that is waited for: the start of the server, or the last request sent. -/
def awaited? (s : Server) : Option (Nat × Int) :=
  match s.starting with
  | some start => some (start.connection, start.request)
  | none => s.waiting.getLast?.map fun w => (w.connection, w.request)

/-- The process has to be started for the next task, and would be. -/
def startFailure (peer : Peer σ) (e : Exchange σ) : Option OsError :=
  match peer.start e.state with
  | .error cause => some cause
  | .ok _ => none

/-- Notes that the process has been started, if the server has asked for it. -/
def noteStart (peer : Peer σ) (p : Pump σ) : Pump σ :=
  let asked := p.todo.any fun
    | .start _ => true
    | _ => false
  if asked then
    match peer.start p.exchange.state with
    | .ok state => { p with exchange := { p.exchange with state } }
    | .error _ => p
  else p

/-- Carries one task through; without an answer it expires. -/
def ask (peer : Peer σ) (e : Exchange σ) (task : Task) : Exchange σ × Timed Reply :=
  let p : Pump σ := ⟨e, [], none⟩
  let p := (p.act (.ask ⟨0, task⟩)).act (.enter (startFailure peer e))
  let p := Pump.run peer patience (noteStart peer p)
  match p.answer with
  | some reply => (p.exchange, ⟨0, reply⟩)
  | none =>
    match awaited? p.exchange.server with
    | none => (p.exchange, ⟨0, .error .closed⟩)
    | some (n, id) =>
      let p := Pump.run peer patience (p.act (.expire n id))
      (p.exchange, ⟨p.exchange.server.limit, p.answer.getD (.error .closed)⟩)

/-- How long a process may take to end, in milliseconds, before it is stopped. -/
def graceMs : Nat := 500

/-- Shuts the server down; tells how long that takes. -/
def shutdown (peer : Peer σ) (e : Exchange σ) : Exchange σ × Nat :=
  match e.server.current with
  | none => (e, 0)
  | some n =>
    let (e, timed) := e.ask peer .shutdown
    if e.server.alive? n then
      ((Pump.gone ⟨e, [], none⟩ n).exchange, timed.delay + graceMs)
    else (e, timed.delay)

/-- Reads the value of a reply, which may be `null`. -/
def decode {α : Type} (read : Json → Option α) : Reply → Except ServiceError (Option α)
  | .error failure => .error failure
  | .ok .null => .ok none
  | .ok value =>
    match read value with
    | some a => .ok (some a)
    | none => .error .badShape

/-- Carries a call about a position through. -/
def position (peer : Peer σ) (e : Exchange σ) (call : Call) (read : Json → Option Json) :
    Exchange σ × Timed (Except ServiceError (Option Json)) :=
  let (e, timed) := e.ask peer (.call call)
  (e, ⟨timed.delay, decode read timed.value⟩)

/-- Asks for completion in a virtual document. -/
def complete (peer : Peer σ) (e : Exchange σ) (documents : VirtualDocument.Registry)
    (r : CompletionRequest) : Exchange σ × Timed (Except ServiceError (Option Completion)) :=
  match Call.ofCompletion? documents r with
  | none => (e, ⟨0, .error (.noVirtualDocument r.uri.text)⟩)
  | some call =>
    let (e, timed) := e.ask peer (.call call)
    (e, ⟨timed.delay, decode Completion.ofJson? timed.value⟩)

/-- The host language service of an exchange. -/
def service (peer : Peer σ) : HostService (Exchange σ) where
  complete e _ documents request := complete peer e documents request
  definition e _ request := position peer e (.definition request) Shapes.definition
  hover e _ request := position peer e (.hover request) Shapes.hover

end Exchange

end DialectBridge.Host
