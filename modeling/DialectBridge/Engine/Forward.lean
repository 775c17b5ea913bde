import DialectBridge.Engine.Basic
import DialectBridge.Host.Answer
import DialectBridge.Probe.Locate

/-!
# Forwarding to the host language service

Completion asks the service about a virtual document prepared from a probe; definition and hover
show it the dialect text itself.  Whatever goes wrong on the way to the service or in it gives no
result, except a fault of the compiler.
-/

namespace DialectBridge

/-- A completion request for a virtual document. -/
structure CompletionRequest where
  uri : Uri
  position : Position
  trigger : Option String
  deriving DecidableEq, Repr

/-- A request about a position of a text. -/
structure PositionRequest where
  uri : Uri
  text : String
  position : Position
  deriving DecidableEq, Repr

/-- A host language service with a state of its own.  It sees the time and the virtual documents,
and tells how long its answer takes. -/
structure HostService (σ : Type) where
  complete : σ → Nat → VirtualDocument.Registry → CompletionRequest →
    σ × Timed (Except ServiceError (Option Host.Completion))
  definition : σ → Nat → PositionRequest → σ × Timed (Except ServiceError (Option Json))
  hover : σ → Nat → PositionRequest → σ × Timed (Except ServiceError (Option Json))

namespace Engine

/-- The request to forward for a cursor: the virtual document is in the registry then.  Nothing comes
back if the compilation does not. -/
def prepareCompletion (tools : Toolchain) (e : Engine) (uri : Uri) (text : String)
    (cursor : Position) (trigger : Option String) :
    Engine × List Event × Option (Except Compiler.Fault (Option CompletionRequest)) :=
  match Probe.at? text.toList cursor with
  | none => (e, [], some (.ok none))
  | some probe =>
    match e.compile tools probe.text with
    | (e, seen, none) => (e, seen, none)
    | (e, seen, some (.error fault)) => (e, seen, some (.error fault))
    | (e, seen, some (.ok outcome)) =>
      match probe.locate outcome with
      | .error _ => (e, seen, some (.ok none))
      | .ok emulation =>
        ({ e with documents := e.documents.publish uri emulation.text }, seen,
          some (.ok (some ⟨VirtualDocument.uri uri, emulation.cursor, trigger⟩)))

/-- What is seen when a request is forwarded. -/
inductive Sight where
  | engine (event : Event)
  | completion (request : CompletionRequest) (text : Option String)
  | definition (request : PositionRequest)
  | hover (request : PositionRequest)
  deriving DecidableEq, Repr

variable {σ : Type}

/-- Completes at a cursor of a dialect text. -/
def complete (tools : Toolchain) (host : HostService σ) (e : Engine) (h : σ) (uri : Uri)
    (text : String) (cursor : Position) (trigger : Option String) :
    (Engine × σ) × List Sight × Option (Except Compiler.Fault (Option Host.Completion)) :=
  match e.prepareCompletion tools uri text cursor trigger with
  | (e, seen, none) => ((e, h), seen.map .engine, none)
  | (e, seen, some (.error fault)) => ((e, h), seen.map .engine, some (.error fault))
  | (e, seen, some (.ok none)) => ((e, h), seen.map .engine, some (.ok none))
  | (e, seen, some (.ok (some request))) =>
    let (h, timed) := host.complete h e.now e.documents request
    let forwarded := .completion request (e.documents.resolve? request.uri)
    let (e, later) := e.await tools timed.delay
    let result :=
      match timed.value with
      | .ok completion => completion.map (Host.Completion.normalize cursor)
      | .error _ => none
    ((e, h), seen.map .engine ++ forwarded :: later.map .engine, some (.ok result))

/-- The value of an answer, if there is one. -/
def valueOf {α : Type} : Except ServiceError (Option α) → Option α
  | .ok value => value
  | .error _ => none

/-- Looks up the definition of what stands at a position. -/
def definition (tools : Toolchain) (host : HostService σ) (e : Engine) (h : σ)
    (request : PositionRequest) : (Engine × σ) × List Sight × Option Json :=
  let (h, timed) := host.definition h e.now request
  let (e, later) := e.await tools timed.delay
  ((e, h), .definition request :: later.map .engine, valueOf timed.value)

/-- Looks up what is known of what stands at a position. -/
def hover (tools : Toolchain) (host : HostService σ) (e : Engine) (h : σ)
    (request : PositionRequest) : (Engine × σ) × List Sight × Option Json :=
  let (h, timed) := host.hover h e.now request
  let (e, later) := e.await tools timed.delay
  ((e, h), .hover request :: later.map .engine, valueOf timed.value)

end Engine

end DialectBridge
