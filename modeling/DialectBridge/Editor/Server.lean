import DialectBridge.Editor.Method
import DialectBridge.Editor.Params
import DialectBridge.Engine.Forward

/-!
# The language server for the editor

The server is set up by the first request, which may bring options; then it follows the documents
the editor opens, changes and closes, tells their diagnostics, and answers questions about them.
After its shutdown it answers nothing more, and after its exit it is gone.

* `Server.call` takes a message of the editor by the rules of the protocol;
* `Server.handle` is what the message means, whatever the protocol says of its time;
* `outbox` holds what is told to the editor.
-/

namespace DialectBridge.Editor

/-- Where the server stands in its life. -/
inductive Lifecycle where
  | uninitialized
  | initialized
  | shutDown
  | exited
  deriving DecidableEq, Repr, Inhabited

/-- Why a request is refused. -/
structure RequestError where
  code : Int
  message : String
  data : Option Json := none

namespace RequestError

/-- What came is no message. -/
def parseError : RequestError := ⟨-32700, "Parse error", none⟩

/-- The server has not been set up. -/
def notInitialized : RequestError := ⟨-32002, "Server not initialized", none⟩

/-- The request comes at the wrong time. -/
def invalidRequest : RequestError := ⟨-32600, "Invalid request", none⟩

/-- The method is not implemented. -/
def methodNotFound (data : Option Json) : RequestError := ⟨-32601, "Method not found", data⟩

/-- The parameters are wrong. -/
def invalidParams (message : String) : RequestError := ⟨-32602, message, none⟩

/-- The server failed. -/
def internalError (message : String) : RequestError := ⟨-32603, message, none⟩

end RequestError

/-- What the editor gets for a message. -/
inductive Response where
  | exited
  | silent
  | result (value : Json)
  | error (error : RequestError)

/-- What the server is put into: programs, the host language service, and a way to read addresses. -/
structure Surroundings (σ : Type) where
  programs : Programs
  host : HostService σ
  startHost : Settings → σ
  /-- Stops the service, and tells how long that takes. -/
  stopHost : σ → σ × Nat
  readUri : String → Option Uri := Uri.parse?

/-- What the server works with once it is set up. -/
structure Workspace (σ : Type) where
  engine : Engine
  host : σ

/-- The server. -/
structure Server (σ : Type) where
  base : Settings
  lifecycle : Lifecycle
  workspace : Option (Workspace σ)
  /-- The sessions of the documents that are open. -/
  sessions : List SessionId
  /-- How many sessions there have been. -/
  made : Nat
  /-- What is told to the editor, in order. -/
  outbox : List Json

namespace Server

variable {σ : Type}

/-- A server before its first request. -/
def start (base : Settings) : Server σ :=
  ⟨base, .uninitialized, none, [], 0, []⟩

/-- A message to the editor. -/
def message (method : String) (params : Json) : Json :=
  .object [("method", .str method), ("params", params)]

/-- The message that tells all diagnostics of a document. -/
def diagnosticsMessage (uri : Uri) (diagnostics : List Diagnostic) : Json :=
  message "textDocument/publishDiagnostics"
    (.object [("uri", .str uri.text), ("diagnostics", .arr (diagnostics.map Diagnostic.toJson))])

/-- A line for the editor's log: 1 is an error, 3 an information. -/
def logMessage (kind : Nat) (text : String) : Json :=
  message "window/logMessage" (.object [("type", .nat kind), ("message", .str text)])

/-- Diagnostics can be told once the server is set up. -/
def maySpeak (s : Server σ) : Bool :=
  s.lifecycle = .initialized || s.lifecycle = .shutDown

/-- What is told to the editor of a document. -/
def telling (s : Server σ) (uri : Uri) : Pipeline.Announcement → List Json
  | .publish diagnostics => if s.maySpeak then [diagnosticsMessage uri diagnostics] else []
  | .clear => if s.maySpeak then [diagnosticsMessage uri []] else []
  | .fault text => [logMessage 1 s!"{uri.text}: {text}"]

/-- Tells the editor what the engine has to tell. -/
def deliver (s : Server σ) (events : List Engine.Event) : Server σ :=
  let told := events.flatMap fun
    | .tell sid what => s.telling sid.uri what
    | _ => []
  { s with outbox := s.outbox ++ told }

/-- The session of a document that is open. -/
def session? (s : Server σ) (uri : Uri) : Option SessionId :=
  s.sessions.find? fun sid => sid.uri = uri

/-- The text of a document that is open. -/
def textOf? (s : Server σ) (uri : Uri) : Option String :=
  (s.session? uri).bind fun sid => s.workspace.map fun w => (w.engine.desk sid).session.text

/-- Opens a new session for a document, unless it has one. -/
def openSession (s : Server σ) (uri : Uri) : Server σ × SessionId :=
  match s.session? uri with
  | some sid => (s, sid)
  | none =>
    ({ s with sessions := s.sessions ++ [⟨uri, s.made⟩], made := s.made + 1 }, ⟨uri, s.made⟩)

/-- A document has a new text; it is open from then on. -/
def edit (s : Server σ) (uri : Uri) (text : String) : Server σ :=
  match s.workspace with
  | none => s
  | some w =>
    let (s, sid) := s.openSession uri
    { s with workspace := some { w with engine := w.engine.edit sid text } }

/-- Closes the session of a document that is open.  The session goes, and what is under way for it
finds it closed; another session is made when the document is opened again. -/
def closeSession (s : Server σ) (uri : Uri) : Server σ :=
  match s.session? uri with
  | none => s
  | some sid =>
    { s with
      workspace := s.workspace.map fun w => { w with engine := w.engine.close sid }
      sessions := s.sessions.filter fun other => other.uri ≠ uri }

/-- Closes the sessions of all documents that are open. -/
def closeAll (s : Server σ) : Server σ :=
  s.sessions.foldl (fun s sid => s.closeSession sid.uri) s

/-- A document is closed, and its diagnostics are cleared. -/
def close (s : Server σ) (uri : Uri) : Server σ :=
  let s := s.closeSession uri
  if s.workspace.isSome then { s with outbox := s.outbox ++ s.telling uri .clear } else s

/-- What the server tells of itself. -/
def capabilities : Json :=
  .object
    [("capabilities", .object
      [("textDocumentSync", .nat 1),
        ("completionProvider", .object [("triggerCharacters", .arr [.str ".", .str "\""])]),
        ("definitionProvider", .bool true), ("hoverProvider", .bool true)]),
      ("serverInfo", .object [("name", .str "brewline"), ("version", .str "0.1.0")])]

/-- Sets the server up; options that come later do not count. -/
def setUp (env : Surroundings σ) (s : Server σ) (options : Json) :
    Server σ × Except RequestError Json :=
  match s.base.merge options with
  | .error e => (s, .error (.invalidParams e.message))
  | .ok settings =>
    match s.workspace with
    | some _ => (s, .ok capabilities)
    | none =>
      ({ s with workspace := some ⟨.start settings, env.startHost settings⟩ }, .ok capabilities)

/-- The events of the engine among what is seen. -/
def engineEvents (seen : List Engine.Sight) : List Engine.Event :=
  seen.filterMap fun
    | .engine event => some event
    | _ => none

/-- What a message does: the server after it, the programs that were called, and the answer, which
fails to come if the work on it is lost. -/
structure Handled (σ : Type) where
  server : Server σ
  calls : List ToolCall
  answer : Option (Except RequestError Json)

/-- Nothing but an answer. -/
def reply (s : Server σ) (answer : Except RequestError Json) : Handled σ :=
  ⟨s, [], some answer⟩

/-- Takes over what the engine has done; gives the calls it made. -/
def follow (s : Server σ) (engine : Engine) (host : σ) (events : List Engine.Event) :
    Server σ × List ToolCall :=
  (deliver { s with workspace := some ⟨engine, host⟩ } events,
    events.filterMap (Engine.Event.call? engine.settings))

/-- Takes over what a forwarded request has done. -/
def adopt (s : Server σ) (state : Engine × σ) (seen : List Engine.Sight)
    (answer : Option (Except RequestError Json)) : Handled σ :=
  let (s, calls) := s.follow state.1 state.2 (engineEvents seen)
  ⟨s, calls, answer⟩

/-- Completes at a position of a document. -/
def complete (env : Surroundings σ) (s : Server σ) (uri : Uri) (position : Position)
    (trigger : Option String) : Handled σ :=
  match s.workspace, s.textOf? uri with
  | some w, some text =>
    let tools := env.programs.toolchain w.engine.settings
    let (state, seen, result) := w.engine.complete tools env.host w.host uri text position trigger
    s.adopt state seen <| result.map fun
      | .error fault => .error (.internalError fault.message)
      | .ok completion => .ok (.orNull (completion.map Host.Completion.toJson))
  | _, _ => s.reply (.ok .null)

/-- Asks about a position of a document. -/
def lookUp (env : Surroundings σ) (s : Server σ) (uri : Uri) (position : Position)
    (ask : Toolchain → HostService σ → Engine → σ → PositionRequest →
      (Engine × σ) × List Engine.Sight × Option Json) : Handled σ :=
  match s.workspace, s.textOf? uri with
  | some w, some text =>
    let tools := env.programs.toolchain w.engine.settings
    let (state, seen, result) := ask tools env.host w.engine w.host ⟨uri, text, position⟩
    s.adopt state seen (some (.ok (.orNull result)))
  | _, _ => s.reply (.ok .null)

/-- The text of a virtual document. -/
def virtualText (s : Server σ) (uri : Uri) : Json :=
  .orNull ((s.workspace.bind fun w => w.engine.documents.resolve? uri).map .str)

/-- Closes all documents and stops the host language service. -/
def shutDown (env : Surroundings σ) (s : Server σ) : Handled σ :=
  let s := s.closeAll
  match s.workspace with
  | none => s.reply (.ok .null)
  | some w =>
    let (host, ms) := env.stopHost w.host
    let (engine, events) := w.engine.await (env.programs.toolchain w.engine.settings) ms
    let (s, calls) := s.follow engine host events
    ⟨s, calls, some (.ok .null)⟩

/-- Reads the parameters of a method and goes on with them. -/
def withParams {α : Type} (s : Server σ) (params : Option Json) (read : Json → Option α)
    (handler : α → Handled σ) : Handled σ :=
  match params with
  | none => s.reply (.error (.invalidParams "Missing params field"))
  | some j =>
    match read j with
    | none => s.reply (.error (.invalidParams "Invalid params"))
    | some a => handler a

/-- What a message means. -/
def handle (env : Surroundings σ) (s : Server σ) (method : Method) (params : Option Json) :
    Handled σ :=
  match method with
  | .setUp => s.withParams params (Params.options? env.readUri) fun options =>
    let (s, answer) := s.setUp env options
    s.reply answer
  | .initialized => s.withParams params (Json.fields? [] 0) fun _ =>
    reply { s with outbox := s.outbox ++ [logMessage 3 "brewline initialized"] } (.ok .null)
  | .didOpen => s.withParams params (Params.opened? env.readUri) fun (uri, text) =>
    (s.edit uri text).reply (.ok .null)
  | .didChange => s.withParams params (Params.changed? env.readUri) fun (uri, texts) =>
    match texts.getLast? with
    | none => s.reply (.ok .null)
    | some text => (s.edit uri text).reply (.ok .null)
  | .didClose => s.withParams params (Params.closed? env.readUri) fun uri =>
    (s.close uri).reply (.ok .null)
  | .completion => s.withParams params (Params.completion? env.readUri) fun
    (uri, position, trigger) => s.complete env uri position trigger
  | .definition => s.withParams params (Params.definition? env.readUri) fun (uri, position) =>
    s.lookUp env uri position Engine.definition
  | .hover => s.withParams params (Params.hover? env.readUri) fun (uri, position) =>
    s.lookUp env uri position Engine.hover
  | .virtualDocument => s.withParams params (Params.document? env.readUri) fun uri =>
    s.reply (.ok (s.virtualText uri))
  | .shutdown =>
    match params with
    | none => s.shutDown env
    | some j => s.reply (.error (.invalidParams s!"Unexpected params: {j.render}"))
  | .exit => s.reply (.ok .null)
  | .otherRequest => s.withParams params some fun _ => s.reply (.error (.methodNotFound none))
  | .cancel | .otherNotification => s.reply (.ok .null)

/-- What the editor gets for a message at the wrong time. -/
def refusal (s : Server σ) (isRequest : Bool) : Response :=
  if !isRequest then .silent
  else
    match s.lifecycle with
    | .uninitialized => .error .notInitialized
    | _ => .error .invalidRequest

/-- What the editor gets for an answer: a notification has none. -/
def Handled.response (h : Handled σ) (isRequest : Bool) : Response :=
  if !isRequest then .silent
  else
    match h.answer with
    | none => .silent
    | some (.ok value) => .result value
    | some (.error e) => .error e

/-- What the editor gets for a message that is called in the wrong way or too often: a request is
refused, a notification passed over. -/
def rejection (isRequest : Bool) : Response :=
  if isRequest then .error .invalidRequest else .silent

/-- Handles a message that is called the way its method wants it. -/
def dispatch (env : Surroundings σ) (s : Server σ) (method : Method) (isRequest : Bool)
    (params : Option Json) : Server σ × List ToolCall × Response :=
  if method.isRequest ≠ isRequest then (s, [], rejection isRequest)
  else
    let handled := s.handle env method params
    (handled.server, handled.calls, handled.response isRequest)

/-- The server is set up after an answer without error. -/
def afterSetUp (s : Server σ) : Response → Server σ
  | .result _ => { s with lifecycle := .initialized }
  | _ => s

/-- What the editor gets for a method nobody knows. -/
def unknown (name : String) (isRequest : Bool) : Response :=
  if isRequest && !"$/".isPrefixOf name then .error (.methodNotFound (some (.str name)))
  else .silent

/-- Takes a message of the editor. -/
def call (env : Surroundings σ) (s : Server σ) (name : String) (isRequest : Bool)
    (params : Option Json) : Server σ × List ToolCall × Response :=
  if s.lifecycle = .exited then (s, [], .exited)
  else
    match Method.ofName? name with
    | none => (s, [], unknown name isRequest)
    | some .exit => ({ s with lifecycle := .exited }, [], .silent)
    | some .cancel => (s, [], rejection isRequest)
    | some .setUp =>
      if s.lifecycle = .uninitialized then
        let (s, calls, response) := s.dispatch env .setUp isRequest params
        (s.afterSetUp response, calls, response)
      else (s, [], rejection isRequest)
    | some .shutdown =>
      if s.lifecycle = .initialized then
        dispatch env { s with lifecycle := .shutDown } .shutdown isRequest params
      else (s, [], s.refusal isRequest)
    | some method =>
      if s.lifecycle = .initialized then s.dispatch env method isRequest params
      else (s, [], s.refusal isRequest)

/-- Lets time pass. -/
def pause (env : Surroundings σ) (s : Server σ) (ms : Nat) : Server σ × List ToolCall :=
  match s.workspace with
  | none => (s, [])
  | some w =>
    let (engine, events) := w.engine.advance (env.programs.toolchain w.engine.settings) ms
    s.follow engine w.host events

/-- The next thing the engine does by itself. -/
def step (env : Surroundings σ) (s : Server σ) : Server σ × List ToolCall :=
  match s.workspace with
  | none => (s, [])
  | some w =>
    let (engine, events) := w.engine.step (env.programs.toolchain w.engine.settings)
    s.follow engine w.host events

/-- The server as a machine with a clock: it moves as its engine does. -/
def clockwork (env : Surroundings σ) : Clockwork (Server σ) ToolCall where
  due? s := s.workspace.bind fun w =>
    (Engine.clockwork (env.programs.toolchain w.engine.settings)).due? w.engine
  step := step env
  remaining s :=
    match s.workspace with
    | none => 0
    | some w => (Engine.clockwork (env.programs.toolchain w.engine.settings)).remaining w.engine

/-- Waits until `count` messages are there, or no more can come, and takes them out. -/
def take (env : Surroundings σ) (s : Server σ) (count : Nat) :
    Server σ × List ToolCall × List Json :=
  let c := clockwork env
  let (s, calls) := c.runUntil (fun s => decide (count ≤ s.outbox.length)) (c.remaining s) s
  ({ s with outbox := s.outbox.drop count }, calls, s.outbox.take count)

end Server

end DialectBridge.Editor
