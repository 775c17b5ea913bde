import DialectBridge.Host.Frame
import DialectBridge.Host.Request

/-!
# The host language server

The server process is started for the first request, and again for a request that finds it gone.
Calls come from many sides: one at a time may look at the connection and start the server, the
others queue behind it.  A call that has the connection brings the document it is about up to date,
sends its request, and leaves the connection to the next one while it waits.  Between the two, only
what needs no turn is sent: answers to the server, and requests taken back.

A connection has two sides that end on their own: the bytes of the server, which may stop or become
unreadable, and the messages to it, which may no longer be taken.  Neither is the end of the process,
and only a process that has ended is started again.

`Server.act` takes one step, and tells what is to be done: start or stop a process, send a message,
let a caller go on whose reply is there, answer a caller.
-/

namespace DialectBridge.Host

/-- A call: the document it is about, with its text, and the request. -/
structure Call where
  uri : Uri
  text : String
  method : String
  params : Json

/-- What a caller wants. -/
inductive Task where
  | call (call : Call)
  | shutdown

/-- A caller with a task. -/
structure Ticket where
  caller : Nat
  task : Task

/-- A connection to a process. -/
structure Connection where
  link : Link
  /-- The bytes of the server that are no message yet. -/
  inbox : List UInt8
  /-- The server writes no more. -/
  ended : Bool
  /-- What the server writes is still read. -/
  reading : Bool
  /-- Messages to the server are still taken. -/
  writing : Bool
  /-- The process runs. -/
  alive : Bool

/-- A new connection. -/
def Connection.fresh : Connection :=
  ⟨.fresh, [], false, true, true, true⟩

/-- A caller that waits for the reply to a request, until the reply is there. -/
structure Waiting where
  connection : Nat
  request : Int
  caller : Nat
  /-- The connection is given up after the reply. -/
  closing : Bool
  reply : Option Reply

/-- A server that is being started, and the call it is started for. -/
structure Starting where
  connection : Nat
  request : Int
  caller : Nat
  call : Call
  reply : Option Reply

/-- The caller that has the connection, and its call. -/
structure Holder where
  connection : Nat
  caller : Nat
  call : Call
  /-- The document has been brought, and the request is to follow. -/
  brought : Bool

/-- The server with all its connections, numbered from zero. -/
structure Server where
  program : String
  limit : Nat
  processId : Json
  connections : List Connection
  current : Option Nat
  starting : Option Starting
  holder : Option Holder
  queue : List Ticket
  waiting : List Waiting

/-- A step. -/
inductive ServerAction where
  /-- A caller joins the queue. -/
  | ask (ticket : Ticket)
  /-- The first caller of the queue takes the connection.  If the process has to be started, this is
  what keeps it from starting. -/
  | enter (failure : Option OsError)
  /-- The caller that has the connection sends its next message. -/
  | proceed
  /-- The caller whose reply is there goes on. -/
  | resume (connection : Nat) (request : Int)
  /-- The server has written. -/
  | bytes (connection : Nat) (bytes : List UInt8)
  /-- The server writes no more. -/
  | ended (connection : Nat)
  /-- Messages to the server are no longer taken. -/
  | blocked (connection : Nat)
  /-- The process has ended. -/
  | died (connection : Nat)
  /-- The time of a request is over. -/
  | expire (connection : Nat) (request : Int)

/-- What a step asks for. -/
inductive ServerOutput where
  | start (connection : Nat)
  | proceed
  | send (connection : Nat) (message : Json)
  | stop (connection : Nat)
  | wake (connection : Nat) (request : Int)
  | answer (caller : Nat) (reply : Reply)

namespace Server

/-- A server that has not been started. -/
def idle (program : String) (limit : Nat) (processId : Json) : Server :=
  ⟨program, limit, processId, [], none, none, none, [], []⟩

/-- The process of a connection runs. -/
def alive? (s : Server) (n : Nat) : Bool :=
  (s.connections[n]?.map Connection.alive).getD false

/-- A connection still takes messages. -/
def writing? (s : Server) (n : Nat) : Bool :=
  (s.connections[n]?.map Connection.writing).getD false

/-- Changes a connection. -/
def modify (s : Server) (n : Nat) (f : Connection → Connection) : Server :=
  { s with connections := s.connections.modify n f }

/-- Changes the link of a connection. -/
def setLink (s : Server) (n : Nat) (link : Link) : Server :=
  s.modify n fun c => { c with link }

/-- The link of a connection. -/
def link (s : Server) (n : Nat) : Link :=
  (s.connections[n]?.map Connection.link).getD .fresh

/-- A caller takes a connection. -/
def hold (s : Server) (n caller : Nat) (call : Call) : Server :=
  { s with holder := some ⟨n, caller, call, false⟩ }

/-- Brings the document of a call up to date.  Its version counts on even if the connection takes no
messages. -/
def bring (s : Server) (h : Holder) : Server × List ServerOutput :=
  let (link, document) := (s.link h.connection).sync h.call.uri h.call.text
  let synced := s.setLink h.connection link
  if s.writing? h.connection then
    ({ synced with holder := some { h with brought := true } },
      [.send h.connection document, .proceed])
  else ({ synced with holder := none }, [.answer h.caller (.error .closed)])

/-- Sends the request of a call, which waits for the reply and leaves the connection.  Its number is
used up even if the connection takes no messages. -/
def pose (s : Server) (h : Holder) : Server × List ServerOutput :=
  let link := s.link h.connection
  let (asked, id, request) := link.request h.call.method h.call.params
  if s.writing? h.connection then
    ({ s.setLink h.connection asked with
        holder := none, waiting := s.waiting ++ [⟨h.connection, id, h.caller, false, none⟩] },
      [.send h.connection request])
  else
    ({ s.setLink h.connection { link with nextId := asked.nextId } with holder := none },
      [.answer h.caller (.error .closed)])

/-- The caller that has the connection goes on: the document comes first, then the request. -/
def proceed (s : Server) : Server × List ServerOutput :=
  match s.holder with
  | none => (s, [])
  | some h => if h.brought then s.pose h else s.bring h

/-- Starts a process for a call. -/
def launch (s : Server) (caller : Nat) (call : Call) : Server × List ServerOutput :=
  let n := s.connections.length
  let (link, id, request) := Link.fresh.request "initialize" (Request.initializeParams s.processId)
  ({ s with
      connections := s.connections ++ [{ Connection.fresh with link }]
      starting := some ⟨n, id, caller, call, none⟩ },
    [.start n, .send n request])

/-- Gives up the current connection, which is asked to shut down first. -/
def release (s : Server) (caller : Nat) : Server × List ServerOutput :=
  match s.current with
  | none => (s, [.answer caller (.ok .null)])
  | some n =>
    let s := { s with current := none }
    if s.writing? n then
      let (link, id, request) := (s.link n).request "shutdown" .null
      ({ s.setLink n link with waiting := s.waiting ++ [⟨n, id, caller, true, none⟩] },
        [.send n request])
    else (s, [.answer caller (.ok .null)])

/-- Starts a process, or tells why it does not start. -/
def relaunch (s : Server) (failure : Option OsError) (caller : Nat) (call : Call) :
    Server × List ServerOutput :=
  match failure with
  | some cause => (s, [.answer caller (.error (.spawn s.program cause))])
  | none => s.launch caller call

/-- Serves the first caller of the queue, unless the server is just being started or another caller
has the connection. -/
def enter (s : Server) (failure : Option OsError) : Server × List ServerOutput :=
  if s.starting.isSome || s.holder.isSome then (s, [])
  else
    match s.queue with
    | [] => (s, [])
    | ticket :: queue =>
      let s := { s with queue }
      match ticket.task with
      | .shutdown => s.release ticket.caller
      | .call call =>
        match s.current with
        | some n =>
          if s.alive? n then (s.hold n ticket.caller call, [.proceed])
          else s.relaunch failure ticket.caller call
        | none => s.relaunch failure ticket.caller call

/-- After the reply to the first request of a connection, the call goes ahead or fails with it. -/
def started (s : Server) (start : Starting) (reply : Reply) : Server × List ServerOutput :=
  let s := { s with starting := none }
  match reply with
  | .error failure => (s, [.stop start.connection, .answer start.caller (.error failure)])
  | .ok _ =>
    if s.writing? start.connection then
      let s := { s with current := some start.connection }
      (s.hold start.connection start.caller start.call,
        [.send start.connection Request.initialized, .proceed])
    else (s, [.stop start.connection, .answer start.caller (.error .closed)])

/-- A message, if the connection takes it. -/
def sendIf (s : Server) (n : Nat) (message : Json) : List ServerOutput :=
  if s.writing? n then [.send n message] else []

/-- A caller whose reply is there goes on with it.  A connection that is given up is told so. -/
def woken (s : Server) (w : Waiting) (reply : Reply) : Server × List ServerOutput :=
  let s := { s with waiting := s.waiting.filter fun other =>
    !(other.connection = w.connection && other.request = w.request) }
  if w.closing then
    (s, s.sendIf w.connection Request.exit ++ [.answer w.caller (.ok .null)])
  else (s, [.answer w.caller reply])

/-- The caller that waits for a request goes on, if its reply is there. -/
def resume (s : Server) (n : Nat) (id : Int) : Server × List ServerOutput :=
  match s.starting.filter fun start => start.connection = n && start.request = id with
  | some start =>
    match start.reply with
    | some reply => s.started start reply
    | none => (s, [])
  | none =>
    match s.waiting.find? fun w => w.connection = n && w.request = id with
    | some w =>
      match w.reply with
      | some reply => s.woken w reply
      | none => (s, [])
    | none => (s, [])

/-- Gives the caller that waits for a request its reply. -/
def deliver (n : Nat) (s : Server) (settled : Int × Reply) : Server :=
  { s with
    starting := s.starting.map fun start =>
      if start.connection = n ∧ start.request = settled.1 then
        { start with reply := some settled.2 }
      else start
    waiting := s.waiting.map fun w =>
      if w.connection = n ∧ w.request = settled.1 then { w with reply := some settled.2 } else w }

/-- Takes over what a link has done. -/
def takeOver (s : Server) (n : Nat) (link : Link) (effect : LinkEffect) :
    Server × List ServerOutput :=
  let s := effect.settled.foldl (deliver n) (s.setLink n link)
  (s, effect.send.flatMap (s.sendIf n) ++ effect.settled.map fun settled => .wake n settled.1)

/-- Nothing more is read from a connection. -/
def stopReading (s : Server) (n : Nat) : Server × List ServerOutput :=
  let s := s.modify n fun c => { c with reading := false, inbox := [] }
  let (link, effect) := (s.link n).finish
  s.takeOver n link effect

/-- Reads the messages that have come in whole.  A stream that cannot be read is read no further. -/
def readInbox (n : Nat) : Nat → Server → Server × List ServerOutput
  | 0, s => (s, [])
  | fuel + 1, s =>
    match s.connections[n]? with
    | none => (s, [])
    | some c =>
      if !c.reading then (s, [])
      else
        match Frame.next c.ended c.inbox with
        | .incomplete => (s, [])
        | .ended => s.stopReading n
        | .failed _ _ => s.stopReading n
        | .message value rest =>
          let s := s.modify n fun c => { c with inbox := rest }
          let (link, effect) := (s.link n).receive value
          let (s, output) := s.takeOver n link effect
          let (s, later) := readInbox n fuel s
          (s, output ++ later)

/-- Reads all messages of a connection; every message takes at least a byte. -/
def read (s : Server) (n : Nat) : Server × List ServerOutput :=
  readInbox n (((s.connections[n]?.map fun c => c.inbox.length).getD 0) + 1) s

/-- Takes a step. -/
def act (s : Server) : ServerAction → Server × List ServerOutput
  | .ask ticket => ({ s with queue := s.queue ++ [ticket] }, [])
  | .enter failure => s.enter failure
  | .proceed => s.proceed
  | .resume n id => s.resume n id
  | .bytes n bytes =>
    (s.modify n fun c => if c.reading then { c with inbox := c.inbox ++ bytes } else c).read n
  | .ended n => (s.modify n fun c => { c with ended := true }).read n
  | .blocked n => (s.modify n fun c => { c with writing := false }, [])
  | .died n => (s.modify n fun c => { c with alive := false }, [])
  | .expire n id =>
    let (link, effect) := (s.link n).expire id s.limit
    s.takeOver n link effect

end Server

end DialectBridge.Host
