import DialectBridge.Host.Message
import DialectBridge.Host.ServiceError
import DialectBridge.Uri

/-!
# A connection to a language server

A link numbers its requests and remembers those that wait for a reply.  A request is settled once:
by the first response with its number, by its expiry, or by the end of the stream.  Requests of the
server are answered with `null`, so that it never waits for us.

* `request` and `sync` make the messages to send;
* `receive`, `expire` and `finish` settle requests.
-/

namespace DialectBridge.Host

/-- What becomes of a request. -/
abbrev Reply := Except ServiceError Json

/-- The state of a connection. -/
structure Link where
  /-- The number of the next request. -/
  nextId : Int
  /-- The requests that wait for a reply. -/
  pending : List Int
  /-- The version of every document the server knows, by its written address.  Versions have 32
  bits. -/
  versions : List (String × Int32)
  deriving DecidableEq, Repr, Inhabited

/-- Messages to send, and requests that are settled, both in order. -/
structure LinkEffect where
  send : List Json
  settled : List (Int × Reply)

namespace LinkEffect

/-- Nothing happens. -/
def none : LinkEffect := ⟨[], []⟩

end LinkEffect

namespace Link

/-- A new connection; requests count from one. -/
def fresh : Link :=
  ⟨1, [], []⟩

/-- Issues a request: its number, and the message to send. -/
def request (l : Link) (method : String) (params : Json) : Link × Int × Json :=
  ({ l with nextId := l.nextId + 1, pending := l.pending ++ [l.nextId] }, l.nextId,
    Message.request l.nextId method params)

/-- The language the server takes all documents for. -/
def languageId : String := "javascript"

/-- The message that opens a document. -/
def didOpen (uri : Uri) (text : String) : Json :=
  Message.notification "textDocument/didOpen"
    (.object [("textDocument", .object
      [("uri", .str uri.text), ("languageId", .str languageId), ("version", .nat 1),
        ("text", .str text)])])

/-- The message that gives a document a new text. -/
def didChange (uri : Uri) (version : Int32) (text : String) : Json :=
  Message.notification "textDocument/didChange"
    (.object
      [("textDocument", .object [("uri", .str uri.text), ("version", .int version.toInt)]),
        ("contentChanges", .arr [.object [("text", .str text)]])])

/-- The version the server has of a document. -/
def version? (l : Link) (uri : Uri) : Option Int32 :=
  (l.versions.find? fun entry => entry.1 = uri.text).map (·.2)

/-- Notes the version of a document. -/
def setVersion (l : Link) (uri : Uri) (version : Int32) : Link :=
  { l with versions := (uri.text, version) :: l.versions.filter fun entry => entry.1 ≠ uri.text }

/-- Brings a document of the server up to date: it is opened the first time, and has its whole text
replaced afterwards. -/
def sync (l : Link) (uri : Uri) (text : String) : Link × Json :=
  match l.version? uri with
  | none => (l.setVersion uri 1, didOpen uri text)
  | some version => (l.setVersion uri (version + 1), didChange uri (version + 1) text)

/-- The error in a response: its code and message, as far as they have the right type. -/
def serverError (error : Json) : ServiceError :=
  .server (((error.get? "code").bind Json.asInt64?).getD 0)
    (((error.get? "message").bind Json.asString?).getD "")

/-- The reply in a response: an error counts before a result, and no result is `null`. -/
def replyOf (message : Json) : Reply :=
  match message.get? "error" with
  | some error => .error (serverError error)
  | none => .ok (.orNull (message.get? "result"))

/-- The id of a message; `null` is none. -/
def idOf? (message : Json) : Option Json :=
  (message.get? "id").filter fun id => !id.isNull

/-- The method of a message, if it is a string. -/
def methodOf? (message : Json) : Option String :=
  (message.get? "method").bind Json.asString?

/-- Settles a request that waits. -/
def settle (l : Link) (id : Int) (reply : Reply) : Link × LinkEffect :=
  if l.pending.contains id then
    ({ l with pending := l.pending.filter fun p => p ≠ id }, ⟨[], [(id, reply)]⟩)
  else (l, .none)

/-- Takes a message of the server: a request is answered, a response settles its request, anything
else is passed over. -/
def receive (l : Link) (message : Json) : Link × LinkEffect :=
  match idOf? message, methodOf? message with
  | some id, some _ => (l, ⟨[Message.response id .null], []⟩)
  | some id, none =>
    match id.asInt64? with
    | some n => l.settle n (replyOf message)
    | none => (l, .none)
  | none, _ => (l, .none)

/-- The message that takes a request back. -/
def cancelRequest (id : Int) : Json :=
  Message.notification "$/cancelRequest" (.object [("id", .int id)])

/-- The time of a request is over: the server is asked to forget it. -/
def expire (l : Link) (id : Int) (limit : Nat) : Link × LinkEffect :=
  if l.pending.contains id then
    ({ l with pending := l.pending.filter fun p => p ≠ id },
      ⟨[cancelRequest id], [(id, .error (.timeout limit))]⟩)
  else (l, .none)

/-- The server's stream has ended: all requests that wait are settled. -/
def finish (l : Link) : Link × LinkEffect :=
  ({ l with pending := [] }, ⟨[], l.pending.map fun id => (id, .error .closed)⟩)

end Link

end DialectBridge.Host
