import DialectBridge.Editor.Server
import DialectBridge.Host.Message

/-!
# Messages on the wire

A message of the editor is a call, which is a request if it has an id, or the answer to a request of
the server.  What the server answers carries the id of the request, and what it tells by itself has
none.  What is no message is answered too, without an id.
-/

namespace DialectBridge.Editor

/-- A call of the editor: a request if it has an id. -/
structure Call where
  method : String
  id : Option Json
  params : Option Json

/-- A message of the editor. -/
inductive Incoming where
  | call (call : Call)
  /-- The answer to a request of the server. -/
  | answer

namespace Incoming

/-- The version of the protocol that every message names. -/
def version? (j : Json) : Option Unit :=
  if j.asString? = some "2.0" then some () else none

/-- The id of a message: a number, a text, or `null`. -/
def id? : Json → Option Json
  | .null => some .null
  | .str s => some (.str s)
  | j => j.asInt64?.map .int

/-- What an error tells; it has no other fields. -/
def error? (j : Json) : Option Unit := do
  let names := ["code", "message", "data"]
  let fields ← j.fields? names 0
  let _ ← fields.required "code" Json.asInt64?
  let _ ← fields.required "message" Json.asString?
  match j with
  | .obj members => if members.all fun member => names.contains member.1 then some () else none
  | _ => some ()

/-- Reads an answer: it has an id, and a result or an error. -/
def answer? (j : Json) : Option Incoming := do
  let fields ← Params.members? j
  let _ ← fields.required "jsonrpc" version?
  let _ ← fields.required "id" id?
  if (fields "result").isSome then return .answer
  else return (← (fields.required "error" error?).map fun _ => .answer)

/-- Reads a call; one without a method calls the empty one. -/
def call? (j : Json) : Option Incoming := do
  let fields ← j.fields? ["jsonrpc", "method", "params", "id"] 3
  let _ ← fields.required "jsonrpc" version?
  let method ← fields.defaulting "method" "" Json.asString?
  let id ← fields.defaulting "id" none fun j => (id? j).map some
  return .call ⟨method, id, fields "params"⟩

/-- Reads a message. -/
def ofJson? (j : Json) : Option Incoming :=
  (answer? j).or (call? j)

end Incoming

/-- The JSON form of an error. -/
def RequestError.toJson (e : RequestError) : Json :=
  .object ([("code", .int e.code), ("message", .str e.message)] ++
    (e.data.map fun data => ("data", data)).toList)

/-- The message that carries a response. -/
def Response.toMessage? (id : Json) : Response → Option Json
  | .exited => none
  | .silent => none
  | .result value => some (Host.Message.response id value)
  | .error e => some (.object [Host.Message.version, ("id", id), ("error", e.toJson)])

/-- The message that carries what the server tells by itself. -/
def withVersion : Json → Json
  | .obj fields => .object (Host.Message.version :: fields)
  | j => j

namespace Server

variable {σ : Type}

/-- Takes a value from the wire; gives the response to send, if there is one. -/
def receive (env : Surroundings σ) (s : Server σ) (value : Json) :
    Server σ × List ToolCall × Option Json :=
  match Incoming.ofJson? value with
  | none => (s, [], (Response.error .invalidRequest).toMessage? .null)
  | some .answer => (s, [], none)
  | some (.call c) =>
    let (s, calls, response) := s.call env c.method c.id.isSome c.params
    (s, calls, c.id.bind fun id => response.toMessage? id)

end Server

end DialectBridge.Editor
