import DialectBridge.Json.Basic

/-!
# Remote-procedure messages

A request has an id, a method and parameters; a notification has no id; a response has the id of
the request it answers and a result or an error.
-/

namespace DialectBridge.Host.Message

/-- The protocol version every message carries. -/
def version : String × Json :=
  ("jsonrpc", .str "2.0")

/-- A request. -/
def request (id : Int) (method : String) (params : Json) : Json :=
  .object [version, ("id", .int id), ("method", .str method), ("params", params)]

/-- A notification. -/
def notification (method : String) (params : Json) : Json :=
  .object [version, ("method", .str method), ("params", params)]

/-- A response with a result. -/
def response (id result : Json) : Json :=
  .object [version, ("id", id), ("result", result)]

end DialectBridge.Host.Message
