import DialectBridge.Json.Position
import DialectBridge.Host.Link

/-!
# Requests to the host language server

The parameters of the messages that are sent to the server.
-/

namespace DialectBridge.Host.Request

/-- The parameters of the first request; `processId` tells who asks. -/
def initializeParams (processId : Json) : Json :=
  .object
    [("processId", processId), ("rootUri", .null),
      ("capabilities", .object
        [("textDocument", .object
          [("completion", .object
            [("completionItem", .object [("insertReplaceSupport", .bool true)])])])])]

/-- The message after the first reply. -/
def initialized : Json :=
  Message.notification "initialized" (.object [])

/-- The last message. -/
def exit : Json :=
  Message.notification "exit" .null

/-- The fields that name a position of a document. -/
def positionFields (uri : Uri) (position : Position) : List (String × Json) :=
  [("textDocument", .object [("uri", .str uri.text)]), ("position", position.toJson)]

/-- The parameters of definition and hover requests. -/
def positionParams (uri : Uri) (position : Position) : Json :=
  .object (positionFields uri position)

/-- How completion was asked for: by a character or by a command. -/
def context : Option String → Json
  | some character =>
    .object [("triggerKind", .nat 2), ("triggerCharacter", .str character)]
  | none => .object [("triggerKind", .nat 1)]

/-- The parameters of a completion request. -/
def completionParams (uri : Uri) (position : Position) (trigger : Option String) : Json :=
  .object (positionFields uri position ++ [("context", context trigger)])

end DialectBridge.Host.Request
