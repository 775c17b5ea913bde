import DialectBridge.Json.Position
import DialectBridge.Json.Shape
import DialectBridge.Uri

/-!
# Parameters of the editor protocol

Reads the parameters of the methods the server implements.  How addresses are read is left open.
-/

namespace DialectBridge.Editor.Params

variable (readUri : String → Option Uri)

/-- The address of a document. -/
def uri? (j : Json) : Option Uri :=
  j.asString?.bind readUri

/-- The fields of a record that can only be written as an object. -/
def members? : Json → Option Json.Fields
  | .obj fields => some fun name => (Json.obj fields).get? name
  | _ => none

/-- The address in a record that names a document. -/
def document? (j : Json) : Option Uri := do
  (← j.fields? ["uri"] 0).required "uri" (uri? readUri)

/-- A section of what the editor can do; what stands in it does not matter. -/
def section? : Json → Option Unit
  | .obj _ => some ()
  | .arr _ => some ()
  | _ => none

/-- What the editor can do. -/
def capabilities? (j : Json) : Option Unit := do
  let sections := ["workspace", "textDocument", "window", "general"]
  let fields ← j.fields? (sections ++ ["experimental"]) 0
  let _ ← sections.mapM fun name => fields.optional name section?

/-- A folder the editor works in: its address and name. -/
def folder? (j : Json) : Option (Uri × String) := do
  let fields ← j.fields? ["uri", "name"] 0
  return (← fields.required "uri" (uri? readUri), ← fields.required "name" Json.asString?)

/-- The name of the editor and its version. -/
def client? (j : Json) : Option (String × Option String) := do
  let fields ← j.fields? ["name", "version"] 0
  return (← fields.required "name" Json.asString?, ← fields.optional "version" Json.asString?)

/-- How much the editor wants to be told of the server's work. -/
def trace? : Json → Option Json :=
  Json.Shape.word ["off", "messages", "verbose"]

/-- The options of the first request, `null` if there are none.  What else the request tells has to
be sound. -/
def options? (j : Json) : Option Json := do
  let fields ← j.fields? ["processId", "rootPath", "rootUri", "initializationOptions",
    "capabilities", "trace", "workspaceFolders", "clientInfo", "locale"] 0
  let _ ← fields.optional "processId" Json.asUInt32?
  let _ ← fields.optional "rootPath" Json.asString?
  let _ ← fields.optional "rootUri" (uri? readUri)
  let _ ← fields.required "capabilities" capabilities?
  let _ ← fields.optional "trace" trace?
  let _ ← fields.optional "workspaceFolders" (Json.listOf? (folder? readUri))
  let _ ← fields.optional "clientInfo" client?
  let _ ← fields.optional "locale" Json.asString?
  return .orNull (fields "initializationOptions")

/-- A document that is opened: its address and text. -/
def opened? (j : Json) : Option (Uri × String) := do
  let item ← (← j.fields? ["textDocument"] 0).required "textDocument"
    fun d => d.fields? ["uri", "languageId", "version", "text"] 0
  let uri ← item.required "uri" (uri? readUri)
  let _ ← item.required "languageId" Json.asString?
  let _ ← item.required "version" Json.Shape.int32
  return (uri, ← item.required "text" Json.asString?)

/-- The text of a change; a range has to be sound, but the text is taken as a whole. -/
def change? (j : Json) : Option String := do
  let fields ← j.fields? ["range", "rangeLength", "text"] 0
  let _ ← fields.optional "range" Range.ofJson?
  let _ ← fields.optional "rangeLength" Json.asUInt32?
  fields.required "text" Json.asString?

/-- A document that changes: its address and the texts it takes on. -/
def changed? (j : Json) : Option (Uri × List String) := do
  let fields ← j.fields? ["textDocument", "contentChanges"] 0
  let document ← fields.required "textDocument" fun d => d.fields? ["uri", "version"] 0
  let uri ← document.required "uri" (uri? readUri)
  let _ ← document.required "version" Json.Shape.int32
  return (uri, ← fields.required "contentChanges" (Json.listOf? change?))

/-- A document that is closed. -/
def closed? (j : Json) : Option Uri := do
  (← j.fields? ["textDocument"] 0).required "textDocument" (document? readUri)

/-- A name for a piece of work, under which its progress could be told. -/
def token? : Json → Option Json :=
  Json.Shape.firstOf [Json.Shape.int32, Json.Shape.string]

/-- A position of a document, from a record that may also have the given tokens. -/
def positionIn? (tokens : List String) (fields : Json.Fields) : Option (Uri × Position) := do
  let _ ← tokens.mapM fun name => fields.optional name token?
  return (← fields.required "textDocument" (document? readUri),
    ← fields.required "position" Position.ofJson?)

/-- A position to describe. -/
def hover? (j : Json) : Option (Uri × Position) := do
  positionIn? readUri ["workDoneToken"] (← members? j)

/-- A position whose definition is asked for. -/
def definition? (j : Json) : Option (Uri × Position) := do
  positionIn? readUri ["workDoneToken", "partialResultToken"] (← members? j)

/-- The character that asked for completion. -/
def trigger? (j : Json) : Option (Option String) := do
  let fields ← j.fields? ["triggerKind", "triggerCharacter"] 0
  let _ ← fields.required "triggerKind" Json.Shape.int32
  fields.optional "triggerCharacter" Json.asString?

/-- A position to complete at, and the character that asked for it. -/
def completion? (j : Json) : Option (Uri × Position × Option String) := do
  let fields ← members? j
  let (uri, position) ← positionIn? readUri ["workDoneToken", "partialResultToken"] fields
  let trigger ← fields.optional "context" trigger?
  return (uri, position, trigger.join)

end DialectBridge.Editor.Params
