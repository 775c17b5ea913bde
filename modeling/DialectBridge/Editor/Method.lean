/-!
# Methods of the editor protocol

The editor calls methods by name, as requests or as notifications.  The server implements some; the
other methods of the standard are known to it and refused.
-/

namespace DialectBridge.Editor

/-- A method the server knows. -/
inductive Method where
  | setUp
  | shutdown
  | exit
  | initialized
  | didOpen
  | didChange
  | didClose
  | completion
  | definition
  | hover
  | virtualDocument
  /-- Calls off a request that is under way. -/
  | cancel
  /-- A request of the standard that is not implemented. -/
  | otherRequest
  /-- A notification of the standard that is passed over. -/
  | otherNotification
  deriving DecidableEq, Repr

namespace Method

/-- The method is called as a request. -/
def isRequest : Method → Bool
  | .setUp | .shutdown | .completion | .definition | .hover | .virtualDocument
  | .otherRequest => true
  | .exit | .initialized | .didOpen | .didChange | .didClose | .cancel
  | .otherNotification => false

/-- The methods that are implemented, by name. -/
def implemented : List (String × Method) :=
  [("initialize", .setUp), ("shutdown", .shutdown), ("exit", .exit),
    ("initialized", .initialized), ("textDocument/didOpen", .didOpen),
    ("textDocument/didChange", .didChange), ("textDocument/didClose", .didClose),
    ("textDocument/completion", .completion), ("textDocument/definition", .definition),
    ("textDocument/hover", .hover), ("brewline/virtualDocument", .virtualDocument),
    ("$/cancelRequest", .cancel)]

/-- The other requests of the standard. -/
def otherRequests : List String :=
  ["textDocument/willSaveWaitUntil", "textDocument/declaration", "textDocument/typeDefinition",
    "textDocument/implementation", "textDocument/references", "textDocument/prepareCallHierarchy",
    "callHierarchy/incomingCalls", "callHierarchy/outgoingCalls",
    "textDocument/prepareTypeHierarchy", "typeHierarchy/supertypes", "typeHierarchy/subtypes",
    "textDocument/documentHighlight", "textDocument/documentLink", "documentLink/resolve",
    "textDocument/codeLens", "codeLens/resolve", "textDocument/foldingRange",
    "textDocument/selectionRange", "textDocument/documentSymbol",
    "textDocument/semanticTokens/full", "textDocument/semanticTokens/full/delta",
    "textDocument/semanticTokens/range", "textDocument/inlineValue", "textDocument/inlayHint",
    "inlayHint/resolve", "textDocument/moniker", "completionItem/resolve",
    "textDocument/diagnostic", "workspace/diagnostic", "textDocument/signatureHelp",
    "textDocument/codeAction", "codeAction/resolve", "textDocument/documentColor",
    "textDocument/colorPresentation", "textDocument/formatting", "textDocument/rangeFormatting",
    "textDocument/onTypeFormatting", "textDocument/rename", "textDocument/prepareRename",
    "textDocument/linkedEditingRange", "workspace/symbol", "workspaceSymbol/resolve",
    "workspace/willCreateFiles", "workspace/willRenameFiles", "workspace/willDeleteFiles",
    "workspace/executeCommand"]

/-- The other notifications of the standard. -/
def otherNotifications : List String :=
  ["textDocument/willSave", "textDocument/didSave", "workspace/didChangeWorkspaceFolders",
    "workspace/didChangeConfiguration", "workspace/didChangeWatchedFiles",
    "workspace/didCreateFiles", "workspace/didRenameFiles", "workspace/didDeleteFiles"]

/-- The method with a name. -/
def ofName? (name : String) : Option Method :=
  match implemented.find? fun entry => entry.1 = name with
  | some entry => some entry.2
  | none =>
    if otherRequests.contains name then some .otherRequest
    else if otherNotifications.contains name then some .otherNotification
    else none

end Method

end DialectBridge.Editor
