import DialectBridge.Json.Position
import DialectBridge.Json.Shape
import DialectBridge.Uri

/-!
# Answers of the host language service

The service answers requests for completion, definition and hover with values of fixed shapes.
Completion items are taken apart only as far as their edits: these are in host coordinates and are
moved to the cursor in the dialect text (`Completion.normalize`).
-/

namespace DialectBridge.Host

open Json (Shape)
open Json.Shape

namespace Shapes

/-- An unsigned integer of 32 bits. -/
def uint32 : Shape := fun j => j.asUInt32?.map fun _ => j

/-- A place in a text. -/
def position : Shape := record [field "line" uint32, field "character" uint32]

/-- A stretch of a text. -/
def range : Shape := record [field "start" position, field "end" position]

/-- The address of a document, in normal form. -/
def uri : Shape := fun j => (j.asString?.bind Uri.parse?).map fun u => .str u.text

/-- Text with a markup language. -/
def markup : Shape :=
  record [field "kind" (word ["plaintext", "markdown"]), field "value" string]

/-- A replacement of a range. -/
def textEdit : Shape := record [field "range" range, field "newText" string]

/-- A command of the editor. -/
def command : Shape :=
  record [field "title" string, field "command" string, option "arguments" (list any)]

/-- The fields of a completion item before its edit. -/
def itemFields : List Field :=
  [field "label" string,
    option "labelDetails" (record [option "detail" string, option "description" string]),
    option "kind" int32, option "detail" string,
    option "documentation" (firstOf [string, markup]),
    option "deprecated" bool, option "preselect" bool, option "sortText" string,
    option "filterText" string, option "insertText" string, option "insertTextFormat" int32,
    option "insertTextMode" int32, option "textEdit" any,
    option "additionalTextEdits" (list textEdit), option "command" command,
    option "commitCharacters" (list string), option "data" any, option "tags" (list int32)]

/-- A place in a document. -/
def location : Shape := record [field "uri" uri, field "range" range]

/-- A link from a stretch of text to a place in a document. -/
def locationLink : Shape :=
  record [option "originSelectionRange" range, field "targetUri" uri, field "targetRange" range,
    field "targetSelectionRange" range]

/-- The answer to a definition request. -/
def definition : Shape := firstOf [location, list location, list locationLink]

/-- Plain markup, or text of a language. -/
def markedString : Shape :=
  firstOf [string, record [field "language" string, field "value" string]]

/-- The answer to a hover request. -/
def hover : Shape :=
  record [field "contents" (firstOf [markedString, list markedString, markup]),
    option "range" range]

end Shapes

/-- The edit of a completion item. -/
inductive ItemEdit where
  | replace (range : Range) (newText : String)
  | insertReplace (newText : String) (insert replace : Range)
  deriving DecidableEq, Repr

namespace ItemEdit

/-- Reads an edit; a range counts before separate ranges. -/
def ofJson? (j : Json) : Option ItemEdit :=
  let plain : Option ItemEdit := do
    let fields ← j.fields? ["range", "newText"] 0
    return .replace (← fields.required "range" Range.ofJson?)
      (← fields.required "newText" Json.asString?)
  let separate : Option ItemEdit := do
    let fields ← j.fields? ["newText", "insert", "replace"] 0
    return .insertReplace (← fields.required "newText" Json.asString?)
      (← fields.required "insert" Range.ofJson?) (← fields.required "replace" Range.ofJson?)
  plain.or separate

/-- The JSON form. -/
def toJson : ItemEdit → Json
  | .replace range newText => .object [("range", range.toJson), ("newText", .str newText)]
  | .insertReplace newText inserted replaced =>
    .object [("newText", .str newText), ("insert", inserted.toJson), ("replace", replaced.toJson)]

/-- The edit at the cursor of the dialect text: a replacement covers the character before it, and
separate ranges are both empty there. -/
def moveTo (cursor : Position) : ItemEdit → ItemEdit
  | .replace _ newText =>
    .replace ⟨⟨cursor.line, UInt32.ofNat (cursor.character.toNat - 1)⟩, cursor⟩ newText
  | .insertReplace newText _ _ => .insertReplace newText (Range.at cursor) (Range.at cursor)

end ItemEdit

/-- A completion item: its edit and its other fields in normal form. -/
structure CompletionItem where
  edit : Option ItemEdit
  fields : List (String × Json)

namespace CompletionItem

/-- Reads an item. -/
def ofJson? (j : Json) : Option CompletionItem := do
  let fields ← fieldsOf? Shapes.itemFields j
  match (Json.object fields).get? "textEdit" with
  | none => return ⟨none, fields⟩
  | some edit =>
    let edit ← ItemEdit.ofJson? edit
    return ⟨some edit, fields.filter fun f => f.1 ≠ "textEdit"⟩

/-- The JSON form. -/
def toJson (item : CompletionItem) : Json :=
  .object (item.fields ++ (item.edit.map fun edit => ("textEdit", edit.toJson)).toList)

/-- The item with its edit at the cursor. -/
def moveTo (cursor : Position) (item : CompletionItem) : CompletionItem :=
  { item with edit := item.edit.map (ItemEdit.moveTo cursor) }

end CompletionItem

/-- The answer to a completion request: items alone, or a list that may be incomplete. -/
inductive Completion where
  | array (items : List CompletionItem)
  | list (isIncomplete : Bool) (items : List CompletionItem)

namespace Completion

/-- Reads an answer. -/
def ofJson? (j : Json) : Option Completion :=
  let plain : Option Completion := (j.listOf? CompletionItem.ofJson?).map .array
  let list : Option Completion := do
    let fields ← j.fields? ["isIncomplete", "items"] 0
    return .list (← fields.required "isIncomplete" Json.asBool?)
      (← fields.required "items" (Json.listOf? CompletionItem.ofJson?))
  plain.or list

/-- The JSON form. -/
def toJson : Completion → Json
  | .array items => .arr (items.map CompletionItem.toJson)
  | .list isIncomplete items =>
    .object [("isIncomplete", .bool isIncomplete), ("items", .arr (items.map CompletionItem.toJson))]

/-- Moves the edits of all items to the cursor of the dialect text. -/
def normalize (cursor : Position) : Completion → Completion
  | .array items => .array (items.map (CompletionItem.moveTo cursor))
  | .list isIncomplete items => .list isIncomplete (items.map (CompletionItem.moveTo cursor))

end Completion

end DialectBridge.Host
