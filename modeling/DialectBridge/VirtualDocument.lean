import DialectBridge.Text.Percent
import DialectBridge.Uri

/-!
# Virtual documents

Every dialect document owns at most one virtual document, which holds the host text prepared for
completion.  Its address is the escaped address of its owner under a scheme of its own, and ends in
the suffix by which the host language service tells its language.

* `VirtualDocument.uri` and `VirtualDocument.owner?` go from owner to virtual document and back;
* `Registry` keeps the texts by owner, the last one published for each.
-/

namespace DialectBridge

namespace VirtualDocument

/-- The scheme of virtual documents. -/
def scheme : String := "brewline-embedded"

/-- The authority and the slash before the escaped owner. -/
def authority : String := "//compiled/"

/-- The suffix that names the language. -/
def suffix : List Char := ".js".toList

/-- The address of the virtual document of `owner`. -/
def uri (owner : Uri) : Uri :=
  ⟨scheme, authority ++ String.ofList (Text.Percent.encode owner.text.toList ++ suffix)⟩

/-- A text without the given ending; `none` if it ends otherwise. -/
def dropEnding? (ending cs : List Char) : Option (List Char) :=
  if ending.isSuffixOf cs then some (cs.take (cs.length - ending.length)) else none

/-- The written address of the owner of a virtual document. -/
def owner? (u : Uri) : Option String :=
  if u.scheme = scheme then
    match u.path with
    | '/' :: rest =>
      ((dropEnding? suffix rest).bind Text.Percent.decode?).map String.ofList
    | _ => none
  else none

/-- The registered texts, by the written address of their owners. -/
structure Registry where
  entries : List (String × String)
  deriving DecidableEq, Repr, Inhabited

namespace Registry

/-- The registry without texts. -/
def empty : Registry :=
  ⟨[]⟩

/-- The text kept under a written address. -/
def lookup? (r : Registry) (owner : String) : Option String :=
  (r.entries.find? fun entry => entry.1 = owner).map (·.2)

/-- Registers the text of a document, in place of an earlier one. -/
def publish (r : Registry) (owner : Uri) (text : String) : Registry :=
  ⟨(owner.text, text) :: r.entries.filter fun entry => entry.1 ≠ owner.text⟩

/-- The text registered for a document. -/
def get? (r : Registry) (owner : Uri) : Option String :=
  r.lookup? owner.text

/-- The text of a virtual document. -/
def resolve? (r : Registry) (u : Uri) : Option String :=
  (owner? u).bind r.lookup?

end Registry

end VirtualDocument

end DialectBridge
