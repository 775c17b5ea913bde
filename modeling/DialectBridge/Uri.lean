/-!
# Document addresses

A document address is a scheme, in lower case, and what follows its colon.  `Uri.parse?` takes
addresses to be in normal form already; only the case of the scheme is brought into it.  Whoever reads
addresses of unknown form brings a reader along.
-/

namespace DialectBridge

/-- The address of a document. -/
structure Uri where
  scheme : String
  rest : String
  deriving DecidableEq, Repr, Inhabited

namespace Uri

/-- A character a scheme may have after its first letter. -/
def isSchemeChar (c : Char) : Bool :=
  c.isAlphanum || c = '+' || c = '-' || c = '.'

/-- Reads an address; a text without a scheme is none. -/
def ofChars? (cs : List Char) : Option Uri :=
  let scheme := cs.takeWhile isSchemeChar
  match scheme, cs.dropWhile isSchemeChar with
  | first :: _, ':' :: rest =>
    if first.isAlpha then some ⟨String.ofList (scheme.map Char.toLower), String.ofList rest⟩
    else none
  | _, _ => none

/-- Reads an address. -/
def parse? (s : String) : Option Uri :=
  ofChars? s.toList

/-- The written form. -/
def text (u : Uri) : String :=
  u.scheme ++ ":" ++ u.rest

/-- What stands before the query and the fragment. -/
def beforeQuery (cs : List Char) : List Char :=
  cs.takeWhile fun c => c ≠ '?' && c ≠ '#'

/-- The path: what follows the authority, if there is one, up to the query or the fragment. -/
def path (u : Uri) : List Char :=
  match u.rest.toList with
  | '/' :: '/' :: rest => (beforeQuery rest).dropWhile (· ≠ '/')
  | rest => beforeQuery rest

end Uri

end DialectBridge
