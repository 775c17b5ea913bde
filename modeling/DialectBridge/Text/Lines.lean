/-!
# Lines and columns

A text is a list of characters.  Its lines are what stands between its line feeds, so a final
line feed is followed by one more, empty line, and every text has at least one line.  Columns are
UTF-16 units.

* `split` cuts at a separator; `joinLines` puts lines back together;
* `lineCount`, `lineAt?`, `lineLength` address the lines of a text, without a carriage return at
  their end;
* `terminatedLines` is the other reading of a text, as a sequence of records each ended by a line
  feed: it has no final empty record, and drops a carriage return only before a line feed.
-/

namespace DialectBridge.Text

/-- UTF-16 units of a character. -/
def units (c : Char) : Nat :=
  if c.toNat < 0x10000 then 1 else 2

/-- UTF-16 units of a text. -/
def utf16Length (cs : List Char) : Nat :=
  cs.foldr (fun c n => units c + n) 0

/-- The pieces of a text between the occurrences of `sep`; never empty. -/
def split (sep : Char) (cs : List Char) : List (List Char) :=
  cs.foldr
    (fun c pieces =>
      if c = sep then [] :: pieces
      else match pieces with
        | [] => [[c]]
        | piece :: rest => (c :: piece) :: rest)
    [[]]

/-- Puts lines together with a line feed between neighbours. -/
def joinLines (lines : List (List Char)) : List Char :=
  List.intercalate ['\n'] lines

/-- The number of lines of a text. -/
def lineCount (cs : List Char) : Nat :=
  cs.count '\n' + 1

/-- A line without one carriage return at its end. -/
def dropReturn (line : List Char) : List Char :=
  if line.getLast? = some '\r' then line.dropLast else line

/-- Line `n` as written, with a carriage return if it has one. -/
def rawLine? (cs : List Char) (n : Nat) : Option (List Char) :=
  (split '\n' cs)[n]?

/-- Line `n` without its terminator. -/
def lineAt? (cs : List Char) (n : Nat) : Option (List Char) :=
  (rawLine? cs n).map dropReturn

/-- UTF-16 units of line `n`, and 0 when there is no such line. -/
def lineLength (cs : List Char) (n : Nat) : Nat :=
  ((lineAt? cs n).map utf16Length).getD 0

/-- The blanks and tabs a line starts with. -/
def indentation (line : List Char) : List Char :=
  line.takeWhile fun c => c = ' ' || c = '\t'

/-- The records of a text: each ends at a line feed, with a carriage return before it dropped; what
stands after the last line feed is a record only if it is not empty. -/
def terminatedLines (cs : List Char) : List (List Char) :=
  let pieces := split '\n' cs
  pieces.dropLast.map dropReturn ++
    match pieces.getLast? with
    | none => []
    | some last => if last.isEmpty then [] else [last]

end DialectBridge.Text
