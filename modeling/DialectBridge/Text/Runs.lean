import DialectBridge.Text.Position

/-!
# Texts in runs

A text that is too long to be spelled out can still be told by its runs, each a character and how
often it stands there in a row.  What is asked of a text is asked of its runs here, without spelling
them out.

* `spell` is the text;
* `total` adds up a measure of its characters, such as bytes or UTF-16 units;
* `lineCount`, `lineLength`, `indentation` and `byteOffset?` are those of the text.
-/

namespace DialectBridge.Text

/-- A character and how often it stands in a row. -/
structure Run where
  char : Char
  count : Nat
  deriving DecidableEq, Repr

namespace Run

/-- The text of a list of runs. -/
def spell (runs : List Run) : List Char :=
  runs.flatMap fun r => List.replicate r.count r.char

/-- A measure of the characters, added up. -/
def total (measure : Char → Nat) (runs : List Run) : Nat :=
  runs.foldr (fun r n => r.count * measure r.char + n) 0

/-- The number of lines. -/
def lineCount (runs : List Run) : Nat :=
  total (fun c => if c = '\n' then 1 else 0) runs + 1

/-- The lines, each in runs; a run of line feeds is as many ends of lines. -/
def lines (runs : List Run) : List (List Run) :=
  runs.foldr
    (fun r lines =>
      if r.char = '\n' then List.replicate r.count [] ++ lines
      else match lines with
        | [] => [[r]]
        | line :: rest => (r :: line) :: rest)
    [[]]

/-- The last character. -/
def last? (runs : List Run) : Option Char :=
  runs.foldr (fun r last => last.or (if r.count = 0 then none else some r.char)) none

/-- UTF-16 units of line `n` without a carriage return at its end, and 0 when there is no such
line. -/
def lineLength (runs : List Run) (n : Nat) : Nat :=
  match (lines runs)[n]? with
  | none => 0
  | some line => if last? line = some '\r' then total units line - 1 else total units line

/-- The blanks and tabs at the start. -/
def indentation (runs : List Run) : List Run :=
  runs.takeWhile fun r => r.count = 0 || (r.char = ' ' || r.char = '\t')

/-- The walk behind `byteOffset?`, which stops inside a run where it can. -/
def offsetFrom (pos : Position) : List Run → UInt32 → UInt32 → Nat → Option Nat
  | [], line, _, byte => if line = pos.line then some byte else none
  | ⟨_, 0⟩ :: runs, line, column, byte => offsetFrom pos runs line column byte
  | ⟨c, n + 1⟩ :: runs, line, column, byte =>
    if line = pos.line ∧ pos.character ≤ column then some byte
    else if c = '\n' then
      if line = pos.line then some byte
      else offsetFrom pos (⟨c, n⟩ :: runs) (line + 1) 0 (byte + c.utf8Size)
    else
      offsetFrom pos (⟨c, n⟩ :: runs) line (column + UInt32.ofNat (units c)) (byte + c.utf8Size)
termination_by runs => (runs.length, (runs.head?.map Run.count).getD 0)

/-- The UTF-8 offset of a position. -/
def byteOffset? (runs : List Run) (pos : Position) : Option Nat :=
  offsetFrom pos runs 0 0 0

end Run

end DialectBridge.Text
