import DialectBridge.Text.Alphanumeric

/-!
# Search patterns

A pattern is made of characters, escapes, classes in brackets, groups in parentheses, alternatives
and repetitions.  It is written inside braces that end at the first closing one, so a repetition
with a count, which has braces of its own, can never be complete.  Only whether a pattern is well
formed, not nested too deep, and can be searched for, matters here.

* `escape?` reads what follows a backslash, `bracket?` a class, `group?` the opening of a group;
* `scan` reads a pattern from left to right;
* `check` decides.
-/

namespace DialectBridge.CommandLine

/-- What is wrong with a pattern. -/
inductive PatternError where
  | malformed
  /-- Boundaries of words of all scripts cannot be searched for. -/
  | wordBoundary
  deriving DecidableEq, Repr

/-- The wording of an error. -/
def PatternError.message : PatternError → String
  | .malformed => "error building NFA"
  | .wordBoundary =>
    "unsupported regex feature for DFAs: cannot build DFAs for regexes with Unicode word " ++
      "boundaries; switch to ASCII word boundaries, or heuristically enable Unicode word " ++
      "boundaries or use a different regex engine"

/-- What is behind an error. -/
def PatternError.causes : PatternError → List String
  | .malformed => ["error parsing regex"]
  | .wordBoundary => []

namespace Pattern

/-- How a part of a pattern is read. -/
structure Mode where
  /-- Blanks and comments are passed over. -/
  spaced : Bool := false
  /-- Characters are those of all scripts, and not bytes. -/
  unicode : Bool := true
  /-- Capital and small letters are the same. -/
  caseless : Bool := false
  deriving DecidableEq, Repr, Inhabited

/-- An element of a pattern. -/
inductive Atom where
  /-- A character, which may be written as a byte. -/
  | character (c : Char) (byte : Bool)
  /-- Any character. -/
  | any
  /-- Digits, blanks or letters of words, or what is none of them. -/
  | shorthand (negated : Bool)
  /-- A general category of characters. -/
  | category
  /-- The start or the end of a line or text. -/
  | anchor
  /-- The boundary of a word. -/
  | boundary
  deriving DecidableEq, Repr

/-- Passes over blanks and comments, from inside a comment or not; a comment ends with its line. -/
def skipBlanks : Bool → List Char → List Char
  | _, [] => []
  | true, c :: cs => skipBlanks (c ≠ '\n') cs
  | false, c :: cs =>
    if Text.isBlank c then skipBlanks false cs
    else if c = '#' then skipBlanks true cs
    else c :: cs

/-- What follows where blanks and comments may stand. -/
def Mode.skip (m : Mode) (cs : List Char) : List Char :=
  if m.spaced then skipBlanks false cs else cs

/-- The next character but for blanks.  One number sign counts as a blank. -/
def Mode.peek? (m : Mode) (cs : List Char) : Option Char :=
  if m.spaced then
    match Text.trimStart cs with
    | '#' :: rest => (Text.trimStart rest).head?
    | rest => rest.head?
  else cs.head?

/-- The value of a hexadecimal digit. -/
def hexDigit? (c : Char) : Option Nat :=
  if c.isDigit then some (c.toNat - 0x30)
  else if 'a' ≤ c ∧ c ≤ 'f' then some (c.toNat - 0x61 + 10)
  else if 'A' ≤ c ∧ c ≤ 'F' then some (c.toNat - 0x41 + 10)
  else none

/-- Reads a fixed number of hexadecimal digits. -/
def hexDigits? (m : Mode) : Nat → Nat → List Char → Option (Nat × List Char)
  | 0, value, cs => some (value, cs)
  | _ + 1, _, [] => none
  | n + 1, value, c :: cs => do hexDigits? m n (16 * value + (← hexDigit? c)) (m.skip cs)

/-- Reads a character by its number. -/
def codePoint? (m : Mode) (digits : Nat) (cs : List Char) : Option (Char × List Char) := do
  let (value, rest) ← hexDigits? m digits 0 (m.skip cs)
  if value.isValidChar then some (Char.ofNat value, rest) else none

/-- How many digits the number of a character has after each letter; two digits are a byte. -/
def hexWidth? : Char → Option Nat
  | 'x' => some 2
  | 'u' => some 4
  | 'U' => some 8
  | _ => none

/-- The general categories that have a name of one letter. -/
def categoryNames : List Char := ['c', 'l', 'm', 'n', 'p', 's', 'z']

/-- The control characters that have a letter. -/
def controlCharacters : List (Char × Char) :=
  [('a', '\x07'), ('f', '\x0c'), ('t', '\t'), ('n', '\n'), ('r', '\x0d'), ('v', '\x0b')]

/-- Reads what follows a backslash. -/
def escape? (m : Mode) : List Char → Option (Atom × List Char)
  | [] => none
  | c :: cs =>
    match hexWidth? c with
    | some width =>
      (codePoint? m width cs).map fun (d, rest) => (.character d (decide (width = 2)), rest)
    | none =>
      if c = 'p' || c = 'P' then
        match m.skip cs with
        | name :: rest =>
          if categoryNames.contains name.toLower then some (.category, m.skip rest) else none
        | [] => none
      else if ['d', 's', 'w'].contains c then some (.shorthand false, cs)
      else if ['D', 'S', 'W'].contains c then some (.shorthand true, cs)
      else if ['b', 'B', '<', '>'].contains c then some (.boundary, cs)
      else if ['A', 'z'].contains c then some (.anchor, cs)
      else
        match controlCharacters.find? fun control => control.1 = c with
        | some control => some (.character control.2 false, cs)
        | none => if c.toNat < 0x80 && !c.isAlphanum then some (.character c false, cs) else none

/-- Among bytes, only what is ASCII can be matched, so that a match is never a part of a
character. -/
def Atom.fits (m : Mode) (inClass : Bool) : Atom → Bool
  | .character c byte =>
    m.unicode || decide (c.toNat < 0x80) || !byte && !inClass && !m.caseless
  | .shorthand negated => m.unicode || !negated
  | .any | .category => m.unicode
  | .anchor | .boundary => !inClass

/-- A pattern may be nested this deep. -/
def maxDepth : Nat := 250

/-- The depth of parts in a row: several parts are one deeper than each of them. -/
def depthOf : List Nat → Nat
  | [] => 0
  | [depth] => depth
  | depths => 1 + depths.foldl max 0

/-! ## Classes -/

/-- The classes that have a name. -/
def classNames : List (List Char) :=
  ["alnum", "alpha", "ascii", "blank", "cntrl", "digit", "graph", "lower", "print", "punct",
    "space", "upper", "word", "xdigit"].map String.toList

/-- Reads a named class after its bracket; gives whether it is negated. -/
def namedClass? : List Char → Option (Bool × List Char)
  | ':' :: cs =>
    let negated := cs.head? = some '^'
    let cs := if negated then cs.drop 1 else cs
    let name := cs.takeWhile (· ≠ ':')
    match cs.drop name.length with
    | ':' :: ']' :: rest => if classNames.contains name then some (negated, rest) else none
    | _ => none
  | _ => none

/-- A class that is being read. -/
structure OpenClass where
  /-- The depth of what stands before the last operator. -/
  left : Option Nat := none
  /-- The depths of what stands after it. -/
  items : List Nat := []
  deriving DecidableEq, Repr, Inhabited

namespace OpenClass

/-- The depth of what has been read. -/
def depth (o : OpenClass) : Nat :=
  match o.left with
  | none => depthOf o.items
  | some left => 1 + max left (depthOf o.items)

/-- An item has been read. -/
def push (o : OpenClass) (depth : Nat) : OpenClass :=
  { o with items := depth :: o.items }

/-- An operator has been read. -/
def operator (o : OpenClass) : OpenClass :=
  ⟨some o.depth, []⟩

end OpenClass

/-- Passes over the dashes that stand first in a class, as items of it. -/
def takeDashes (m : Mode) : Nat → OpenClass → List Char → OpenClass × List Char
  | fuel + 1, o, '-' :: cs => takeDashes m fuel (o.push 0) (m.skip cs)
  | _, o, cs => (o, cs)

/-- Reads the beginning of a class after its bracket: a caret negates it, and dashes, or else a
closing bracket, stand for themselves. -/
def openClass? (m : Mode) (cs : List Char) : Option (OpenClass × List Char) :=
  let start := m.skip cs
  let negated := start.head? = some '^'
  if negated && !m.unicode then none
  else
    let start := if negated then m.skip (start.drop 1) else start
    match start with
    | ']' :: rest => some (OpenClass.push {} 0, m.skip rest)
    | _ => some (takeDashes m start.length {} start)

/-- Reads one element of a class. -/
def classAtom? (m : Mode) : List Char → Option (Atom × List Char)
  | [] => none
  | '\\' :: cs => escape? m cs
  | c :: cs => some (.character c false, cs)

/-- Reads an element of a class, or a range of characters. -/
def classItem? (m : Mode) (cs : List Char) : Option (List Char) := do
  let (first, rest) ← classAtom? m cs
  let single := if first.fits m true then some (m.skip rest) else none
  match m.skip rest with
  | '-' :: after =>
    if m.peek? after = some ']' || m.peek? after = some '-' then single
    else
      let (last, rest) ← classAtom? m (m.skip after)
      match first, last with
      | .character a _, .character b _ =>
        if first.fits m true && last.fits m true && a.toNat ≤ b.toNat then some rest else none
      | _, _ => none
  | _ => single

/-- Reads on inside a class and those around it, to the end of the outermost one; gives the depth of
that one. -/
def classRest? (m : Mode) :
    Nat → OpenClass → List OpenClass → List Char → Option (Nat × List Char)
  | 0, _, _, _ => none
  | fuel + 1, o, outer, cs =>
    match m.skip cs with
    | [] => none
    | '[' :: rest =>
      match namedClass? rest with
      | some (negated, rest) =>
        if negated && !m.unicode then none else classRest? m fuel (o.push 0) outer rest
      | none => do
        let (inner, rest) ← openClass? m rest
        classRest? m fuel inner (o :: outer) rest
    | ']' :: rest =>
      match outer with
      | [] => some (1 + o.depth, rest)
      | parent :: outer => classRest? m fuel (parent.push (1 + o.depth)) outer rest
    | '&' :: '&' :: rest => classRest? m fuel o.operator outer rest
    | '-' :: '-' :: rest => classRest? m fuel o.operator outer rest
    | '~' :: '~' :: rest => classRest? m fuel o.operator outer rest
    | item => do classRest? m fuel (o.push 0) outer (← classItem? m item)

/-- Reads a class after its bracket; gives its depth and what follows it. -/
def bracket? (m : Mode) (cs : List Char) : Option (Nat × List Char) := do
  let (o, rest) ← openClass? m cs
  classRest? m (cs.length + 1) o [] rest

/-! ## Groups -/

/-- The letters that change the mode. -/
def modeLetters : List Char := ['i', 'm', 's', 'U', 'u', 'R', 'x']

/-- Letters raise a mark of the mode, or lower it after a dash. -/
def mark (letters : List Char) (letter : Char) (old : Bool) : Bool :=
  if (letters.takeWhile (· ≠ '-')).contains letter then true
  else if letters.contains letter then false
  else old

/-- The mode after some letters: none may come twice, and a dash may not be the last. -/
def Mode.change? (m : Mode) (letters : List Char) : Option Mode :=
  if (letters.all fun c => c = '-' || modeLetters.contains c) && letters.eraseDups = letters &&
      letters.getLast? ≠ some '-' then
    some
      { spaced := mark letters 'x' m.spaced
        unicode := mark letters 'u' m.unicode
        caseless := mark letters 'i' m.caseless }
  else none

/-- A group that is being read, or the whole pattern. -/
structure Group where
  mode : Mode := {}
  /-- The depths of what stands in the last alternative, last one first; `none` is a change of the
  mode, which cannot be repeated. -/
  items : List (Option Nat) := []
  /-- The depths of the alternatives before it. -/
  alternatives : List Nat := []
  deriving DecidableEq, Repr, Inhabited

namespace Group

/-- The depth of the last alternative. -/
def lastDepth (g : Group) : Nat :=
  depthOf (g.items.map fun item => item.getD 0)

/-- The depth of what has been read. -/
def depth (g : Group) : Nat :=
  depthOf (g.lastDepth :: g.alternatives)

/-- An item has been read. -/
def push (g : Group) (depth : Nat) : Group :=
  { g with items := some depth :: g.items }

/-- Another alternative begins. -/
def alternate (g : Group) : Group :=
  { g with items := [], alternatives := g.lastDepth :: g.alternatives }

/-- The last item is repeated. -/
def repeat? (g : Group) : Option Group :=
  match g.items with
  | some depth :: items => some { g with items := some (depth + 1) :: items }
  | _ => none

end Group

/-- How far a pattern has been read. -/
structure Progress where
  group : Group := {}
  /-- The groups around the one that is being read, innermost first. -/
  outer : List Group := []
  /-- The names of groups. -/
  names : List (List Char) := []
  /-- There is a boundary of words of all scripts. -/
  boundary : Bool := false
  deriving DecidableEq, Repr, Inhabited

/-- The mode that holds. -/
def Progress.mode (p : Progress) : Mode :=
  p.group.mode

/-- A group begins, in which a mode holds. -/
def Progress.enter (p : Progress) (mode : Mode) : Progress :=
  { p with group := { mode }, outer := p.group :: p.outer }

/-- A group ends, and with it the changes of the mode in it. -/
def Progress.leave? (p : Progress) : Option Progress :=
  match p.outer with
  | [] => none
  | group :: outer => some { p with group := group.push (1 + p.group.depth), outer }

/-- An item has been read. -/
def Progress.push (p : Progress) (depth : Nat) : Progress :=
  { p with group := p.group.push depth }

/-- The name of a group. -/
def isName : List Char → Bool
  | [] => false
  | c :: cs =>
    (c = '_' || Text.isAlphabetic c) &&
      cs.all fun c => ['_', '.', '[', ']'].contains c || Text.isAlphanumeric c

/-- Reads the name of a group, which no other group has, and enters the group. -/
def named? (p : Progress) (cs : List Char) : Option (Progress × List Char) :=
  let name := cs.takeWhile (· ≠ '>')
  match cs.drop name.length with
  | _ :: rest =>
    if isName name && !p.names.contains name then
      some ({ p.enter p.mode with names := name :: p.names }, rest)
    else none
  | [] => none

/-- Reads letters that change the mode, for a group or for the rest of the one that is open. -/
def moded? (p : Progress) (cs : List Char) : Option (Progress × List Char) := do
  let letters := cs.takeWhile fun c => c ≠ ':' && c ≠ ')'
  let mode ← p.mode.change? letters
  match cs.drop letters.length with
  | ':' :: rest => some (p.enter mode, rest)
  | ')' :: rest =>
    if letters.isEmpty then none
    else some ({ p with group := { p.group with mode, items := none :: p.group.items } }, rest)
  | _ => none

/-- Reads the opening of a group after its parenthesis.  Looking ahead or back is not possible. -/
def group? (p : Progress) (cs : List Char) : Option (Progress × List Char) :=
  match p.mode.skip cs with
  | '?' :: '!' :: _ => none
  | '?' :: '<' :: '!' :: _ => none
  | '?' :: 'P' :: '<' :: rest => named? p rest
  | '?' :: '<' :: rest => named? p rest
  | '?' :: rest => moded? p rest
  | rest => some (p.enter p.mode, rest)

/-! ## Patterns -/

/-- Reads an element outside of classes. -/
def atom? (m : Mode) : List Char → Option (Atom × List Char)
  | [] => none
  | '\\' :: cs => escape? m cs
  | c :: cs =>
    if c = '.' then some (.any, cs)
    else if c = '^' || c = '$' then some (.anchor, cs)
    else some (.character c false, cs)

/-- An element has been read. -/
def Progress.take? (p : Progress) (atom : Atom) : Option Progress :=
  if atom.fits p.mode false then
    some { p.push 0 with boundary := p.boundary || (atom = .boundary && p.mode.unicode) }
  else none

/-- Reads a pattern to its end. -/
def scan : Nat → Progress → List Char → Option Progress
  | 0, _, _ => none
  | fuel + 1, p, cs =>
    match p.mode.skip cs with
    | [] => if p.outer.isEmpty then some p else none
    | '(' :: rest => do
      let (p, rest) ← group? p rest
      scan fuel p rest
    | ')' :: rest => do scan fuel (← p.leave?) rest
    | '|' :: rest => scan fuel { p with group := p.group.alternate } rest
    | '[' :: rest => do
      let (depth, rest) ← bracket? p.mode rest
      scan fuel (p.push depth) rest
    | '\x7b' :: _ => none
    | c :: rest =>
      if c = '?' || c = '*' || c = '+' then do
        let group ← p.group.repeat?
        scan fuel { p with group } (if rest.head? = some '?' then rest.drop 1 else rest)
      else do
        let (atom, rest) ← atom? p.mode (c :: rest)
        scan fuel (← p.take? atom) rest

/-- Checks a pattern. -/
def check (cs : List Char) : Except PatternError Unit :=
  match scan (cs.length + 1) {} cs with
  | none => .error .malformed
  | some p =>
    if maxDepth < p.group.depth then .error .malformed
    else if p.boundary then .error .wordBoundary
    else .ok ()

end Pattern

end DialectBridge.CommandLine
