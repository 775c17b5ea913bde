import DialectBridge.Command.Pattern
import DialectBridge.Text.Lines
import DialectBridge.Text.Numeral

/-!
# Log filters

What is logged is set by a list of directives, each a level, a target, or a target with a level; a
span with fields may follow a target in brackets, and a field may have a value.  Only whether a
filter is well formed matters here.

A directive is read without the blanks around it, but its parts are cut from the text as it stands,
by the byte positions they have in the trimmed one.  So blanks before a directive shift its parts,
and blanks behind it belong to its level.

* `LogFilter.run` reads a directive;
* `LogFilter.check` decides.
-/

namespace DialectBridge.CommandLine

/-- What is wrong with a log filter. -/
inductive FilterError where
  | directive
  | level
  | field (cause : PatternError)
  /-- A part begins or ends inside a character. -/
  | cut
  deriving DecidableEq, Repr

namespace FilterError

/-- The wording of an error. -/
def message : FilterError → String
  | .directive => "invalid filter directive"
  | .level =>
    "error parsing level filter: expected one of \"off\", \"error\", \"warn\", \"info\", " ++
      "\"debug\", \"trace\", or a number 0-5"
  | .field cause => "invalid field filter: " ++ cause.message
  | .cut => "byte index is not a char boundary"

/-- What is behind an error. -/
def causes : FilterError → List String
  | .directive => []
  | .level => [FilterError.level.message]
  | .field cause => cause.message :: cause.causes
  | .cut => []

end FilterError

namespace LogFilter

/-- The levels by name. -/
def levelNames : List (List Char) :=
  ["off", "error", "warn", "info", "debug", "trace"].map String.toList

/-- A level: a name in any case, or a number up to five. -/
def isLevel (cs : List Char) : Bool :=
  levelNames.contains (cs.map Char.toLower) || (Text.numeral? 6 cs).isSome

/-! ## Fields -/

/-- The exponent of a number, or nothing. -/
def isExponent : List Char → Bool
  | [] => true
  | c :: cs =>
    let digits := if cs.head? = some '+' || cs.head? = some '-' then cs.drop 1 else cs
    (c = 'e' || c = 'E') && !digits.isEmpty && digits.all Char.isDigit

/-- A decimal number without a sign, with or without a fraction and an exponent. -/
def isDecimal (cs : List Char) : Bool :=
  let (whole, rest) := cs.span Char.isDigit
  let (fraction, rest) :=
    match rest with
    | '.' :: rest => rest.span Char.isDigit
    | rest => ([], rest)
  !(whole ++ fraction).isEmpty && isExponent rest

/-- A number without a sign. -/
def isNumber (cs : List Char) : Bool :=
  (["inf", "infinity", "nan"].map String.toList).contains (cs.map Char.toLower) || isDecimal cs

/-- Checks the value of a field: a number with a plus sign, or a pattern.  Other numbers and truth
values are patterns too. -/
def checkValue : List Char → Except PatternError Unit
  | '+' :: cs => if isNumber cs then .ok () else Pattern.check ('+' :: cs)
  | cs => Pattern.check cs

/-- Checks a field.  Its value stands between the first equals sign and the next. -/
def checkField (field : List Char) : Except FilterError Unit :=
  if field.isEmpty then .error .directive
  else
    match Text.split '=' field with
    | _ :: value :: _ =>
      match checkValue value with
      | .ok _ => .ok ()
      | .error e => .error (.field e)
    | _ => .ok ()

/-! ## Directives -/

/-- What follows after some bytes of a text, if that many bytes are whole characters. -/
def dropBytes? : Nat → List Char → Option (List Char)
  | 0, cs => some cs
  | _ + 1, [] => none
  | n + 1, c :: cs => if c.utf8Size ≤ n + 1 then dropBytes? (n + 1 - c.utf8Size) cs else none

/-- The part of a text between two byte positions. -/
def cut (text : List Char) (first last : Nat) : Except FilterError (List Char) :=
  match dropBytes? first text, dropBytes? last text with
  | some start, some rest => .ok (start.take (start.length - rest.length))
  | _, _ => .error .cut

/-- How far a directive has been read, and where the part that is being read begins. -/
inductive State where
  | start
  | levelOrTarget
  | span (first : Nat)
  | field (first : Nat)
  | fields
  | target
  | level (first : Nat)
  deriving DecidableEq, Repr

/-- A character a directive may start with, apart from a bracket. -/
def isStart (c : Char) : Bool :=
  c = '-' || c = ':' || c = '_' || Text.isAlphanumeric c

/-- Reads the character at a byte position of a directive; parts are cut from `text`. -/
def step (text : List Char) (s : State) (index : Nat) (c : Char) : Except FilterError State :=
  match s with
  | .start =>
    if c = '[' then .ok (.span (index + 1))
    else if isStart c then .ok .levelOrTarget
    else .error .directive
  | .levelOrTarget => do
    if c = '=' then
      let _ ← cut text 0 index
      return .level (index + 1)
    else if c = '[' then
      let _ ← cut text 0 index
      return .span (index + 1)
    else return .levelOrTarget
  | .span first => do
    if c = ']' then
      let _ ← cut text first index
      return .target
    else if c = '\x7b' then
      let _ ← cut text first index
      return .field (index + 1)
    else return .span first
  | .field first => do
    if c = '\x7d' then
      checkField (← cut text first index)
      return .fields
    else return .field first
  | .fields => if c = ']' then .ok .target else .error .directive
  | .target => if c = '=' then .ok (.level (index + 1)) else .error .directive
  | .level first => .ok (.level first)

/-- Reads the characters of a directive from a byte position on. -/
def run (text : List Char) : State → Nat → List Char → Except FilterError State
  | s, _, [] => .ok s
  | s, index, c :: cs =>
    match step text s index c with
    | .ok next => run text next (index + c.utf8Size) cs
    | .error e => .error e

/-- Checks a directive. -/
def checkDirective (directive : List Char) : Except FilterError Unit :=
  match run directive .start 0 (Text.trim directive) with
  | .error e => .error e
  | .ok .levelOrTarget => .ok ()
  | .ok .target => .ok ()
  | .ok (.level first) =>
    match dropBytes? first directive with
    | none => .error .cut
    | some level => if level.isEmpty || isLevel level then .ok () else .error .level
  | .ok _ => .error .directive

/-- Checks directives in order. -/
def checkAll : List (List Char) → Except FilterError Unit
  | [] => .ok ()
  | directive :: rest =>
    match checkDirective directive with
    | .ok _ => checkAll rest
    | .error e => .error e

/-- Checks a filter; a blank one is as good as none. -/
def check (filter : String) : Except FilterError Unit :=
  if Text.isBlankText filter.toList then .ok ()
  else checkAll ((Text.split ',' filter.toList).filter fun d => !d.isEmpty)

end LogFilter

end DialectBridge.CommandLine
