import DialectBridge.Proofs.Text.Records
import DialectBridge.Verifier.TypeReport
import Mathlib.Data.List.Basic

/-!
# How a line of the verifier's report is read

A located problem is a file, a header with the place and the severity, and a message.  The line is
read by its last header, wherever that stands: behind the file, or inside the message if the message
quotes one.  So a message is told in full, and on its own line, if and only if it quotes none.

* `IsMark`, `IsHeader`, `Quotes` — the format, and texts that hold a header;
* `problem?_eq_some_iff`, `locatedAt?_eq_some_iff` — what is recognised, exactly;
* `located?_of_last` — a line is read by its last header;
* `located?_eq_none_iff` — and not at all without one;
* `message_in_place_iff` — what becomes of a problem of the checked file.
-/

namespace DialectBridge.Verifier.TypeReport

open Text

/-! ## The format -/

/-- How severe a problem is. -/
inductive Severity where
  | error
  | warning
  deriving DecidableEq, Repr

/-- The word for it. -/
def Severity.word : Severity → List Char
  | .error => "error".toList
  | .warning => "warning".toList

/-- `error TS1: `, with any digits. -/
def IsMark (cs : List Char) : Prop :=
  ∃ (severity : Severity) (code : List Char), IsDigits code ∧
    cs = severity.word ++ (" TS".toList ++ (code ++ ": ".toList))

/-- `(1,1): error TS1: `, with any digits, of which `line` are the first. -/
def IsHeader (line cs : List Char) : Prop :=
  ∃ column mark, IsDigits line ∧ IsDigits column ∧ IsMark mark ∧
    cs = '(' :: (line ++ ',' :: (column ++ ("): ".toList ++ mark)))

/-- A text with a header in it. -/
def Quotes (cs : List Char) : Prop :=
  ∃ before line header after, IsHeader line header ∧ cs = before ++ (header ++ after)

variable {cs line header message : List Char}

/-! ## What is recognised -/

theorem severity?_eq_some_iff :
    severity? cs = some message ↔ ∃ severity : Severity, cs = severity.word ++ message := by
  rw [severity?, Option.or_eq_some_iff, List.isPrefixOf?_eq_some_iff_append_eq,
    List.isPrefixOf?_eq_some_iff_append_eq]
  constructor
  · rintro (rfl | ⟨-, rfl⟩)
    · exact ⟨.error, rfl⟩
    · exact ⟨.warning, rfl⟩
  · rintro ⟨severity, rfl⟩
    cases severity with
    | error => exact .inl rfl
    | warning => exact .inr ⟨rfl, rfl⟩

/-- **A problem is a mark and a message.** -/
theorem problem?_eq_some_iff :
    problem? cs = some message ↔ ∃ mark, IsMark mark ∧ cs = mark ++ message := by
  unfold problem?
  simp only [bind, Option.bind_eq_some_iff, severity?_eq_some_iff,
    List.isPrefixOf?_eq_some_iff_append_eq, Prod.exists, digitRun?_eq_some_iff]
  constructor
  · rintro ⟨_, ⟨severity, rfl⟩, _, rfl, code, _, ⟨rfl, hcode, -⟩, rfl⟩
    exact ⟨_, ⟨severity, code, hcode, rfl⟩, by simp only [List.append_assoc]⟩
  · rintro ⟨_, ⟨severity, code, hcode, rfl⟩, rfl⟩
    refine ⟨_, ⟨severity, List.append_assoc ..⟩, _, (List.append_assoc ..).symm, code, _,
      ⟨List.append_assoc .., hcode, noDigitAhead_cons (by decide) _⟩, rfl⟩

/-- **A located problem is a header and a message.** -/
theorem locatedAt?_eq_some_iff :
    locatedAt? cs = some (line, message) ↔
      ∃ header, IsHeader line header ∧ cs = header ++ message := by
  unfold locatedAt?
  simp only [bind, Option.bind_eq_some_iff, problem?_eq_some_iff,
    List.isPrefixOf?_eq_some_iff_append_eq, Prod.exists, digitRun?_eq_some_iff]
  constructor
  · rintro ⟨_, rfl, _, _, ⟨rfl, hline, -⟩, _, rfl, column, _, ⟨rfl, hcolumn, -⟩, _, rfl, _,
      ⟨mark, hmark, rfl⟩, heq⟩
    obtain ⟨rfl, rfl⟩ := Prod.mk.inj (Option.some.inj heq)
    refine ⟨_, ⟨column, mark, hline, hcolumn, hmark, rfl⟩, ?_⟩
    simp only [List.cons_append, List.append_assoc, List.nil_append]
  · rintro ⟨_, ⟨column, mark, hline, hcolumn, hmark, rfl⟩, rfl⟩
    refine ⟨_, rfl, line, _, ⟨List.append_assoc .., hline, noDigitAhead_cons (by decide) _⟩, _, rfl,
      column, _, ⟨List.append_assoc .., hcolumn, noDigitAhead_cons (by decide) _⟩, _,
      (List.append_assoc ..).symm, message, ⟨mark, hmark, rfl⟩, rfl⟩

/-! ## The last header of a line -/

/-- The same problem, with more text in front of its file. -/
def Located.after (ahead : List Char) (l : Located) : Located :=
  { l with file := ahead ++ l.file }

theorem locatedAt?_of_ne {c : Char} (hc : c ≠ '(') (cs : List Char) :
    locatedAt? (c :: cs) = none := by
  have hopen : ['('].isPrefixOf? (c :: cs) = none := by
    simp [List.isPrefixOf?, Ne.symm hc]
  rw [locatedAt?, hopen]
  rfl

/-- The walk finds the last place ahead of it, or keeps the one it has. -/
theorem lastLocated_eq (before : List Char) (best : Option Located) (cs : List Char) :
    lastLocated before best cs =
      ((located? cs).map (Located.after before.reverse)).or best := by
  induction cs generalizing before best with
  | nil => rfl
  | cons c cs ih =>
    rw [located?, lastLocated, lastLocated, ih, ih]
    cases located? cs with
    | some l => simp [Located.after]
    | none =>
      cases locatedAt? (c :: cs) with
      | some found => simp [Located.after]
      | none => simp

theorem located?_cons (c : Char) (cs : List Char) :
    located? (c :: cs) =
      ((located? cs).map (Located.after [c])).or
        ((locatedAt? (c :: cs)).map fun found => ⟨[], found.1, found.2⟩) := by
  rw [located?, lastLocated, lastLocated_eq]
  cases locatedAt? (c :: cs) <;> rfl

/-- What stands in front of the last place does not matter. -/
theorem located?_append_of_some {l : Located} (h : located? cs = some l) (before : List Char) :
    located? (before ++ cs) = some (l.after before) := by
  induction before with
  | nil => exact h
  | cons c before ih =>
    rw [List.cons_append, located?_cons, ih]
    rfl

/-- Without a parenthesis there is no place to find. -/
theorem located?_append_of_none {before : List Char} (hbefore : '(' ∉ before)
    (h : located? cs = none) : located? (before ++ cs) = none := by
  induction before with
  | nil => exact h
  | cons c before ih =>
    rw [List.mem_cons, not_or] at hbefore
    rw [List.cons_append, located?_cons, ih hbefore.2, locatedAt?_of_ne (Ne.symm hbefore.1)]
    rfl

/-- A header opens one parenthesis, at its start. -/
theorem IsHeader.exists_tail (h : IsHeader line header) :
    ∃ tail, header = '(' :: tail ∧ '(' ∉ tail := by
  obtain ⟨column, _, hline, hcolumn, ⟨severity, code, hcode, rfl⟩, rfl⟩ := h
  have hparen : isDecimalDigit '(' = false := by decide
  refine ⟨_, rfl, ?_⟩
  simp only [List.mem_append, List.mem_cons, not_or]
  refine ⟨not_mem_of_isDigits hparen hline, by decide, not_mem_of_isDigits hparen hcolumn,
    by decide, ?_, by decide, not_mem_of_isDigits hparen hcode, by decide⟩
  cases severity <;> decide

/-- **A line is read by its last header.** -/
theorem located?_of_last (h : IsHeader line header) (hlast : located? message = none)
    (file : List Char) :
    located? (file ++ (header ++ message)) = some ⟨file, line, message⟩ := by
  have hhere : locatedAt? (header ++ message) = some (line, message) :=
    locatedAt?_eq_some_iff.mpr ⟨header, h, rfl⟩
  obtain ⟨tail, rfl, hparen⟩ := h.exists_tail
  have hstart : located? ('(' :: (tail ++ message)) = some ⟨[], line, message⟩ := by
    rw [located?_cons, located?_append_of_none hparen hlast, ← List.cons_append, hhere]
    rfl
  have hall := located?_append_of_some hstart file
  rw [Located.after, List.append_nil] at hall
  exact hall

/-- What is read of a line stands there, and there is no header after it. -/
theorem exists_header_of_located? {l : Located} (h : located? cs = some l) :
    ∃ header, IsHeader l.line header ∧ cs = l.file ++ (header ++ l.message) ∧
      located? l.message = none := by
  induction cs generalizing l with
  | nil => cases h
  | cons c cs ih =>
    rw [located?_cons] at h
    cases hrest : located? cs with
    | some found =>
      rw [hrest] at h
      obtain rfl := Option.some.inj h
      obtain ⟨header, hheader, hcs, hlast⟩ := ih hrest
      exact ⟨header, hheader, congrArg (c :: ·) hcs, hlast⟩
    | none =>
      rw [hrest] at h
      obtain ⟨⟨line, message⟩, hhere, rfl⟩ := Option.map_eq_some_iff.mp h
      obtain ⟨header, hheader, hcs⟩ := locatedAt?_eq_some_iff.mp hhere
      refine ⟨header, hheader, hcs, ?_⟩
      -- a header in the message would have been found further on
      obtain ⟨tail, rfl, -⟩ := hheader.exists_tail
      rw [List.cons_append] at hcs
      obtain ⟨-, rfl⟩ := List.cons.inj hcs
      cases hlast : located? message with
      | none => rfl
      | some later =>
        rw [located?_append_of_some hlast tail] at hrest
        cases hrest

/-- **Without a header, a line has no place**, and with one it has. -/
theorem located?_eq_none_iff : located? cs = none ↔ ¬Quotes cs := by
  constructor
  · rintro hnone ⟨before, line, header, after, hheader, rfl⟩
    obtain ⟨tail, rfl, -⟩ := hheader.exists_tail
    have hhere : locatedAt? ('(' :: (tail ++ after)) = some (line, after) :=
      locatedAt?_eq_some_iff.mpr ⟨_, hheader, rfl⟩
    have hsome : (located? ('(' :: (tail ++ after))).isSome := by
      rw [located?_cons, hhere, Option.isSome_or]
      exact Bool.or_true _
    obtain ⟨l, hl⟩ := Option.isSome_iff_exists.mp hsome
    rw [List.cons_append, located?_append_of_some hl before] at hnone
    cases hnone
  · intro hquotes
    cases hl : located? cs with
    | none => rfl
    | some l =>
      obtain ⟨header, hheader, hcs, -⟩ := exists_header_of_located? hl
      exact absurd ⟨l.file, l.line, header, l.message, hheader, hcs⟩ hquotes

/-! ## One line of a report -/

/-- The mark of a problem. -/
def writeMark (severity : Severity) (code : Nat) : List Char :=
  severity.word ++ (" TS".toList ++ (decimal code ++ ": ".toList))

/-- The header of a located problem. -/
def writeHeader (line column : Nat) (severity : Severity) (code : Nat) : List Char :=
  '(' :: (decimal line ++ ',' :: (decimal column ++ ("): ".toList ++ writeMark severity code)))

/-- A located problem as a line of a report. -/
def writeProblem (file : List Char) (line column : Nat) (severity : Severity) (code : Nat)
    (message : List Char) : List Char :=
  file ++ (writeHeader line column severity code ++ message)

/-- A message that counts: it is not empty, stays on its line, has no blanks at its end and is not
about a module that cannot be found. -/
structure IsMessage (message : List Char) : Prop where
  ne_nil : message ≠ []
  one_line : '\n' ∉ message
  trimmed : trimEnd message = message
  counts : ¬ignoredStart <+: message

theorem isHeader_writeHeader (line column : Nat) (severity : Severity) (code : Nat) :
    IsHeader (decimal line) (writeHeader line column severity code) :=
  ⟨decimal column, writeMark severity code, isDigits_decimal line, isDigits_decimal column,
    ⟨severity, decimal code, isDigits_decimal code, rfl⟩, rfl⟩

theorem newline_not_mem_header (h : IsHeader line header) : '\n' ∉ header := by
  obtain ⟨column, _, hline, hcolumn, ⟨severity, code, hcode, rfl⟩, rfl⟩ := h
  have hnewline : isDecimalDigit '\n' = false := by decide
  simp only [List.mem_append, List.mem_cons, not_or]
  refine ⟨by decide, not_mem_of_isDigits hnewline hline, by decide,
    not_mem_of_isDigits hnewline hcolumn, by decide, ?_, by decide,
    not_mem_of_isDigits hnewline hcode, by decide⟩
  cases severity <;> decide

/-- A report of one line. -/
theorem findings_of_line (hline : '\n' ∉ cs) (hne : cs ≠ []) :
    findings cs = (lineFinding? cs).toList := by
  rw [findings, terminatedLines_of_not_mem hline hne]
  cases h : lineFinding? cs <;> simp [h]

theorem lineFinding?_of_located {l : Located} (hstart : continues cs = false)
    (h : located? (trimEnd cs) = some l) :
    lineFinding? cs = finding? l.message (hostLine? l) := by
  simp only [lineFinding?, hstart, Bool.false_eq_true, if_false, h]

theorem continues_append {file : List Char} (hne : file ≠ []) (rest : List Char) :
    continues (file ++ rest) = continues file := by
  cases file with
  | nil => exact absurd rfl hne
  | cons c file => rfl

/-- A problem is told by what is read of its line. -/
theorem findings_writeProblem {file : List Char} {number column code : Nat} {severity : Severity}
    {l : Located} (hfile : file ≠ []) (hbreak : '\n' ∉ file) (hstart : continues file = false)
    (hmessage : IsMessage message)
    (hread : located? (writeProblem file number column severity code message) = some l) :
    findings (writeProblem file number column severity code message) =
      (finding? l.message (hostLine? l)).toList := by
  have hheader := isHeader_writeHeader number column severity code
  have hline : '\n' ∉ writeProblem file number column severity code message := by
    rw [writeProblem, List.mem_append, List.mem_append, not_or, not_or]
    exact ⟨hbreak, newline_not_mem_header hheader, hmessage.one_line⟩
  have htrim : trimEnd (writeProblem file number column severity code message) =
      writeProblem file number column severity code message := by
    rw [writeProblem, ← List.append_assoc]
    exact trimEnd_append_of_trimmed hmessage.ne_nil hmessage.trimmed _
  have hcontinues : continues (writeProblem file number column severity code message) = false := by
    rw [writeProblem, continues_append hfile, hstart]
  rw [findings_of_line hline (by rw [writeProblem]; simp [hfile]),
    lineFinding?_of_located hcontinues (by rw [htrim, hread])]

theorem hostLine?_of_checked {file : List Char} {number : Nat} (hfile : checkedFile <:+ file)
    (hnumber : number < UInt32.size) (message : List Char) :
    hostLine? ⟨file, decimal number, message⟩ = some (UInt32.ofNat (number - 1)) := by
  rw [hostLine?, if_pos (List.isSuffixOf_iff_suffix.mpr hfile), numeral?_decimal, if_pos hnumber,
    Option.map_some]

theorem finding?_of_counts (hcounts : ¬ignoredStart <+: message) (line : Option UInt32) :
    finding? message line = some ⟨String.ofList message, line⟩ := by
  rw [finding?, if_neg fun hignored => hcounts (List.isPrefixOf_iff_prefix.mp hignored)]

theorem message_of_finding? {told : List Char} {line place : Option UInt32}
    (h : (finding? told line).toList = [⟨String.ofList message, place⟩]) : told = message := by
  unfold finding? at h
  split at h
  · cases h
  · obtain ⟨hfinding, -⟩ := List.cons.inj h
    exact String.ofList_injective (congrArg Finding.message hfinding)

/-- **When a message stays in its place.**  A problem of the checked file, with a message that
counts, is told on its own line and in full if and only if the message quotes no header.  If it
does, the problem is told by the last header that is quoted: with what stands behind that, and on a
line only if what stands ahead of it ends in the name of the checked file. -/
theorem message_in_place_iff (file message : List Char) (line column code : Nat)
    (severity : Severity) (hfile : checkedFile <:+ file) (hbreak : '\n' ∉ file)
    (hstart : continues file = false) (hline : line < UInt32.size) (hmessage : IsMessage message) :
    (findings (writeProblem file line column severity code message) =
        [⟨String.ofList message, some (UInt32.ofNat (line - 1))⟩] ↔ ¬Quotes message) ∧
    ∀ before number quoted after, message = before ++ (quoted ++ after) → IsHeader number quoted →
      ¬Quotes after →
      findings (writeProblem file line column severity code message) =
        (finding? after (hostLine?
          ⟨file ++ (writeHeader line column severity code ++ before), number, after⟩)).toList := by
  have hne : file ≠ [] := by
    rintro rfl
    exact absurd (List.suffix_nil.mp hfile) (by decide)
  have hheader := isHeader_writeHeader line column severity code
  have hmoved : ∀ before number quoted after, message = before ++ (quoted ++ after) →
      IsHeader number quoted → ¬Quotes after →
      findings (writeProblem file line column severity code message) =
        (finding? after (hostLine?
          ⟨file ++ (writeHeader line column severity code ++ before), number, after⟩)).toList := by
    intro before number quoted after heq hquoted hlast
    have hread : located? (writeProblem file line column severity code message) =
        some ⟨file ++ (writeHeader line column severity code ++ before), number, after⟩ := by
      rw [writeProblem, heq, ← located?_of_last hquoted (located?_eq_none_iff.mpr hlast)]
      simp only [List.append_assoc]
    exact findings_writeProblem hne hbreak hstart hmessage hread
  refine ⟨⟨?_, ?_⟩, hmoved⟩
  · -- a quoted header would leave a shorter message
    intro htold hquotes
    cases hread : located? message with
    | none => exact located?_eq_none_iff.mp hread hquotes
    | some l =>
      obtain ⟨quoted, hquoted, heq, hlast⟩ := exists_header_of_located? hread
      rw [hmoved _ _ _ _ heq hquoted (located?_eq_none_iff.mp hlast)] at htold
      have hsame : l.message = message := message_of_finding? htold
      obtain ⟨tail, rfl, -⟩ := hquoted.exists_tail
      have hlength := congrArg List.length heq
      rw [hsame] at hlength
      simp only [List.length_append, List.length_cons] at hlength
      omega
  · intro hquotes
    have hread := located?_of_last hheader (located?_eq_none_iff.mpr hquotes) file
    rw [findings_writeProblem hne hbreak hstart hmessage hread, hostLine?_of_checked hfile hline,
      finding?_of_counts hmessage.counts, Option.toList_some]

/-- A message with a place in it that is no header, and one that quotes the header of another
problem: the first is told on the line of its problem, the second on none and cut off. -/
theorem message_in_place_iff_quotedHeader :
    let file := "/tmp/brewline-verify.ts".toList
    let plain := "Cannot find name 'a(9,1)'.".toList
    let quoting := "Type '\"a(9,1): error TS1: b\"' is wrong.".toList
    checkedFile <:+ file ∧ '\n' ∉ file ∧ continues file = false ∧ IsMessage plain ∧
      IsMessage quoting ∧
      findings (writeProblem file 3 5 .error 2304 plain) = [⟨String.ofList plain, some 2⟩] ∧
      ¬findings (writeProblem file 3 5 .error 2322 quoting) = [⟨String.ofList quoting, some 2⟩] ∧
      findings (writeProblem file 3 5 .error 2322 quoting) = [⟨"b\"' is wrong.", none⟩] := by
  intro file plain quoting
  have hfile : checkedFile <:+ file := ⟨"/tmp/".toList, rfl⟩
  have hbreak : '\n' ∉ file := by decide
  have hplain : IsMessage plain := ⟨by decide, by decide, by decide, by decide⟩
  have hquoting : IsMessage quoting := ⟨by decide, by decide, by decide, by decide⟩
  have hheader : IsHeader ['9'] "(9,1): error TS1: ".toList := isHeader_writeHeader 9 1 .error 1
  have hsplit : quoting =
      "Type '\"a".toList ++ ("(9,1): error TS1: ".toList ++ "b\"' is wrong.".toList) := by decide
  obtain ⟨hplaced, -⟩ :=
    message_in_place_iff file plain 3 5 2304 .error hfile hbreak rfl (by decide) hplain
  obtain ⟨hmoves, hmoved⟩ :=
    message_in_place_iff file quoting 3 5 2322 .error hfile hbreak rfl (by decide) hquoting
  refine ⟨hfile, hbreak, rfl, hplain, hquoting,
    hplaced.mpr (located?_eq_none_iff.mp (by decide)), ?_, ?_⟩
  · exact fun htold => hmoves.mp htold ⟨_, _, _, _, hheader, hsplit⟩
  · rw [hmoved _ _ _ _ hsplit hheader (located?_eq_none_iff.mp (by decide))]
    decide

end DialectBridge.Verifier.TypeReport
