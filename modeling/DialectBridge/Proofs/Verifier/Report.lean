import DialectBridge.Proofs.Verifier.TypeReport

/-!
# Reading a report back

A report is a list of problems, one a line, among lines that continue a message and lines that the
verifier writes for people.  The problems that count are found again, in their order, each with its
message and, in the checked file, with its line.

* `Tells` — the line tells a problem with the given message;
* `Tells.exists_finding?`, `lineFinding?_of_silent` — what is found in a line, and where nothing is;
* `Problem`, `Entry` — what a report is written from;
* `findings_of_report` — the findings of a report are its problems.
-/

namespace DialectBridge.Verifier.TypeReport

open Text

variable {line message number header file : List Char}

/-! ## One line -/

/-- The line tells a problem with the given message: it is not indented, and it ends, blanks aside, in
the message behind a header, or is the message behind a mark. -/
def Tells (line message : List Char) : Prop :=
  continues line = false ∧
    ((∃ file number header, IsHeader number header ∧ trimEnd line = file ++ (header ++ message) ∧
        ¬Quotes message) ∨
      (∃ mark, IsMark mark ∧ trimEnd line = mark ++ message ∧ ¬Quotes (trimEnd line)))

theorem problem?_eq_none_iff {cs : List Char} :
    problem? cs = none ↔ ∀ mark message, IsMark mark → cs ≠ mark ++ message := by
  rw [Option.eq_none_iff_forall_ne_some]
  constructor
  · intro h mark message hmark hcs
    exact h message (problem?_eq_some_iff.mpr ⟨mark, hmark, hcs⟩)
  · intro h message hmessage
    obtain ⟨mark, hmark, hcs⟩ := problem?_eq_some_iff.mp hmessage
    exact h mark message hmark hcs

theorem lineFinding?_of_header (hstart : continues line = false) (hheader : IsHeader number header)
    (hline : trimEnd line = file ++ (header ++ message)) (hplain : ¬Quotes message) :
    lineFinding? line = finding? message (hostLine? ⟨file, number, message⟩) := by
  have hread := located?_of_last hheader (located?_eq_none_iff.mpr hplain) file
  rw [← hline] at hread
  exact lineFinding?_of_located hstart hread

theorem lineFinding?_of_mark {mark : List Char} (hstart : continues line = false)
    (hmark : IsMark mark) (hline : trimEnd line = mark ++ message) (hplain : ¬Quotes (trimEnd line)) :
    lineFinding? line = finding? message none := by
  have hread : problem? (trimEnd line) = some message :=
    problem?_eq_some_iff.mpr ⟨mark, hmark, hline⟩
  simp only [lineFinding?, hstart, Bool.false_eq_true, if_false, located?_eq_none_iff.mpr hplain,
    hread, Option.bind_some]

/-- A problem is found with its message, unless that does not count. -/
theorem Tells.exists_finding? (h : Tells line message) :
    ∃ place, lineFinding? line = finding? message place := by
  obtain ⟨hstart, ⟨file, number, header, hheader, hline, hplain⟩ | ⟨mark, hmark, hline, hplain⟩⟩ := h
  · exact ⟨_, lineFinding?_of_header hstart hheader hline hplain⟩
  · exact ⟨_, lineFinding?_of_mark hstart hmark hline hplain⟩

/-- Nothing is found in a line that tells no problem. -/
theorem lineFinding?_of_silent (h : ∀ message, ¬Tells line message) : lineFinding? line = none := by
  cases hstart : continues line with
  | true => simp only [lineFinding?, hstart, if_true]
  | false =>
    have hnowhere : located? (trimEnd line) = none := by
      rw [Option.eq_none_iff_forall_ne_some]
      intro l hl
      obtain ⟨header, hheader, hline, hlast⟩ := exists_header_of_located? hl
      exact h l.message ⟨hstart, .inl ⟨l.file, l.line, header, hheader, hline,
        located?_eq_none_iff.mp hlast⟩⟩
    have hnothing : problem? (trimEnd line) = none := by
      rw [problem?_eq_none_iff]
      intro mark message hmark hline
      exact h message ⟨hstart, .inr ⟨mark, hmark, hline, located?_eq_none_iff.mp hnowhere⟩⟩
    simp only [lineFinding?, hstart, Bool.false_eq_true, if_false, hnowhere, hnothing,
      Option.bind_none]

/-- A carriage return at the end of a line does not matter. -/
theorem lineFinding?_dropReturn (line : List Char) :
    lineFinding? (dropReturn line) = lineFinding? line := by
  by_cases hreturn : line.getLast? = some '\r'
  · obtain ⟨init, rfl⟩ := List.getLast?_eq_some_iff.mp hreturn
    rw [dropReturn_concat]
    by_cases hinit : init = []
    · subst hinit
      rfl
    · have htrim : trimEnd (init ++ ['\r']) = trimEnd init :=
        trimEnd_append_blank (List.forall_mem_singleton.mpr rfl) init
      simp only [lineFinding?, continues_append hinit, htrim]
  · rw [dropReturn_eq_self_iff.mpr hreturn]

/-! ## What a report is written from -/

/-- A place in a file. -/
structure Place where
  file : List Char
  line : Nat
  column : Nat
  unindented : continues file = false
  line_lt : line < UInt32.size

/-- A problem, at a place or of the program as a whole. -/
structure Problem where
  place : Option Place
  severity : Severity
  code : Nat
  message : List Char
  message_ne_nil : message ≠ []
  message_trimmed : trimEnd message = message
  message_plain : ¬Quotes message

namespace Problem

/-- The problem as a line of a report. -/
def text (p : Problem) : List Char :=
  match p.place with
  | some place => writeProblem place.file place.line place.column p.severity p.code p.message
  | none => writeMark p.severity p.code ++ p.message

/-- The problem is not about a module that cannot be found. -/
def counts (p : Problem) : Bool :=
  !ignoredStart.isPrefixOf p.message

/-- The line of the host text: that of the place less one, in the checked file only. -/
def hostLine? (p : Problem) : Option UInt32 :=
  p.place.bind fun place =>
    if checkedFile.isSuffixOf place.file then some (UInt32.ofNat (place.line - 1)) else none

/-- What is to be found. -/
def finding (p : Problem) : Finding :=
  ⟨String.ofList p.message, p.hostLine?⟩

end Problem

/-- A line that tells no problem: it continues a message, or it is of neither format. -/
inductive IsOther (line : List Char) : Prop where
  | continuation (h : continues line = true)
  | unknown (hplace : ¬Quotes line) (hmark : ∀ mark message, IsMark mark → line ≠ mark ++ message)

/-- A line of a report. -/
inductive Entry where
  | problem (p : Problem)
  | other (line : List Char) (h : IsOther line)

/-- The line as it is written. -/
def Entry.text : Entry → List Char
  | .problem p => p.text
  | .other line _ => line

/-- The problem of the line, if it tells one. -/
def Entry.problem? : Entry → Option Problem
  | .problem p => some p
  | .other _ _ => none

/-! ## The whole report -/

theorem IsMark.paren_not_mem {mark : List Char} (h : IsMark mark) : '(' ∉ mark := by
  obtain ⟨severity, code, hcode, rfl⟩ := h
  simp only [List.mem_append, not_or]
  refine ⟨?_, by decide, not_mem_of_isDigits (by decide) hcode, by decide⟩
  cases severity <;> decide

namespace Problem

theorem continues_text (p : Problem) : continues p.text = false := by
  unfold text
  cases p.place with
  | some place =>
    by_cases hfile : place.file = []
    · simp only [writeProblem, hfile, List.nil_append]
      rfl
    · simp only [writeProblem, continues_append hfile]
      exact place.unindented
  | none => cases p.severity <;> rfl

theorem trimEnd_text (p : Problem) : trimEnd p.text = p.text := by
  unfold text
  cases p.place with
  | some place =>
    simp only [writeProblem]
    rw [← List.append_assoc]
    exact trimEnd_append_of_trimmed p.message_ne_nil p.message_trimmed _
  | none => exact trimEnd_append_of_trimmed p.message_ne_nil p.message_trimmed _

theorem hostLine?_of_place (place : Place) (message : List Char) :
    TypeReport.hostLine? ⟨place.file, decimal place.line, message⟩ =
      if checkedFile.isSuffixOf place.file then some (UInt32.ofNat (place.line - 1)) else none := by
  rw [TypeReport.hostLine?, numeral?_decimal, if_pos place.line_lt, Option.map_some]

/-- **A problem is found if it counts**, with its message and its line. -/
theorem lineFinding?_text (p : Problem) :
    lineFinding? p.text = if p.counts then some p.finding else none := by
  have hfound : lineFinding? p.text = finding? p.message p.hostLine? := by
    cases hplace : p.place with
    | some place =>
      have htext : trimEnd p.text = place.file ++
          (writeHeader place.line place.column p.severity p.code ++ p.message) := by
        rw [trimEnd_text, text, hplace]
        rfl
      rw [lineFinding?_of_header p.continues_text (isHeader_writeHeader _ _ _ _) htext
        p.message_plain, hostLine?_of_place, hostLine?, hplace]
      rfl
    | none =>
      have htext : trimEnd p.text = writeMark p.severity p.code ++ p.message := by
        rw [trimEnd_text, text, hplace]
      have hmark : IsMark (writeMark p.severity p.code) :=
        ⟨p.severity, decimal p.code, isDigits_decimal p.code, rfl⟩
      have hplain : ¬Quotes (trimEnd p.text) := by
        rw [htext, ← located?_eq_none_iff]
        exact located?_append_of_none hmark.paren_not_mem (located?_eq_none_iff.mpr p.message_plain)
      rw [lineFinding?_of_mark p.continues_text hmark htext hplain, hostLine?, hplace]
      rfl
  rw [hfound, finding?, counts, finding]
  cases ignoredStart.isPrefixOf p.message <;> rfl

end Problem

/-- A line of neither format tells nothing, with or without the blanks at its end. -/
theorem IsOther.silent (h : IsOther line) (message : List Char) : ¬Tells line message := by
  obtain ⟨blanks, hblanks, -⟩ := exists_trimEnd_append line
  rintro ⟨hstart, ⟨file, number, header, hheader, hline, -⟩ | ⟨mark, hmark, hline, -⟩⟩
  · cases h with
    | continuation hcontinues => simp [hcontinues] at hstart
    | unknown hplace _ =>
      refine hplace ⟨file, number, header, message ++ blanks, hheader, ?_⟩
      rw [hblanks, hline, List.append_assoc, List.append_assoc]
  · cases h with
    | continuation hcontinues => simp [hcontinues] at hstart
    | unknown _ hmarks =>
      refine hmarks mark (message ++ blanks) hmark ?_
      rw [hblanks, hline, List.append_assoc]

theorem Entry.lineFinding?_text (e : Entry) :
    lineFinding? e.text = (e.problem?.filter Problem.counts).map Problem.finding := by
  cases e with
  | problem p =>
    rw [Entry.text, p.lineFinding?_text, Entry.problem?, Option.filter_some]
    split <;> rfl
  | other line h => exact lineFinding?_of_silent h.silent

/-- **The findings of a report are its problems.**  Every problem that counts is found once, in order,
with its message and the line it has in the checked file; nothing is found in the other lines. -/
theorem findings_of_report (entries : List Entry) (report : List Char)
    (hreport : Writes (entries.map Entry.text) report) :
    findings report =
      ((entries.filterMap Entry.problem?).filter Problem.counts).map Problem.finding := by
  have hlines := hreport.map_records fun line _ => lineFinding?_dropReturn line
  have hentries : lineFinding? ∘ Entry.text =
      fun e => (e.problem?.filter Problem.counts).map Problem.finding :=
    funext Entry.lineFinding?_text
  calc findings report
      = ((terminatedLines report).map lineFinding?).filterMap id := by
        rw [findings, List.filterMap_map, Function.id_comp]
    _ = entries.filterMap (lineFinding? ∘ Entry.text) := by
        rw [hlines, List.map_map, List.filterMap_map, Function.id_comp]
    _ = ((entries.filterMap Entry.problem?).filter Problem.counts).map Problem.finding := by
        rw [hentries, List.filter_filterMap, List.map_filterMap]

/-- A path that reads like a problem itself, a problem that does not count, one of the whole program,
one of another file, and lines that tell none. -/
def oddEntries : List Entry :=
  [.problem ⟨some ⟨"a(1,1): error TS1: b/brewline-verify.ts".toList, 3, 5, rfl, by decide⟩, .error,
      2339, "No property 'x(2,2)'.".toList, by decide, by decide,
      located?_eq_none_iff.mp (by decide)⟩,
    .other "  (1,1): error TS1: more of it".toList (.continuation rfl),
    .problem ⟨some ⟨checkedFile, 4, 1, rfl, by decide⟩, .error, 2307,
      "Cannot find module 'm'.".toList, by decide, by decide, located?_eq_none_iff.mp (by decide)⟩,
    .other "Version 5.4".toList
      (.unknown (located?_eq_none_iff.mp (by decide)) (problem?_eq_none_iff.mp (by decide))),
    .problem ⟨none, .warning, 5023, "Unknown option.".toList, by decide, by decide,
      located?_eq_none_iff.mp (by decide)⟩,
    .other [] (.unknown (located?_eq_none_iff.mp (by decide)) (problem?_eq_none_iff.mp (by decide))),
    .problem ⟨some ⟨"lib.d.ts".toList, 7, 1, rfl, by decide⟩, .warning, 2300, "Twice.".toList,
      by decide, by decide, located?_eq_none_iff.mp (by decide)⟩]

/-- Both ways to end a line, and the last line left open. -/
theorem findings_of_report_oddEntries :
    ∃ report, Writes (oddEntries.map Entry.text) report ∧
      findings report =
        [⟨"No property 'x(2,2)'.", some 2⟩, ⟨"Unknown option.", none⟩, ⟨"Twice.", none⟩] := by
  have hreport : Writes (oddEntries.map Entry.text) _ :=
    .ended (by decide) .feed <| .ended (by decide) .returnFeed <| .ended (by decide) .returnFeed <|
      .ended (by decide) .feed <| .ended (by decide) .returnFeed <| .ended (by decide) .feed <|
      .last (by decide) (by decide)
  refine ⟨_, hreport, ?_⟩
  rw [findings_of_report oddEntries _ hreport]
  decide

end DialectBridge.Verifier.TypeReport
