import DialectBridge.Compiler.SyntaxReport
import DialectBridge.Proofs.Text.Records

/-!
# Reading a syntax error back

The header of a report names a place behind a label, which may hold colons and numbers of its own.
The first place of the line is the one that is read, and no place can start in the label and end
behind it; so every report is read as it was written, whatever lines stand around it.

* `IsPlace`, `HoldsPlace`, `Underlines` — the format;
* `headerAt?_eq_some_iff`, `header?_eq_none_iff` — what is recognised, exactly;
* `IsPlace.not_overlap` — two places do not overlap;
* `header?_of_first` — a header is read by its first place;
* `carets?_eq_some_iff` — which lines are carets, and how many;
* `diagnostic?_of_report` — what is told of a report.
-/

namespace DialectBridge.Compiler.SyntaxReport

open Text

/-! ## The format -/

/-- `:1:1: error: `, with any digits. -/
def IsPlace (line column cs : List Char) : Prop :=
  IsDigits line ∧ IsDigits column ∧ cs = ':' :: (line ++ ':' :: (column ++ errorMark))

/-- A text with a place in it. -/
def HoldsPlace (cs : List Char) : Prop :=
  ∃ before line column place after, IsPlace line column place ∧ cs = before ++ (place ++ after)

/-- A line of carets, blanks aside. -/
def Underlines (cs : List Char) (width : Nat) : Prop :=
  0 < width ∧ Padded (List.replicate width '^') cs

/-- The header of a report. -/
def writeHeader (label : List Char) (line column : Nat) (message : List Char) : List Char :=
  label ++ (':' :: (decimal line ++ ':' :: (decimal column ++ errorMark)) ++ message)

/-- The diagnostic is an error of the compiler, `width` columns wide; its place counts from zero, and
the one in the header from one. -/
structure Tells (d : Diagnostic) (line column width : Nat) (message : List Char) : Prop where
  origin : d.origin = .compiler
  message : d.message = String.ofList message
  start_line : d.range.start.line.toNat = line - 1
  start_column : d.range.start.character.toNat = column - 1
  stop_line : d.range.stop.line.toNat = line - 1
  stop_column : d.range.stop.character.toNat = column - 1 + width

variable {cs line column place label message : List Char} {width : Nat}

/-! ## What is recognised -/

/-- **A header is a place and a message.** -/
theorem headerAt?_eq_some_iff {header : Header} :
    headerAt? cs = some header ↔
      ∃ place, IsPlace header.line header.column place ∧ cs = place ++ header.message := by
  unfold headerAt?
  simp only [bind, Option.bind_eq_some_iff, List.isPrefixOf?_eq_some_iff_append_eq, Prod.exists,
    digitRun?_eq_some_iff]
  constructor
  · rintro ⟨_, rfl, line, _, ⟨rfl, hline, -⟩, _, rfl, column, _, ⟨rfl, hcolumn, -⟩, message, rfl, heq⟩
    obtain rfl := Option.some.inj heq
    exact ⟨_, ⟨hline, hcolumn, rfl⟩, by simp⟩
  · rintro ⟨_, ⟨hline, hcolumn, rfl⟩, rfl⟩
    refine ⟨_, rfl, header.line, _, ⟨List.append_assoc .., hline, noDigitAhead_cons (by decide) _⟩, _,
      rfl, header.column, _, ⟨List.append_assoc .., hcolumn, noDigitAhead_cons (by decide) _⟩,
      header.message, rfl, rfl⟩

theorem holdsPlace_cons_iff {c : Char} :
    HoldsPlace (c :: cs) ↔ (∃ header, headerAt? (c :: cs) = some header) ∨ HoldsPlace cs := by
  constructor
  · rintro ⟨before, line, column, place, after, hplace, heq⟩
    cases before with
    | nil => exact .inl ⟨⟨line, column, after⟩, headerAt?_eq_some_iff.mpr ⟨place, hplace, heq⟩⟩
    | cons d before => exact .inr ⟨before, line, column, place, after, hplace, (List.cons.inj heq).2⟩
  · rintro (⟨header, hheader⟩ | ⟨before, line, column, place, after, hplace, heq⟩)
    · obtain ⟨place, hplace, heq⟩ := headerAt?_eq_some_iff.mp hheader
      exact ⟨[], _, _, place, header.message, hplace, heq⟩
    · exact ⟨c :: before, line, column, place, after, hplace, congrArg (c :: ·) heq⟩

/-- **Without a place, a line is no header**, and with one it is. -/
theorem header?_eq_none_iff : header? cs = none ↔ ¬HoldsPlace cs := by
  induction cs with
  | nil =>
    refine ⟨fun _ => ?_, fun _ => rfl⟩
    rintro ⟨before, line, column, _, after, ⟨-, -, rfl⟩, heq⟩
    simp at heq
  | cons c cs ih =>
    rw [holdsPlace_cons_iff, not_or, ← ih, header?]
    cases hhere : headerAt? (c :: cs) with
    | none => simp
    | some header => simp

/-! ## The first place of a line -/

/-- Where two texts with a separator are equal, the separator is the first one or a later one. -/
theorem cut_at_separator {sep : Char} {first tail front back : List Char} (hsep : sep ∉ first)
    (h : first ++ sep :: tail = front ++ sep :: back) :
    back = tail ∨ ∃ more, tail = more ++ sep :: back := by
  rcases List.append_eq_append_iff.mp h with ⟨more, -, hmore⟩ | ⟨more, hmore, hback⟩
  · cases more with
    | nil => exact .inl (List.cons.inj hmore).2.symm
    | cons c more => exact .inr ⟨more, (List.cons.inj hmore).2⟩
  · cases more with
    | nil => exact .inl (List.cons.inj hback).2
    | cons c more =>
      obtain ⟨rfl, -⟩ := List.cons.inj hback
      exact absurd (hmore ▸ List.mem_append_right front List.mem_cons_self) hsep

theorem cons_ne_digits {c : Char} {digits : List Char} (hc : isDecimalDigit c = false)
    (h : IsDigits digits) (cs rest : List Char) : c :: cs ≠ digits ++ rest := by
  obtain ⟨d, digits, rfl⟩ := List.exists_cons_of_ne_nil h.1
  intro heq
  obtain ⟨rfl, -⟩ := List.cons.inj heq
  exact not_mem_of_isDigits hc h List.mem_cons_self

/-- **Two places do not overlap.**  Behind a colon inside a place there is a blank, or a number and
then a blank behind the next colon; at the start of a place there are two numbers. -/
theorem IsPlace.not_overlap {front back line' column' place' : List Char}
    (h : IsPlace line column (front ++ back)) (hfront : front ≠ []) (hback : back ≠ [])
    (h' : IsPlace line' column' place') (rest rest' : List Char) :
    back ++ rest ≠ place' ++ rest' := by
  obtain ⟨hline, hcolumn, hplace⟩ := h
  obtain ⟨hline', hcolumn', rfl⟩ := h'
  obtain ⟨_, front, rfl⟩ := List.exists_cons_of_ne_nil hfront
  obtain ⟨_, back, rfl⟩ := List.exists_cons_of_ne_nil hback
  have hcolon : isDecimalDigit ':' = false := by decide
  have hspace : isDecimalDigit ' ' = false := by decide
  intro heq
  rw [List.cons_append, List.cons_append, List.append_assoc, List.cons_append,
    List.append_assoc] at heq
  obtain ⟨rfl, hbehind⟩ := List.cons.inj heq
  have hcut := (List.cons.inj hplace).2.symm
  rcases cut_at_separator (not_mem_of_isDigits hcolon hline) hcut with rfl | ⟨more, hmore⟩
  · -- the second number is the first one of the other place
    rw [List.append_assoc] at hbehind
    have hrun := digitRun?_of_digits hcolumn (noDigitAhead_cons hcolon (" error: ".toList ++ rest))
    have hrun' := digitRun?_of_digits hline'
      (noDigitAhead_cons hcolon (column' ++ (errorMark ++ rest')))
    have hsame : column ++ ':' :: (" error: ".toList ++ rest) =
        line' ++ ':' :: (column' ++ (errorMark ++ rest')) := hbehind
    rw [hsame, hrun'] at hrun
    obtain ⟨-, htails⟩ := Prod.mk.inj (Option.some.inj hrun)
    exact cons_ne_digits hspace hcolumn' _ _ (List.cons.inj htails).2.symm
  · -- a blank stands where the first number would have to be
    rcases cut_at_separator (not_mem_of_isDigits hcolon hcolumn) hmore with rfl | ⟨more, hmore⟩
    · exact cons_ne_digits hspace hline' _ _ hbehind
    · have hlast : " error".toList ++ ':' :: [' '] = more ++ ':' :: back := hmore
      rcases cut_at_separator (by decide) hlast with rfl | ⟨more, hmore⟩
      · exact cons_ne_digits hspace hline' _ _ hbehind
      · cases more with
        | nil => exact absurd hmore (by simp)
        | cons c more => simp at hmore

/-- **A header is read by its first place.** -/
theorem header?_of_first (hlabel : ¬HoldsPlace label) (hplace : IsPlace line column place)
    (message : List Char) : header? (label ++ (place ++ message)) = some ⟨line, column, message⟩ := by
  induction label with
  | nil =>
    have hhere : headerAt? (place ++ message) = some ⟨line, column, message⟩ :=
      headerAt?_eq_some_iff.mpr ⟨place, hplace, rfl⟩
    obtain ⟨-, -, rfl⟩ := hplace
    rw [List.nil_append, List.cons_append, header?, ← List.cons_append, hhere]
  | cons c label ih =>
    have hrest : ¬HoldsPlace label := fun h => hlabel (holdsPlace_cons_iff.mpr (.inr h))
    have hhere : headerAt? (c :: (label ++ (place ++ message))) = none := by
      rw [Option.eq_none_iff_forall_ne_some]
      intro header hheader
      obtain ⟨other, hother, heq⟩ := headerAt?_eq_some_iff.mp hheader
      -- a place that starts in the label ends in it, or overlaps the one behind it
      rw [← List.cons_append] at heq
      rcases List.append_eq_append_iff.mp heq with ⟨back, rfl, hback⟩ | ⟨after, hafter, -⟩
      · cases back with
        | nil => exact hlabel ⟨[], _, _, _, [], hother, by simp⟩
        | cons d back =>
          exact hother.not_overlap (List.cons_ne_nil c label) (List.cons_ne_nil d back) hplace _ _
            hback.symm
      · exact hlabel ⟨[], _, _, other, after, hother, hafter⟩
    rw [List.cons_append, header?, hhere]
    exact ih hrest

theorem findHeader?_append {before rest : List (List Char)} {header : Header} {cs : List Char}
    (hbefore : ∀ l ∈ before, header? (trimEnd l) = none)
    (hheader : header? (trimEnd cs) = some header) :
    findHeader? (before ++ cs :: rest) = some (header, rest) := by
  induction before with
  | nil => rw [List.nil_append, findHeader?, hheader]
  | cons l before ih =>
    rw [List.forall_mem_cons] at hbefore
    rw [List.cons_append, findHeader?, hbefore.1]
    exact ih hbefore.2

/-! ## Carets and numbers -/

/-- **Which lines are carets, and how many.** -/
theorem carets?_eq_some_iff : carets? cs = some width ↔ Underlines cs width := by
  unfold carets?
  constructor
  · intro h
    simp only [Option.ite_none_right_eq_some, Bool.and_eq_true, Bool.not_eq_true',
      List.isEmpty_eq_false_iff, List.all_eq_true, decide_eq_true_eq, Option.some.injEq] at h
    obtain ⟨⟨hne, hall⟩, rfl⟩ := h
    refine ⟨List.length_pos_iff.mpr hne, ?_⟩
    rw [← List.eq_replicate_of_mem hall]
    exact padded_trim cs
  · rintro ⟨hwidth, hpadded⟩
    have hplain : ∀ c ∈ List.replicate width '^', isBlank c = false := by
      intro c hc
      rw [List.eq_of_mem_replicate hc]
      decide
    have htrim : trim cs = List.replicate width '^' := by
      obtain ⟨n, rfl⟩ := Nat.exists_eq_succ_of_ne_zero (Nat.ne_of_gt hwidth)
      rw [trim_of_padded hpadded, List.replicate_succ]
      rw [List.replicate_succ] at hplain
      exact trim_of_not_blank (by decide) (trimEnd_append (List.cons_ne_nil _ _) hplain [])
    simp [htrim, Nat.ne_of_gt hwidth]

theorem carets?_trimEnd (cs : List Char) : carets? (trimEnd cs) = carets? cs := by
  simp only [carets?, trim_eq_of_trimEnd_eq (trimEnd_trimEnd cs)]

/-- Blanks at the ends of the lines do not change the width. -/
theorem width_map_trimEnd (below : List (List Char)) :
    SyntaxReport.width (below.map trimEnd) = SyntaxReport.width below := by
  have hcarets : carets? ∘ trimEnd = carets? := funext carets?_trimEnd
  rw [SyntaxReport.width, List.getElem?_map, Option.bind_map, hcarets, SyntaxReport.width]

theorem width_of_underlines {below : List (List Char)} (hbelow : below[1]? = some cs)
    (h : Underlines cs width) : SyntaxReport.width below = UInt32.ofNat width := by
  rw [SyntaxReport.width, hbelow, Option.bind_some, carets?_eq_some_iff.mpr h, Option.getD_some]

theorem width_of_no_underline {below : List (List Char)}
    (h : ∀ cs width, below[1]? = some cs → ¬Underlines cs width) :
    SyntaxReport.width below = UInt32.ofNat 1 := by
  have hnone : below[1]?.bind carets? = none := by
    rw [Option.eq_none_iff_forall_ne_some]
    intro width hwidth
    obtain ⟨cs, hcs, hcarets⟩ := Option.bind_eq_some_iff.mp hwidth
    exact h cs width hcs (carets?_eq_some_iff.mp hcarets)
  rw [SyntaxReport.width, hnone, Option.getD_none]

theorem index?_decimal {n : Nat} (hpos : 0 < n) (hlt : n < UInt32.size) :
    index? (decimal n) = some (UInt32.ofNat (n - 1)) := by
  obtain ⟨n, rfl⟩ := Nat.exists_eq_succ_of_ne_zero (Nat.ne_of_gt hpos)
  rw [index?, numeral?_decimal, if_pos hlt]
  rfl

/-! ## The whole report -/

theorem trimEnd_of_trim (h : trim message = message) : trimEnd message = message := by
  rw [← h, trim, trimEnd_trimEnd]

theorem trimEnd_writeHeader {line column : Nat} (hne : message ≠ []) (h : trim message = message)
    (label : List Char) :
    trimEnd (writeHeader label line column message) = writeHeader label line column message := by
  rw [writeHeader, ← List.append_assoc]
  exact trimEnd_append_of_trimmed hne (trimEnd_of_trim h) _

/-- A report is told by the numbers of its header, and by the carets below it. -/
theorem diagnostic?_eq {before below : List (List Char)} {report : List Char} {line column : Nat}
    (hbefore : ∀ l ∈ before, ¬HoldsPlace (trimEnd l)) (hlabel : ¬HoldsPlace label)
    (hline : 0 < line ∧ line < UInt32.size) (hcolumn : 0 < column ∧ column < UInt32.size)
    (hne : message ≠ []) (htrim : trim message = message)
    (hreport : Writes (before ++ writeHeader label line column message :: below) report) :
    diagnostic? report = some
      { range := ⟨⟨UInt32.ofNat (line - 1), UInt32.ofNat (column - 1)⟩,
          ⟨UInt32.ofNat (line - 1), UInt32.ofNat (column - 1) + SyntaxReport.width below⟩⟩
        message := String.ofList message
        origin := .compiler } := by
  have hplace : IsPlace (decimal line) (decimal column)
      (':' :: (decimal line ++ ':' :: (decimal column ++ errorMark))) :=
    ⟨isDigits_decimal line, isDigits_decimal column, rfl⟩
  have hrecords := hreport.map_records fun l _ => trimEnd_dropReturn l
  rw [List.map_append, List.map_cons, trimEnd_writeHeader hne htrim] at hrecords
  obtain ⟨before', rest', hcut, hbefore', hrest'⟩ := List.map_eq_append_iff.mp hrecords
  obtain ⟨header', below', rfl, hheader', hbelow'⟩ := List.map_eq_cons_iff.mp hrest'
  have hskipped : ∀ l ∈ before', header? (trimEnd l) = none := by
    intro l hl
    have hmem : trimEnd l ∈ before.map trimEnd := hbefore' ▸ List.mem_map_of_mem hl
    obtain ⟨l', hl', heq⟩ := List.mem_map.mp hmem
    rw [header?_eq_none_iff, ← heq]
    exact hbefore l' hl'
  have hfound : header? (trimEnd header') = some ⟨decimal line, decimal column, message⟩ := by
    rw [hheader', writeHeader]
    exact header?_of_first hlabel hplace message
  have hwidth : SyntaxReport.width below' = SyntaxReport.width below := by
    rw [← width_map_trimEnd, hbelow', width_map_trimEnd]
  rw [diagnostic?, hcut, findHeader?_append hskipped hfound]
  simp only [bind, Option.bind_some, index?_decimal hline.1 hline.2,
    index?_decimal hcolumn.1 hcolumn.2, htrim, hwidth]
  rfl

/-- The numbers of a diagnostic are exact if its end is in range. -/
theorem tells_of_fits {line column width : Nat} (hline : line < UInt32.size)
    (hfits : column - 1 + width < UInt32.size) (message : List Char) :
    Tells
      { range := ⟨⟨UInt32.ofNat (line - 1), UInt32.ofNat (column - 1)⟩,
          ⟨UInt32.ofNat (line - 1), UInt32.ofNat (column - 1) + UInt32.ofNat width⟩⟩
        message := String.ofList message
        origin := .compiler } line column width message where
  origin := rfl
  message := rfl
  start_line := UInt32.toNat_ofNat_of_lt (by omega)
  start_column := UInt32.toNat_ofNat_of_lt (by omega)
  stop_line := UInt32.toNat_ofNat_of_lt (by omega)
  stop_column := by
    rw [← UInt32.ofNat_add]
    exact UInt32.toNat_ofNat_of_lt hfits

/-- **A report is read as it was written.**  `before` are lines that are no headers, and `below` the
offending line and all lines after it.  The error is as wide as the carets in the second line below
the header; it is one column wide if that is missing or is no line of carets. -/
theorem diagnostic?_of_report (before below : List (List Char)) (label message report : List Char)
    (line column : Nat) (hbefore : ∀ l ∈ before, ¬HoldsPlace (trimEnd l))
    (hlabel : ¬HoldsPlace label) (hline : 0 < line ∧ line < UInt32.size)
    (hcolumn : 0 < column ∧ column < UInt32.size) (hne : message ≠ [])
    (htrim : trim message = message)
    (hreport : Writes (before ++ writeHeader label line column message :: below) report) :
    (∀ underline width, below[1]? = some underline → Underlines underline width →
      column - 1 + width < UInt32.size →
      ∃ d, diagnostic? report = some d ∧ Tells d line column width message) ∧
    ((∀ underline width, below[1]? = some underline → ¬Underlines underline width) →
      ∃ d, diagnostic? report = some d ∧ Tells d line column 1 message) := by
  have hread := diagnostic?_eq hbefore hlabel hline hcolumn hne htrim hreport
  constructor
  · intro underline width hunderline hcarets hfits
    rw [width_of_underlines hunderline hcarets] at hread
    exact ⟨_, hread, tells_of_fits hline.2 hfits message⟩
  · intro hnone
    rw [width_of_no_underline hnone] at hread
    exact ⟨_, hread, tells_of_fits hline.2 (by omega) message⟩

/-- A label with numbers of its own, a message and an offending line that look like headers, and
carets that are indented; and the same report cut off behind the offending line. -/
theorem diagnostic?_of_report_crowdedLine :
    let before := ["note:7: error: none".toList]
    let label := "C:\\12:3.coffee:4".toList
    let message := "unexpected a:9:9: error: b".toList
    let echo := "^^ a:9:9: error: b".toList
    let underline := "\t ^^^ ".toList
    let header := writeHeader label 2 5 message
    (∀ l ∈ before, ¬HoldsPlace (trimEnd l)) ∧ ¬HoldsPlace label ∧ trim message = message ∧
      Underlines underline 3 ∧
      (∃ report, Writes (before ++ [header, echo, underline]) report ∧
        ∃ d, diagnostic? report = some d ∧ Tells d 2 5 3 message) ∧
      ∃ report, Writes (before ++ [header, echo]) report ∧
        ∃ d, diagnostic? report = some d ∧ Tells d 2 5 1 message := by
  intro before label message echo underline header
  have hbefore : ∀ l ∈ before, ¬HoldsPlace (trimEnd l) :=
    List.forall_mem_singleton.mpr (header?_eq_none_iff.mp (by decide))
  have hlabel : ¬HoldsPlace label := header?_eq_none_iff.mp (by decide)
  have htrim : trim message = message := by decide
  have hcarets : Underlines underline 3 := carets?_eq_some_iff.mp (by decide)
  have hfull : Writes (before ++ [header, echo, underline]) _ :=
    .ended (by decide) .returnFeed <| .ended (by decide) .feed <| .ended (by decide) .returnFeed <|
      .last (by decide) (by decide)
  have hcut : Writes (before ++ [header, echo]) _ :=
    .ended (by decide) .returnFeed <| .ended (by decide) .feed <| .last (by decide) (by decide)
  refine ⟨hbefore, hlabel, htrim, hcarets, ⟨_, hfull, ?_⟩, _, hcut, ?_⟩
  · exact (diagnostic?_of_report before [echo, underline] label message _ 2 5 hbefore hlabel
      (by decide) (by decide) (by decide) htrim hfull).1 underline 3 rfl hcarets (by decide)
  · exact (diagnostic?_of_report before [echo] label message _ 2 5 hbefore hlabel
      (by decide) (by decide) (by decide) htrim hcut).2 fun _ _ h => by cases h

end DialectBridge.Compiler.SyntaxReport
