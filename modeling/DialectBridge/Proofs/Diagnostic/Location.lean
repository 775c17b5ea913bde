import DialectBridge.Diagnostic.Report
import DialectBridge.Proofs.Text.Offset

/-!
# The line that a report names

The start of a diagnostic is an offset in bytes, and the report takes it for a number of characters.
Every character of more than one byte that stands ahead of it moves it on, by the bytes that the
character has in excess, and may move it to another line or out of the text.

* `Text.lines_cases` — a text is one line, or a line, a line feed and a text;
* `lineLengthsFrom_line`, `lineLengthsFrom_last` — the lines of a report's source;
* `exists_place?_iff` — which line a number of characters leads to;
* `location_line_iff` — when the line of the diagnostic is the one that is named.
-/

namespace DialectBridge

namespace Text

variable {cs line : List Char}

/-- A text is one line, or a line, a line feed and a text. -/
theorem lines_cases (cs : List Char) :
    '\n' ∉ cs ∨ ∃ line rest, '\n' ∉ line ∧ cs = line ++ '\n' :: rest := by
  by_cases h : '\n' ∈ cs
  · obtain ⟨line, rest, hcs, hline⟩ := List.eq_append_cons_of_mem h
    exact .inr ⟨line, rest, hline, hcs⟩
  · exact .inl h

theorem ahead_of_not_mem (h : '\n' ∉ cs) (n : Nat) : ahead cs (n + 1) = cs ++ ['\n'] := by
  rw [ahead, split_of_not_mem h, List.take_succ_cons, List.take_nil, List.flatMap_singleton]

theorem ahead_append_newline (h : '\n' ∉ line) (rest : List Char) (n : Nat) :
    ahead (line ++ '\n' :: rest) (n + 1) = line ++ '\n' :: ahead rest n := by
  rw [ahead, split_append_sep h, List.take_succ_cons, List.flatMap_cons, List.append_assoc]
  rfl

end Text

namespace Diagnostic

variable {source line rest : List Char} {offset row : Nat}

/-! ## The lines of a source -/

theorem lineLengthsFrom_cons {c : Char} (hc : c ≠ '\r') (length : Nat) (rest : List Char) :
    lineLengthsFrom length (c :: rest) =
      if isTerminator c then (length + 1) :: lineLengthsFrom 0 rest
      else lineLengthsFrom (length + 1) rest := by
  rw [lineLengthsFrom.eq_def]
  split
  · rename_i heq
    cases heq
  · rename_i heq
    exact absurd (List.cons.inj heq).1 hc
  · rename_i heq
    cases heq
    rfl

theorem ne_return_of_not_isTerminator {c : Char} (hc : isTerminator c = false) : c ≠ '\r' := by
  rintro rfl
  exact absurd hc (by decide)

/-- A line that a line feed ends. -/
theorem lineLengthsFrom_line (h : ∀ c ∈ line, isTerminator c = false) (length : Nat)
    (rest : List Char) :
    lineLengthsFrom length (line ++ '\n' :: rest) =
      (length + line.length + 1) :: lineLengthsFrom 0 rest := by
  induction line generalizing length with
  | nil =>
    have hnewline : isTerminator '\n' = true := by decide
    rw [List.nil_append, lineLengthsFrom_cons (by decide), if_pos hnewline]
    rfl
  | cons c line ih =>
    obtain ⟨hc, hline⟩ := List.forall_mem_cons.mp h
    rw [List.cons_append, lineLengthsFrom_cons (ne_return_of_not_isTerminator hc), hc,
      if_neg (by decide), ih hline, List.length_cons]
    congr 1
    omega

/-- The last line counts if it has characters. -/
theorem lineLengthsFrom_last (h : ∀ c ∈ line, isTerminator c = false) (length : Nat) :
    lineLengthsFrom length line =
      if length + line.length = 0 then [] else [length + line.length] := by
  induction line generalizing length with
  | nil => rw [lineLengthsFrom, List.length_nil, Nat.add_zero]
  | cons c line ih =>
    obtain ⟨hc, hline⟩ := List.forall_mem_cons.mp h
    rw [lineLengthsFrom_cons (ne_return_of_not_isTerminator hc), hc, if_neg (by decide), ih hline,
      List.length_cons, Nat.add_right_comm, Nat.add_assoc]

/-! ## Places -/

/-- A number of characters leads to a line: the line has a character or a line feed, and the number
is not less than the characters ahead of the line, nor more than those of the text.  It does not
reach the next line, unless that one is empty and the text ends there. -/
structure Lands (source : List Char) (row offset : Nat) : Prop where
  has_chars : Text.ahead source row ≠ source
  reached : (Text.ahead source row).length ≤ offset
  inside : offset ≤ source.length
  not_passed : offset < (Text.ahead source (row + 1)).length ∨ Text.ahead source (row + 1) = source

theorem lands_last_iff (h : '\n' ∉ source) :
    Lands source row offset ↔ row = 0 ∧ source ≠ [] ∧ offset ≤ source.length := by
  constructor
  · intro hlands
    cases row with
    | zero => exact ⟨rfl, fun hnil => hlands.has_chars (by rw [hnil]; rfl), hlands.inside⟩
    | succ row =>
      have hreached := hlands.reached
      rw [Text.ahead_of_not_mem h, List.length_append, List.length_singleton] at hreached
      exact absurd hlands.inside (by omega)
  · rintro ⟨rfl, hne, hoffset⟩
    refine ⟨by rw [Text.ahead_zero]; exact hne.symm, by simp, hoffset, .inl ?_⟩
    rw [Text.ahead_of_not_mem h, List.length_append, List.length_singleton]
    omega

theorem lands_zero_iff (h : '\n' ∉ line) :
    Lands (line ++ '\n' :: rest) 0 offset ↔
      offset ≤ line.length ∨ rest = [] ∧ offset = line.length + 1 := by
  have hnext : Text.ahead (line ++ '\n' :: rest) 1 = line ++ ['\n'] := by
    rw [Text.ahead_append_newline h, Text.ahead_zero]
  have hsame : line ++ ['\n'] = line ++ '\n' :: rest ↔ rest = [] := by
    rw [List.append_cancel_left_eq, List.cons.injEq]
    simp [eq_comm]
  have hlength : (line ++ '\n' :: rest).length = line.length + 1 + rest.length := by
    rw [List.length_append, List.length_cons]
    omega
  constructor
  · intro hlands
    have hinside := hlands.inside
    have hpassed := hlands.not_passed
    rw [hnext, hsame, List.length_append, List.length_singleton] at hpassed
    rw [hlength] at hinside
    rcases hpassed with hlt | rfl
    · exact .inl (by omega)
    · rw [List.length_nil] at hinside
      by_cases hline : offset ≤ line.length
      · exact .inl hline
      · exact .inr ⟨rfl, by omega⟩
  · intro hoffset
    refine ⟨by simp, by simp, ?_, ?_⟩
    · rw [hlength]
      omega
    · rw [hnext, hsame, List.length_append, List.length_singleton]
      rcases hoffset with hle | ⟨hnil, -⟩
      · exact .inl (by omega)
      · exact .inr hnil

theorem lands_succ_iff (h : '\n' ∉ line) :
    Lands (line ++ '\n' :: rest) (row + 1) offset ↔
      line.length + 1 ≤ offset ∧ Lands rest row (offset - (line.length + 1)) := by
  have hsame (n : Nat) : line ++ '\n' :: Text.ahead rest n = line ++ '\n' :: rest ↔
      Text.ahead rest n = rest := by
    rw [List.append_cancel_left_eq, List.cons.injEq, eq_self, true_and]
  have hlength (cs : List Char) : (line ++ '\n' :: cs).length = line.length + 1 + cs.length := by
    rw [List.length_append, List.length_cons]
    omega
  constructor
  · rintro ⟨hchars, hreached, hinside, hpassed⟩
    rw [Text.ahead_append_newline h, Ne, hsame] at hchars
    rw [Text.ahead_append_newline h, hlength] at hreached
    rw [Text.ahead_append_newline h, hsame, hlength] at hpassed
    rw [hlength] at hinside
    exact ⟨by omega, hchars, by omega, by omega, hpassed.imp_left (by omega)⟩
  · rintro ⟨hoffset, hchars, hreached, hinside, hpassed⟩
    refine ⟨?_, ?_, ?_, ?_⟩
    · rwa [Text.ahead_append_newline h, Ne, hsame]
    · rw [Text.ahead_append_newline h, hlength]
      omega
    · rw [hlength]
      omega
    · rw [Text.ahead_append_newline h, hsame, hlength]
      exact hpassed.imp_left (by omega)

theorem place?_cons {lengths : List Nat} (hne : lengths ≠ []) (n length : Nat) :
    place? offset n (length :: lengths) =
      if offset < length then some (n, offset) else place? (offset - length) (n + 1) lengths := by
  cases lengths with
  | nil => exact absurd rfl hne
  | cons next lengths => rfl

theorem place?_row_ge {n column : Nat} {lengths : List Nat}
    (h : place? offset n lengths = some (row, column)) : n ≤ row := by
  induction lengths generalizing offset n with
  | nil => cases h
  | cons length lengths ih =>
    by_cases hne : lengths = []
    · subst hne
      rw [place?] at h
      split at h <;> cases h
      exact Nat.le_refl _
    · rw [place?_cons hne] at h
      split at h
      · cases h
        exact Nat.le_refl _
      · exact Nat.le_of_succ_le (ih h)

theorem exists_place?_singleton {n length : Nat} :
    (∃ column, place? offset n [length] = some (n + row, column)) ↔
      row = 0 ∧ offset ≤ length := by
  rw [place?]
  split
  · rename_i hle
    simp [hle]
  · rename_i hle
    simp [hle]

theorem exists_place?_cons_zero {n length : Nat} {lengths : List Nat} (hne : lengths ≠ []) :
    (∃ column, place? offset n (length :: lengths) = some (n + 0, column)) ↔ offset < length := by
  rw [place?_cons hne]
  split
  · rename_i hlt
    exact ⟨fun _ => hlt, fun _ => ⟨offset, rfl⟩⟩
  · rename_i hlt
    refine ⟨?_, fun h => absurd h hlt⟩
    rintro ⟨column, hplace⟩
    exact absurd (place?_row_ge hplace) (by omega)

theorem exists_place?_cons_succ {n length : Nat} {lengths : List Nat} (hne : lengths ≠ []) :
    (∃ column, place? offset n (length :: lengths) = some (n + (row + 1), column)) ↔
      length ≤ offset ∧
        ∃ column, place? (offset - length) (n + 1) lengths = some (n + 1 + row, column) := by
  rw [place?_cons hne, ← Nat.add_assoc, Nat.add_right_comm]
  split
  · rename_i hlt
    constructor
    · rintro ⟨column, hplace⟩
      have hrow := congrArg Prod.fst (Option.some.inj hplace)
      exact absurd hrow (by simp only; omega)
    · rintro ⟨hle, -⟩
      omega
  · rename_i hlt
    exact ⟨fun h => ⟨by omega, h⟩, fun h => h.2⟩

/-- Only the empty text has no line. -/
theorem eq_nil_of_lineLengthsFrom {length : Nat} (h : lineLengthsFrom length source = []) :
    source = [] := by
  fun_induction lineLengthsFrom length source with
  | case1 => rfl
  | case2 => rfl
  | case3 => cases h
  | case4 => cases h
  | case5 length c rest hne hc ih =>
    obtain rfl := ih h
    cases h

/-- **Which line a number of characters leads to**, in a source whose only line ends are line
feeds. -/
theorem exists_place?_iff (h : ∀ c ∈ source, isTerminator c = true → c = '\n') (n : Nat) :
    (∃ column, place? offset n (lineLengths source) = some (n + row, column)) ↔
      Lands source row offset := by
  induction hsize : source.length using Nat.strong_induction_on generalizing source offset row n
  rename_i size ih
  have hplain {part : List Char} (hpart : part ⊆ source) (hn : '\n' ∉ part) :
      ∀ c ∈ part, isTerminator c = false := by
    intro c hc
    by_contra hterminator
    exact hn (h c (hpart hc) (by simpa using hterminator) ▸ hc)
  rcases Text.lines_cases source with hone | ⟨line, rest, hline, rfl⟩
  · have hlengths := lineLengthsFrom_last (hplain (List.Subset.refl _) hone) 0
    rw [Nat.zero_add] at hlengths
    rw [lands_last_iff hone, lineLengths, hlengths]
    by_cases hempty : source = []
    · subst hempty
      simp [place?]
    · rw [if_neg (by simpa using hempty), exists_place?_singleton]
      simp [hempty]
  · have hlengths := lineLengthsFrom_line (hplain (List.subset_append_left _ _) hline) 0 rest
    rw [Nat.zero_add] at hlengths
    rw [lineLengths, hlengths]
    by_cases hempty : rest = []
    · -- the text ends in a line feed, and its end belongs to the line before
      subst hempty
      rw [lineLengthsFrom, if_pos rfl, exists_place?_singleton]
      cases row with
      | zero =>
        rw [lands_zero_iff hline]
        simp only [true_and]
        omega
      | succ row =>
        rw [lands_succ_iff hline, lands_last_iff List.not_mem_nil]
        simp
    · have hne : lineLengthsFrom 0 rest ≠ [] := fun hnil => hempty (eq_nil_of_lineLengthsFrom hnil)
      cases row with
      | zero =>
        rw [exists_place?_cons_zero hne, lands_zero_iff hline]
        simp only [hempty, false_and, or_false]
        omega
      | succ row =>
        have hrest : ∀ c ∈ rest, isTerminator c = true → c = '\n' := fun c hc =>
          h c (List.mem_append_right _ (List.mem_cons_of_mem _ hc))
        have hshorter : rest.length < size := by
          rw [← hsize, List.length_append, List.length_cons]
          omega
        rw [exists_place?_cons_succ hne, lands_succ_iff hline]
        exact and_congr_right fun _ => ih rest.length hshorter hrest (n + 1) rfl

/-! ## The line that is named -/

/-- The place that a report shows is in its last line. -/
theorem locationLine_mem_lines {d : Diagnostic} {place : Nat × Nat}
    (h : d.location source = some place) (filename : String) :
    locationLine filename place ∈ (d.render filename source).lines := by
  simp [Report.lines, render, h]

theorem exists_location?_iff {span : Nat × Nat} (hspan : span.1 ≤ span.2)
    (h : ∀ c ∈ source, isTerminator c = true → c = '\n') :
    (∃ column, location? source span = some (row + 1, column)) ↔
      Lands source row span.1 ∧ span.2 ≤ source.length + 1 := by
  have hplace : (∃ column, place? span.1 0 (lineLengths source) = some (0 + row, column)) ↔
      Lands source row span.1 := exists_place?_iff h 0
  rw [Nat.zero_add] at hplace
  rw [← hplace, location?]
  split
  · rename_i hbeyond
    constructor
    · rintro ⟨column, hnone⟩
      cases hnone
    · rintro ⟨-, hle⟩
      omega
  · rename_i hbeyond
    constructor
    · rintro ⟨column, hfound⟩
      obtain ⟨place, hsome, heq⟩ := Option.map_eq_some_iff.mp hfound
      obtain ⟨hrow, -⟩ := Prod.mk.inj heq
      have hlands : Lands source row span.1 :=
        hplace.mp ⟨place.2, by rw [hsome, ← Nat.succ.inj hrow]⟩
      have hinside := hlands.inside
      exact ⟨⟨place.2, by rw [hsome, ← Nat.succ.inj hrow]⟩, by omega⟩
    · rintro ⟨⟨column, hsome⟩, -⟩
      exact ⟨column + 1, by rw [hsome, Option.map_some]⟩

/-- **When a report names the line of its diagnostic.**  Let the only line ends of the source be line
feeds, and let the diagnostic start between two characters of a line, or at one of its ends.  The
report shows the place that is found for the diagnostic.  That place is on the line of the diagnostic
if and only if the number of bytes ahead of the diagnostic, taken as a number of characters, still
leads to that line, and the number of bytes up to its end does not lead out of the text. -/
theorem location_line_iff (d : Diagnostic) (source head tail : List Char)
    (hbreaks : ∀ c ∈ source, isTerminator c = true → c = '\n')
    (hline : Text.rawLine? source d.range.start.line.toNat = some (head ++ tail))
    (hcolumn : d.range.start.character.toNat = Text.utf16Length head) :
    (∀ filename place, d.location source = some place →
      locationLine filename place ∈ (d.render filename source).lines) ∧
    ((∃ column, d.location source = some (d.range.start.line.toNat + 1, column)) ↔
      Lands source d.range.start.line.toNat
          (Text.utf8Length (Text.ahead source d.range.start.line.toNat ++ head)) ∧
        (Text.byteSpan source d.range).2 ≤ source.length + 1) := by
  have hstart : (Text.byteSpan source d.range).1 =
      Text.utf8Length (Text.ahead source d.range.start.line.toNat ++ head) := by
    rw [Text.byteSpan, Text.clampedOffset, Text.byteOffset?_of_line hline hcolumn, Option.getD_some]
  have hspan : (Text.byteSpan source d.range).1 ≤ (Text.byteSpan source d.range).2 :=
    Nat.le_max_right _ _
  refine ⟨fun filename place hplace => locationLine_mem_lines hplace filename, ?_⟩
  rw [Diagnostic.location, exists_location?_iff hspan hbreaks, hstart]

/-- Two characters of two bytes each: the second line is reported as the third. -/
theorem location_line_iff_accentedLine :
    let source := "éé\nx\ny".toList
    let d : Diagnostic := ⟨⟨⟨1, 0⟩, ⟨1, 1⟩⟩, "m", .compiler⟩
    ((∀ c ∈ source, isTerminator c = true → c = '\n') ∧
      Text.rawLine? source 1 = some ([] ++ ['x']) ∧ 0 = Text.utf16Length []) ∧
    d.location source = some (3, 1) ∧ ¬ ∃ column, d.location source = some (2, column) := by
  intro source d
  have hall : (source.all fun c => !isTerminator c || c = '\n') = true := rfl
  have hbreaks : ∀ c ∈ source, isTerminator c = true → c = '\n' := by
    intro c hc hterminator
    simpa [hterminator] using List.all_eq_true.mp hall c hc
  have hline : Text.rawLine? source 1 = some ([] ++ ['x']) := by decide
  have hiff := (location_line_iff d source [] ['x'] hbreaks hline rfl).2
  refine ⟨⟨hbreaks, hline, rfl⟩, by decide, fun hnamed => ?_⟩
  obtain ⟨hlands, -⟩ := hiff.mp hnamed
  -- five bytes, and only the first four of the characters are on the first two lines
  have hpassed := hlands.not_passed
  revert hpassed
  decide

end Diagnostic

end DialectBridge
