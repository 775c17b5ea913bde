import DialectBridge.Proofs.Text.Order
import DialectBridge.Proofs.Text.Runs
import DialectBridge.Verifier.Finding
import Mathlib.Data.List.Forall2

/-!
# Findings on whole lines of the dialect text

A finding has a line of the host text at most.  It is placed on a whole line of the dialect text,
which has to exist there, and whose columns have to be those of the line without its terminator.

* `mem_of_nearest` — a nearest mapping is one of the map;
* `range_eq` — the range of a finding is its dialect line, from the first column to the last;
* `coversLine_wholeLine` — such a range covers the line;
* `select_wholeLine`, `select_of_multiple` — the bytes it has, of a line whose length is a column, and
  of one that is too long;
* `placeAll_whole_lines` — all findings, in order.
-/

namespace DialectBridge

/-- A range covers line `row` of a text: the line exists, the range goes from its first column to the
column that its length is, and its span starts at the place of the line. -/
structure Range.CoversLine (text : List Char) (row : UInt32) (r : Range) : Prop where
  row_lt : row.toNat < Text.lineCount text
  range_eq : r = ⟨⟨row, 0⟩, ⟨row, UInt32.ofNat (Text.lineLength text row.toNat)⟩⟩
  span_start : (Text.byteSpan text r).1 = Text.utf8Length (Text.ahead text row.toNat)

variable {map : SourceMap} {text : List Char} {f : Finding}

/-- A nearest mapping is one of the map. -/
theorem SourceMap.mem_of_nearest {n : UInt32} {mapping : ColumnMapping}
    (h : map.nearest n = .ok mapping) : ∃ columns ∈ map.lines, mapping ∈ columns := by
  unfold nearest at h
  split at h
  · rename_i found hfound
    cases h
    obtain ⟨k, -, hk⟩ := List.exists_of_findSome?_eq_some hfound
    obtain ⟨columns, hcolumns, hfirst⟩ := Option.bind_eq_some_iff.mp hk
    exact ⟨columns, List.mem_of_getElem? hcolumns, List.mem_of_head? hfirst⟩
  · cases h

/-- A place on one host line comes from one dialect line. -/
theorem SourceMap.toDialect_at (n : UInt32) :
    map.toDialect (Range.at ⟨n, 0⟩) text =
      (map.nearest n).map fun mapping =>
        Range.wholeLine mapping.dialectLine
          (UInt32.ofNat (Text.lineLength text mapping.dialectLine.toNat)) := by
  unfold toDialect Range.at
  cases map.nearest n with
  | error miss => rfl
  | ok mapping =>
    have hmin : min mapping.dialectLine mapping.dialectLine = mapping.dialectLine := ite_self _
    have hmax : max mapping.dialectLine mapping.dialectLine = mapping.dialectLine := ite_self _
    simp only [bind, Except.bind, pure, Except.pure, Except.map, hmin, hmax]
    rfl

theorem Finding.range_eq (map : SourceMap) (text : List Char) (f : Finding) :
    f.range map text =
      Range.wholeLine (f.dialectLine map)
        (UInt32.ofNat (Text.lineLength text (f.dialectLine map).toNat)) := by
  unfold Finding.range Finding.dialectLine
  cases f.line with
  | none => rfl
  | some n =>
    simp only [SourceMap.toDialect_at, Option.map_some]
    cases map.nearest n with
    | error miss => rfl
    | ok mapping => rfl

theorem Finding.placeAll_spell (map : SourceMap) (found : List Finding) (runs : List Text.Run) :
    Finding.placeAll map found (Text.Run.spell runs) = Finding.placeRuns map found runs := by
  refine List.map_congr_left fun f _ => ?_
  rw [Finding.place, Finding.range_eq, Text.Run.lineLength_spell]

/-- The dialect line of a finding exists, if those of all mappings do. -/
theorem Finding.dialectLine_lt
    (hmap : ∀ columns ∈ map.lines, ∀ c ∈ columns, c.dialectLine.toNat < Text.lineCount text)
    (f : Finding) : (f.dialectLine map).toNat < Text.lineCount text := by
  have hfirst : (0 : UInt32).toNat < Text.lineCount text := Nat.succ_pos _
  unfold Finding.dialectLine
  cases f.line with
  | none => exact hfirst
  | some n =>
    rw [Option.map_some]
    cases hnearest : map.nearest n with
    | error miss => exact hfirst
    | ok mapping =>
      obtain ⟨columns, hcolumns, hmapping⟩ := SourceMap.mem_of_nearest hnearest
      exact hmap columns hcolumns mapping hmapping

theorem coversLine_wholeLine {row : UInt32} (hrow : row.toNat < Text.lineCount text) :
    Range.CoversLine text row
      (Range.wholeLine row (UInt32.ofNat (Text.lineLength text row.toNat))) := by
  obtain ⟨raw, hraw⟩ := Text.exists_rawLine hrow
  refine ⟨hrow, rfl, ?_⟩
  have hstart : Text.byteOffset? text ⟨row, 0⟩ =
      some (Text.utf8Length (Text.ahead text row.toNat ++ [])) :=
    Text.byteOffset?_of_line hraw rfl
  rw [Text.byteSpan, Range.wholeLine, Text.clampedOffset, hstart, Option.getD_some, List.append_nil]

theorem lineLength_of_line {n : Nat} {line : List Char} (h : Text.lineAt? text n = some line) :
    Text.lineLength text n = Text.utf16Length line := by
  rw [Text.lineLength, h, Option.map_some, Option.getD_some]

/-- **A whole line is covered byte by byte**, with its carriage return left out, if its length is a
column. -/
theorem select_wholeLine {row : UInt32} (hrow : row.toNat < Text.lineCount text)
    (hlength : Text.lineLength text row.toNat < UInt32.size) :
    (Text.lineAt? text row.toNat).map Text.Utf8.encode =
      some (Text.select (Text.Utf8.encode text) (Text.byteSpan text
        (Range.wholeLine row (UInt32.ofNat (Text.lineLength text row.toNat))))) := by
  obtain ⟨raw, hraw⟩ := Text.exists_rawLine hrow
  have hline : Text.lineAt? text row.toNat = some (Text.dropReturn raw) := by
    rw [Text.lineAt?, hraw, Option.map_some]
  obtain ⟨tail, htail⟩ := Text.exists_dropReturn_append raw
  obtain ⟨after, htext, -⟩ := Text.ahead_append_line hraw
  have hcolumn : (UInt32.ofNat (Text.lineLength text row.toNat)).toNat =
      Text.utf16Length (Text.dropReturn raw) := by
    rw [UInt32.toNat_ofNat_of_lt' hlength, lineLength_of_line hline]
  have hspan := Text.byteSpan_wholeLine (htail ▸ hraw) hcolumn
  have hsplit : text = Text.ahead text row.toNat ++ Text.dropReturn raw ++ (tail ++ after) := by
    rw [List.append_assoc, ← List.append_assoc (Text.dropReturn raw), ← htail, ← List.append_assoc]
    exact htext
  have hselect := Text.select_encode (Text.ahead text row.toNat) (Text.dropReturn raw) (tail ++ after)
  rw [← hsplit, ← hspan] at hselect
  rw [hline, Option.map_some, hselect]

/-- Of a line whose length is a multiple of 2^32, the last column is taken for the first, and the range
has none of its bytes. -/
theorem select_of_multiple {row : UInt32} (hrow : row.toNat < Text.lineCount text)
    (hlength : UInt32.ofNat (Text.lineLength text row.toNat) = 0) :
    Text.select (Text.Utf8.encode text) (Text.byteSpan text
      (Range.wholeLine row (UInt32.ofNat (Text.lineLength text row.toNat)))) = [] := by
  obtain ⟨raw, hraw⟩ := Text.exists_rawLine hrow
  rw [hlength, Text.byteSpan_wholeLine (List.nil_append raw ▸ hraw) rfl, List.append_nil,
    Text.select, Nat.sub_self, List.take_zero]

/-- **Findings are placed on whole lines of the dialect text.**  If the dialect lines of all mappings
exist, every finding becomes a diagnostic with its message, in order, and none is added or lost.  The
diagnostic covers the dialect line of the finding, which exists.  If that line has fewer than 2^32
units, the span of the diagnostic has the bytes of the line without terminator. -/
theorem placeAll_whole_lines (map : SourceMap) (found : List Finding) (text : List Char)
    (hmap : ∀ columns ∈ map.lines, ∀ c ∈ columns, c.dialectLine.toNat < Text.lineCount text) :
    List.Forall₂
      (fun f d => d.message = f.message ∧ d.origin = .verifier ∧
        d.range.CoversLine text (f.dialectLine map) ∧
        (Text.lineLength text (f.dialectLine map).toNat < UInt32.size →
          (Text.lineAt? text (f.dialectLine map).toNat).map Text.Utf8.encode =
            some (Text.select (Text.Utf8.encode text) (Text.byteSpan text d.range))))
      found (Finding.placeAll map found text) := by
  rw [Finding.placeAll, List.forall₂_map_right_iff, List.forall₂_same]
  intro f _
  have hrow := Finding.dialectLine_lt hmap f
  rw [Finding.place, Finding.range_eq]
  exact ⟨rfl, rfl, coversLine_wholeLine hrow, select_wholeLine hrow⟩

/-- Three lines, one with a surrogate pair before a carriage return and one without a line feed at its
end; a finding one line below the mappings of the second line, one of no line, one on the last line
that has a number, and one on a line with a mapping. -/
theorem placeAll_whole_lines_unevenText :
    let map : SourceMap := ⟨[[⟨0, 0, 0⟩], [⟨0, 1, 4⟩, ⟨7, 0, 0⟩], [], [], [⟨2, 2, 0⟩]]⟩
    let text := "x = '😀'\r\ny = é\r\n  z".toList
    let found : List Finding := [⟨"a", some 2⟩, ⟨"b", none⟩, ⟨"c", some 4294967295⟩, ⟨"d", some 4⟩]
    (∀ columns ∈ map.lines, ∀ c ∈ columns, c.dialectLine.toNat < Text.lineCount text) ∧
    Finding.placeAll map found text =
      [⟨⟨⟨1, 0⟩, ⟨1, 5⟩⟩, "a", .verifier⟩, ⟨⟨⟨0, 0⟩, ⟨0, 8⟩⟩, "b", .verifier⟩,
        ⟨⟨⟨0, 0⟩, ⟨0, 8⟩⟩, "c", .verifier⟩, ⟨⟨⟨2, 0⟩, ⟨2, 3⟩⟩, "d", .verifier⟩] ∧
    Text.byteSpan text ⟨⟨1, 0⟩, ⟨1, 5⟩⟩ = (12, 18) ∧
    Text.select (Text.Utf8.encode text) (12, 18) = Text.Utf8.encode "y = é".toList := by
  intro map text found
  have hmap : ∀ columns ∈ map.lines, ∀ c ∈ columns, c.dialectLine.toNat < Text.lineCount text := by
    decide
  have hplaced : Finding.placeAll map found text =
      [⟨⟨⟨1, 0⟩, ⟨1, 5⟩⟩, "a", .verifier⟩, ⟨⟨⟨0, 0⟩, ⟨0, 8⟩⟩, "b", .verifier⟩,
        ⟨⟨⟨0, 0⟩, ⟨0, 8⟩⟩, "c", .verifier⟩, ⟨⟨⟨2, 0⟩, ⟨2, 3⟩⟩, "d", .verifier⟩] := by decide
  have hspan : Text.byteSpan text ⟨⟨1, 0⟩, ⟨1, 5⟩⟩ = (12, 18) := by decide
  have hlaw := placeAll_whole_lines map found text hmap
  rw [hplaced] at hlaw
  obtain ⟨⟨-, -, -, hselected⟩, -⟩ := List.forall₂_cons.mp hlaw
  have hline : Text.lineAt? text 1 = some "y = é".toList := by decide
  have hbytes := hselected (by decide)
  rw [hspan] at hbytes
  exact ⟨hmap, hplaced, hspan, Option.some.inj (hbytes.symm.trans (congrArg _ hline))⟩

/-- A line of 2^32 letters: a finding on it is told of its first column, and has no byte of the
line. -/
theorem placeAll_whole_lines_tooLong :
    let map : SourceMap := ⟨[]⟩
    let text := List.replicate UInt32.size 'a'
    (∀ columns ∈ map.lines, ∀ c ∈ columns, c.dialectLine.toNat < Text.lineCount text) ∧
    Finding.placeAll map [⟨"m", none⟩] text = [⟨⟨⟨0, 0⟩, ⟨0, 0⟩⟩, "m", .verifier⟩] ∧
    Text.select (Text.Utf8.encode text) (Text.byteSpan text ⟨⟨0, 0⟩, ⟨0, 0⟩⟩) = [] ∧
    (Text.lineAt? text 0).map Text.Utf8.encode ≠ some [] := by
  intro map text
  have htext : text = Text.Run.spell [⟨'a', UInt32.size⟩] := (Text.Run.spell_singleton _ _).symm
  have hlength : Text.lineLength text 0 = UInt32.size := by
    rw [htext, Text.Run.lineLength_spell]
    decide
  have hplaced : Finding.placeAll map [⟨"m", none⟩] text = [⟨⟨⟨0, 0⟩, ⟨0, 0⟩⟩, "m", .verifier⟩] := by
    rw [htext, Finding.placeAll_spell]
    decide
  have hcolumn : UInt32.ofNat (Text.lineLength text (0 : UInt32).toNat) = 0 := by
    rw [UInt32.toNat_zero, hlength]
    decide
  have hrow : (0 : UInt32).toNat < Text.lineCount text := Nat.succ_pos _
  have hselected := select_of_multiple hrow hcolumn
  rw [hcolumn] at hselected
  refine ⟨fun columns hcolumns => absurd hcolumns List.not_mem_nil, hplaced, hselected, ?_⟩
  intro hnil
  obtain ⟨line, hline, hbytes⟩ := Option.map_eq_some_iff.mp hnil
  have hunits := Text.utf16Length_le_utf8Length line
  rw [← Text.length_encode, hbytes, ← lineLength_of_line hline, hlength] at hunits
  exact absurd hunits (by decide)

end DialectBridge
