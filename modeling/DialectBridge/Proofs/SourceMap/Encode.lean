import DialectBridge.Proofs.SourceMap.Vlq
import DialectBridge.Proofs.Text.Lines
import DialectBridge.SourceMap.Decode

/-!
# Writing version 3 mappings

`writeMappings` writes host lines the way a version 3 source map has them: every field is the
difference to a running position, of which the host column starts over on each line while the
dialect line and column run on through the whole text.  Segments that map nothing may stand anywhere
and move the column; segments that map may name a source and a name.

* `advance_written` — reading a written segment moves the cursor where writing it did, and gives
  back its mapping;
* `decodeSegments_writeSegments`, `decodeLine_writeLine`, `decodeLines_writeLines` — the same for
  the segments of a line, a line and all lines, from any cursor;
* `ofMappings_writeMappings` — decoding inverts writing.
-/

namespace DialectBridge.SourceMap

/-- A segment: a column to skip to, or a mapping with its source and name fields. -/
inductive Segment where
  | skip (column : UInt32)
  | mapped (mapping : ColumnMapping) (source : Int) (name : Option Int)
  deriving DecidableEq, Repr

namespace Segment

/-- The mapping a segment carries. -/
def mapping? : Segment → Option ColumnMapping
  | .skip _ => none
  | .mapped mapping _ _ => some mapping

/-- Where a segment moves the running position. -/
def move (c : Cursor) : Segment → Cursor
  | .skip column => { c with hostColumn := column.toNat }
  | .mapped m _ _ => ⟨m.hostColumn.toNat, m.dialectLine.toNat, m.dialectColumn.toNat⟩

/-- The fields of a segment after a running position. -/
def fields (c : Cursor) : Segment → List Int
  | .skip column => [column.toNat - c.hostColumn]
  | .mapped m source name =>
    [m.hostColumn.toNat - c.hostColumn, source, m.dialectLine.toNat - c.dialectLine,
      m.dialectColumn.toNat - c.dialectColumn] ++ name.toList

/-- The source and name fields can be written. -/
def Bounded : Segment → Prop
  | .skip _ => True
  | .mapped _ source name => ∀ n ∈ source :: name.toList, n.natAbs < 2 ^ 62

instance : DecidablePred Bounded
  | .skip _ => isTrue trivial
  | .mapped _ source name =>
    inferInstanceAs (Decidable (∀ n ∈ source :: name.toList, n.natAbs < 2 ^ 62))

/-- The text of a segment. -/
def written (c : Cursor) (s : Segment) : List Char :=
  (s.fields c).flatMap Vlq.encode

end Segment

/-- The mappings among segments. -/
def mappingsOf (line : List Segment) : List ColumnMapping :=
  line.filterMap Segment.mapping?

/-- The running position at the start of the next line. -/
def Cursor.newLine (c : Cursor) : Cursor :=
  { c with hostColumn := 0 }

/-- The running position after segments. -/
def Cursor.moveAll (c : Cursor) (line : List Segment) : Cursor :=
  line.foldl Segment.move c

/-- The texts of segments, one after another. -/
def writeSegments : Cursor → List Segment → List (List Char)
  | _, [] => []
  | c, s :: rest => s.written c :: writeSegments (s.move c) rest

/-- The text of a line. -/
def writeLine (c : Cursor) (line : List Segment) : List Char :=
  List.intercalate [','] (writeSegments c.newLine line)

/-- The texts of lines, one after another. -/
def writeLines : Cursor → List (List Segment) → List (List Char)
  | _, [] => []
  | c, line :: rest => writeLine c line :: writeLines (c.newLine.moveAll line) rest

/-- The text of all lines. -/
def writeMappings (lines : List (List Segment)) : List Char :=
  List.intercalate [';'] (writeLines ⟨0, 0, 0⟩ lines)

/-! ## Positions in range -/

/-- A running position that a segment can leave behind: every coordinate is a 32-bit number. -/
structure Cursor.InRange (c : Cursor) : Prop where
  hostColumn : 0 ≤ c.hostColumn ∧ c.hostColumn < 2 ^ 32
  dialectLine : 0 ≤ c.dialectLine ∧ c.dialectLine < 2 ^ 32
  dialectColumn : 0 ≤ c.dialectColumn ∧ c.dialectColumn < 2 ^ 32

theorem toNat_inRange (n : UInt32) : (0 : Int) ≤ n.toNat ∧ (n.toNat : Int) < 2 ^ 32 := by
  have := n.toNat_lt
  omega

variable {c : Cursor} {s : Segment} {line : List Segment}

theorem Cursor.InRange.newLine (h : c.InRange) : c.newLine.InRange :=
  ⟨⟨Int.le_refl 0, show (0 : Int) < 2 ^ 32 by decide⟩, h.dialectLine, h.dialectColumn⟩

theorem Cursor.InRange.move (h : c.InRange) (s : Segment) : (s.move c).InRange := by
  cases s with
  | skip column => exact ⟨toNat_inRange _, h.dialectLine, h.dialectColumn⟩
  | mapped m source name => exact ⟨toNat_inRange _, toNat_inRange _, toNat_inRange _⟩

theorem Cursor.InRange.moveAll (h : c.InRange) (line : List Segment) : (c.moveAll line).InRange := by
  induction line generalizing c with
  | nil => exact h
  | cons s rest ih => exact ih (h.move s)

/-- All fields of a segment fit the words of the reader. -/
theorem fields_lt (h : c.InRange) (hs : s.Bounded) : ∀ n ∈ s.fields c, n.natAbs < 2 ^ 62 := by
  have hcolumn := h.hostColumn
  have hline := h.dialectLine
  have hcharacter := h.dialectColumn
  cases s with
  | skip column =>
    intro n hn
    have := toNat_inRange column
    rw [List.mem_singleton.mp hn]
    omega
  | mapped m source name =>
    have h1 := toNat_inRange m.hostColumn
    have h2 := toNat_inRange m.dialectLine
    have h3 := toNat_inRange m.dialectColumn
    intro n hn
    simp only [Segment.fields, List.mem_append, List.mem_cons, List.not_mem_nil, or_false,
      Option.mem_toList] at hn
    rcases hn with (rfl | rfl | rfl | rfl) | hn
    · omega
    · exact hs _ List.mem_cons_self
    · omega
    · omega
    · exact hs n (List.mem_cons_of_mem _ (Option.mem_toList.mpr hn))

/-! ## Segments -/

theorem decodeSegment_written (h : c.InRange) (hs : s.Bounded) :
    decodeSegment (s.written c) = .ok (s.fields c) := by
  rw [decodeSegment, Segment.written, Vlq.decode_flatMap_encode (fields_lt h hs)]

theorem mapping_toNat (m : ColumnMapping) :
    Cursor.mapping ⟨m.hostColumn.toNat, m.dialectLine.toNat, m.dialectColumn.toNat⟩ = m := by
  simp [Cursor.mapping, coordinate]

/-- The fields of a segment move the reader's cursor where the segment moved the writer's; a
coordinate is far from the ends of the reader's word. -/
theorem advance_written (c : Cursor) (s : Segment) (text : List Char) :
    c.advance text (s.fields c) = .ok (s.move c, s.mapping?) := by
  have hsum (a : Int) (n : UInt32) : Vlq.wrap (a + (n.toNat - a)) = n.toNat := by
    have hn := n.toNat_lt
    rw [Int.add_comm, Int.sub_add_cancel, Vlq.wrap_of_lt (by omega)]
  cases s with
  | skip column => simp only [Segment.fields, Cursor.advance, Segment.move, Segment.mapping?, hsum]
  | mapped m source name =>
    have hvalid : Cursor.valid
        ⟨m.hostColumn.toNat, m.dialectLine.toNat, m.dialectColumn.toNat⟩ = true := by
      simp [Cursor.valid]
    cases name with
    | none =>
      simp only [Segment.fields, Option.toList_none, List.append_nil, Cursor.advance, Segment.move,
        Segment.mapping?, hsum, hvalid, mapping_toNat, if_true]
    | some name =>
      simp only [Segment.fields, Option.toList_some, List.cons_append, List.nil_append,
        Cursor.advance, Segment.move, Segment.mapping?, hsum, hvalid, mapping_toNat, if_true]

theorem decodeSegments_writeSegments (h : c.InRange) (hs : ∀ s ∈ line, s.Bounded)
    (found : List ColumnMapping) :
    decodeSegments c found (writeSegments c line) =
      .ok (c.moveAll line, found.reverse ++ mappingsOf line) := by
  induction line generalizing c found with
  | nil => simp [writeSegments, decodeSegments, Cursor.moveAll, mappingsOf]
  | cons s rest ih =>
    rw [writeSegments, decodeSegments, decodeSegment_written h (hs s List.mem_cons_self)]
    simp only [advance_written]
    rw [ih (h.move s) fun s' hs' => hs s' (List.mem_cons_of_mem _ hs')]
    cases hm : s.mapping? with
    | none => simp [mappingsOf, hm, Cursor.moveAll]
    | some m => simp [mappingsOf, hm, Cursor.moveAll]

/-! ## Lines -/

theorem dropRepeats_go_of_ascending {last : UInt32} {found : List ColumnMapping}
    (hlast : ∀ m ∈ found, last < m.hostColumn)
    (h : found.Pairwise fun a b => a.hostColumn < b.hostColumn) :
    dropRepeats.go last found = found := by
  induction found generalizing last with
  | nil => rfl
  | cons m rest ih =>
    have hne : m.hostColumn ≠ last := (UInt32.ne_of_lt (hlast m List.mem_cons_self)).symm
    obtain ⟨hm, hrest⟩ := List.pairwise_cons.mp h
    rw [dropRepeats.go, if_neg hne, ih hm hrest]

/-- Mappings in ascending order of their columns stay as they are. -/
theorem arrange_of_ascending {found : List ColumnMapping}
    (h : found.Pairwise fun a b => a.hostColumn < b.hostColumn) : arrange found = found := by
  have hsorted : found.mergeSort (fun a b => a.hostColumn ≤ b.hostColumn) = found :=
    List.mergeSort_of_pairwise (h.imp fun hab => decide_eq_true (UInt32.le_of_lt hab))
  rw [arrange, hsorted]
  cases found with
  | nil => rfl
  | cons m rest =>
    obtain ⟨hm, hrest⟩ := List.pairwise_cons.mp h
    rw [dropRepeats, dropRepeats_go_of_ascending hm hrest]

theorem written_plain {ch : Char} (h : ch ∈ s.written c) : ch ≠ ',' ∧ ch ≠ ';' := by
  obtain ⟨n, -, hn⟩ := List.mem_flatMap.mp h
  exact (Vlq.encode_plain hn).2

theorem written_ne_nil (c : Cursor) (s : Segment) : s.written c ≠ [] := by
  rw [Segment.written, Ne, List.flatMap_eq_nil_iff]
  intro hnil
  cases s with
  | skip column => exact Vlq.encode_ne_nil _ (hnil _ List.mem_cons_self)
  | mapped m source name => exact Vlq.encode_ne_nil _ (hnil _ List.mem_cons_self)

theorem mem_writeSegments {text : List Char} (h : text ∈ writeSegments c line) :
    ∃ c' s, text = Segment.written c' s := by
  induction line generalizing c with
  | nil => cases h
  | cons s rest ih =>
    rcases List.mem_cons.mp h with rfl | h
    · exact ⟨c, s, rfl⟩
    · exact ih h

/-- The texts of the segments are what the reader finds on the line. -/
theorem split_writeLine (c : Cursor) (line : List Segment) :
    (Text.split ',' (writeLine c line)).filter (fun text => !text.isEmpty) =
      writeSegments c.newLine line := by
  have hfull : ∀ text ∈ writeSegments c.newLine line, (!text.isEmpty) = true := by
    intro text htext
    obtain ⟨c', s, rfl⟩ := mem_writeSegments htext
    simpa using written_ne_nil c' s
  cases line with
  | nil => rfl
  | cons s rest =>
    have hcut : Text.split ',' (writeLine c (s :: rest)) = writeSegments c.newLine (s :: rest) := by
      refine Text.split_intercalate (by simp [writeSegments]) fun text htext hmem => ?_
      obtain ⟨c', s', rfl⟩ := mem_writeSegments htext
      exact (written_plain hmem).1 rfl
    rw [hcut, List.filter_eq_self.mpr hfull]

theorem decodeLine_writeLine (h : c.InRange) (hs : ∀ s ∈ line, s.Bounded)
    (hline : (mappingsOf line).Pairwise fun a b => a.hostColumn < b.hostColumn) :
    decodeLine c (writeLine c line) = .ok (c.newLine.moveAll line, mappingsOf line) := by
  have hsegments := decodeSegments_writeSegments h.newLine hs []
  rw [List.reverse_nil, List.nil_append] at hsegments
  rw [decodeLine, split_writeLine]
  simp only [Cursor.newLine] at hsegments ⊢
  rw [hsegments]
  simp only [arrange_of_ascending hline]

theorem semicolon_not_mem_writeLine (c : Cursor) (line : List Segment) : ';' ∉ writeLine c line := by
  intro h
  rcases Text.mem_intercalate_singleton h with hcomma | ⟨text, htext, hmem⟩
  · exact absurd hcomma (by decide)
  · obtain ⟨c', s, rfl⟩ := mem_writeSegments htext
    exact (written_plain hmem).2 rfl

theorem mem_writeLines {lines : List (List Segment)} {text : List Char}
    (h : text ∈ writeLines c lines) : ∃ c' line, text = writeLine c' line := by
  induction lines generalizing c with
  | nil => cases h
  | cons line rest ih =>
    rcases List.mem_cons.mp h with rfl | h
    · exact ⟨c, line, rfl⟩
    · exact ih h

theorem decodeLines_writeLines {lines : List (List Segment)} (h : c.InRange)
    (hs : ∀ line ∈ lines, ∀ s ∈ line, s.Bounded)
    (hlines : ∀ line ∈ lines, (mappingsOf line).Pairwise fun a b => a.hostColumn < b.hostColumn)
    (done : List (List ColumnMapping)) :
    decodeLines c done (writeLines c lines) = .ok (done.reverse ++ lines.map mappingsOf) := by
  induction lines generalizing c done with
  | nil => simp [writeLines, decodeLines]
  | cons line rest ih =>
    rw [writeLines, decodeLines, decodeLine_writeLine h (hs line List.mem_cons_self)
      (hlines line List.mem_cons_self)]
    simp only
    rw [ih (h.newLine.moveAll line) (fun l hl => hs l (List.mem_cons_of_mem _ hl))
      fun l hl => hlines l (List.mem_cons_of_mem _ hl)]
    simp

/-- **Decoding inverts writing.**  Whatever segments stand between the mappings, whatever sources
and names they have and wherever the dialect positions jump, the mappings of each line come back, as
long as their host columns ascend on every line and there is a line at all. -/
theorem ofMappings_writeMappings (lines : List (List Segment)) (hne : lines ≠ [])
    (hs : ∀ line ∈ lines, ∀ s ∈ line, s.Bounded)
    (hlines : ∀ line ∈ lines, (mappingsOf line).Pairwise fun a b => a.hostColumn < b.hostColumn) :
    ofMappings (writeMappings lines) = .ok ⟨lines.map mappingsOf⟩ := by
  have hcut : Text.split ';' (writeMappings lines) = writeLines ⟨0, 0, 0⟩ lines := by
    refine Text.split_intercalate ?_ fun text htext => ?_
    · cases lines with
      | nil => exact absurd rfl hne
      | cons line rest => simp [writeLines]
    · obtain ⟨c, line, rfl⟩ := mem_writeLines htext
      exact semicolon_not_mem_writeLine c line
  have hstart : Cursor.InRange ⟨0, 0, 0⟩ := by constructor <;> decide
  rw [ofMappings, hcut, decodeLines_writeLines hstart hs hlines]
  rfl

example : writeMappings [[.mapped ⟨0, 0, 0⟩ 0 none, .mapped ⟨4, 0, 4⟩ 0 none], [],
    [.mapped ⟨2, 1, 0⟩ 0 none]] = "AAAA,IAAI;;EACJ".toList := by decide +kernel

/-- Lines with a column skipped to and left again, a line without mappings, a jump back in the
dialect text, a name, and sources of any sign. -/
def jumpingLines : List (List Segment) :=
  [[.mapped ⟨0, 7, 3⟩ 0 none, .skip 90, .mapped ⟨4, 0, 4294967295⟩ (-1) (some 2)], [],
    [.skip 1, .mapped ⟨2, 1, 0⟩ (2 ^ 61) none, .skip 0]]

theorem ofMappings_writeMappings_jumpingLines :
    (jumpingLines ≠ [] ∧ (∀ line ∈ jumpingLines, ∀ s ∈ line, s.Bounded) ∧
      ∀ line ∈ jumpingLines, (mappingsOf line).Pairwise fun a b => a.hostColumn < b.hostColumn) ∧
    ofMappings (writeMappings jumpingLines) =
      .ok ⟨[[⟨0, 7, 3⟩, ⟨4, 0, 4294967295⟩], [], [⟨2, 1, 0⟩]]⟩ :=
  ⟨⟨by decide, by decide, by decide⟩,
    ofMappings_writeMappings jumpingLines (by decide) (by decide) (by decide)⟩

end DialectBridge.SourceMap
