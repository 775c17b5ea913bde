import DialectBridge.Proofs.SourceMap.Encode
import Mathlib.Data.List.Forall2

/-!
# Exact positions and those that are stored

A segment moves a position by its fields, so its position is a sum of fields: of those of its line
for the host column, of those of all lines up to it for the dialect line and column.  The reader
keeps its sums in 64-bit words, so it comes to the position modulo 2^64.  A mapping is stored with 32
bits for each coordinate.  A sum that is negative is an error; one that has more than 32 bits is not,
and what is stored is another position.

* `advance_skip`, `advance_mapped` — a segment moves the reader to its sums;
* `decodeSegments_of_reads`, `decodeLine_of_reads`, `decodeLines_of_reads` — what is read of
  segments, a line and all lines;
* `ofMappings_eq_ok_iff` — what is decoded, and of which texts;
* `coordinates_exact_iff_fit` — positions are stored exactly just if they fit, or if nothing is
  stored.
-/

namespace DialectBridge.SourceMap

/-- The sum of field `k` of segments; a segment without that field adds nothing. -/
def fieldSum (k : Nat) (segments : List (List Int)) : Int :=
  segments.foldr (fun fields n => fields.getD k 0 + n) 0

/-- The position after the segments `line` of a line, which `earlier` segments of other lines
precede. -/
def standing (earlier line : List (List Int)) : Cursor :=
  ⟨fieldSum 0 line, fieldSum 2 (earlier ++ line), fieldSum 3 (earlier ++ line)⟩

/-- The positions of those segments among the second ones that map, where the first ones precede them
on their line. -/
def stops (earlier : List (List Int)) : List (List Int) → List (List Int) → List Cursor
  | _, [] => []
  | done, fields :: rest =>
    if fields.length = 1 then stops earlier (done ++ [fields]) rest
    else standing earlier (done ++ [fields]) :: stops earlier (done ++ [fields]) rest

/-- The positions of the segments that map, line by line, where `earlier` segments precede them. -/
def positionsFrom : List (List Int) → List (List (List Int)) → List (List Cursor)
  | _, [] => []
  | earlier, row :: rows => stops earlier [] row :: positionsFrom (earlier ++ row) rows

/-- The positions of the segments that map, line by line. -/
def positions (rows : List (List (List Int))) : List (List Cursor) :=
  positionsFrom [] rows

/-- A position as the reader has it, in words. -/
def Cursor.wrapped (c : Cursor) : Cursor :=
  ⟨Vlq.wrap c.hostColumn, Vlq.wrap c.dialectLine, Vlq.wrap c.dialectColumn⟩

/-- The positions that the reader comes to, line by line. -/
def reached (rows : List (List (List Int))) : List (List Cursor) :=
  (positions rows).map fun ps => ps.map Cursor.wrapped

/-- Segments are read as rows of fields: one field, or four or five. -/
def Reads : List (List Char) → List (List Int) → Prop :=
  List.Forall₂ fun segment fields => decodeSegment segment = .ok fields ∧
    (fields.length = 1 ∨ fields.length = 4 ∨ fields.length = 5)

/-- The segments of a line. -/
def segmentsOf (line : List Char) : List (List Char) :=
  (Text.split ',' line).filter fun s => !s.isEmpty

/-- A text is read as fields, segment by segment and line by line. -/
def ReadsAs (mappings : List Char) (rows : List (List (List Int))) : Prop :=
  List.Forall₂ (fun line row => Reads (segmentsOf line) row) (Text.split ';' mappings) rows

/-- The position that a mapping tells. -/
def told (c : ColumnMapping) : Cursor :=
  ⟨c.hostColumn.toNat, c.dialectLine.toNat, c.dialectColumn.toNat⟩

/-- The table of the positions of each line, as they are stored. -/
def stored (lines : List (List Cursor)) : SourceMap :=
  ⟨lines.map fun ps => arrange (ps.map Cursor.mapping)⟩

variable {earlier done row : List (List Int)} {rows : List (List (List Int))} {fields : List Int}
  {segment : List Char} {segments lines : List (List Char)} {c : Cursor}

/-! ## Sums -/

theorem fieldSum_append (k : Nat) (xs ys : List (List Int)) :
    fieldSum k (xs ++ ys) = fieldSum k xs + fieldSum k ys := by
  induction xs with
  | nil => simp [fieldSum]
  | cons x xs ih =>
    simp only [fieldSum, List.cons_append, List.foldr_cons] at ih ⊢
    rw [ih, Int.add_assoc]

theorem fieldSum_singleton (k : Nat) (fields : List Int) :
    fieldSum k [fields] = fields.getD k 0 :=
  Int.add_zero _

theorem standing_concat (earlier done : List (List Int)) (fields : List Int) :
    standing earlier (done ++ [fields]) =
      ⟨(standing earlier done).hostColumn + fields.getD 0 0,
        (standing earlier done).dialectLine + fields.getD 2 0,
        (standing earlier done).dialectColumn + fields.getD 3 0⟩ := by
  simp only [standing, ← List.append_assoc, fieldSum_append _ _ [fields], fieldSum_singleton]

/-- A line ends, and its segments are now earlier ones. -/
theorem newLine_standing (earlier row : List (List Int)) :
    { (standing earlier row).wrapped with hostColumn := 0 } =
      (standing (earlier ++ row) []).wrapped := by
  simp only [standing, Cursor.wrapped, List.append_nil]
  rfl

theorem wrap_add (a b : Int) : Vlq.wrap (Vlq.wrap a + b) = Vlq.wrap (a + b) :=
  Int.bmod_add_bmod

/-! ## Segments -/

/-- A segment of one field moves the column and maps nothing. -/
theorem advance_skip (h : fields.length = 1) (segment : List Char) :
    (standing earlier done).wrapped.advance segment fields =
      .ok ((standing earlier (done ++ [fields])).wrapped, none) := by
  obtain ⟨column, rfl⟩ := List.length_eq_one_iff.mp h
  rw [standing_concat]
  simp [Cursor.advance, Cursor.wrapped, wrap_add]

/-- A segment of four or five fields maps its position, unless it is negative. -/
theorem advance_mapped (h : fields.length = 4 ∨ fields.length = 5) (segment : List Char) :
    (standing earlier done).wrapped.advance segment fields =
      let next := (standing earlier (done ++ [fields])).wrapped
      if next.valid then .ok (next, some next.mapping)
      else .error (.negative (String.ofList segment)) := by
  rw [standing_concat]
  rcases h with h | h
  · obtain ⟨column, source, line, character, rfl⟩ := List.length_eq_four.mp h
    simp [Cursor.advance, Cursor.wrapped, wrap_add]
  · obtain ⟨column, others, rfl⟩ := List.exists_cons_of_length_eq_add_one h
    obtain ⟨source, line, character, name, rfl⟩ := List.length_eq_four.mp (Nat.succ.inj h)
    simp [Cursor.advance, Cursor.wrapped, wrap_add]

theorem length_of_advance {moved : Cursor × Option ColumnMapping}
    (h : c.advance segment fields = .ok moved) :
    fields.length = 1 ∨ fields.length = 4 ∨ fields.length = 5 := by
  unfold Cursor.advance at h
  split at h
  · exact .inl rfl
  · exact .inr (.inl rfl)
  · exact .inr (.inr rfl)
  · cases h

/-- **What is read of segments**: all positions as they are stored, or the first that is negative. -/
theorem decodeSegments_of_reads (h : Reads segments row) (found : List ColumnMapping) :
    ∃ text, decodeSegments (standing earlier done).wrapped found segments =
      let stops := (stops earlier done row).map Cursor.wrapped
      if stops.all Cursor.valid then
        .ok ((standing earlier (done ++ row)).wrapped, found.reverse ++ stops.map Cursor.mapping)
      else .error (.negative text) := by
  induction h generalizing done found with
  | nil => exact ⟨"", by simp [decodeSegments, stops]⟩
  | @cons segment fields segments row hread _ ih =>
    obtain ⟨hdecode, hlength⟩ := hread
    rw [decodeSegments, hdecode]
    by_cases hone : fields.length = 1
    · obtain ⟨text, hrest⟩ := @ih (done ++ [fields]) found
      refine ⟨text, ?_⟩
      simp only [advance_skip hone, Option.toList_none, List.nil_append, hrest, stops, if_pos hone,
        List.append_assoc, List.singleton_append]
    · have hmaps : fields.length = 4 ∨ fields.length = 5 := hlength.resolve_left hone
      simp only [advance_mapped hmaps, stops, if_neg hone, List.all_cons, List.map_cons]
      by_cases hvalid : (standing earlier (done ++ [fields])).wrapped.valid = true
      · obtain ⟨text, hrest⟩ := @ih (done ++ [fields])
          ((standing earlier (done ++ [fields])).wrapped.mapping :: found)
        refine ⟨text, ?_⟩
        simp only [hvalid, if_true, Option.toList_some, List.singleton_append, hrest,
          Bool.true_and, List.reverse_cons, List.append_assoc]
      · refine ⟨String.ofList segment, ?_⟩
        simp only [hvalid, Bool.false_eq_true, if_false, Bool.false_and]

/-- Segments that are read without an error have one field, or four or five. -/
theorem reads_of_decodeSegments {found : List ColumnMapping} {result : Cursor × List ColumnMapping}
    (h : decodeSegments c found segments = .ok result) : ∃ row, Reads segments row := by
  induction segments generalizing c found with
  | nil => exact ⟨[], .nil⟩
  | cons segment segments ih =>
    rw [decodeSegments] at h
    cases hdecode : decodeSegment segment with
    | error e => simp [hdecode] at h
    | ok fields =>
      simp only [hdecode] at h
      cases hadvance : c.advance segment fields with
      | error e => simp [hadvance] at h
      | ok moved =>
        simp only [hadvance] at h
        obtain ⟨row, hrow⟩ := ih h
        exact ⟨fields :: row, .cons ⟨hdecode, length_of_advance hadvance⟩ hrow⟩

/-! ## Lines -/

theorem decodeLine_of_reads {line : List Char} (h : Reads (segmentsOf line) row)
    (hc : { c with hostColumn := 0 } = (standing earlier []).wrapped) :
    ∃ text, decodeLine c line =
      let stops := (stops earlier [] row).map Cursor.wrapped
      if stops.all Cursor.valid then
        .ok ((standing earlier row).wrapped, arrange (stops.map Cursor.mapping))
      else .error (.negative text) := by
  obtain ⟨text, hsegments⟩ := @decodeSegments_of_reads earlier [] _ _ h []
  refine ⟨text, ?_⟩
  rw [decodeLine, hc, ← segmentsOf, hsegments]
  by_cases hvalid : ((stops earlier [] row).map Cursor.wrapped).all Cursor.valid = true
  · simp only [if_pos hvalid, List.nil_append, List.reverse_nil]
  · simp only [if_neg hvalid]

theorem decodeLines_of_reads (h : List.Forall₂ (fun line row => Reads (segmentsOf line) row) lines rows)
    (hc : { c with hostColumn := 0 } = (standing earlier []).wrapped)
    (finished : List (List ColumnMapping)) :
    ∃ text, decodeLines c finished lines =
      let reached := (positionsFrom earlier rows).map fun ps => ps.map Cursor.wrapped
      if reached.all (·.all Cursor.valid) then
        .ok (finished.reverse ++ (stored reached).lines)
      else .error (.negative text) := by
  induction h generalizing c earlier finished with
  | nil => exact ⟨"", by simp [decodeLines, positionsFrom, stored]⟩
  | @cons line row lines rows hline _ ih =>
    obtain ⟨text, hdecode⟩ := decodeLine_of_reads hline hc
    rw [decodeLines, hdecode]
    simp only [positionsFrom, List.map_cons, List.all_cons]
    by_cases hvalid : ((stops earlier [] row).map Cursor.wrapped).all Cursor.valid = true
    · obtain ⟨text', hrest⟩ := ih (newLine_standing earlier row)
        (arrange (((stops earlier [] row).map Cursor.wrapped).map Cursor.mapping) :: finished)
      refine ⟨text', ?_⟩
      simp only [hvalid, if_true, Bool.true_and, hrest, List.reverse_cons, List.append_assoc,
        List.singleton_append, stored, List.map_cons]
    · exact ⟨text, by simp only [hvalid, Bool.false_eq_true, if_false, Bool.false_and]⟩

theorem reads_of_decodeLines {finished result : List (List ColumnMapping)}
    (h : decodeLines c finished lines = .ok result) :
    ∃ rows, List.Forall₂ (fun line row => Reads (segmentsOf line) row) lines rows := by
  induction lines generalizing c finished with
  | nil => exact ⟨[], .nil⟩
  | cons line lines ih =>
    rw [decodeLines] at h
    cases hline : decodeLine c line with
    | error e => simp [hline] at h
    | ok result =>
      simp only [hline] at h
      obtain ⟨rows, hrows⟩ := ih h
      rw [decodeLine] at hline
      cases hsegments : decodeSegments { c with hostColumn := 0 } [] (segmentsOf line) with
      | error e =>
        rw [segmentsOf] at hsegments
        simp [hsegments] at hline
      | ok read =>
        obtain ⟨row, hrow⟩ := reads_of_decodeSegments hsegments
        exact ⟨row :: rows, .cons hrow hrows⟩

/-! ## The whole text -/

/-- No position is negative. -/
def Nonnegative (lines : List (List Cursor)) : Prop :=
  ∀ ps ∈ lines, ∀ p ∈ ps, p.valid = true

theorem nonnegative_iff_all {lines : List (List Cursor)} :
    Nonnegative lines ↔ lines.all (·.all Cursor.valid) = true := by
  simp only [Nonnegative, List.all_eq_true]

theorem ofMappings_of_nonnegative {mappings : List Char} (h : ReadsAs mappings rows)
    (hsign : Nonnegative (reached rows)) : ofMappings mappings = .ok (stored (reached rows)) := by
  obtain ⟨text, hlines⟩ := @decodeLines_of_reads [] _ _ ⟨0, 0, 0⟩ h rfl []
  rw [reached, positions, nonnegative_iff_all] at hsign
  rw [ofMappings, hlines, if_pos hsign]
  rfl

/-- A negative position is an error. -/
theorem ofMappings_of_negative {mappings : List Char} (h : ReadsAs mappings rows)
    (hsign : ¬ Nonnegative (reached rows)) :
    ∃ text, ofMappings mappings = .error (.negative text) := by
  obtain ⟨text, hlines⟩ := @decodeLines_of_reads [] _ _ ⟨0, 0, 0⟩ h rfl []
  rw [reached, positions, nonnegative_iff_all] at hsign
  exact ⟨text, by rw [ofMappings, hlines, if_neg hsign]⟩

theorem readsAs_of_ofMappings {mappings : List Char} {m : SourceMap}
    (h : ofMappings mappings = .ok m) : ∃ rows, ReadsAs mappings rows := by
  unfold ofMappings at h
  cases hlines : decodeLines ⟨0, 0, 0⟩ [] (Text.split ';' mappings) with
  | error e => simp [hlines] at h
  | ok lines => exact reads_of_decodeLines hlines

/-- **What is decoded**: a text that can be read and brings the reader to no negative position, and of
it the positions that the reader comes to, as they are stored. -/
theorem ofMappings_eq_ok_iff (mappings : List Char) (m : SourceMap) :
    ofMappings mappings = .ok m ↔
      ∃ rows, ReadsAs mappings rows ∧ Nonnegative (reached rows) ∧ m = stored (reached rows) := by
  constructor
  · intro h
    obtain ⟨rows, hrows⟩ := readsAs_of_ofMappings h
    by_cases hsign : Nonnegative (reached rows)
    · rw [ofMappings_of_nonnegative hrows hsign] at h
      exact ⟨rows, hrows, hsign, (Except.ok.inj h).symm⟩
    · obtain ⟨text, herror⟩ := ofMappings_of_negative hrows hsign
      rw [herror] at h
      cases h
  · rintro ⟨rows, hrows, hsign, rfl⟩
    exact ofMappings_of_nonnegative hrows hsign

/-! ## Positions that fit -/

/-- A position whose sums do not overflow: every coordinate is a word. -/
structure Cursor.InWord (c : Cursor) : Prop where
  hostColumn : Vlq.InWord c.hostColumn
  dialectLine : Vlq.InWord c.dialectLine
  dialectColumn : Vlq.InWord c.dialectColumn

theorem Cursor.InWord.wrapped_eq (h : c.InWord) : c.wrapped = c := by
  simp only [Cursor.wrapped, Vlq.wrap_of_inWord h.hostColumn, Vlq.wrap_of_inWord h.dialectLine,
    Vlq.wrap_of_inWord h.dialectColumn]

/-- Where no sum overflows, the reader comes to the positions themselves. -/
theorem reached_of_inWord (h : ∀ ps ∈ positions rows, ∀ p ∈ ps, p.InWord) :
    reached rows = positions rows := by
  have hline : ∀ ps ∈ positions rows, ps.map Cursor.wrapped = ps := by
    intro ps hps
    rw [List.map_congr_left fun p hp => (h ps hps p hp).wrapped_eq, List.map_id']
  rw [reached, List.map_congr_left hline, List.map_id']

theorem dropRepeats_go_sublist (last : UInt32) (found : List ColumnMapping) :
    (dropRepeats.go last found).Sublist found := by
  induction found generalizing last with
  | nil => exact .slnil
  | cons m rest ih =>
    rw [dropRepeats.go]
    split
    · exact (ih last).cons m
    · exact (ih m.hostColumn).cons_cons m

/-- Arranging adds no mapping. -/
theorem mem_of_mem_arrange {found : List ColumnMapping} {m : ColumnMapping}
    (h : m ∈ arrange found) : m ∈ found := by
  have hsorted : m ∈ found.mergeSort fun a b => a.hostColumn ≤ b.hostColumn := by
    unfold arrange dropRepeats at h
    split at h
    · cases h
    · rename_i first rest heq
      rw [heq]
      exact ((dropRepeats_go_sublist first.hostColumn rest).cons_cons first).subset h
  exact List.mem_mergeSort.mp hsorted

theorem toNat_coordinate {n : Int} (h : 0 ≤ n ∧ n < 2 ^ 32) : ((coordinate n).toNat : Int) = n := by
  have hsize : n.toNat < UInt32.size := by
    show n.toNat < 4294967296
    omega
  rw [coordinate, UInt32.toNat_ofNat_of_lt' hsize, Int.toNat_of_nonneg h.1]

/-- A position that fits is told exactly. -/
theorem told_mapping (h : c.InRange) : told c.mapping = c := by
  simp only [told, Cursor.mapping, toNat_coordinate h.hostColumn, toNat_coordinate h.dialectLine,
    toNat_coordinate h.dialectColumn]

theorem Cursor.InRange.valid (h : c.InRange) : c.valid = true := by
  simp [Cursor.valid, h.hostColumn.1, h.dialectLine.1, h.dialectColumn.1]

/-- Every mapping of a line tells the exact position of a segment of that line. -/
def Exact (lines : List (List Cursor)) (m : SourceMap) : Prop :=
  List.Forall₂ (fun columns ps => ∀ c ∈ columns, told c ∈ ps) m.lines lines

theorem exact_stored {lines : List (List Cursor)} (h : ∀ ps ∈ lines, ∀ p ∈ ps, p.InRange) :
    Exact lines (stored lines) := by
  rw [Exact, stored, List.forall₂_map_left_iff, List.forall₂_same]
  intro ps hps c hc
  obtain ⟨p, hp, rfl⟩ := List.mem_map.mp (mem_of_mem_arrange hc)
  rw [told_mapping (h ps hps p hp)]
  exact hp

/-- **Positions are stored exactly where they fit.**  A text is decoded if and only if it can be read
and the reader comes to no negative position; the positions it comes to are stored with 32 bits for
each coordinate.  Let a text be read as rows of fields, and let the sums of these stay in the words of
the reader.

1. The reader comes to the positions themselves.
2. A negative position is an error.
3. Every mapping is exact, and every position that has no place in 32 bits is an error, if and only
   if there is a negative position or all positions fit: nothing is said of those that are too
   large. -/
theorem coordinates_exact_iff_fit (mappings : List Char) :
    (∀ m, ofMappings mappings = .ok m ↔
      ∃ rows, ReadsAs mappings rows ∧ Nonnegative (reached rows) ∧ m = stored (reached rows)) ∧
    ∀ rows, ReadsAs mappings rows → (∀ ps ∈ positions rows, ∀ p ∈ ps, p.InWord) →
      reached rows = positions rows ∧
      (¬ Nonnegative (positions rows) → ∃ text, ofMappings mappings = .error (.negative text)) ∧
      ((∀ m, ofMappings mappings = .ok m → Exact (positions rows) m) ∧
          (∀ ps ∈ positions rows, ∀ p ∈ ps, ¬ p.InRange → ∃ e, ofMappings mappings = .error e) ↔
        ¬ Nonnegative (positions rows) ∨ ∀ ps ∈ positions rows, ∀ p ∈ ps, p.InRange) := by
  refine ⟨ofMappings_eq_ok_iff mappings, fun rows hrows hword => ?_⟩
  have hreached := reached_of_inWord hword
  have hdecoded := @ofMappings_of_nonnegative _ _ hrows
  have hfails := @ofMappings_of_negative _ _ hrows
  rw [hreached] at hdecoded hfails
  refine ⟨hreached, hfails, ?_, ?_⟩
  · rintro ⟨-, herror⟩
    by_cases hsign : Nonnegative (positions rows)
    · refine .inr fun ps hps p hp => ?_
      by_contra hrange
      obtain ⟨e, he⟩ := herror ps hps p hp hrange
      rw [hdecoded hsign] at he
      cases he
    · exact .inl hsign
  · rintro (hsign | hfit)
    · obtain ⟨text, hnegative⟩ := hfails hsign
      refine ⟨fun m hm => ?_, fun _ _ _ _ _ => ⟨_, hnegative⟩⟩
      rw [hnegative] at hm
      cases hm
    · have hsign : Nonnegative (positions rows) := fun ps hps p hp => (hfit ps hps p hp).valid
      refine ⟨fun m hm => ?_, fun ps hps p hp hrange => absurd (hfit ps hps p hp) hrange⟩
      rw [hdecoded hsign] at hm
      rw [← Except.ok.inj hm]
      exact exact_stored hfit

/-- A segment beyond the last column there is takes the place of the one in the first column. -/
theorem coordinates_exact_iff_fit_beyondLastColumn :
    let mappings := "ggggggIAKA,hgggggIALA".toList
    let rows : List (List (List Int)) := [[[2 ^ 32, 0, 5, 0], [-(2 ^ 32), 0, -5, 0]]]
    ReadsAs mappings rows ∧ positions rows = [[⟨2 ^ 32, 5, 0⟩, ⟨0, 0, 0⟩]] ∧
    (∀ ps ∈ positions rows, ∀ p ∈ ps, p.InWord) ∧
    ofMappings mappings = .ok ⟨[[⟨0, 5, 0⟩]]⟩ ∧
    ¬ ((∀ m, ofMappings mappings = .ok m → Exact (positions rows) m) ∧
        ∀ ps ∈ positions rows, ∀ p ∈ ps, ¬ p.InRange → ∃ e, ofMappings mappings = .error e) := by
  intro mappings rows
  have hlines : Text.split ';' mappings = [mappings] := by decide
  have hsegments : segmentsOf mappings = ["ggggggIAKA".toList, "hgggggIALA".toList] := by decide
  have hfirst : decodeSegment "ggggggIAKA".toList = .ok [2 ^ 32, 0, 5, 0] := by decide +kernel
  have hsecond : decodeSegment "hgggggIALA".toList = .ok [-(2 ^ 32), 0, -5, 0] := by decide +kernel
  have hreads : ReadsAs mappings rows := by
    rw [ReadsAs, hlines]
    refine .cons ?_ .nil
    rw [hsegments]
    exact .cons ⟨hfirst, .inr (.inl rfl)⟩ (.cons ⟨hsecond, .inr (.inl rfl)⟩ .nil)
  have hpositions : positions rows = [[⟨2 ^ 32, 5, 0⟩, ⟨0, 0, 0⟩]] := by decide
  have hword : ∀ ps ∈ positions rows, ∀ p ∈ ps, p.InWord := by
    rw [hpositions]
    simp only [List.mem_cons, List.not_mem_nil, or_false, forall_eq_or_imp, forall_eq]
    exact ⟨by constructor <;> decide, by constructor <;> decide⟩
  have hreached : reached rows = positions rows := reached_of_inWord hword
  have hsign : Nonnegative (positions rows) := by
    rw [nonnegative_iff_all]
    decide
  -- both are stored in the first column, and the one written first stays
  have hcast : [⟨2 ^ 32, 5, 0⟩, ⟨0, 0, 0⟩].map Cursor.mapping = [⟨0, 5, 0⟩, ⟨0, 0, 0⟩] := by decide
  have hsorted : List.mergeSort [(⟨0, 5, 0⟩ : ColumnMapping), ⟨0, 0, 0⟩]
      (fun a b => a.hostColumn ≤ b.hostColumn) = [⟨0, 5, 0⟩, ⟨0, 0, 0⟩] :=
    List.mergeSort_of_pairwise (by decide)
  refine ⟨hreads, hpositions, hword, ?_, ?_⟩
  · rw [ofMappings_of_nonnegative hreads (hreached ▸ hsign), hreached, hpositions, stored,
      List.map_singleton, hcast, arrange, hsorted]
    rfl
  · rw [((coordinates_exact_iff_fit mappings).2 rows hreads hword).2.2]
    rintro (hnegative | hfit)
    · exact hnegative hsign
    · have hrange := hfit [⟨2 ^ 32, 5, 0⟩, ⟨0, 0, 0⟩] (by rw [hpositions]; exact List.mem_cons_self)
        ⟨2 ^ 32, 5, 0⟩ List.mem_cons_self
      exact absurd hrange.hostColumn.2 (by decide)

end DialectBridge.SourceMap
