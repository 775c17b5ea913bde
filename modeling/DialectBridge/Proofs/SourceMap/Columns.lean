import DialectBridge.Proofs.SourceMap.Sums

/-!
# The columns of a decoded line

Segments come in any order of their columns, and several of them may have one column.  A decoded line
has each column once, in ascending order, with the mapping that was written first.  Lines are decoded
one after another, and what follows a line has no part in it.

* `filter_byColumn` — sorting leaves the mappings of one column in the order they were written;
* `find?_dropRepeats`, `pairwise_arrange` — what is left of each column, and in which order;
* `FirstOfEach`, `firstOfEach_arrange` — the first mapping of each column, by column;
* `decodeLines_append_error`, `decodeLines_append_ok` — lines and what follows them;
* `decoded_lines` — all of this for a whole text.
-/

namespace DialectBridge.SourceMap

/-- The mappings `kept` have each column of the mappings `written` once, in ascending order, and of
those with one column it is the first. -/
structure FirstOfEach (written kept : List ColumnMapping) : Prop where
  ascending : kept.Pairwise fun a b => a.hostColumn < b.hostColumn
  column_iff : ∀ x, (∃ c ∈ kept, c.hostColumn = x) ↔ ∃ c ∈ written, c.hostColumn = x
  first : ∀ c ∈ kept, ∃ before after, written = before ++ c :: after ∧
    ∀ d ∈ before, d.hostColumn ≠ c.hostColumn

variable {found : List ColumnMapping} {last x : UInt32}

/-! ## Sorting -/

/-- Mappings sorted by column. -/
def byColumn (found : List ColumnMapping) : List ColumnMapping :=
  found.mergeSort fun a b => a.hostColumn ≤ b.hostColumn

theorem arrange_eq (found : List ColumnMapping) : arrange found = dropRepeats (byColumn found) := rfl

theorem columns_trans (a b c : ColumnMapping) (hab : decide (a.hostColumn ≤ b.hostColumn) = true)
    (hbc : decide (b.hostColumn ≤ c.hostColumn) = true) :
    decide (a.hostColumn ≤ c.hostColumn) = true :=
  decide_eq_true (UInt32.le_trans (of_decide_eq_true hab) (of_decide_eq_true hbc))

theorem columns_total (a b : ColumnMapping) :
    (decide (a.hostColumn ≤ b.hostColumn) || decide (b.hostColumn ≤ a.hostColumn)) = true := by
  simpa using UInt32.le_total a.hostColumn b.hostColumn

theorem pairwise_byColumn (found : List ColumnMapping) :
    (byColumn found).Pairwise fun a b => a.hostColumn ≤ b.hostColumn :=
  (List.pairwise_mergeSort columns_trans columns_total found).imp of_decide_eq_true

/-- **Sorting leaves the mappings of one column in the order they were written.** -/
theorem filter_byColumn (found : List ColumnMapping) (x : UInt32) :
    (byColumn found).filter (·.hostColumn = x) = found.filter (·.hostColumn = x) := by
  have hsame : (found.filter (·.hostColumn = x)).Pairwise
      fun a b => decide (a.hostColumn ≤ b.hostColumn) = true := by
    refine List.pairwise_filter.mpr (List.pairwise_of_forall fun a b ha hb => ?_)
    rw [of_decide_eq_true ha, of_decide_eq_true hb]
    exact decide_eq_true (UInt32.le_refl x)
  -- they are sorted already, so they are among the sorted ones in this order; and there are no more
  have hsublist : (found.filter (·.hostColumn = x)).Sublist (byColumn found) :=
    List.sublist_mergeSort columns_trans columns_total hsame List.filter_sublist
  have hfilter := hsublist.filter (·.hostColumn = x)
  simp only [List.filter_filter, Bool.and_self] at hfilter
  refine (hfilter.eq_of_length ?_).symm
  exact ((List.mergeSort_perm found _).filter _).length_eq.symm

theorem find?_byColumn (found : List ColumnMapping) (x : UInt32) :
    (byColumn found).find? (·.hostColumn = x) = found.find? (·.hostColumn = x) := by
  rw [← List.head?_filter, filter_byColumn, List.head?_filter]

/-! ## Dropping repeated columns -/

theorem find?_cons_congr {m : ColumnMapping} {xs ys : List ColumnMapping}
    (h : m.hostColumn ≠ x → xs.find? (·.hostColumn = x) = ys.find? (·.hostColumn = x)) :
    (m :: xs).find? (·.hostColumn = x) = (m :: ys).find? (·.hostColumn = x) := by
  rw [List.find?_cons, List.find?_cons]
  by_cases hx : m.hostColumn = x
  · simp [hx]
  · simp [hx, h hx]

theorem find?_dropRepeats_go (h : last ≠ x) (found : List ColumnMapping) :
    (dropRepeats.go last found).find? (·.hostColumn = x) = found.find? (·.hostColumn = x) := by
  induction found generalizing last with
  | nil => rfl
  | cons m rest ih =>
    rw [dropRepeats.go]
    split
    · rename_i hlast
      rw [ih h, List.find?_cons_of_neg (by simpa [hlast] using h)]
    · exact find?_cons_congr fun hx => ih hx

/-- **The first mapping of each column is left.** -/
theorem find?_dropRepeats (found : List ColumnMapping) (x : UInt32) :
    (dropRepeats found).find? (·.hostColumn = x) = found.find? (·.hostColumn = x) := by
  cases found with
  | nil => rfl
  | cons m rest => exact find?_cons_congr fun hx => find?_dropRepeats_go hx rest

/-- After a column there are only larger ones, in ascending order. -/
theorem pairwise_dropRepeats_go (hlast : ∀ m ∈ found, last ≤ m.hostColumn)
    (h : found.Pairwise fun a b => a.hostColumn ≤ b.hostColumn) :
    (∀ m ∈ dropRepeats.go last found, last < m.hostColumn) ∧
      (dropRepeats.go last found).Pairwise fun a b => a.hostColumn < b.hostColumn := by
  induction found generalizing last with
  | nil => exact ⟨fun _ hm => absurd hm List.not_mem_nil, List.Pairwise.nil⟩
  | cons m rest ih =>
    obtain ⟨hm, hrest⟩ := List.pairwise_cons.mp h
    rw [dropRepeats.go]
    split
    · exact ih (fun c hc => hlast c (List.mem_cons_of_mem _ hc)) hrest
    · rename_i hne
      obtain ⟨hlarger, hascending⟩ := ih hm hrest
      have hlt : last < m.hostColumn :=
        UInt32.lt_of_le_of_ne (hlast m List.mem_cons_self) (Ne.symm hne)
      refine ⟨fun c hc => ?_, List.pairwise_cons.mpr ⟨hlarger, hascending⟩⟩
      rcases List.mem_cons.mp hc with rfl | hc
      · exact hlt
      · exact UInt32.lt_trans hlt (hlarger c hc)

theorem pairwise_arrange (found : List ColumnMapping) :
    (arrange found).Pairwise fun a b => a.hostColumn < b.hostColumn := by
  have hsorted := pairwise_byColumn found
  rw [arrange_eq]
  cases hfound : byColumn found with
  | nil => exact List.Pairwise.nil
  | cons m rest =>
    rw [hfound] at hsorted
    obtain ⟨hm, hrest⟩ := List.pairwise_cons.mp hsorted
    obtain ⟨hlarger, hascending⟩ := pairwise_dropRepeats_go hm hrest
    exact List.pairwise_cons.mpr ⟨hlarger, hascending⟩

theorem find?_arrange (found : List ColumnMapping) (x : UInt32) :
    (arrange found).find? (·.hostColumn = x) = found.find? (·.hostColumn = x) := by
  rw [arrange_eq, find?_dropRepeats, find?_byColumn]

/-- Where columns ascend, a mapping is the only one of its column. -/
theorem find?_of_mem {kept : List ColumnMapping} {c : ColumnMapping}
    (h : kept.Pairwise fun a b => a.hostColumn < b.hostColumn) (hc : c ∈ kept) :
    kept.find? (·.hostColumn = c.hostColumn) = some c := by
  obtain ⟨before, after, rfl⟩ := List.append_of_mem hc
  rw [List.find?_eq_some_iff_append]
  refine ⟨by simp, before, after, rfl, fun d hd => ?_⟩
  have hlt : d.hostColumn < c.hostColumn :=
    (List.pairwise_append.mp h).2.2 d hd c List.mem_cons_self
  simpa using UInt32.ne_of_lt hlt

/-- **Of the mappings of a line the first of each column stays**, by column. -/
theorem firstOfEach_arrange (found : List ColumnMapping) : FirstOfEach found (arrange found) := by
  have hcolumn (mappings : List ColumnMapping) (x : UInt32) :
      (∃ c ∈ mappings, c.hostColumn = x) ↔ (mappings.find? (·.hostColumn = x)).isSome := by
    simp [List.find?_isSome]
  refine ⟨pairwise_arrange found, fun x => ?_, fun c hc => ?_⟩
  · rw [hcolumn, hcolumn, find?_arrange]
  · have hfound := find?_of_mem (pairwise_arrange found) hc
    rw [find?_arrange, List.find?_eq_some_iff_append] at hfound
    obtain ⟨-, before, after, hwritten, hbefore⟩ := hfound
    exact ⟨before, after, hwritten, fun d hd => by simpa using hbefore d hd⟩

/-! ## Lines and what follows them -/

variable {c : Cursor} {finished : List (List ColumnMapping)} {lines rest : List (List Char)}

theorem decodeLines_append_error {e : DecodeError} (h : decodeLines c finished lines = .error e) :
    decodeLines c finished (lines ++ rest) = .error e := by
  induction lines generalizing c finished with
  | nil => cases h
  | cons line lines ih =>
    rw [List.cons_append, decodeLines]
    rw [decodeLines] at h
    cases hline : decodeLine c line with
    | error e' =>
      simp only [hline] at h ⊢
      exact h
    | ok decoded =>
      simp only [hline] at h ⊢
      exact ih h

/-- The lines that are finished stay, and each line that is decoded adds one. -/
theorem finished_of_decodeLines {result : List (List ColumnMapping)}
    (h : decodeLines c finished lines = .ok result) :
    ∃ later, result = finished.reverse ++ later ∧ later.length = lines.length := by
  induction lines generalizing c finished with
  | nil => exact ⟨[], by simpa [decodeLines] using h.symm, rfl⟩
  | cons line lines ih =>
    rw [decodeLines] at h
    cases hline : decodeLine c line with
    | error e => simp [hline] at h
    | ok decoded =>
      simp only [hline] at h
      obtain ⟨later, hresult, hlength⟩ := ih h
      refine ⟨decoded.2 :: later, ?_, by simp [hlength]⟩
      rw [hresult, List.reverse_cons, List.append_assoc, List.singleton_append]

theorem decodeLines_append_ok {result : List (List ColumnMapping)}
    (h : decodeLines c finished (lines ++ rest) = .ok result) :
    decodeLines c finished lines = .ok (result.take (finished.length + lines.length)) := by
  induction lines generalizing c finished with
  | nil =>
    obtain ⟨later, rfl, -⟩ := finished_of_decodeLines h
    simp [decodeLines]
  | cons line lines ih =>
    rw [List.cons_append, decodeLines] at h
    rw [decodeLines]
    cases hline : decodeLine c line with
    | error e => simp [hline] at h
    | ok decoded =>
      simp only [hline] at h ⊢
      rw [ih h, List.length_cons, List.length_cons, Nat.add_right_comm, Nat.add_assoc]

theorem decodeLines_of_ofMappings {mappings : List Char} {m : SourceMap}
    (h : ofMappings mappings = .ok m) :
    decodeLines ⟨0, 0, 0⟩ [] (Text.split ';' mappings) = .ok m.lines := by
  unfold ofMappings at h
  cases hlines : decodeLines ⟨0, 0, 0⟩ [] (Text.split ';' mappings) with
  | error e => simp [hlines] at h
  | ok lines =>
    simp only [hlines, Except.ok.injEq] at h
    rw [← h]

/-- **What a decoded text is.**  Let a text be decoded.  It has one line more than there are
semicolons.  On each line the columns ascend; they are the columns that the reader comes to with its
segments of four or five fields, and each has the mapping of the first such segment in the order of
the text.

A text that is followed by a semicolon and another text is decoded as it is alone: if the whole is
decoded, its leading lines are those of the text, and an error in the text is the error of the
whole. -/
theorem decoded_lines (mappings : List Char) :
    (∀ m, ofMappings mappings = .ok m →
      m.lines.length = mappings.count ';' + 1 ∧
      ∃ rows, ReadsAs mappings rows ∧
        List.Forall₂ (fun ps columns => FirstOfEach (ps.map Cursor.mapping) columns)
          (reached rows) m.lines) ∧
    ∀ rest : List Char,
      (∀ m, ofMappings (mappings ++ ';' :: rest) = .ok m →
        ofMappings mappings = .ok ⟨m.lines.take (mappings.count ';' + 1)⟩) ∧
      ∀ e, ofMappings mappings = .error e → ofMappings (mappings ++ ';' :: rest) = .error e := by
  refine ⟨fun m hm => ⟨?_, ?_⟩, fun rest => ⟨fun m hm => ?_, fun e he => ?_⟩⟩
  · obtain ⟨later, hlines, hlength⟩ := finished_of_decodeLines (decodeLines_of_ofMappings hm)
    rw [hlines, List.reverse_nil, List.nil_append, hlength, Text.length_split]
  · obtain ⟨rows, hrows, -, rfl⟩ := (ofMappings_eq_ok_iff mappings m).mp hm
    refine ⟨rows, hrows, ?_⟩
    rw [stored, List.forall₂_map_right_iff, List.forall₂_same]
    exact fun ps _ => firstOfEach_arrange _
  · have hlines := decodeLines_of_ofMappings hm
    rw [Text.split_append] at hlines
    have hfirst := decodeLines_append_ok hlines
    rw [Text.length_split, List.length_nil, Nat.zero_add] at hfirst
    rw [ofMappings, hfirst]
  · have hlines : decodeLines ⟨0, 0, 0⟩ [] (Text.split ';' mappings) = .error e := by
      unfold ofMappings at he
      cases hlines : decodeLines ⟨0, 0, 0⟩ [] (Text.split ';' mappings) with
      | error e' =>
        simp only [hlines, Except.error.injEq] at he
        rw [he]
      | ok lines => simp [hlines] at he
    rw [ofMappings, Text.split_append, decodeLines_append_error hlines]

/-- Three columns of 2^62 - 1 each leave the word of the reader, and the segment after them is told to
have a negative position. -/
example : ofMappings "+///////////H,+///////////H,+///////////H,AAAA".toList =
    .error (.negative "AAAA") := by decide +kernel

/-- A line whose second segment goes back to the first column, and whose last one comes, after a
segment that maps nothing, to a column that has a mapping already. -/
def backAndForth : List Char :=
  "IAAA,JACA,I,AACA".toList

/-- The line ahead of one that goes back in the dialect text, and ahead of one that goes back too
far. -/
theorem decoded_lines_backAndForth :
    (ofMappings (backAndForth ++ ';' :: "CADC".toList) =
        .ok ⟨[[⟨0, 1, 0⟩, ⟨4, 0, 0⟩], [⟨1, 1, 1⟩]]⟩ ∧
      ofMappings backAndForth = .ok ⟨[[⟨0, 1, 0⟩, ⟨4, 0, 0⟩]]⟩ ∧
      ∃ rows, ReadsAs backAndForth rows ∧
        List.Forall₂ (fun ps columns => FirstOfEach (ps.map Cursor.mapping) columns)
          (reached rows) [[⟨0, 1, 0⟩, ⟨4, 0, 0⟩]]) ∧
    ofMappings (backAndForth ++ ';' :: "CAHC".toList) = .error (.negative "CAHC") ∧
    ofMappings ((backAndForth ++ ';' :: "CAHC".toList) ++ ';' :: "*".toList) =
      .error (.negative "CAHC") := by
  have hlines : Text.split ';' (backAndForth ++ ';' :: "CADC".toList) =
      [backAndForth, "CADC".toList] := by decide +kernel
  have hfound : decodeSegments ⟨0, 0, 0⟩ [] (segmentsOf backAndForth) =
      .ok (⟨4, 2, 0⟩, [⟨4, 0, 0⟩, ⟨0, 1, 0⟩, ⟨4, 2, 0⟩]) := by decide +kernel
  have hsorted : byColumn [⟨4, 0, 0⟩, ⟨0, 1, 0⟩, ⟨4, 2, 0⟩] =
      [⟨0, 1, 0⟩, ⟨4, 0, 0⟩, ⟨4, 2, 0⟩] := by
    simp [byColumn, List.mergeSort, List.MergeSort.Internal.splitInTwo]
  have hfirst : decodeLine ⟨0, 0, 0⟩ backAndForth = .ok (⟨4, 2, 0⟩, [⟨0, 1, 0⟩, ⟨4, 0, 0⟩]) := by
    rw [segmentsOf] at hfound
    simp only [decodeLine, hfound, arrange_eq, hsorted]
    rfl
  have hsecond : decodeLine ⟨4, 2, 0⟩ "CADC".toList = .ok (⟨1, 1, 1⟩, [⟨1, 1, 1⟩]) := by
    decide +kernel
  have hwhole : ofMappings (backAndForth ++ ';' :: "CADC".toList) =
      .ok ⟨[[⟨0, 1, 0⟩, ⟨4, 0, 0⟩], [⟨1, 1, 1⟩]]⟩ := by
    simp only [ofMappings, hlines, decodeLines, hfirst, hsecond]
    rfl
  have hnegative : ofMappings (backAndForth ++ ';' :: "CAHC".toList) =
      .error (.negative "CAHC") := by decide +kernel
  have hcount : backAndForth.count ';' = 0 := by decide +kernel
  have hline := ((decoded_lines backAndForth).2 _).1 _ hwhole
  rw [hcount] at hline
  obtain ⟨-, hrows⟩ := (decoded_lines backAndForth).1 _ hline
  exact ⟨⟨hwhole, hline, hrows⟩, hnegative, ((decoded_lines _).2 _).2 _ hnegative⟩

end DialectBridge.SourceMap
