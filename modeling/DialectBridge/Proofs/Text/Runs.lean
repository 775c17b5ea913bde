import DialectBridge.Proofs.Text.Offset
import DialectBridge.Text.Runs

/-!
# Texts in runs are measured as they are spelled

What is asked of the runs is what is asked of the text that they spell.

* `utf16Length_spell`, `utf8Length_spell` — lengths, which are added up run by run;
* `split_spell`, `lineLength_spell` — lines, which are cut between runs or inside one of line feeds;
* `indentation_spell` — blanks at the start;
* `offsetFrom_spell` — the walk to a position, step by step.
-/

namespace DialectBridge.Text.Run

@[simp] theorem spell_nil : spell [] = [] := rfl

theorem spell_cons (r : Run) (runs : List Run) :
    spell (r :: runs) = List.replicate r.count r.char ++ spell runs := rfl

theorem spell_singleton (c : Char) (n : Nat) : spell [⟨c, n⟩] = List.replicate n c :=
  List.append_nil _

/-! ## Lengths -/

theorem foldr_replicate (measure : Char → Nat) (c : Char) (n start : Nat) :
    (List.replicate n c).foldr (fun c k => measure c + k) start = n * measure c + start := by
  induction n with
  | zero => rw [Nat.zero_mul, Nat.zero_add]; rfl
  | succ n ih => rw [List.replicate_succ, List.foldr_cons, ih, Nat.succ_mul]; omega

theorem foldr_spell (measure : Char → Nat) (runs : List Run) :
    (spell runs).foldr (fun c k => measure c + k) 0 = total measure runs := by
  induction runs with
  | nil => rfl
  | cons r runs ih => rw [spell_cons, List.foldr_append, ih, foldr_replicate]; rfl

theorem utf16Length_spell (runs : List Run) : utf16Length (spell runs) = total units runs :=
  foldr_spell units runs

theorem utf8Length_spell (runs : List Run) : utf8Length (spell runs) = total Char.utf8Size runs :=
  foldr_spell Char.utf8Size runs

theorem lineCount_spell (runs : List Run) : Text.lineCount (spell runs) = lineCount runs := by
  rw [Text.lineCount, lineCount, Nat.add_right_cancel_iff]
  induction runs with
  | nil => rfl
  | cons r runs ih =>
    rw [spell_cons, List.count_append, ih, List.count_replicate]
    by_cases hr : r.char = '\n' <;> simp [total, hr]

/-! ## Lines -/

theorem split_replicate_newline (n : Nat) (cs : List Char) :
    split '\n' (List.replicate n '\n' ++ cs) = List.replicate n [] ++ split '\n' cs := by
  induction n with
  | zero => rfl
  | succ n ih => rw [List.replicate_succ, List.cons_append, split_cons_sep, ih]; rfl

theorem split_spell (runs : List Run) : split '\n' (spell runs) = (lines runs).map spell := by
  induction runs with
  | nil => rfl
  | cons r runs ih =>
    rw [spell_cons, lines, List.foldr_cons, ← lines]
    by_cases hr : r.char = '\n'
    · rw [if_pos hr, hr, split_replicate_newline, ih, List.map_append, List.map_replicate, spell_nil]
    · have hplain : '\n' ∉ List.replicate r.count r.char :=
        fun hmem => hr (List.eq_of_mem_replicate hmem).symm
      rw [if_neg hr]
      obtain ⟨piece, rest, hsplit⟩ := exists_split_eq_cons '\n' (spell runs)
      rw [split_append_of_not_mem hplain hsplit]
      rw [hsplit] at ih
      cases hlines : lines runs with
      | nil => rw [hlines] at ih; cases ih
      | cons line others =>
        rw [hlines, List.map_cons] at ih
        obtain ⟨rfl, rfl⟩ := List.cons.inj ih
        rw [List.map_cons, spell_cons]

theorem getLast?_spell (runs : List Run) : (spell runs).getLast? = last? runs := by
  induction runs with
  | nil => rfl
  | cons r runs ih =>
    rw [spell_cons, List.getLast?_append, ih, List.getLast?_replicate]
    rfl

/-- A carriage return at the end of a line is one unit of it. -/
theorem utf16Length_dropReturn (line : List Char) :
    utf16Length (dropReturn line) =
      if line.getLast? = some '\r' then utf16Length line - 1 else utf16Length line := by
  unfold dropReturn
  split
  · rename_i hlast
    obtain ⟨front, rfl⟩ := List.getLast?_eq_some_iff.mp hlast
    rw [List.dropLast_concat, utf16Length_append]
    exact (Nat.add_sub_cancel _ 1).symm
  · rfl

theorem lineLength_spell (runs : List Run) (n : Nat) :
    Text.lineLength (spell runs) n = lineLength runs n := by
  rw [Text.lineLength, lineAt?, rawLine?, split_spell, List.getElem?_map, lineLength]
  cases (lines runs)[n]? with
  | none => rfl
  | some line =>
    simp only [Option.map_some, Option.getD_some, utf16Length_dropReturn, getLast?_spell,
      utf16Length_spell]

theorem indentation_spell (runs : List Run) :
    Text.indentation (spell runs) = spell (indentation runs) := by
  induction runs with
  | nil => rfl
  | cons r runs ih =>
    rw [spell_cons, indentation, List.takeWhile_cons, ← indentation]
    by_cases hcount : r.count = 0
    · simpa [hcount, spell_cons] using ih
    by_cases hblank : r.char = ' ' ∨ r.char = '\t'
    · have hrun : ∀ c ∈ List.replicate r.count r.char, (c = ' ' || c = '\t') = true := by
        intro c hc
        rw [List.eq_of_mem_replicate hc]
        simpa using hblank
      rw [Text.indentation, List.takeWhile_append_of_pos hrun, ← Text.indentation, ih]
      simp [hblank, spell_cons]
    · obtain ⟨n, hn⟩ := Nat.exists_eq_succ_of_ne_zero hcount
      rw [Text.indentation, hn, List.replicate_succ]
      simp [hblank]

/-! ## Offsets -/

theorem offsetFrom_spell (pos : Position) (runs : List Run) (line column : UInt32) (byte : Nat) :
    Text.offsetFrom pos (spell runs) line column byte = offsetFrom pos runs line column byte := by
  have hstep (c : Char) (n : Nat) (runs : List Run) :
      spell (⟨c, n + 1⟩ :: runs) = c :: spell (⟨c, n⟩ :: runs) := rfl
  fun_induction offsetFrom pos runs line column byte with
  | case1 column byte => exact if_pos rfl
  | case2 line column byte hline => exact if_neg hline
  | case3 c runs line column byte ih => exact ih
  | case4 c n runs line column byte hhere => rw [hstep, Text.offsetFrom, if_pos hhere]
  | case5 n runs column byte hahead =>
    rw [hstep, Text.offsetFrom, if_neg hahead, if_pos rfl, if_pos rfl]
  | case6 n runs line column byte hahead hline ih =>
    rw [hstep, Text.offsetFrom, if_neg hahead, if_pos rfl, if_neg hline, ih]
  | case7 c n runs line column byte hahead hc ih =>
    rw [hstep, Text.offsetFrom, if_neg hahead, if_neg hc, ih]

theorem byteOffset?_spell (runs : List Run) (pos : Position) :
    Text.byteOffset? (spell runs) pos = byteOffset? runs pos :=
  offsetFrom_spell pos runs 0 0 0

end DialectBridge.Text.Run
