import DialectBridge.Probe
import DialectBridge.Proofs.Text.Order
import DialectBridge.Proofs.Text.Runs

/-!
# What a probe keeps of its text

A probe differs from its text in one line.  Of that line it keeps the indentation and the carriage
return, so the blocks of the text stay as they are, and the stand-in expression is found where the
probe says it starts.  A probe of a probe is the same text again.

* `isIndentation_indentation` — the indentation is the longest run of blanks and tabs;
* `standIn_standIn` — a line that has been replaced stays as it is;
* `Replaces`, `replaces_at?` — the lines of a probe, and where the expression starts;
* `probe_of_line` — all of this together.
-/

namespace DialectBridge

namespace Text

/-- The blanks and tabs that a line starts with, as many as there are. -/
structure IsIndentation (line indent : List Char) : Prop where
  start : indent <+: line
  blank : ∀ c ∈ indent, c = ' ' ∨ c = '\t'
  longest : ∀ other, other <+: line → (∀ c ∈ other, c = ' ' ∨ c = '\t') → other <+: indent

variable {raw : List Char}

/-- A line is its text and its carriage return, if it has one. -/
theorem dropReturn_append_return (raw : List Char) :
    dropReturn raw ++ (if raw.getLast? = some '\r' then ['\r'] else []) = raw := by
  unfold dropReturn
  by_cases hlast : raw.getLast? = some '\r'
  · rw [if_pos hlast, if_pos hlast]
    exact List.dropLast_append_getLast? '\r' hlast
  · rw [if_neg hlast, if_neg hlast, List.append_nil]

/-- Indentation in front of anything else. -/
theorem indentation_append {indent rest : List Char} (hindent : ∀ c ∈ indent, c = ' ' ∨ c = '\t')
    (hrest : indentation rest = []) : indentation (indent ++ rest) = indent := by
  unfold indentation at hrest ⊢
  rw [List.takeWhile_append_of_pos, hrest, List.append_nil]
  intro c hc
  simpa using hindent c hc

theorem isIndentation_indentation (line : List Char) : IsIndentation line (indentation line) := by
  refine ⟨List.takeWhile_prefix _, fun c hc => ?_, ?_⟩
  · simpa using List.mem_takeWhile_imp hc
  · rintro other ⟨rest, rfl⟩ hother
    unfold indentation
    rw [List.takeWhile_append_of_pos]
    · exact List.prefix_append other _
    · intro c hc
      simpa using hother c hc

/-- The carriage return at the end of a line is not part of its indentation. -/
theorem indentation_dropReturn (raw : List Char) :
    indentation (dropReturn raw) = indentation raw := by
  have hreturn : indentation (dropReturn raw ++ if raw.getLast? = some '\r' then ['\r'] else []) =
      indentation (dropReturn raw) := by
    unfold indentation
    rw [List.takeWhile_append]
    split
    · -- nothing but indentation ahead of the carriage return
      rename_i hall
      have hstop : (if raw.getLast? = some '\r' then ['\r'] else []).takeWhile
          (fun c => c = ' ' || c = '\t') = [] := by
        split <;> rfl
      rw [hstop, List.append_nil]
      exact ((List.takeWhile_prefix _).eq_of_length hall).symm
    · rfl
  rw [dropReturn_append_return] at hreturn
  exact hreturn.symm

end Text

namespace Probe

variable {text raw : List Char} {cursor : Position}

/-! ## The replaced line -/

theorem standIn_eq (raw : List Char) :
    standIn raw = Text.indentation raw ++ placeholder ++
      if raw.getLast? = some '\r' then ['\r'] else [] := by
  rw [standIn, Text.indentation_dropReturn]

theorem getLast?_standIn (raw : List Char) :
    (standIn raw).getLast? = some '\r' ↔ raw.getLast? = some '\r' := by
  rw [standIn_eq]
  split
  · rename_i hlast
    simp [hlast]
  · rename_i hlast
    simp [hlast, placeholder]

theorem indentation_standIn (raw : List Char) :
    Text.indentation (standIn raw) = Text.indentation raw := by
  rw [standIn_eq, List.append_assoc]
  exact Text.indentation_append (Text.isIndentation_indentation raw).blank (by split <;> rfl)

/-- **A line that has been replaced stays as it is.** -/
theorem standIn_standIn (raw : List Char) : standIn (standIn raw) = standIn raw := by
  rw [standIn_eq, indentation_standIn, standIn_eq raw]
  simp only [← standIn_eq, getLast?_standIn]

theorem dropReturn_standIn (raw : List Char) :
    Text.dropReturn (standIn raw) = Text.indentation raw ++ placeholder := by
  have hwhole := Text.dropReturn_append_return (standIn raw)
  simp only [getLast?_standIn] at hwhole
  exact List.append_cancel_right (hwhole.trans (standIn_eq raw))

theorem newline_not_mem_standIn (raw : List Char) : '\n' ∉ standIn raw := by
  rw [standIn_eq, List.mem_append, List.mem_append]
  rintro ((h | h) | h)
  · rcases (Text.isIndentation_indentation raw).blank _ h with h | h <;> cases h
  · revert h
    decide
  · revert h
    split <;> decide

/-! ## The probe -/

theorem at?_of_line (hraw : Text.rawLine? text cursor.line.toNat = some raw) :
    at? text cursor = some
      { text := String.ofList
          (Text.joinLines ((Text.split '\n' text).set cursor.line.toNat (standIn raw)))
        position := ⟨cursor.line, UInt32.ofNat (Text.utf16Length (Text.indentation raw))⟩
        line := String.ofList (Text.dropReturn raw) } := by
  simp only [at?, hraw, Option.map_some, Text.indentation_dropReturn]

/-- The lines of a text with a stand-in. -/
theorem split_standIn (text raw : List Char) (n : Nat) :
    Text.split '\n' (Text.joinLines ((Text.split '\n' text).set n (standIn raw))) =
      (Text.split '\n' text).set n (standIn raw) :=
  Text.split_joinLines_set (newline_not_mem_standIn raw) text n

/-- What a probe for line `n` keeps of a text, of which that line is `raw`, with indentation
`indent`, and where its expression stands.  The width of the indentation is told as a column, which
has 32 bits. -/
structure Replaces (text : List Char) (n : Nat) (raw indent : List Char) (probe : Probe) :
    Prop where
  line_eq : Text.lineAt? text n = some probe.line.toList
  position_eq : probe.position.line.toNat = n ∧
    probe.position.character = UInt32.ofNat (Text.utf16Length indent)
  lineCount_eq : Text.lineCount probe.text.toList = Text.lineCount text
  others : ∀ k, k ≠ n → Text.rawLine? probe.text.toList k = Text.rawLine? text k
  replaced : Text.rawLine? probe.text.toList n =
    some (indent ++ "true".toList ++ if raw.getLast? = some '\r' then ['\r'] else [])
  expression : ∃ after,
    probe.text.toList = Text.ahead text n ++ indent ++ "true".toList ++ after

theorem ahead_of_split {candidate line : List Char} {n : Nat}
    (hsplit : Text.split '\n' candidate = (Text.split '\n' text).set n line) :
    Text.ahead candidate n = Text.ahead text n := by
  rw [Text.ahead, hsplit, List.take_set_of_le (Nat.le_refl n), Text.ahead]

theorem replaces_at? {probe : Probe} (hraw : Text.rawLine? text cursor.line.toNat = some raw)
    (hprobe : at? text cursor = some probe) :
    Replaces text cursor.line.toNat raw (Text.indentation raw) probe := by
  rw [at?_of_line hraw, Option.some.injEq] at hprobe
  have hsplit : Text.split '\n' probe.text.toList =
      (Text.split '\n' text).set cursor.line.toNat (standIn raw) := by
    rw [← hprobe, String.toList_ofList]
    exact split_standIn text raw _
  have hlt : cursor.line.toNat < (Text.split '\n' text).length := by
    rw [Text.length_split_newline]
    exact Text.isSome_rawLine?_iff.mp (by rw [hraw]; rfl)
  have hreplaced : Text.rawLine? probe.text.toList cursor.line.toNat = some (standIn raw) := by
    rw [Text.rawLine?, hsplit, List.getElem?_set_self hlt]
  refine ⟨?_, ?_, ?_, ?_, ?_, ?_⟩
  · rw [Text.lineAt?, hraw, Option.map_some, ← hprobe, String.toList_ofList]
  · rw [← hprobe]
    exact ⟨rfl, rfl⟩
  · rw [← Text.length_split_newline, hsplit, List.length_set, Text.length_split_newline]
  · intro k hk
    rw [Text.rawLine?, hsplit, List.getElem?_set_ne (Ne.symm hk), Text.rawLine?]
  · rw [hreplaced, standIn_eq]
    rfl
  · obtain ⟨after, htext, -⟩ := Text.ahead_append_line hreplaced
    rw [ahead_of_split hsplit] at htext
    refine ⟨(if raw.getLast? = some '\r' then ['\r'] else []) ++ after, ?_⟩
    rw [htext, standIn_eq]
    simp only [List.append_assoc]
    rfl

variable {n : Nat} {indent : List Char} {probe : Probe}

/-- The lines ahead of the expression are those of the text. -/
theorem Replaces.ahead_eq (h : Replaces text n raw indent probe) :
    Text.ahead probe.text.toList n = Text.ahead text n := by
  have hlines : (Text.split '\n' probe.text.toList).take n = (Text.split '\n' text).take n := by
    refine List.ext_getElem? fun k => ?_
    rw [List.getElem?_take, List.getElem?_take]
    split
    · rename_i hk
      exact h.others k (by omega)
    · rfl
  rw [Text.ahead, hlines, Text.ahead]

/-- **The position of a probe leads to the expression**, if the indentation is not too wide for a
column. -/
theorem Replaces.byteOffset?_position (h : Replaces text n raw indent probe)
    (hwidth : Text.utf16Length indent < UInt32.size) :
    Text.byteOffset? probe.text.toList probe.position =
      some (Text.utf8Length (Text.ahead text n ++ indent)) := by
  obtain ⟨hline, hcharacter⟩ := h.position_eq
  have hcolumn : probe.position.character.toNat = Text.utf16Length indent := by
    rw [hcharacter, UInt32.toNat_ofNat_of_lt' hwidth]
  have hreplaced := h.replaced
  rw [List.append_assoc, ← hline] at hreplaced
  rw [Text.byteOffset?_of_line hreplaced hcolumn, hline, h.ahead_eq]

/-- An indentation whose width is a multiple of 2^32 is told as none, and the position leads to the
start of the line. -/
theorem Replaces.byteOffset?_of_multiple (h : Replaces text n raw indent probe)
    (hwidth : UInt32.ofNat (Text.utf16Length indent) = 0) :
    Text.byteOffset? probe.text.toList probe.position =
      some (Text.utf8Length (Text.ahead text n)) := by
  obtain ⟨hline, hcharacter⟩ := h.position_eq
  have hcolumn : probe.position.character.toNat = Text.utf16Length [] := by
    rw [hcharacter, hwidth]
    rfl
  have hreplaced := h.replaced
  rw [← hline, ← List.nil_append (indent ++ _ ++ _)] at hreplaced
  rw [Text.byteOffset?_of_line hreplaced hcolumn, hline, h.ahead_eq, List.append_nil]

/-- **What a probe is.**  There is one if and only if the cursor line exists, whatever the column.
It has the lines of the text except the cursor line.  Of that it keeps the indentation, the longest
run of blanks and tabs at its start, and the carriage return, if there is one; between them stands
the expression.  If the indentation is narrower than 2^32, the position says where the expression
starts.  The real line is told without its terminator.  The probe of a probe for the same cursor is the
same text, with the same position. -/
theorem probe_of_line (text : List Char) (cursor : Position) :
    ((at? text cursor).isSome ↔ cursor.line.toNat < Text.lineCount text) ∧
    (∀ column, at? text ⟨cursor.line, column⟩ = at? text cursor) ∧
    ∀ probe, at? text cursor = some probe →
      ∃ raw indent, Text.rawLine? text cursor.line.toNat = some raw ∧
        Text.IsIndentation raw indent ∧
        Replaces text cursor.line.toNat raw indent probe ∧
        (Text.utf16Length indent < UInt32.size →
          Text.byteOffset? probe.text.toList probe.position =
            some (Text.utf8Length (Text.ahead text cursor.line.toNat ++ indent))) ∧
        at? probe.text.toList cursor =
          some { probe with line := String.ofList (indent ++ "true".toList) } := by
  refine ⟨?_, fun column => rfl, fun probe hprobe => ?_⟩
  · rw [at?, Option.isSome_map, Text.isSome_rawLine?_iff]
  · obtain ⟨raw, hraw, -⟩ := Option.map_eq_some_iff.mp hprobe
    have hreplaces := replaces_at? hraw hprobe
    refine ⟨raw, _, hraw, Text.isIndentation_indentation raw, hreplaces,
      hreplaces.byteOffset?_position, ?_⟩
    have hreplaced := hreplaces.replaced
    rw [← placeholder, ← standIn_eq] at hreplaced
    rw [at?_of_line hreplaced, indentation_standIn, dropReturn_standIn, standIn_standIn]
    rw [at?_of_line hraw, Option.some.injEq] at hprobe
    rw [← hprobe, String.toList_ofList, split_standIn, List.set_set]
    rfl

/-- A half-typed line behind a tab and blanks, ended by a carriage return. -/
theorem probe_of_line_tabbed :
    let text := "f = ->\r\n\t  é = g.\r\n".toList
    let probe : Probe := ⟨"f = ->\r\n\t  true\r\n", ⟨1, 3⟩, "\t  é = g."⟩
    at? text ⟨1, 9⟩ = some probe ∧
      Replaces text 1 "\t  é = g.\r".toList "\t  ".toList probe ∧
      Text.byteOffset? probe.text.toList ⟨1, 3⟩ = some 11 ∧
      at? probe.text.toList ⟨1, 9⟩ = some { probe with line := "\t  true" } := by
  intro text probe
  have hprobe : at? text ⟨1, 9⟩ = some probe := by decide
  obtain ⟨-, -, hlaw⟩ := probe_of_line text ⟨1, 9⟩
  obtain ⟨raw, indent, hraw, -, hreplaces, hoffset, hagain⟩ := hlaw probe hprobe
  obtain rfl : "\t  é = g.\r".toList = raw := Option.some.inj (hraw ▸ by decide)
  obtain rfl : "\t  ".toList = indent := by
    have hline : Text.rawLine? probe.text.toList 1 =
        some ("\t  ".toList ++ "true".toList ++ ['\r']) := by decide
    exact List.append_cancel_right
      (List.append_cancel_right (Option.some.inj (hline.symm.trans hreplaces.replaced)))
  exact ⟨hprobe, hreplaces, hoffset (by decide), hagain⟩

/-- Blanks, as many as asked for. -/
def blanks (n : Nat) : List Char :=
  List.replicate n ' '

theorem blanks_eq_spell (n : Nat) : blanks n = Text.Run.spell [⟨' ', n⟩] :=
  (Text.Run.spell_singleton _ _).symm

theorem indentation_blanks (n : Nat) : Text.indentation (blanks n) = blanks n := by
  rw [blanks_eq_spell, Text.Run.indentation_spell]
  simp [Text.Run.indentation]

theorem rawLine?_blanks (n : Nat) : Text.rawLine? (blanks n) 0 = some (blanks n) := by
  have hplain : '\n' ∉ blanks n := fun hmem => by cases List.eq_of_mem_replicate hmem
  rw [Text.rawLine?, Text.split_of_not_mem hplain]
  rfl

theorem length_blanks (n : Nat) :
    Text.utf16Length (blanks n) = n ∧ Text.utf8Length (blanks n) = n := by
  rw [blanks_eq_spell, Text.Run.utf16Length_spell, Text.Run.utf8Length_spell]
  exact ⟨Nat.mul_one n, Nat.mul_one n⟩

theorem exists_probe_blanks {n : Nat} (hn : UInt32.ofNat n = 0) :
    ∃ probe after, at? (blanks n) ⟨0, 0⟩ = some probe ∧
      probe.text.toList = blanks n ++ "true".toList ++ after ∧
      Text.byteOffset? probe.text.toList probe.position = some 0 := by
  have hraw : Text.rawLine? (blanks n) (⟨0, 0⟩ : Position).line.toNat = some (blanks n) :=
    rawLine?_blanks n
  have hprobe := at?_of_line hraw
  rw [indentation_blanks] at hprobe
  have hreplaces := replaces_at? hraw hprobe
  rw [indentation_blanks] at hreplaces
  obtain ⟨after, htext⟩ := hreplaces.expression
  have hoffset := hreplaces.byteOffset?_of_multiple (by rw [(length_blanks n).1, hn])
  have hahead : Text.ahead (blanks n) (⟨0, 0⟩ : Position).line.toNat = [] := Text.ahead_zero _
  rw [hahead] at htext hoffset
  exact ⟨_, after, hprobe, htext, hoffset⟩

/-- Behind 2^32 blanks the expression starts at byte 2^32, and its position leads to byte 0. -/
theorem probe_of_line_tooWide :
    ∃ probe after, at? (blanks UInt32.size) ⟨0, 0⟩ = some probe ∧
      probe.text.toList = blanks UInt32.size ++ "true".toList ++ after ∧
      Text.byteOffset? probe.text.toList probe.position = some 0 ∧
      Text.utf8Length (blanks UInt32.size) ≠ 0 := by
  obtain ⟨probe, after, hprobe, htext, hoffset⟩ :=
    exists_probe_blanks (by decide : UInt32.ofNat UInt32.size = 0)
  refine ⟨probe, after, hprobe, htext, hoffset, ?_⟩
  rw [(length_blanks UInt32.size).2]
  decide

end Probe

end DialectBridge
