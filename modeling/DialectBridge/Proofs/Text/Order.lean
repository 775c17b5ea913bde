import DialectBridge.Proofs.Text.Offset

/-!
# Offsets in the order of positions

A position has an offset if its line exists.  The offset is that of the line, and as much more as
the shortest beginning of the line takes that has the units of the column; so it stands between two
characters also for a column inside a surrogate pair or past the end of the line.  Positions that
come later have offsets that are not smaller, if a missing line counts as the end of the text.

* `Reaches`, `reaches_takeUnits` — the beginning of a line ahead of a column;
* `byteOffset?_of_reaches` — the offset of a position, by that beginning;
* `clampedOffset_mono` — offsets follow the order of positions;
* `offset_by_lines` — all of this together, and what follows for spans.
-/

namespace DialectBridge

/-- Positions are ordered by line, and by column within a line. -/
instance : LE Position where
  le p q := p.line < q.line ∨ p.line = q.line ∧ p.character ≤ q.character

theorem Position.le_iff {p q : Position} :
    p ≤ q ↔ p.line < q.line ∨ p.line = q.line ∧ p.character ≤ q.character :=
  Iff.rfl

namespace Text

/-- The beginning of a line ahead of a column: the shortest one with as many units, and all of the
line if there are not so many in it. -/
structure Reaches (line : List Char) (column : Nat) (head : List Char) : Prop where
  start : head <+: line
  enough : column ≤ utf16Length head ∨ utf16Length line < column ∧ head = line
  shortest : ∀ other, other <+: line → column ≤ utf16Length other → head <+: other

variable {cs line head : List Char} {n : Nat}

/-! ## Beginnings of lines -/

theorem reaches_takeUnits (column : Nat) (line : List Char) :
    Reaches line column (takeUnits column line) := by
  induction line generalizing column with
  | nil =>
    refine ⟨List.prefix_rfl, ?_, fun other _ _ => List.nil_prefix⟩
    rcases Nat.eq_zero_or_pos column with rfl | hpos
    · exact .inl (Nat.zero_le _)
    · exact .inr ⟨hpos, rfl⟩
  | cons c line ih =>
    rcases Nat.eq_zero_or_pos column with rfl | hpos
    · rw [takeUnits_zero]
      exact ⟨List.nil_prefix, .inl (Nat.zero_le _), fun other _ _ => List.nil_prefix⟩
    · obtain ⟨hstart, henough, hshortest⟩ := ih (column - units c)
      rw [takeUnits_cons_of_pos hpos]
      refine ⟨List.cons_prefix_cons.mpr ⟨rfl, hstart⟩, ?_, ?_⟩
      · rw [utf16Length_cons, utf16Length_cons]
        rcases henough with henough | ⟨hshort, hall⟩
        · exact .inl (by omega)
        · exact .inr ⟨by omega, by rw [hall]⟩
      · intro other hother hunits
        cases other with
        | nil => exact absurd hunits (Nat.not_le.mpr hpos)
        | cons d other =>
          obtain ⟨rfl, hrest⟩ := List.cons_prefix_cons.mp hother
          rw [utf16Length_cons] at hunits
          exact List.cons_prefix_cons.mpr ⟨rfl, hshortest other hrest (by omega)⟩

theorem utf16Length_mono {head line : List Char} (h : head <+: line) :
    utf16Length head ≤ utf16Length line := by
  obtain ⟨rest, rfl⟩ := h
  rw [utf16Length_append]
  exact Nat.le_add_right _ _

theorem utf8Length_mono {head line : List Char} (h : head <+: line) :
    utf8Length head ≤ utf8Length line := by
  obtain ⟨rest, rfl⟩ := h
  rw [utf8Length_append]
  exact Nat.le_add_right _ _

/-- There is one such beginning. -/
theorem Reaches.unique {column : Nat} {other : List Char} (h : Reaches line column head)
    (hother : Reaches line column other) : head = other := by
  rcases h.enough with henough | ⟨hshort, rfl⟩
  · have hback := hother.shortest head h.start henough
    have hunits := Nat.le_trans henough (utf16Length_mono h.start)
    rcases hother.enough with hreached | ⟨hless, -⟩
    · have hforth := h.shortest other hother.start hreached
      exact hforth.eq_of_length (Nat.le_antisymm hforth.length_le hback.length_le)
    · omega
  · rcases hother.enough with hreached | ⟨-, rfl⟩
    · have := utf16Length_mono hother.start
      omega
    · rfl

/-- A later column is reached by no shorter beginning. -/
theorem Reaches.mono {first second : Nat} {other : List Char} (hle : first ≤ second)
    (h : Reaches line first head) (hother : Reaches line second other) : head <+: other := by
  rcases hother.enough with hreached | ⟨-, rfl⟩
  · exact h.shortest other hother.start (Nat.le_trans hle hreached)
  · exact h.start

/-! ## Offsets -/

theorem isSome_rawLine?_iff : (rawLine? cs n).isSome ↔ n < lineCount cs := by
  rw [← Option.ne_none_iff_isSome, Ne, rawLine?_eq_none_iff, Nat.not_le]

theorem units_le_utf8Size (c : Char) : units c ≤ c.utf8Size := by
  unfold units
  split
  · exact c.utf8Size_pos
  · rename_i hlarge
    rcases Char.utf8Size_eq c with h | h | h | h
    · have := Char.utf8Size_eq_one_iff.mp h
      rw [UInt32.le_iff_toNat_le] at this
      exact absurd this (by change ¬ c.toNat ≤ 127; omega)
    · omega
    · omega
    · omega

theorem utf16Length_le_utf8Length (cs : List Char) : utf16Length cs ≤ utf8Length cs := by
  induction cs with
  | nil => exact Nat.le_refl _
  | cons c cs ih =>
    rw [utf16Length_cons, utf8Length_cons]
    exact Nat.add_le_add (units_le_utf8Size c) ih

/-- In a text shorter than 2^32 bytes every column can be counted. -/
theorem takeUnits_lt_of_short (hshort : utf8Length cs < UInt32.size) {column : Nat} :
    ∀ line, rawLine? cs n = some line → utf16Length (takeUnits column line) < UInt32.size := by
  intro line hline
  obtain ⟨after, hcs, -⟩ := ahead_append_line hline
  have htaken := utf16Length_mono (reaches_takeUnits column line).start
  have hbytes := utf16Length_le_utf8Length line
  have htext : utf8Length line ≤ utf8Length cs := by
    rw [hcs, utf8Length_append, utf8Length_append]
    omega
  omega

theorem byteOffset?_of_reaches (hshort : utf8Length cs < UInt32.size) {pos : Position}
    (hline : rawLine? cs pos.line.toNat = some line)
    (hhead : Reaches line pos.character.toNat head) :
    byteOffset? cs pos = some (utf8Length (ahead cs pos.line.toNat) + utf8Length head) := by
  rw [byteOffset?_eq (takeUnits_lt_of_short hshort), hline, Option.map_some,
    (reaches_takeUnits _ line).unique hhead]

/-- A line and its line feed stand between what is ahead of it and what is ahead of the next. -/
theorem ahead_succ (hline : rawLine? cs n = some line) :
    ahead cs (n + 1) = ahead cs n ++ (line ++ ['\n']) := by
  rw [rawLine?] at hline
  rw [ahead, List.take_add_one, hline, List.flatMap_append, ahead]
  simp

theorem ahead_mono (cs : List Char) {m n : Nat} (hle : m ≤ n) : ahead cs m <+: ahead cs n := by
  obtain ⟨rest, hrest⟩ := List.take_prefix_take_left (l := split '\n' cs) hle
  rw [ahead, ahead, ← hrest, List.flatMap_append]
  exact List.prefix_append _ _

/-- An offset is that of a place between two characters. -/
theorem exists_before_of_byteOffset? (hshort : utf8Length cs < UInt32.size) {pos : Position}
    {offset : Nat} (h : byteOffset? cs pos = some offset) :
    ∃ before rest, cs = before ++ rest ∧ offset = utf8Length before := by
  rw [byteOffset?_eq (takeUnits_lt_of_short hshort)] at h
  obtain ⟨line, hline, rfl⟩ := Option.map_eq_some_iff.mp h
  obtain ⟨tail, htail⟩ := (reaches_takeUnits pos.character.toNat line).start
  obtain ⟨after, hcs, -⟩ := ahead_append_line hline
  refine ⟨ahead cs pos.line.toNat ++ takeUnits pos.character.toNat line, tail ++ after, ?_, ?_⟩
  · rw [List.append_assoc, ← List.append_assoc (takeUnits _ line), htail, ← List.append_assoc]
    exact hcs
  · rw [utf8Length_append]

theorem clampedOffset_le (hshort : utf8Length cs < UInt32.size) (pos : Position) :
    clampedOffset cs pos ≤ utf8Length cs := by
  unfold clampedOffset
  cases h : byteOffset? cs pos with
  | none => exact Nat.le_refl _
  | some offset =>
    obtain ⟨before, rest, rfl, rfl⟩ := exists_before_of_byteOffset? hshort h
    exact utf8Length_mono (List.prefix_append before rest)

theorem clampedOffset_of_line (hshort : utf8Length cs < UInt32.size) {pos : Position}
    (hline : rawLine? cs pos.line.toNat = some line) :
    clampedOffset cs pos =
      utf8Length (ahead cs pos.line.toNat) + utf8Length (takeUnits pos.character.toNat line) := by
  rw [clampedOffset, byteOffset?_of_reaches hshort hline (reaches_takeUnits _ line),
    Option.getD_some]

theorem clampedOffset_of_no_line (hshort : utf8Length cs < UInt32.size) {pos : Position}
    (hline : rawLine? cs pos.line.toNat = none) : clampedOffset cs pos = utf8Length cs := by
  rw [clampedOffset, byteOffset?_eq (takeUnits_lt_of_short hshort), hline, Option.map_none,
    Option.getD_none]

/-- **Offsets follow the order of positions.** -/
theorem clampedOffset_mono (hshort : utf8Length cs < UInt32.size) {p q : Position} (h : p ≤ q) :
    clampedOffset cs p ≤ clampedOffset cs q := by
  cases hq : rawLine? cs q.line.toNat with
  | none =>
    rw [clampedOffset_of_no_line hshort hq]
    exact clampedOffset_le hshort p
  | some line =>
    rw [clampedOffset_of_line hshort hq]
    rcases Position.le_iff.mp h with hless | ⟨hsame, hcolumn⟩
    · -- the line of `p` is over, with its line feed, when that of `q` begins
      have hless : p.line.toNat < q.line.toNat := UInt32.lt_iff_toNat_lt.mp hless
      have hexists : q.line.toNat < lineCount cs := isSome_rawLine?_iff.mp (by rw [hq]; rfl)
      obtain ⟨earlier, hp⟩ := exists_rawLine (Nat.lt_trans hless hexists)
      have hahead := utf8Length_mono (ahead_mono cs (Nat.succ_le_of_lt hless))
      rw [ahead_succ hp, utf8Length_append, utf8Length_append] at hahead
      have htaken := utf8Length_mono (reaches_takeUnits p.character.toNat earlier).start
      rw [clampedOffset_of_line hshort hp]
      omega
    · have htaken := utf8Length_mono <|
        (reaches_takeUnits _ line).mono (UInt32.le_iff_toNat_le.mp hcolumn)
          (reaches_takeUnits _ line)
      rw [clampedOffset_of_line hshort (hsame ▸ hq), hsame]
      omega

/-- An ordered range is spanned by the offsets of its ends. -/
theorem byteSpan_of_le (hshort : utf8Length cs < UInt32.size) {r : Range} (h : r.start ≤ r.stop) :
    byteSpan cs r = (clampedOffset cs r.start, clampedOffset cs r.stop) := by
  rw [byteSpan, Nat.max_eq_left (clampedOffset_mono hshort h)]

/-- **Positions as offsets**, in a text shorter than 2^32 bytes.  A position has an offset if and only
if its line exists.  The offset is that of the line and the bytes of its shortest beginning with the
units of the column, or of the whole line if there is none; the rest of the text follows there.
Offsets follow the order of positions, where a missing line stands for the end of the text; so an
ordered range is spanned by the offsets of its ends, which lie in the text. -/
theorem offset_by_lines (cs : List Char) (hshort : (Utf8.encode cs).length < UInt32.size) :
    (∀ pos : Position,
      ((byteOffset? cs pos).isSome ↔ pos.line.toNat < lineCount cs) ∧
      (pos.line.toNat < lineCount cs ↔ (lineAt? cs pos.line.toNat).isSome) ∧
      (∀ line, rawLine? cs pos.line.toNat = some line →
        ∃ head tail after,
          line = head ++ tail ∧ Reaches line pos.character.toNat head ∧
          cs = ahead cs pos.line.toNat ++ head ++ (tail ++ after) ∧
          byteOffset? cs pos =
            some (utf8Length (ahead cs pos.line.toNat) + utf8Length head))) ∧
    (∀ p q : Position, p ≤ q → clampedOffset cs p ≤ clampedOffset cs q) ∧
    (∀ r : Range, r.start ≤ r.stop →
      byteSpan cs r = (clampedOffset cs r.start, clampedOffset cs r.stop)) ∧
    (∀ r : Range, (byteSpan cs r).1 ≤ (byteSpan cs r).2 ∧
      (byteSpan cs r).2 ≤ (Utf8.encode cs).length) := by
  rw [length_encode] at hshort
  refine ⟨fun pos => ⟨?_, ?_, ?_⟩, fun p q => clampedOffset_mono hshort,
    fun r => byteSpan_of_le hshort, fun r => ?_⟩
  · rw [byteOffset?_eq (takeUnits_lt_of_short hshort), Option.isSome_map, isSome_rawLine?_iff]
  · rw [lineAt?, Option.isSome_map, isSome_rawLine?_iff]
  · intro line hline
    obtain ⟨after, hcs, -⟩ := ahead_append_line hline
    have hhead := reaches_takeUnits pos.character.toNat line
    obtain ⟨tail, htail⟩ := hhead.start
    refine ⟨_, tail, after, htail.symm, hhead, ?_, byteOffset?_of_reaches hshort hline hhead⟩
    rw [List.append_assoc, ← List.append_assoc (takeUnits _ line), htail, ← List.append_assoc]
    exact hcs
  · rw [length_encode]
    exact ⟨Nat.le_max_right _ _,
      Nat.max_le.mpr ⟨clampedOffset_le hshort r.stop, clampedOffset_le hshort r.start⟩⟩

/-- A column inside a surrogate pair leads behind it, ahead of the carriage return; a line past the
end leads to the end of the text. -/
theorem offset_by_lines_insidePair :
    let cs := "a😀\r\nb\n".toList
    let r : Range := ⟨⟨0, 2⟩, ⟨7, 0⟩⟩
    (Utf8.encode cs).length < UInt32.size ∧ rawLine? cs 0 = some "a😀\r".toList ∧ r.start ≤ r.stop ∧
      (∃ head, Reaches "a😀\r".toList 2 head ∧ byteOffset? cs r.start = some (0 + utf8Length head)) ∧
      clampedOffset cs r.start ≤ clampedOffset cs r.stop ∧ byteSpan cs r = (5, 9) := by
  intro cs r
  have hline : rawLine? cs r.start.line.toNat = some "a😀\r".toList := by decide
  have hle : r.start ≤ r.stop := .inl (by decide)
  have hshort : (Utf8.encode cs).length < UInt32.size := by decide
  obtain ⟨hposition, hmono, hspan, -⟩ := offset_by_lines cs hshort
  obtain ⟨head, -, -, -, hhead, -, hoffset⟩ := (hposition r.start).2.2 _ hline
  refine ⟨hshort, hline, hle, ⟨head, hhead, hoffset⟩, hmono _ _ hle, ?_⟩
  rw [hspan r hle]
  decide

end Text

end DialectBridge
