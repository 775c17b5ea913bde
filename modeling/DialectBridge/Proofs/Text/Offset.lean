import DialectBridge.Proofs.Text.Ascii
import DialectBridge.Proofs.Text.Lines
import DialectBridge.Text.Position

/-!
# Where a position stands in the bytes of a text

A position is found by walking over the characters of the text.  What the walk comes to can be said
without it: the line feeds and lines ahead of the line of the position, and of that line as many
characters as have the units of the column, or all of them.  The walk counts in 32 bits.  It never
comes to the end of its lines, which would be past every line that a position can name; and it comes
to the end of its columns only where the last one that a position can name lies inside a surrogate
pair.

* `ahead_append_line` — a text is what stands ahead of a line, the line, and what follows it;
* `offsetFrom_here`, `offsetFrom_ahead` — the walk on the line of the position, and ahead of it;
* `byteOffset?_eq` — the offset of any position;
* `byteOffset?_of_line` — the offset of a position between two characters of a line;
* `byteSpan_wholeLine`, `select_encode` — the span of the beginning of a line, and the bytes in it.
-/

namespace DialectBridge.Text

/-- The text ahead of line `n`: the lines before it, each with its line feed. -/
def ahead (cs : List Char) (n : Nat) : List Char :=
  ((split '\n' cs).take n).flatMap (· ++ ['\n'])

/-- The first characters of a line that together have `count` units, or all of them. -/
def takeUnits : Nat → List Char → List Char
  | _, [] => []
  | count, c :: line => if count = 0 then [] else c :: takeUnits (count - units c) line

/-- The bytes of a span. -/
def select (bytes : List UInt8) (span : Nat × Nat) : List UInt8 :=
  (bytes.drop span.1).take (span.2 - span.1)

variable {cs head tail line : List Char} {n : Nat}

/-! ## Lengths -/

@[simp] theorem utf8Length_cons (c : Char) (cs : List Char) :
    utf8Length (c :: cs) = c.utf8Size + utf8Length cs := rfl

@[simp] theorem utf16Length_cons (c : Char) (cs : List Char) :
    utf16Length (c :: cs) = units c + utf16Length cs := rfl

theorem utf8Length_append (cs ds : List Char) :
    utf8Length (cs ++ ds) = utf8Length cs + utf8Length ds := by
  induction cs with
  | nil => simp [utf8Length]
  | cons c cs ih => rw [List.cons_append, utf8Length_cons, utf8Length_cons, ih, Nat.add_assoc]

theorem utf16Length_append (cs ds : List Char) :
    utf16Length (cs ++ ds) = utf16Length cs + utf16Length ds := by
  induction cs with
  | nil => exact (Nat.zero_add _).symm
  | cons c cs ih => rw [List.cons_append, utf16Length_cons, utf16Length_cons, ih, Nat.add_assoc]

/-- A text has as many bytes as that. -/
theorem length_encode (cs : List Char) : (Utf8.encode cs).length = utf8Length cs := by
  induction cs with
  | nil => rfl
  | cons c cs ih =>
    have hcons : Utf8.encode (c :: cs) = String.utf8EncodeChar c ++ Utf8.encode cs :=
      List.flatMap_cons
    rw [hcons, List.length_append, String.length_utf8EncodeChar, ih, utf8Length_cons]

theorem units_pos (c : Char) : 0 < units c := by
  unfold units
  split <;> decide

/-! ## Columns -/

@[simp] theorem takeUnits_zero (line : List Char) : takeUnits 0 line = [] := by
  cases line <;> rfl

theorem takeUnits_cons_of_pos {count : Nat} (h : 0 < count) (c : Char) (line : List Char) :
    takeUnits count (c :: line) = c :: takeUnits (count - units c) line :=
  if_neg (Nat.ne_of_gt h)

/-- A column between two characters. -/
theorem takeUnits_append (head tail : List Char) :
    takeUnits (utf16Length head) (head ++ tail) = head := by
  induction head with
  | nil => exact takeUnits_zero tail
  | cons c head ih =>
    have hpos := units_pos c
    rw [List.cons_append, utf16Length_cons, takeUnits_cons_of_pos (by omega),
      Nat.add_sub_cancel_left, ih]

/-! ## Lines -/

@[simp] theorem ahead_zero (cs : List Char) : ahead cs 0 = [] := by
  rw [ahead, List.take_zero, List.flatMap_nil]

theorem ahead_newline (cs : List Char) (n : Nat) :
    ahead ('\n' :: cs) (n + 1) = '\n' :: ahead cs n := by
  rw [ahead, split_cons_sep, List.take_succ_cons, List.flatMap_cons]
  rfl

theorem ahead_cons_of_ne {c : Char} (hc : c ≠ '\n') (cs : List Char) (n : Nat) :
    ahead (c :: cs) (n + 1) = c :: ahead cs (n + 1) := by
  obtain ⟨first, rest, hcs⟩ := exists_split_eq_cons '\n' cs
  rw [ahead, split_cons_of_ne hc hcs, ahead, hcs]
  simp

theorem rawLine?_newline (cs : List Char) (n : Nat) :
    rawLine? ('\n' :: cs) (n + 1) = rawLine? cs n := by
  rw [rawLine?, split_cons_sep, List.getElem?_cons_succ, rawLine?]

theorem rawLine?_cons_zero {c : Char} (hc : c ≠ '\n') (cs : List Char) :
    rawLine? (c :: cs) 0 = (rawLine? cs 0).map (c :: ·) := by
  obtain ⟨first, rest, hcs⟩ := exists_split_eq_cons '\n' cs
  rw [rawLine?, split_cons_of_ne hc hcs, rawLine?, hcs]
  rfl

theorem rawLine?_cons_succ {c : Char} (hc : c ≠ '\n') (cs : List Char) (n : Nat) :
    rawLine? (c :: cs) (n + 1) = rawLine? cs (n + 1) := by
  obtain ⟨first, rest, hcs⟩ := exists_split_eq_cons '\n' cs
  rw [rawLine?, split_cons_of_ne hc hcs, rawLine?, hcs]
  rfl

theorem rawLine?_eq_none_iff : rawLine? cs n = none ↔ lineCount cs ≤ n := by
  rw [rawLine?, List.getElem?_eq_none_iff, length_split_newline]

theorem exists_rawLine (h : n < lineCount cs) : ∃ line, rawLine? cs n = some line := by
  rw [← Option.isSome_iff_exists, ← Option.ne_none_iff_isSome, Ne, rawLine?_eq_none_iff]
  omega

/-- **A text is what stands ahead of a line, the line and what follows it**: a line feed, or
nothing if the line is the last one. -/
theorem ahead_append_line (h : rawLine? cs n = some line) :
    ∃ after, cs = ahead cs n ++ line ++ after ∧
      (after = [] ∧ n + 1 = lineCount cs ∨
        ∃ rest, after = '\n' :: rest ∧ n + 1 < lineCount cs) := by
  induction cs generalizing n line with
  | nil =>
    cases n with
    | zero =>
      cases h
      exact ⟨[], rfl, .inl ⟨rfl, rfl⟩⟩
    | succ n => cases h
  | cons c cs ih =>
    by_cases hc : c = '\n'
    · subst hc
      have hcount : lineCount ('\n' :: cs) = lineCount cs + 1 := by
        rw [lineCount, List.count_cons_self, lineCount]
      cases n with
      | zero =>
        rw [rawLine?, split_cons_sep] at h
        cases h
        refine ⟨'\n' :: cs, by simp, .inr ⟨cs, rfl, ?_⟩⟩
        rw [hcount, lineCount]
        omega
      | succ n =>
        rw [rawLine?_newline] at h
        obtain ⟨after, hcs, hafter⟩ := ih h
        refine ⟨after, ?_, ?_⟩
        · rw [ahead_newline, List.cons_append, List.cons_append, ← hcs]
        · rw [hcount]
          rcases hafter with ⟨hnil, hlast⟩ | ⟨rest, hrest, hmore⟩
          · exact .inl ⟨hnil, by omega⟩
          · exact .inr ⟨rest, hrest, by omega⟩
    · have hcount : lineCount (c :: cs) = lineCount cs := by
        rw [lineCount, List.count_cons_of_ne hc, lineCount]
      rw [hcount]
      cases n with
      | zero =>
        rw [rawLine?_cons_zero hc] at h
        obtain ⟨rest, hrest, rfl⟩ := Option.map_eq_some_iff.mp h
        obtain ⟨after, hcs, hafter⟩ := ih hrest
        refine ⟨after, ?_, hafter⟩
        rw [ahead_zero, List.nil_append] at hcs ⊢
        rw [List.cons_append, ← hcs]
      | succ n =>
        rw [rawLine?_cons_succ hc] at h
        obtain ⟨after, hcs, hafter⟩ := ih h
        refine ⟨after, ?_, hafter⟩
        rw [ahead_cons_of_ne hc, List.cons_append, List.cons_append, ← hcs]

/-- A line is written as its text, and a carriage return if it has one at its end. -/
theorem exists_dropReturn_append (raw : List Char) : ∃ tail, raw = dropReturn raw ++ tail := by
  unfold dropReturn
  split
  · rename_i hlast
    exact ⟨['\r'], (List.dropLast_append_getLast? '\r' hlast).symm⟩
  · exact ⟨[], (List.append_nil raw).symm⟩

/-! ## Offsets -/

/-- The next column, if there is room for it. -/
theorem toNat_add_units {column : UInt32} {c : Char}
    (hroom : column.toNat + units c < UInt32.size) :
    (column + UInt32.ofNat (units c)).toNat = column.toNat + units c := by
  have hunits : (UInt32.ofNat (units c)).toNat = units c := UInt32.toNat_ofNat_of_lt' (by omega)
  rw [UInt32.toNat_add, hunits]
  exact Nat.mod_eq_of_lt hroom

/-- The walk on the line of the position: it takes as many characters as the column still needs, if
these can be counted. -/
theorem offsetFrom_here {pos : Position} {column : UInt32} {byte : Nat}
    (hroom : ∀ line, rawLine? cs 0 = some line →
      column.toNat + utf16Length (takeUnits (pos.character.toNat - column.toNat) line) <
        UInt32.size) :
    offsetFrom pos cs pos.line column byte =
      (rawLine? cs 0).map fun line =>
        byte + utf8Length (takeUnits (pos.character.toNat - column.toNat) line) := by
  induction cs generalizing column byte with
  | nil =>
    rw [offsetFrom, if_pos rfl]
    rfl
  | cons c cs ih =>
    rw [offsetFrom]
    by_cases hreached : pos.character ≤ column
    · obtain ⟨line, hline⟩ := exists_rawLine (Nat.succ_pos _ : 0 < lineCount (c :: cs))
      rw [if_pos ⟨rfl, hreached⟩, hline, Option.map_some,
        Nat.sub_eq_zero_of_le (UInt32.le_iff_toNat_le.mp hreached), takeUnits_zero]
      rfl
    rw [if_neg fun h => hreached h.2]
    by_cases hc : c = '\n'
    · -- the line ends before the column
      subst hc
      rw [if_pos rfl, if_pos rfl, rawLine?, split_cons_sep]
      rfl
    rw [if_neg hc]
    have hcolumn : 0 < pos.character.toNat - column.toNat := by
      rw [UInt32.le_iff_toNat_le] at hreached
      omega
    rw [rawLine?_cons_zero hc] at hroom ⊢
    -- what is taken of the line has room for its first character
    have hrest : ∀ line, rawLine? cs 0 = some line →
        column.toNat + units c +
            utf16Length (takeUnits (pos.character.toNat - (column.toNat + units c)) line) <
          UInt32.size := by
      intro line hline
      have hwhole := hroom (c :: line) (by rw [hline]; rfl)
      rw [takeUnits_cons_of_pos hcolumn, utf16Length_cons, ← Nat.sub_add_eq] at hwhole
      omega
    have hnext : (column + UInt32.ofNat (units c)).toNat = column.toNat + units c := by
      obtain ⟨line, hline⟩ := exists_rawLine (Nat.succ_pos _ : 0 < lineCount cs)
      exact toNat_add_units (Nat.lt_of_le_of_lt (Nat.le_add_right _ _) (hrest line hline))
    rw [ih (by rwa [hnext]), hnext, Option.map_map]
    congr 1
    funext line
    simp only [Function.comp_apply, takeUnits_cons_of_pos hcolumn, utf8Length_cons, Nat.sub_add_eq,
      Nat.add_assoc]

theorem offsetFrom_start {pos : Position} {row : UInt32} {byte : Nat} (hrow : row = pos.line)
    (hroom : ∀ line, rawLine? cs 0 = some line →
      utf16Length (takeUnits pos.character.toNat line) < UInt32.size) :
    offsetFrom pos cs row 0 byte =
      (rawLine? cs 0).map fun line => byte + utf8Length (takeUnits pos.character.toNat line) := by
  rw [hrow, offsetFrom_here (by simpa using hroom)]
  rfl

/-- The walk, lines ahead of that of the position: it takes what stands ahead of that line. -/
theorem offsetFrom_ahead {pos : Position} {row column : UInt32} {byte : Nat}
    (hrow : row.toNat + (n + 1) = pos.line.toNat)
    (hroom : ∀ line, rawLine? cs (n + 1) = some line →
      utf16Length (takeUnits pos.character.toNat line) < UInt32.size) :
    offsetFrom pos cs row column byte =
      (rawLine? cs (n + 1)).map fun line =>
        byte + utf8Length (ahead cs (n + 1)) +
          utf8Length (takeUnits pos.character.toNat line) := by
  have hne : row ≠ pos.line := by
    rintro rfl
    omega
  induction cs generalizing n row column byte with
  | nil =>
    rw [offsetFrom, if_neg hne]
    rfl
  | cons c cs ih =>
    rw [offsetFrom, if_neg fun h => hne h.1]
    by_cases hc : c = '\n'
    · subst hc
      have hnext : (row + 1).toNat = row.toNat + 1 := by
        have := pos.line.toNat_lt
        rw [UInt32.toNat_add, UInt32.toNat_one, Nat.mod_eq_of_lt (by omega)]
      rw [rawLine?_newline] at hroom ⊢
      rw [if_pos rfl, if_neg hne, ahead_newline, utf8Length_cons]
      cases n with
      | zero =>
        rw [offsetFrom_start (UInt32.toNat_inj.mp (hnext.trans hrow)) hroom, ahead_zero]
        rfl
      | succ n =>
        have hrow' : (row + 1).toNat + (n + 1) = pos.line.toNat := by omega
        rw [ih hrow' hroom (by rintro heq; rw [heq] at hrow'; omega)]
        simp only [Nat.add_assoc]
    · rw [rawLine?_cons_succ hc] at hroom ⊢
      rw [if_neg hc, ih hrow hroom hne, ahead_cons_of_ne hc, utf8Length_cons]
      simp only [Nat.add_assoc]

/-- **The offset of a position**, without the walk. -/
theorem byteOffset?_eq {pos : Position}
    (hroom : ∀ line, rawLine? cs pos.line.toNat = some line →
      utf16Length (takeUnits pos.character.toNat line) < UInt32.size) :
    byteOffset? cs pos =
      (rawLine? cs pos.line.toNat).map fun line =>
        utf8Length (ahead cs pos.line.toNat) +
          utf8Length (takeUnits pos.character.toNat line) := by
  rw [byteOffset?]
  cases hline : pos.line.toNat with
  | zero =>
    rw [hline] at hroom
    have hfirst : 0 = pos.line := UInt32.toNat_inj.mp hline.symm
    rw [offsetFrom_start hfirst hroom, ahead_zero]
    rfl
  | succ n =>
    rw [hline] at hroom
    rw [offsetFrom_ahead (by rw [hline]; exact Nat.zero_add _) hroom]
    simp only [Nat.zero_add]

/-- The offset of a position between two characters of a line. -/
theorem byteOffset?_of_line {pos : Position}
    (hline : rawLine? cs pos.line.toNat = some (head ++ tail))
    (hcolumn : pos.character.toNat = utf16Length head) :
    byteOffset? cs pos = some (utf8Length (ahead cs pos.line.toNat ++ head)) := by
  have htaken : takeUnits pos.character.toNat (head ++ tail) = head := by
    rw [hcolumn, takeUnits_append]
  have hroom : ∀ line, rawLine? cs pos.line.toNat = some line →
      utf16Length (takeUnits pos.character.toNat line) < UInt32.size := by
    intro line hother
    obtain rfl : head ++ tail = line := Option.some.inj (hline.symm.trans hother)
    rw [htaken, ← hcolumn]
    exact pos.character.toNat_lt
  rw [byteOffset?_eq hroom, hline, Option.map_some, htaken, utf8Length_append]

/-- The span of the beginning of a line. -/
theorem byteSpan_wholeLine {row length : UInt32}
    (hline : rawLine? cs row.toNat = some (head ++ tail)) (hlength : length.toNat = utf16Length head) :
    byteSpan cs (Range.wholeLine row length) =
      (utf8Length (ahead cs row.toNat), utf8Length (ahead cs row.toNat ++ head)) := by
  have hstart : byteOffset? cs ⟨row, 0⟩ = some (utf8Length (ahead cs row.toNat ++ [])) :=
    byteOffset?_of_line hline rfl
  have hstop : byteOffset? cs ⟨row, length⟩ = some (utf8Length (ahead cs row.toNat ++ head)) :=
    byteOffset?_of_line hline hlength
  have hle : utf8Length (ahead cs row.toNat) ≤ utf8Length (ahead cs row.toNat ++ head) := by
    rw [utf8Length_append]
    omega
  rw [List.append_nil] at hstart
  simp only [byteSpan, Range.wholeLine, clampedOffset, hstart, hstop, Option.getD_some]
  rw [Nat.max_eq_left hle]

/-- The bytes between two places of a text are those of the text between them. -/
theorem select_encode (before middle after : List Char) :
    select (Utf8.encode (before ++ middle ++ after))
      (utf8Length before, utf8Length (before ++ middle)) = Utf8.encode middle := by
  have hlength : utf8Length (before ++ middle) - utf8Length before = (Utf8.encode middle).length := by
    rw [utf8Length_append, Nat.add_sub_cancel_left, length_encode]
  rw [select, hlength, Utf8.encode_append, Utf8.encode_append, List.append_assoc, ← length_encode,
    List.drop_left, List.take_left]

end DialectBridge.Text
