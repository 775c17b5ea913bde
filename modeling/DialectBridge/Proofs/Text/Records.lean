import DialectBridge.Proofs.Text.Offset

/-!
# The lines a program writes

Programs end a line with a line feed, or with a carriage return and a line feed, and may leave the
last one open.  The records of what they wrote are the lines again, but for a carriage return that
belongs to a line and is taken for a part of its end.

* `Writes` — a text has the given lines, whichever way they are ended;
* `Padded` — a line with blanks around it, `trim_of_padded`, `padded_trim`;
* `terminatedLines_append` — the first record of a text;
* `infix_of_mem_terminatedLines` — every record stands in its text;
* `Writes.map_records` — a reader who does not mind such a carriage return reads the lines.
-/

namespace DialectBridge.Text

/-- How a line is ended. -/
inductive IsEnding : List Char → Prop where
  | feed : IsEnding ['\n']
  | returnFeed : IsEnding ['\r', '\n']

/-- The text has the given lines, each of them ended; only the last may be left open. -/
inductive Writes : List (List Char) → List Char → Prop where
  | nil : Writes [] []
  | ended {line ending text : List Char} {lines : List (List Char)} (hline : '\n' ∉ line)
      (hending : IsEnding ending) (rest : Writes lines text) :
      Writes (line :: lines) (line ++ (ending ++ text))
  | last {line : List Char} (hline : '\n' ∉ line) (hne : line ≠ []) : Writes [line] line

/-- The line is `core` with blanks around it. -/
def Padded (core line : List Char) : Prop :=
  ∃ before after, line = before ++ (core ++ after) ∧ (∀ c ∈ before, isBlank c = true) ∧
    ∀ c ∈ after, isBlank c = true

variable {core line text : List Char} {lines : List (List Char)}

/-! ## Blanks -/

theorem trim_of_padded (h : Padded core line) : trim line = trim core := by
  obtain ⟨before, after, rfl, hbefore, hafter⟩ := h
  have hstart : trim (before ++ (core ++ after)) = trim (core ++ after) := by
    rw [trim, trimStart, List.dropWhile_append_of_pos hbefore]
    rfl
  rw [hstart, trim_eq_of_trimEnd_eq (trimEnd_append_blank hafter core)]

theorem padded_trim (line : List Char) : Padded (trim line) line := by
  obtain ⟨after, hafter, hblank⟩ := exists_trimEnd_append (trimStart line)
  refine ⟨line.takeWhile isBlank, after, ?_, fun c hc => List.mem_takeWhile_imp hc, hblank⟩
  rw [trim, ← hafter, trimStart, List.takeWhile_append_dropWhile]

/-- Nothing is cut from a text that has other characters at both ends. -/
theorem trim_of_not_blank {c : Char} {rest : List Char} (hc : isBlank c = false)
    (hend : trimEnd (c :: rest) = c :: rest) : trim (c :: rest) = c :: rest := by
  rw [trim, trimStart, List.dropWhile_cons_of_neg (by simp [hc]), hend]

/-! ## Carriage returns -/

theorem trimEnd_dropReturn (line : List Char) : trimEnd (dropReturn line) = trimEnd line := by
  unfold dropReturn
  split
  · rename_i hreturn
    obtain ⟨init, rfl⟩ := List.getLast?_eq_some_iff.mp hreturn
    rw [List.dropLast_concat, trimEnd_append_blank (List.forall_mem_singleton.mpr rfl)]
  · rfl

theorem dropReturn_eq_self_iff : dropReturn line = line ↔ line.getLast? ≠ some '\r' := by
  unfold dropReturn
  split
  · rename_i hreturn
    obtain ⟨init, rfl⟩ := List.getLast?_eq_some_iff.mp hreturn
    simp
  · rename_i hreturn
    simpa using hreturn

theorem dropReturn_concat (line : List Char) : dropReturn (line ++ ['\r']) = line := by
  rw [dropReturn, if_pos List.getLast?_concat, List.dropLast_concat]

/-! ## Records -/

/-- The first record ends at the first line feed. -/
theorem terminatedLines_append (hline : '\n' ∉ line) (text : List Char) :
    terminatedLines (line ++ '\n' :: text) = dropReturn line :: terminatedLines text := by
  obtain ⟨piece, pieces, hsplit⟩ := exists_split_eq_cons '\n' text
  rw [terminatedLines, terminatedLines, split_append_sep hline, hsplit, List.dropLast_cons_cons,
    List.map_cons, List.cons_append, List.getLast?_cons_cons]

theorem terminatedLines_of_not_mem (hline : '\n' ∉ line) (hne : line ≠ []) :
    terminatedLines line = [line] := by
  have hsplit : split '\n' line = [] ++ [line] := split_of_not_mem hline
  exact terminatedLines_of_split hsplit hne

/-- A record stands in its text. -/
theorem infix_of_mem_terminatedLines {cs line : List Char} (h : line ∈ terminatedLines cs) :
    line <:+: cs := by
  have hpieces : ∀ piece ∈ split '\n' cs, piece <:+: cs := by
    intro piece hpiece
    obtain ⟨n, hn⟩ := List.mem_iff_getElem?.mp hpiece
    obtain ⟨after, hcs, -⟩ := ahead_append_line hn
    exact ⟨_, after, hcs.symm⟩
  unfold terminatedLines at h
  rcases List.mem_append.mp h with h | h
  · obtain ⟨raw, hraw, rfl⟩ := List.mem_map.mp h
    obtain ⟨tail, htail⟩ := exists_dropReturn_append raw
    have hstart : dropReturn raw <+: raw := ⟨tail, htail.symm⟩
    exact hstart.isInfix.trans (hpieces raw (List.dropLast_subset _ hraw))
  · cases hlast : (split '\n' cs).getLast? with
    | none => simp [hlast] at h
    | some last =>
      simp only [hlast] at h
      split at h
      · cases h
      · rw [List.mem_singleton.mp h]
        exact hpieces last (List.mem_of_getLast? hlast)

/-- **The records of a text are its lines**, in order, for a reader who does not mind a carriage
return at the end of one. -/
theorem Writes.map_records {α : Type} {f : List Char → α} (h : Writes lines text)
    (hf : ∀ line ∈ lines, f (dropReturn line) = f line) :
    (terminatedLines text).map f = lines.map f := by
  induction h with
  | nil => rfl
  | @ended line ending text lines hline hending rest ih =>
    rw [List.forall_mem_cons] at hf
    rw [List.map_cons, ← ih hf.2]
    cases hending with
    | feed => rw [List.singleton_append, terminatedLines_append hline, List.map_cons, hf.1]
    | returnFeed =>
      have hreturn : '\n' ∉ line ++ ['\r'] := by simpa using hline
      have hcut : line ++ (['\r', '\n'] ++ text) = (line ++ ['\r']) ++ '\n' :: text := by simp
      rw [hcut, terminatedLines_append hreturn, dropReturn_concat, List.map_cons]
  | last hline hne => rw [terminatedLines_of_not_mem hline hne]

end DialectBridge.Text
